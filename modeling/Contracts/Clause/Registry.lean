import Contracts.Clause.Descriptor

/-! Registries of clause keywords. A registry lists descriptors in the order of
their registration and never holds two of one keyword, so a word has at most one
descriptor (`get?_eq_some_iff`) and a registration fails exactly when its keyword
is taken (`register_eq_error_iff`). -/

namespace Contracts

inductive RegistryError
  | duplicateKeyword (keyword : String)
  | notFound (word : String)
deriving DecidableEq

namespace RegistryError

def message : RegistryError → String
  | duplicateKeyword keyword => s!"keyword `{keyword}` is already registered"
  | notFound word => s!"no clause kind is registered for `{word}`"

end RegistryError

/-- Descriptors of distinct keywords, in the order of their registration. -/
structure Registry where
  entries : List Descriptor
  nodup : (entries.map (·.keyword)).Nodup

namespace Registry

def empty : Registry := ⟨[], by simp⟩

/-- The descriptor registered under a word. -/
def get? (r : Registry) (word : String) : Option Descriptor := r.entries.find? (·.keyword == word)

def lookup (r : Registry) (word : String) : Except RegistryError Descriptor :=
  match r.get? word with
  | some d => .ok d
  | none => .error (.notFound word)

theorem get?_eq_none_iff {r : Registry} {word : String} :
    r.get? word = none ↔ word ∉ r.entries.map (·.keyword) := by
  simp [get?]

/-- Adds a descriptor behind all others. -/
def register (r : Registry) (d : Descriptor) : Except RegistryError Registry :=
  match h : r.get? d.keyword with
  | some _ => .error (.duplicateKeyword d.keyword)
  | none => .ok ⟨r.entries ++ [d], by
      have fresh := get?_eq_none_iff.1 h
      simpa [List.nodup_append, r.nodup] using fun a ha => by
        rintro heq
        exact fresh (List.mem_map.2 ⟨a, ha, heq⟩)⟩

/-- Registers descriptors in order, up to the first that fails. -/
def registerAll (r : Registry) : List Descriptor → Except RegistryError Registry
  | [] => .ok r
  | d :: ds => do (← r.register d).registerAll ds

/-- Every kind under its own keyword. -/
def standard : Registry :=
  ⟨ClauseKind.all.map .ofKind, by
    rw [List.map_map]
    exact ClauseKind.nodup_keywords⟩

theorem keyword_of_get? {r : Registry} {word : String} {d : Descriptor}
    (h : r.get? word = some d) : d.keyword = word := by
  simpa using List.find?_some h

theorem mem_of_get? {r : Registry} {word : String} {d : Descriptor}
    (h : r.get? word = some d) : d ∈ r.entries :=
  List.mem_of_find?_eq_some h

theorem get?_keyword {r : Registry} {d : Descriptor} (h : d ∈ r.entries) :
    r.get? d.keyword = some d := by
  obtain ⟨entries, nodup⟩ := r
  simp only [get?] at h ⊢
  induction entries with
  | nil => simp at h
  | cons e es ih =>
    simp only [List.map_cons, List.nodup_cons] at nodup
    rcases List.mem_cons.1 h with rfl | hmem
    · simp
    · have hne : e.keyword ≠ d.keyword := fun heq =>
        nodup.1 (heq ▸ List.mem_map_of_mem hmem)
      simp [hne, ih nodup.2 hmem]

theorem get?_eq_some_iff {r : Registry} {word : String} {d : Descriptor} :
    r.get? word = some d ↔ d ∈ r.entries ∧ d.keyword = word :=
  ⟨fun h => ⟨mem_of_get? h, keyword_of_get? h⟩, fun ⟨h, hword⟩ => hword ▸ get?_keyword h⟩

theorem entries_of_register {r r' : Registry} {d : Descriptor} (h : r.register d = .ok r') :
    r'.entries = r.entries ++ [d] := by
  unfold register at h
  split at h
  · cases h
  · cases h
    rfl

theorem register_eq_error_iff {r : Registry} {d : Descriptor} {e : RegistryError} :
    r.register d = .error e ↔
      d.keyword ∈ r.entries.map (·.keyword) ∧ e = .duplicateKeyword d.keyword := by
  unfold register
  split
  · next found h =>
    have taken : d.keyword ∈ r.entries.map (·.keyword) :=
      keyword_of_get? h ▸ List.mem_map_of_mem (mem_of_get? h)
    simp only [taken, true_and, Except.error.injEq]
    exact eq_comm
  · next h =>
    have free := get?_eq_none_iff.1 h
    simp [free]

end Registry

end Contracts
