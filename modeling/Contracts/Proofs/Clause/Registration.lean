import Contracts.Clause.KeywordTable
import Mathlib.Data.List.Nodup

/-! Calls that register descriptors. A call finds the map and the list of a builder in step and
leaves them so: together they stand for a registry, and a call does to them what it does to the
registry (`KeywordTable.Represents.call_cases`). So behind any calls the table has the descriptors
of those that succeeded, in their order and each under its own keyword
(`table_behind_registrations`). -/

namespace Contracts

/-! ### Tables and registries -/

namespace KeywordTable

/-- The list has the keywords of the registry, and the map finds its descriptors. -/
structure Represents (t : KeywordTable) (r : Registry) : Prop where
  order : t.order = r.entries.map (·.keyword)
  get? : ∀ word, t.get? word = r.get? word

namespace Represents

variable {t : KeywordTable} {r : Registry}

theorem nodup (h : t.Represents r) : t.order.Nodup := h.order ▸ r.nodup

/-- The keywords in the list are the keys of the map. -/
theorem mem_order (h : t.Represents r) (word : String) : word ∈ t.order ↔ word ∈ t.byKeyword := by
  rw [h.order, ← not_iff_not, ← Registry.get?_eq_none_iff, ← h.get?,
    Std.HashMap.mem_iff_isSome_getElem?, Option.not_isSome_iff_eq_none]
  rfl

theorem keyword (h : t.Represents r) {word : String} {d : Descriptor}
    (found : t.byKeyword[word]? = some d) : d.keyword = word :=
  Registry.keyword_of_get? ((h.get? word).symm.trans found)

theorem descriptors (h : t.Represents r) : t.descriptors = r.entries := by
  have found : ∀ d ∈ r.entries, (t.get? ∘ (·.keyword)) d = some d := fun d hd =>
    (h.get? d.keyword).trans (Registry.get?_keyword hd)
  rw [KeywordTable.descriptors, h.order, List.filterMap_map, List.filterMap_congr found,
    List.filterMap_some]

theorem length (h : t.Represents r) : t.length = r.entries.length := by
  rw [KeywordTable.length, h.order, List.length_map]

end Represents

end KeywordTable

/-- A new descriptor is found under its keyword, and the others as before. -/
theorem Registry.get?_of_register {r r' : Registry} {d : Descriptor} (h : r.register d = .ok r')
    (word : String) :
    r'.get? word = (r.get? word).or (if d.keyword == word then some d else none) := by
  rw [Registry.get?, Registry.get?, entries_of_register h, List.find?_append, List.find?_singleton]

/-- A descriptor whose keyword is taken is not found behind the others. -/
theorem Registry.get?_or_of_mem {r : Registry} {d : Descriptor}
    (known : d.keyword ∈ r.entries.map (·.keyword)) (word : String) :
    (r.get? word).or (if d.keyword == word then some d else none) = r.get? word := by
  cases found : r.get? word with
  | some e => rfl
  | none =>
    have other : d.keyword ≠ word := by
      rintro rfl
      exact get?_eq_none_iff.1 found known
    rw [if_neg (mt beq_iff_eq.1 other), Option.none_or]

/-! ### Calls -/

/-- A call for a descriptor on a builder. -/
structure Registration where
  builder : RegistryBuilder
  descriptor : Descriptor

namespace Registration

def answer (call : Registration) : Except RegistryError Unit :=
  ((RegistryBuilder.register call.descriptor).run call.builder).1

/-- The builder that the call leaves. -/
def behind (call : Registration) : RegistryBuilder :=
  ((RegistryBuilder.register call.descriptor).run call.builder).2

def succeeds (call : Registration) : Bool := call.answer.isOk

/-- The descriptors of the calls that succeed. -/
def accepted (calls : List Registration) : List Descriptor :=
  (calls.filter (·.succeeds)).map (·.descriptor)

end Registration

open Registration

/-- What a call on a builder that stands for a registry can do: it fails where the registry has the
keyword and leaves the builder alone, or it enters the descriptor. -/
theorem KeywordTable.Represents.call_cases {r : Registry} (call : Registration)
    (h : call.builder.build.Represents r) :
    (call.answer = .error (.duplicateKeyword call.descriptor.keyword) ∧
      call.behind = call.builder ∧ call.descriptor.keyword ∈ r.entries.map (·.keyword)) ∨
    (call.answer = .ok () ∧ call.descriptor.keyword ∉ r.entries.map (·.keyword) ∧
      ∃ r', r.register call.descriptor = .ok r' ∧ call.behind.build.Represents r') := by
  obtain ⟨b, d⟩ := call
  have run := RegistryBuilder.run_register d b
  have taken : b.byKeyword.contains d.keyword ↔ d.keyword ∈ r.entries.map (·.keyword) := by
    rw [← Std.HashMap.mem_iff_contains, ← h.order]
    exact (h.mem_order d.keyword).symm
  cases registered : r.register d with
  | error e =>
    have known := (Registry.register_eq_error_iff.1 registered).1
    rw [if_pos (taken.2 known)] at run
    exact .inl ⟨congrArg Prod.fst run, congrArg Prod.snd run, known⟩
  | ok r' =>
    have free : d.keyword ∉ r.entries.map (·.keyword) := fun known => by
      cases registered.symm.trans (Registry.register_eq_error_iff.2 ⟨known, rfl⟩)
    rw [if_neg (free ∘ taken.1)] at run
    refine .inr ⟨congrArg Prod.fst run, free, r', rfl, ?_⟩
    rw [show behind ⟨b, d⟩ = ⟨b.byKeyword.insert d.keyword d, b.order ++ [d.keyword]⟩ from
      congrArg Prod.snd run]
    constructor
    case order =>
      rw [Registry.entries_of_register registered, List.map_append, ← h.order]
      rfl
    case get? =>
      intro word
      rw [Registry.get?_of_register registered, ← h.get?]
      refine Std.HashMap.getElem?_insert.trans ?_
      split
      · next same =>
        -- A free keyword has no entry that would come first.
        have none : b.build.get? word = none := by
          rw [h.get?, ← beq_iff_eq.1 same, Registry.get?_eq_none_iff]
          exact free
        rw [none, Option.none_or]
      · exact Option.or_none.symm

/-- A call fails where the registry has the keyword, and then changes nothing. -/
theorem KeywordTable.Represents.failure {r : Registry} (call : Registration)
    (h : call.builder.build.Represents r) :
    (call.succeeds = false ↔ call.descriptor.keyword ∈ r.entries.map (·.keyword)) ∧
      (call.succeeds = false →
        call.answer = .error (.duplicateKeyword call.descriptor.keyword) ∧
          call.behind = call.builder) := by
  obtain ⟨failed, same, known⟩ | ⟨done, free, -⟩ := h.call_cases call
  case inl =>
    have fails : call.succeeds = false := congrArg Except.isOk failed
    exact ⟨iff_of_true fails known, fun _ => ⟨failed, same⟩⟩
  case inr =>
    have succeeds : call.succeeds = true := congrArg Except.isOk done
    exact ⟨iff_of_false (by simp [succeeds]) free, fun fails => by simp [succeeds] at fails⟩

namespace RegistryBuilder

/-- The calls for descriptors, each on the builder that those before it leave. -/
def registrations (b : RegistryBuilder) : List Descriptor → List Registration
  | [] => []
  | d :: ds => ⟨b, d⟩ :: registrations (behind ⟨b, d⟩) ds

theorem registerEach_cons (b : RegistryBuilder) (d : Descriptor) (ds : List Descriptor) :
    b.registerEach (d :: ds) = (behind ⟨b, d⟩).registerEach ds := rfl

/-- The calls before one of them are the calls for their descriptors, and it is on the builder that
these leave. -/
theorem registrations_split {b : RegistryBuilder} {ds : List Descriptor} {call : Registration}
    {earlier later : List Registration} (h : b.registrations ds = earlier ++ call :: later) :
    b.registrations (earlier.map (·.descriptor)) = earlier ∧
      b.registerEach (earlier.map (·.descriptor)) = call.builder := by
  induction earlier generalizing b ds with
  | nil =>
    cases ds with
    | nil => cases h
    | cons d ds => exact ⟨rfl, congrArg Registration.builder (List.cons.inj h).1⟩
  | cons first earlier ih =>
    cases ds with
    | nil => cases h
    | cons d ds =>
      obtain ⟨rfl, rest⟩ := List.cons.inj h
      exact ⟨congrArg (_ :: ·) (ih rest).1, (ih rest).2⟩

end RegistryBuilder

open RegistryBuilder

theorem Registration.mem_keywords_accepted {calls : List Registration} {word : String} :
    word ∈ (accepted calls).map (·.keyword) ↔
      ∃ c ∈ calls, c.succeeds ∧ c.descriptor.keyword = word := by
  simp [accepted, and_assoc]

theorem Registration.accepted_cons (call : Registration) (calls : List Registration) :
    accepted (call :: calls) =
      (if call.succeeds then [call.descriptor] else []) ++ accepted calls := by
  rw [accepted, List.filter_cons]
  split <;> rfl

/-- Calls on a builder that stands for a registry leave one that stands for a registry again. It has
the descriptors of those that succeed behind its own, and the first of a keyword is found. -/
theorem KeywordTable.Represents.registerEach {b : RegistryBuilder} {r : Registry}
    (h : b.build.Represents r) (ds : List Descriptor) :
    ∃ r', (b.registerEach ds).build.Represents r' ∧
      r'.entries = r.entries ++ accepted (b.registrations ds) ∧
      ∀ word, r'.get? word = (r.get? word).or (ds.find? (·.keyword == word)) := by
  induction ds generalizing b r with
  | nil => exact ⟨r, h, (List.append_nil _).symm, fun _ => Option.or_none.symm⟩
  | cons d ds ih =>
    rw [registerEach_cons, registrations, accepted_cons]
    have first (word : String) : (d :: ds).find? (·.keyword == word) =
        (if d.keyword == word then some d else none).or (ds.find? (·.keyword == word)) := by
      rw [← List.singleton_append, List.find?_append, List.find?_singleton]
    obtain ⟨failed, same, known⟩ | ⟨done, -, r₁, registered, h₁⟩ := h.call_cases ⟨b, d⟩
    case inl =>
      obtain ⟨r', hr', entries, get⟩ := ih h
      rw [same, show Registration.succeeds ⟨b, d⟩ = false from congrArg Except.isOk failed]
      refine ⟨r', hr', entries, fun word => ?_⟩
      rw [get, first, ← Option.or_assoc, Registry.get?_or_of_mem known]
    case inr =>
      obtain ⟨r', hr', entries, get⟩ := ih h₁
      rw [show Registration.succeeds ⟨b, d⟩ = true from congrArg Except.isOk done]
      refine ⟨r', hr', ?_, fun word => ?_⟩
      · rw [entries, Registry.entries_of_register registered, List.append_assoc]
        rfl
      · rw [get, first, Registry.get?_of_register registered, Option.or_assoc]

/-- Descriptors that a registry takes one behind the other fail in no call. -/
theorem KeywordTable.Represents.registerAll {b : RegistryBuilder} {r r' : Registry}
    {ds : List Descriptor} (h : b.build.Represents r) (taken : r.registerAll ds = .ok r') :
    (b.registerEach ds).build.Represents r' ∧ ∀ call ∈ b.registrations ds, call.succeeds := by
  induction ds generalizing b r with
  | nil =>
    cases taken
    exact ⟨h, fun _ hc => nomatch hc⟩
  | cons d ds ih =>
    obtain ⟨-, -, known⟩ | ⟨done, -, r₁, registered, h₁⟩ := h.call_cases ⟨b, d⟩
    case inl =>
      rw [Registry.registerAll, Registry.register_eq_error_iff.2 ⟨known, rfl⟩] at taken
      cases taken
    case inr =>
      rw [Registry.registerAll, registered] at taken
      obtain ⟨represents, all⟩ := ih h₁ taken
      exact ⟨represents, List.forall_mem_cons.2 ⟨congrArg Except.isOk done, all⟩⟩

theorem RegistryBuilder.empty_represents : (build {}).Represents .empty :=
  ⟨rfl, fun _ => Std.HashMap.getElem?_empty⟩

/-- The keywords of the kinds are distinct, so that no call for the standard table fails. -/
theorem KeywordTable.standard_represents :
    standard.Represents .standard ∧
      ∀ call ∈ registrations {} (ClauseKind.all.map .ofKind), call.succeeds :=
  empty_represents.registerAll rfl

/-- A call on a builder that was new fails exactly if one before it entered the keyword, and then
changes nothing. -/
theorem RegistryBuilder.failure_of_split {ds : List Descriptor} {call : Registration}
    {earlier later : List Registration} (split : registrations {} ds = earlier ++ call :: later) :
    (call.succeeds = false ↔
      ∃ c ∈ earlier, c.succeeds ∧ c.descriptor.keyword = call.descriptor.keyword) ∧
      (call.succeeds = false →
        call.answer = .error (.duplicateKeyword call.descriptor.keyword) ∧
          call.behind = call.builder) := by
  obtain ⟨before, builder⟩ := registrations_split split
  obtain ⟨r, represents, entries, -⟩ :=
    empty_represents.registerEach (earlier.map (·.descriptor))
  have known : r.entries = accepted earlier := entries.trans (congrArg accepted before)
  rw [builder] at represents
  rw [← mem_keywords_accepted, ← known]
  exact represents.failure call

/-- Whatever calls are made for `ds` on a new builder: one fails exactly if one before it entered
the keyword, and changes nothing. The table has each keyword in its list and its map, and finds the
descriptor that came first under it; its descriptors are those of the calls that succeeded. -/
theorem table_behind_registrations (ds : List Descriptor) :
    let calls := registrations {} ds
    let table := (RegistryBuilder.registerEach {} ds).build
    (∀ earlier call later, calls = earlier ++ call :: later →
      (call.succeeds = false ↔
        ∃ c ∈ earlier, c.succeeds ∧ c.descriptor.keyword = call.descriptor.keyword) ∧
      (call.succeeds = false →
        call.answer = .error (.duplicateKeyword call.descriptor.keyword) ∧
          call.behind = call.builder)) ∧
      table.order.Nodup ∧
      (∀ word, word ∈ table.order ↔ word ∈ table.byKeyword) ∧
      (∀ word, ∀ d : Descriptor, table.byKeyword[word]? = some d → d.keyword = word) ∧
      table.descriptors = accepted calls ∧
      (accepted calls).Nodup ∧
      table.length = (accepted calls).length ∧
      ∀ word, table.get? word = ds.find? (·.keyword == word) ∧
        table.lookup word =
          match ds.find? (·.keyword == word) with
          | some d => .ok d
          | none => .error (.notFound word) := by
  intro calls table
  obtain ⟨r, represents, entries, first⟩ := empty_represents.registerEach ds
  have registered : r.entries = accepted calls := entries
  have found (word : String) : table.get? word = ds.find? (·.keyword == word) :=
    (represents.get? word).trans (first word)
  refine ⟨fun _ _ _ => failure_of_split, represents.nodup, represents.mem_order,
    fun _ _ => represents.keyword, ?_, ?_, ?_, fun word => ⟨found word, ?_⟩⟩
  · rw [represents.descriptors, registered]
  · rw [← registered]
    exact r.nodup.of_map _
  · rw [represents.length, registered]
  · rw [← found word]
    rfl

/-- The second call for `\old` fails, although its descriptor is another one. -/
theorem table_behind_registrations_old_twice :
    let old := Descriptor.ofKind (.state .old)
    let invariant := Descriptor.ofKind (.typeClause .invariant)
    let ds := [old, invariant, { old with capabilities := .all }]
    let table := (RegistryBuilder.registerEach {} ds).build
    (registrations {} ds).map (·.succeeds) = [true, true, false] ∧
      table.descriptors = [old, invariant] ∧
      table.lookup "\\old" = .ok old ∧
      table.lookup "axiom" = .error (.notFound "axiom") := by
  intro old invariant ds table
  obtain ⟨calls, -, -, -, descriptors, -, -, found⟩ := table_behind_registrations ds
  let first : Registration := ⟨{}, old⟩
  let second : Registration := ⟨first.behind, invariant⟩
  let third : Registration := ⟨second.behind, { old with capabilities := .all }⟩
  have first_succeeds : first.succeeds = true := by
    simpa using (calls [] first [second, third] rfl).1
  have second_succeeds : second.succeeds = true := by
    have distinct : old.keyword ≠ invariant.keyword := by decide
    simpa [first, second, distinct] using (calls [first] second [third] rfl).1
  have third_fails : third.succeeds = false :=
    (calls [first, second] third [] rfl).1.2 ⟨first, by simp, first_succeeds, rfl⟩
  refine ⟨?_, descriptors.trans ?_, (found _).2.trans rfl, (found _).2.trans rfl⟩
  · show [first.succeeds, second.succeeds, third.succeeds] = _
    rw [first_succeeds, second_succeeds, third_fails]
  · show accepted [first, second, third] = _
    simp [accepted, first_succeeds, second_succeeds, third_fails, first, second]

end Contracts
