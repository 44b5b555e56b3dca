import Contracts.Proofs.Typing.Through

/-! Checkers that cannot be told apart. A check asks the table of classes which names are known and
what fields and methods go by a name; it reads the frames of the stack and not its counts, and it
puts what it finds behind what is not delivered yet. So checkers that agree in these
(`Checker.Alike`) give the same and go on to agree. -/

namespace Contracts

/-- The rules answer everything alike that a check asks. -/
structure Rules.Same (r r' : Rules) : Prop where
  registry : r.registry = r'.registry
  booleanClauses : r.booleanClauses = r'.booleanClauses
  contains : ∀ word, r.classes.contains word = r'.classes.contains word
  fields : ∀ owner field, r.classes.field? owner field = r'.classes.field? owner field
  methods : ∀ owner method, r.classes.method? owner method = r'.classes.method? owner method

namespace Rules.Same

variable {r r' : Rules}

theorem refl (r : Rules) : r.Same r := ⟨rfl, rfl, fun _ => rfl, fun _ _ => rfl, fun _ _ => rfl⟩

theorem agrees (h : r.Same r') : r.Agrees r' where
  registry := h.registry
  booleanClauses := h.booleanClauses
  types word := by rw [ClassTable.type?, ClassTable.type?, h.contains]
  fields := h.fields
  methods := h.methods

/-- The same entries in front of both tables. -/
theorem append (h : r.Same r') (entries : List (String × ClassInfo)) :
    { r with classes.entries := entries ++ r.classes.entries }.Same
      { r' with classes.entries := entries ++ r'.classes.entries } := by
  have find (t : ClassTable) (word : String) : ClassTable.find? ⟨entries ++ t.entries⟩ word =
      (entries.lookup word).or (t.find? word) := List.lookup_append
  refine ⟨h.registry, h.booleanClauses, fun word => ?_, fun owner field => ?_,
    fun owner method => ?_⟩
  · have known := h.contains word
    rw [ClassTable.contains, ClassTable.contains] at known
    rw [ClassTable.contains, ClassTable.contains, find, find]
    simp only [Option.isSome_or, known]
  · have known := h.fields owner field
    rw [ClassTable.field?, ClassTable.field?] at known
    rw [ClassTable.field?, ClassTable.field?, find, find]
    cases entries.lookup owner with
    | some info => rfl
    | none => exact known
  · have known := h.methods owner method
    rw [ClassTable.method?, ClassTable.method?] at known
    rw [ClassTable.method?, ClassTable.method?, find, find]
    cases entries.lookup owner with
    | some info => rfl
    | none => exact known

theorem declaredRules (h : r.Same r') (u : CompilationUnit) :
    (Check.declaredRules r u).Same (Check.declaredRules r' u) := by
  have known : r.classes.contains = r'.classes.contains := funext h.contains
  rw [Check.declaredRules, Check.declaredRules, known]
  exact h.append _

theorem checkedRules (h : r.Same r') (u : CompilationUnit) :
    (Check.checkedRules r u).Same (Check.checkedRules r' u) := by
  have declared := h.declaredRules u
  have infos : Check.declaredInfo (Check.declaredRules r u) =
      Check.declaredInfo (Check.declaredRules r' u) :=
    funext (Check.declaredInfo_congr declared.agrees.types)
  have own (rules : Rules) : Check.checkedRules rules u =
      { Check.declaredRules rules u with
        classes.entries :=
          Check.entriesOf Class.name (Check.declaredInfo (Check.declaredRules rules u))
            (Class.firsts (fun _ => false) u.classes) ++
          (Check.declaredRules rules u).classes.entries } := rfl
  rw [own, own, infos]
  exact declared.append _

end Rules.Same

theorem Check.sweep_congr {r r' : Rules} (h : r.Agrees r') (c : Context) (depth : Nat)
    (cs : List Class) : sweep r c depth cs = sweep r' c depth cs := by
  induction cs with
  | nil => rfl
  | cons d ds ih => simp only [sweep, checkClass_congr h, ih]

/-- The stacks hold the same frames, whatever they count. -/
structure ContextStack.Alike (s t : ContextStack) : Prop where
  base : s.base = t.base
  frames : s.frames = t.frames

namespace ContextStack.Alike

variable {s t : ContextStack}

theorem current (h : s.Alike t) : s.current = t.current := by
  rw [ContextStack.current, ContextStack.current, h.base, h.frames]

theorem depth (h : s.Alike t) : s.depth = t.depth := congrArg List.length h.frames

theorem push (h : s.Alike t) : s.push.Alike t.push :=
  ⟨h.base, congrArg₂ List.cons h.current h.frames⟩

theorem modifyTop (h : s.Alike t) (f : Context → Context) :
    (s.modifyTop f).Alike (t.modifyTop f) := by
  obtain ⟨base, frames⟩ := h
  rw [ContextStack.modifyTop, ContextStack.modifyTop, frames, base]
  split <;> exact ⟨rfl, rfl⟩

theorem enter (h : s.Alike t) (clause : Option Descriptor) :
    (s.enter clause).Alike (t.enter clause) := by
  cases clause with
  | none => exact h.push
  | some d => exact h.push.modifyTop fun c => { c with clause := some d }

theorem pop (h : s.Alike t) : s.pop.Alike t.pop := by
  have frames := h.frames
  rw [ContextStack.pop, ContextStack.pop, frames]
  split
  · exact h
  · exact ⟨h.base, rfl⟩

end ContextStack.Alike

namespace Checker

/-- The checkers agree in all but the counts of their stacks and the form of their tables. -/
structure Alike (k k' : Checker) : Prop where
  rules : k.rules.Same k'.rules
  contexts : k.contexts.Alike k'.contexts
  pending : k.pending = k'.pending

variable {k k' : Checker} (u : CompilationUnit)

theorem Alike.declarationErrors (h : k.Alike k') :
    k.declarationErrors u = k'.declarationErrors u := by
  have known : k.rules.classes.contains = k'.rules.classes.contains := funext h.rules.contains
  rw [Checker.declarationErrors, Checker.declarationErrors, Check.memberErrors, Check.memberErrors,
    known, funext (Check.declarationErrors_congr (h.rules.declaredRules u).agrees.types)]

/-- Checkers that are alike give the same, and are alike behind it. -/
theorem Alike.check (h : k.Alike k') :
    (k.check u).result = (k'.check u).result ∧ (k.check u).unit = (k'.check u).unit ∧
      (k.check u).checker.Alike (k'.check u).checker := by
  have rules := h.rules.checkedRules u
  rw [check_told, check_told, Check.sweep_congr rules.agrees, h.contexts.current, h.contexts.depth,
    h.declarationErrors, h.pending]
  dsimp only
  split
  · exact ⟨rfl, rfl, rules, ⟨h.contexts.base, h.contexts.frames⟩, rfl⟩
  · exact ⟨rfl, rfl, rules, ⟨h.contexts.base, h.contexts.frames⟩, rfl⟩

/-- What is not delivered yet makes no other difference than that it comes first: in what a check
gives, or in what stays behind if the check is given up. -/
theorem check_pending (k : Checker) :
    let alone := { k with pending := [] }.check u
    (∃ errors, alone.result = .ok errors ∧ alone.checker.pending = [] ∧
        (k.check u).result = .ok (k.pending ++ errors) ∧ (k.check u).checker.pending = []) ∨
      ∃ e, alone.result = .error e ∧ (k.check u).result = .error e ∧
        (k.check u).checker.pending = k.pending ++ alone.checker.pending := by
  dsimp only
  rw [check_told, check_told]
  dsimp only
  cases (Check.sweep (Check.checkedRules k.rules u) k.contexts.current k.contexts.depth
    u.classes).value.1 with
  | some e => exact .inr ⟨e, rfl, rfl, rfl⟩
  | none => exact .inl ⟨_, rfl, rfl, rfl, rfl⟩

end Checker

end Contracts
