import Contracts.Proofs.Typing.Faultless
import Contracts.Proofs.Typing.Stable
import Contracts.Proofs.Typing.Through

/-! Checking a unit again. Declarations are read without a look at recorded types, so a unit with
some of the types recorded that a check finds gives, on the same checker, what the check gave
(`Checker.check_of_fills`). On the checker that comes out of the check all classes are known, and
known with the same members, so only the names of classes are found wrong in another way
(`recheck`). -/

namespace Contracts

/-! ### Declarations with types recorded -/

/-- What is not about recorded types is the same in all items. -/
theorem map_of_fills {α β : Type} {R : α → α → Prop} {f : α → β}
    (same : ∀ a a', R a a' → f a' = f a) {as as' : List α} (h : List.Forall₂ R as as') :
    as'.map f = as.map f := by
  induction h with
  | nil => rfl
  | cons first _ ih => rw [List.map_cons, List.map_cons, same _ _ first, ih]

namespace Class.Fills

variable {c c' : Class}

theorem members (h : c.Fills c') : List.Forall₂ Member.Fills c.members c'.members := by
  cases h
  assumption

theorem fields (h : c.Fills c') : List.Forall₂ Field.Fills c.fields c'.fields := by
  refine List.rel_filterMap (fun m m' hm => ?_) h.members
  cases hm with
  | field h => exact .some h
  | clause _ => exact .none
  | method _ => exact .none

theorem methods (h : c.Fills c') : List.Forall₂ Method.Fills c.methods c'.methods := by
  refine List.rel_filterMap (fun m m' hm => ?_) h.members
  cases hm with
  | field _ => exact .none
  | clause _ => exact .none
  | method h => exact .some h

/-- Types are not recorded in what is read of a class when it is collected. -/
theorem declared (h : c.Fills c') : c'.declared = c.declared := by
  have name : c'.name = c.name := by
    cases h
    rfl
  have fields := map_of_fills (f := fun f => (f.type, f.name))
    (fun _ _ hf => by cases hf; rfl) h.fields
  have methods := map_of_fills (f := fun m => (m.returnType, m.name, m.params))
    (fun _ _ hm => by cases hm; rfl) h.methods
  rw [Class.declared, Class.declared, name, fields, methods]

end Class.Fills

/-- A unit with some of the types recorded that a check finds in it is checked with the same
outcome: the types that are not recorded are found as if none were. -/
theorem Checker.check_of_fills (k : Checker) {u w : CompilationUnit} (h : u.Fills w)
    (found : w.Fills (k.check u).unit) : k.check w = k.check u := by
  have declared : w.classes.map Class.declared = u.classes.map Class.declared :=
    map_of_fills (fun _ _ hc => hc.declared) h
  have collected : k.collected w = k.collected u := by
    rw [Checker.collected, Checker.collected, Check.collect_congr declared]
  have rules : k.rulesFor w = k.rulesFor u := by rw [rulesFor, rulesFor, collected]
  have classes : (k.check u).unit.classes = (k.checked u).1.2 := by
    rw [check_eq]
    split <;> rfl
  have checked : k.checked w = k.checked u := by
    rw [CompilationUnit.Fills, classes] at found
    rw [Checker.checked, Checker.checked, collected, rules]
    exact Check.settles_checkClasses u.classes _ w.classes h found
  rw [check_eq, check_eq, checked, rules]

namespace Check

variable (rules : Rules) (u : CompilationUnit)

/-! ### The classes of a unit that was checked before -/

theorem contains_checkedRules {c : Class} (hc : c ∈ u.classes) :
    (checkedRules rules u).classes.contains c.name.text = true := by
  rw [checkedRules, contains_collectedTable, contains_declaredRules]
  exact .inl (List.mem_map_of_mem hc)

/-- The same words name types when the unit is read again. -/
theorem type?_declaredRules_again (word : String) :
    (declaredRules (checkedRules rules u) u).classes.type? word =
      (declaredRules rules u).classes.type? word := by
  have contains : (declaredRules (checkedRules rules u) u).classes.contains word =
      (declaredRules rules u).classes.contains word := by
    rw [Bool.eq_iff_iff, contains_declaredRules, contains_declaredRules, checkedRules,
      contains_collectedTable, contains_declaredRules]
    tauto
  rw [ClassTable.type?, ClassTable.type?, contains]

theorem memberErrors_again : memberErrors (checkedRules rules u) u = memberErrors rules u := by
  rw [memberErrors, memberErrors,
    funext (declarationErrors_congr (type?_declaredRules_again rules u))]

/-- Entering the members of the classes again changes no entry. -/
theorem find?_checkedRules_again (word : String) :
    (checkedRules (checkedRules rules u) u).classes.find? word =
      (checkedRules rules u).classes.find? word := by
  have known := (Class.repeats_of_known fun _ => contains_checkedRules rules u).1
  have infos := funext (declaredInfo_congr (type?_declaredRules_again rules u))
  have entries : (checkedRules (checkedRules rules u) u).classes.entries =
      entriesOf Class.name (declaredInfo (declaredRules rules u))
        (Class.firsts (fun _ => false) u.classes) ++ (checkedRules rules u).classes.entries := by
    rw [← infos]
    change _ ++ (_ ++ _) = _
    rw [known]
    rfl
  have own : (checkedRules rules u).classes.entries =
      entriesOf Class.name (declaredInfo (declaredRules rules u))
        (Class.firsts (fun _ => false) u.classes) ++ (declaredRules rules u).classes.entries := rfl
  rw [ClassTable.find?, ClassTable.find?, entries, own, List.lookup_append, List.lookup_append]
  cases (entriesOf Class.name (declaredInfo (declaredRules rules u))
    (Class.firsts (fun _ => false) u.classes)).lookup word <;> rfl

theorem agrees_again : (checkedRules (checkedRules rules u) u).Agrees (checkedRules rules u) where
  registry := rfl
  booleanClauses := rfl
  types word := by
    rw [ClassTable.type?, ClassTable.type?, ClassTable.contains, find?_checkedRules_again]
    rfl
  fields owner field := by rw [ClassTable.field?, find?_checkedRules_again]; rfl
  methods owner method := by rw [ClassTable.method?, find?_checkedRules_again]; rfl

end Check

/-- Checking again what was read from a source, also after errors, with types of the first check
recorded. A new checker gives the same outcome as at first, and if some of the types are not
recorded they are found again as they were. The checker of the first check also finds the same
and leaves the same types, but that every class is now a duplicate: at first only those are whose
names are those of earlier classes. -/
theorem recheck (registry : Registry) (booleanClauses : Bool) (source : String) :
    let u := (parseUnit registry source).unit
    let k := Checker.new registry booleanClauses
    let first := k.check u
    u.Fills first.unit ∧
      ∃ rest : List TypeError,
        first.result =
          .ok ((Class.repeats (fun _ => false) u.classes).map Class.duplicate ++ rest) ∧
        ∀ w : CompilationUnit, u.Fills w → w.Fills first.unit →
          k.check w = first ∧
            (first.checker.check w).result = .ok (u.classes.map Class.duplicate ++ rest) ∧
            (first.checker.check w).unit = first.unit := by
  intro u k first
  have own : u.Own registry := (registered_parseUnit registry source).own
  obtain ⟨n, once⟩ := k.check_own u rfl own
  let next : Checker := ⟨Check.checkedRules k.rules u, k.contexts.cycled n, []⟩
  obtain ⟨m, again⟩ := next.check_own u rfl own
  have agrees : (Check.checkedRules next.rules u).Agrees next.rules := Check.agrees_again k.rules u
  have declared : next.declarationErrors u =
      u.classes.map Class.duplicate ++ Check.memberErrors k.rules u := by
    have known : Class.repeats next.rules.classes.contains u.classes = u.classes :=
      (Class.repeats_of_known fun _ => Check.contains_checkedRules k.rules u).2
    have members : Check.memberErrors next.rules u = Check.memberErrors k.rules u :=
      Check.memberErrors_again k.rules u
    rw [Checker.declarationErrors, known, members]
  rw [declared, Check.foundIn_congr agrees, Check.checkedMember_congr agrees] at again
  have unit : (next.check u).unit = first.unit := by
    rw [again, show first = _ from once]
    rfl
  refine ⟨k.fills_check u,
    Check.memberErrors k.rules u ++ u.gather (Check.foundIn (Check.checkedRules k.rules u) {}),
    ?_, fun w h found => ⟨k.check_of_fills h found, ?_⟩⟩
  · rw [show first = _ from once]
    change Except.ok ([] ++ (_ ++ Check.memberErrors k.rules u) ++ _) = _
    rw [List.nil_append, List.append_assoc]
    rfl
  · have same : first.checker.check w = next.check u := by
      rw [show first.checker = next from congrArg Checker.Outcome.checker once]
      exact next.check_of_fills h (unit ▸ found)
    rw [same]
    refine ⟨?_, unit⟩
    rw [again]
    change Except.ok ([] ++ _ ++ _) = _
    rw [List.nil_append, List.append_assoc]
    rfl

/-- Two classes of one name, read with a syntax error, and a reference to a label that does not
exist. -/
theorem recheck_recovered :
    let source := "class A \x7b int x; void m() \x7b L: x = 1; " ++
      "assert \\old(x, L) == \\old(x, M); \x7d \x7d class A \x7b int \x7d"
    let parsed := parseUnit .standard source
    let k := Checker.new .standard true
    let first := k.check parsed.unit
    parsed.errors ≠ [] ∧ first.unit.stateTypes = [some .int, some .error] ∧
      k.check first.unit = first ∧ (first.checker.check first.unit).unit = first.unit ∧
      ∃ rest names names', first.result = .ok (names ++ rest) ∧
        (first.checker.check first.unit).result = .ok (names' ++ rest) ∧
        names.map (·.message) = ["`A` is already defined in this scope"] ∧
        names'.map (·.message) =
          ["`A` is already defined in this scope", "`A` is already defined in this scope"] := by
  intro source
  dsimp only
  obtain ⟨filled, rest, result, again⟩ := recheck .standard true source
  obtain ⟨same, result', unit⟩ := again _ filled (.refl _)
  have evaluated : (parseUnit .standard source).errors ≠ [] ∧
      ((Checker.new .standard true).check (parseUnit .standard source).unit).unit.stateTypes =
        [some .int, some .error] ∧
      ((Class.repeats (fun _ => false) (parseUnit .standard source).unit.classes).map
        Class.duplicate).map (·.message) = ["`A` is already defined in this scope"] ∧
      ((parseUnit .standard source).unit.classes.map Class.duplicate).map (·.message) =
        ["`A` is already defined in this scope", "`A` is already defined in this scope"] := by
    decide +kernel
  obtain ⟨errors, types, names, names'⟩ := evaluated
  exact ⟨errors, types, same, unit, rest, _, _, result, result', names, names'⟩

end Contracts
