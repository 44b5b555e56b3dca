import Contracts.Proofs.Typing.Faultless
import Contracts.Proofs.Typing.Through
import Mathlib.Data.List.Perm.Basic

/-! The order of declarations. When the names of classes are distinct, and so are those of the
fields and of the methods of each class, it makes no difference in which order classes stand in
a unit and members in a class: collecting finds the same mistakes and gives tables that answer
alike (`Check.agrees_checkedRules`), and each member is checked as if it were alone. -/

namespace Contracts

/-! ### Rearrangements -/

/-- The second class has the members of the first in some order. -/
structure Class.Rearranges (c d : Class) : Prop where
  name : d.name = c.name
  members : c.members.Perm d.members

/-- The second unit has the classes of the first in some order, each with its members in some
order. -/
def CompilationUnit.Rearranges (u v : CompilationUnit) : Prop :=
  ∃ classes, u.classes.Perm classes ∧ List.Forall₂ Class.Rearranges classes v.classes

structure Class.Distinct (c : Class) : Prop where
  fields : (c.fields.map (·.name.text)).Nodup
  methods : (c.methods.map (·.name.text)).Nodup

structure CompilationUnit.Distinct (u : CompilationUnit) : Prop where
  classes : (u.classes.map (·.name.text)).Nodup
  members : ∀ c ∈ u.classes, c.Distinct

instance (c : Class) : Decidable c.Distinct :=
  decidable_of_iff
    ((c.fields.map (·.name.text)).Nodup ∧ (c.methods.map (·.name.text)).Nodup)
    ⟨fun h => ⟨h.1, h.2⟩, fun h => ⟨h.1, h.2⟩⟩

instance (u : CompilationUnit) : Decidable u.Distinct :=
  decidable_of_iff ((u.classes.map (·.name.text)).Nodup ∧ ∀ c ∈ u.classes, c.Distinct)
    ⟨fun h => ⟨h.1, h.2⟩, fun h => ⟨h.1, h.2⟩⟩

namespace Class.Rearranges

variable {c d : Class}

theorem fields (h : c.Rearranges d) : c.fields.Perm d.fields := h.members.filterMap _

theorem methods (h : c.Rearranges d) : c.methods.Perm d.methods := h.members.filterMap _

theorem distinct (h : c.Rearranges d) (hc : c.Distinct) : d.Distinct where
  fields := (h.fields.map _).nodup_iff.1 hc.fields
  methods := (h.methods.map _).nodup_iff.1 hc.methods

theorem gather {α : Type} (f : String → Member → List α) (h : c.Rearranges d) :
    (c.gather f).Perm (d.gather f) := by
  rw [Class.gather, Class.gather, h.name]
  exact h.members.flatMap_right _

end Class.Rearranges

namespace CompilationUnit.Rearranges

variable {u v : CompilationUnit}

/-- What holds of a class and of its rearrangement holds of some class in both units, or in
none. -/
theorem exists_iff (h : u.Rearranges v) {P Q : Class → Prop}
    (same : ∀ c d, c.Rearranges d → (P c ↔ Q d)) :
    (∃ c ∈ u.classes, P c) ↔ ∃ d ∈ v.classes, Q d := by
  obtain ⟨classes, perm, each⟩ := h
  simp only [perm.mem_iff]
  generalize v.classes = rearranged at each
  clear perm
  induction each with
  | nil => simp
  | cons first _ ih => rw [List.exists_mem_cons_iff, List.exists_mem_cons_iff, same _ _ first, ih]

theorem forall_classes (h : u.Rearranges v) {P Q : Class → Prop}
    (same : ∀ c d, c.Rearranges d → P c → Q d) (hu : ∀ c ∈ u.classes, P c) :
    ∀ d ∈ v.classes, Q d := by
  obtain ⟨classes, perm, each⟩ := h
  have hclasses : ∀ c ∈ classes, P c := fun c hc => hu c (perm.mem_iff.2 hc)
  generalize v.classes = rearranged at each
  clear hu perm
  induction each with
  | nil => simp
  | cons first _ ih =>
    rw [List.forall_mem_cons] at hclasses ⊢
    exact ⟨same _ _ first hclasses.1, ih hclasses.2⟩

/-- What is put together class by class is rearranged with the classes. -/
theorem flatMap {α : Type} (h : u.Rearranges v) {f g : Class → List α}
    (same : ∀ c ∈ u.classes, ∀ d, c.Rearranges d → (f c).Perm (g d)) :
    (u.classes.flatMap f).Perm (v.classes.flatMap g) := by
  obtain ⟨classes, perm, each⟩ := h
  have hclasses : ∀ c ∈ classes, ∀ d, c.Rearranges d → (f c).Perm (g d) :=
    fun c hc => same c (perm.mem_iff.2 hc)
  refine (perm.flatMap_right f).trans ?_
  generalize v.classes = rearranged at each
  clear same perm
  induction each with
  | nil => exact .refl _
  | cons first _ ih =>
    rw [List.forall_mem_cons] at hclasses
    exact (hclasses.1 _ first).append (ih hclasses.2)

theorem names (h : u.Rearranges v) :
    (u.classes.map (·.name.text)).Perm (v.classes.map (·.name.text)) := by
  rw [List.map_eq_flatMap, List.map_eq_flatMap]
  exact h.flatMap fun c _ d hd => by rw [hd.name]

theorem distinct (h : u.Rearranges v) (hu : u.Distinct) : v.Distinct where
  classes := h.names.nodup_iff.1 hu.classes
  members := h.forall_classes (fun _ _ => Class.Rearranges.distinct) hu.members

theorem own {registry : Registry} (h : u.Rearranges v) (hu : u.Own registry) : v.Own registry :=
  h.forall_classes (fun _ _ hd hc m hm => hc m (hd.members.mem_iff.2 hm)) hu

theorem gather {α : Type} (h : u.Rearranges v) (f : String → Member → List α) :
    (u.gather f).Perm (v.gather f) := h.flatMap fun _ _ _ hd => hd.gather f

end CompilationUnit.Rearranges

namespace Check

variable {r rules : Rules} {u v : CompilationUnit}

/-! ### What is found in declarations -/

theorem declarationErrors_of_distinct {c : Class} (h : c.Distinct) :
    declarationErrors r c = c.fields.flatMap (fun f => typeErrors r f.type) ++
      c.methods.flatMap (signatureErrors r) := by
  rw [declarationErrors, errorsOf_of_distinct h.fields fun _ _ => rfl,
    errorsOf_of_distinct h.methods fun _ _ => rfl]

theorem perm_declarationErrors {c d : Class} (h : c.Rearranges d) (distinct : c.Distinct) :
    (declarationErrors r c).Perm (declarationErrors r d) := by
  rw [declarationErrors_of_distinct distinct, declarationErrors_of_distinct (h.distinct distinct)]
  exact (h.fields.flatMap_right _).append (h.methods.flatMap_right _)

/-! ### What is looked up -/

/-- The same words are types in a rearranged unit. -/
theorem type?_declaredRules (h : u.Rearranges v) (word : String) :
    (declaredRules rules u).classes.type? word = (declaredRules rules v).classes.type? word := by
  have contains : (declaredRules rules u).classes.contains word =
      (declaredRules rules v).classes.contains word := by
    rw [Bool.eq_iff_iff, contains_declaredRules, contains_declaredRules, h.names.mem_iff]
  rw [ClassTable.type?, ClassTable.type?, contains]

section

variable (distinct : u.Distinct)

include distinct

/-- The same mistakes are found in the declarations of a rearranged unit. -/
theorem perm_memberErrors (h : u.Rearranges v) :
    (memberErrors rules u).Perm (memberErrors rules v) := by
  rw [memberErrors, memberErrors, Class.firsts_eq_self distinct.classes,
    Class.firsts_eq_self (h.distinct distinct).classes]
  refine h.flatMap fun c hc d hd => ?_
  rw [declarationErrors_congr (type?_declaredRules h) c]
  exact perm_declarationErrors hd (distinct.members c hc)

/-- Of a class that stands alone under its name the members are known. -/
theorem find?_checkedRules_of_mem {c : Class} (hc : c ∈ u.classes) :
    (checkedRules rules u).classes.find? c.name.text =
      some (declaredInfo (declaredRules rules u) c) := by
  have found : (entriesOf Class.name (declaredInfo (declaredRules rules u)) u.classes).lookup
      c.name.text = some (declaredInfo (declaredRules rules u) c) :=
    (lookup_entriesOf distinct.classes).2 ⟨c, hc, rfl, rfl⟩
  rw [ClassTable.find?, checkedRules, collectedTable, Class.firsts_eq_self distinct.classes,
    List.lookup_append, found, Option.some_or]

variable (unknown : rules.classes = {})

include unknown

omit distinct in
theorem find?_checkedRules_of_not_mem {word : String} (hword : word ∉ u.classes.map (·.name.text)) :
    (checkedRules rules u).classes.find? word = none := by
  have known : (collectedTable rules u).contains word = _ := contains_collectedTable u word
  have unnamed : (declaredRules rules u).classes.contains word = false := by
    rw [Bool.eq_false_iff, ne_eq, contains_declaredRules, unknown]
    exact fun h => h.elim hword Bool.false_ne_true
  rw [unnamed, ClassTable.contains, Option.isSome_eq_false_iff, Option.isNone_iff_eq_none] at known
  exact known

/-- A field is looked up in the class that declares it. -/
theorem field?_checkedRules {owner field : String} {τ : Ty} :
    (checkedRules rules u).classes.field? owner field = some τ ↔
      ∃ c ∈ u.classes, c.name.text = owner ∧
        ∃ f ∈ c.fields, f.name.text = field ∧ declaredType (declaredRules rules u) f.type = τ := by
  have fields : ∀ c ∈ u.classes, ∃ info,
      (checkedRules rules u).classes.find? c.name.text = some info ∧ ∀ τ,
        info.fields.lookup field = some τ ↔
          ∃ f ∈ c.fields, f.name.text = field ∧ declaredType (declaredRules rules u) f.type = τ :=
    fun c hc => ⟨_, find?_checkedRules_of_mem distinct hc,
      fun _ => lookup_entriesOf (distinct.members c hc).fields⟩
  exact bind_find?_iff distinct.classes fields fun _ => find?_checkedRules_of_not_mem unknown

theorem method?_checkedRules {owner method : String} {signature : Signature} :
    (checkedRules rules u).classes.method? owner method = some signature ↔
      ∃ c ∈ u.classes, c.name.text = owner ∧
        ∃ m ∈ c.methods, m.name.text = method ∧
          declaredSignature (declaredRules rules u) m = signature := by
  have methods : ∀ c ∈ u.classes, ∃ info,
      (checkedRules rules u).classes.find? c.name.text = some info ∧ ∀ signature,
        info.methods.lookup method = some signature ↔
          ∃ m ∈ c.methods, m.name.text = method ∧
            declaredSignature (declaredRules rules u) m = signature :=
    fun c hc => ⟨_, find?_checkedRules_of_mem distinct hc,
      fun _ => lookup_entriesOf (distinct.members c hc).methods⟩
  exact bind_find?_iff distinct.classes methods fun _ => find?_checkedRules_of_not_mem unknown

/-- Behind the declarations, all questions are answered alike for a rearranged unit. -/
theorem agrees_checkedRules (h : u.Rearranges v) :
    (checkedRules rules u).Agrees (checkedRules rules v) where
  registry := rfl
  booleanClauses := rfl
  types word := by
    rw [type?_checkedRules, type?_checkedRules, type?_declaredRules h]
  fields owner field := by
    ext τ
    rw [field?_checkedRules distinct unknown, field?_checkedRules (h.distinct distinct) unknown]
    refine h.exists_iff fun c d hd => ?_
    simp only [hd.name, hd.fields.mem_iff, declaredType_congr (type?_declaredRules h)]
  methods owner method := by
    ext signature
    rw [method?_checkedRules distinct unknown, method?_checkedRules (h.distinct distinct) unknown]
    refine h.exists_iff fun c d hd => ?_
    simp only [hd.name, hd.methods.mem_iff, declaredSignature_congr (type?_declaredRules h)]

end

end Check

/-! ### Checks -/

theorem CompilationUnit.Rearranges.mapMembers {u v : CompilationUnit} (h : u.Rearranges v)
    (f : String → Member → Member) : (u.mapMembers f).Rearranges (v.mapMembers f) := by
  obtain ⟨classes, perm, each⟩ := h
  refine ⟨_, perm.map fun c : Class => c.mapMembers f, ?_⟩
  rw [CompilationUnit.mapMembers, List.forall₂_map_left_iff, List.forall₂_map_right_iff]
  refine each.imp fun c d hd => ⟨hd.name, ?_⟩
  rw [Class.mapMembers, Class.mapMembers, hd.name]
  exact hd.members.map _

/-- On a new checker only the members of classes can be wrongly declared under distinct names. -/
theorem Checker.declarationErrors_new {u : CompilationUnit} (registry : Registry)
    (booleanClauses : Bool) (distinct : u.Distinct) :
    (new registry booleanClauses).declarationErrors u =
      Check.memberErrors (new registry booleanClauses).rules u := by
  have unknown : (new registry booleanClauses).rules.classes.contains = fun _ => false := rfl
  rw [declarationErrors, unknown, Class.repeats_eq_nil distinct.classes, List.map_nil,
    List.nil_append]

/-- The order of declarations makes no difference to a check on a new checker, when every
descriptor is the registry's own and the names of classes, and of the fields and of the methods
of each class, are distinct. Of classes in another order, with members in another order, the
same mistakes are found as often; each member has the mistakes and is given the types that are
found for it alone, whatever is checked before it. -/
theorem check_rearranged {registry : Registry} (booleanClauses : Bool) {u v : CompilationUnit}
    (own : u.Own registry) (distinct : u.Distinct) (h : u.Rearranges v) :
    let k := Checker.new registry booleanClauses
    let found := Check.foundIn (Check.checkedRules k.rules u) {}
    let record := Check.checkedMember (Check.checkedRules k.rules u) {}
    ∃ declared declared',
      checkUnit registry booleanClauses u = .ok (declared ++ u.gather found) ∧
        checkUnit registry booleanClauses v = .ok (declared' ++ v.gather found) ∧
        declared.Perm declared' ∧
        (declared ++ u.gather found).Perm (declared' ++ v.gather found) ∧
        (k.check u).unit = u.mapMembers record ∧ (k.check v).unit = v.mapMembers record ∧
        (k.check u).unit.Rearranges (k.check v).unit := by
  intro k found record
  obtain ⟨_, checked⟩ := k.check_own u rfl own
  obtain ⟨_, checked'⟩ := k.check_own v rfl (h.own own)
  have agrees : (Check.checkedRules k.rules u).Agrees (Check.checkedRules k.rules v) :=
    Check.agrees_checkedRules distinct rfl h
  rw [← Check.foundIn_congr agrees, ← Check.checkedMember_congr agrees] at checked'
  have declared : (k.declarationErrors u).Perm (k.declarationErrors v) := by
    rw [Checker.declarationErrors_new _ _ distinct,
      Checker.declarationErrors_new _ _ (h.distinct distinct)]
    exact Check.perm_memberErrors distinct h
  refine ⟨_, _, congrArg Checker.Outcome.result checked, congrArg Checker.Outcome.result checked',
    declared, declared.append (h.gather found), congrArg Checker.Outcome.unit checked,
    congrArg Checker.Outcome.unit checked', ?_⟩
  rw [checked, checked']
  exact h.mapMembers record

/-- Everything in the opposite order. -/
def CompilationUnit.backwards (u : CompilationUnit) : CompilationUnit :=
  ⟨u.classes.reverse.map fun c => { c with members := c.members.reverse }⟩

theorem CompilationUnit.rearranges_backwards (u : CompilationUnit) : u.Rearranges u.backwards := by
  refine ⟨u.classes.reverse, (List.reverse_perm _).symm, ?_⟩
  rw [backwards, List.forall₂_map_right_iff, List.forall₂_same]
  exact fun c _ => ⟨rfl, (List.reverse_perm _).symm⟩

/-- Two classes that refer to each other, with a mistake in each of them. -/
theorem check_rearranged_mutual :
    let source := "class A \x7b B b; int n; int get() \x7b return b.m + y; \x7d \x7d " ++
      "class B \x7b A a; int m; ensures m < \\old(a.n); void set() \x7b m = a; \x7d \x7d"
    let u := (parseUnit .standard source).unit
    ∃ errors errors', checkUnit .standard true u = .ok errors ∧
      checkUnit .standard true u.backwards = .ok errors' ∧ errors.Perm errors' ∧
      errors.map (·.code) = ["host.unknown.symbol", "host.incompatible.types"] ∧
      errors ≠ errors' := by
  intro source u
  have own : u.Own .standard := (registered_parseUnit .standard source).own
  have evaluated : u.Distinct ∧
      (checkUnit .standard true u).map (List.map TypeError.code) =
        .ok ["host.unknown.symbol", "host.incompatible.types"] ∧
      checkUnit .standard true u ≠ checkUnit .standard true u.backwards := by decide +kernel
  obtain ⟨distinct, codes, different⟩ := evaluated
  obtain ⟨declared, declared', checked, checked', -, perm, -⟩ :=
    check_rearranged true own distinct u.rearranges_backwards
  rw [checked] at codes
  rw [checked, checked'] at different
  exact ⟨_, _, checked, checked', perm, Except.ok.inj codes, fun same => different (same ▸ rfl)⟩

end Contracts
