import Contracts.Proofs.Typing.Agreement
import Contracts.Proofs.Typing.Declarations

/-! What is collected, whatever is wrong with what is declared. Collecting looks at nothing of
the state and adds only errors to it (`Check.Reports`). The table and the errors that it gives
are written down as functions of the declarations: of classes of one name the first counts, and
the others are reported (`Class.firsts`, `Class.repeats`); of fields or methods of one name the
last counts, and all but the first are reported (`Check.reports_collect`). -/

namespace Contracts

/-! ### Classes of one name -/

namespace Class

/-- The error of a class whose name is taken. -/
def duplicate (c : Class) : TypeError := ⟨.duplicate c.name.text, c.name.span⟩

/-- One more name is known. -/
def learn (name : String) (known : String → Bool) (word : String) : Bool :=
  word == name || known word

/-- The classes that are the first ones of their names, where some names are known before. -/
def firsts (known : String → Bool) : List Class → List Class
  | [] => []
  | c :: cs =>
    if known c.name.text then firsts known cs
    else c :: firsts (learn c.name.text known) cs

/-- The classes whose names are known before or are those of earlier classes. -/
def repeats (known : String → Bool) : List Class → List Class
  | [] => []
  | c :: cs =>
    if known c.name.text then c :: repeats known cs
    else repeats (learn c.name.text known) cs

/-- Names that are known make all classes repeats. -/
theorem repeats_of_known {known : String → Bool} {cs : List Class}
    (h : ∀ c ∈ cs, known c.name.text = true) :
    firsts known cs = [] ∧ repeats known cs = cs := by
  induction cs with
  | nil => exact ⟨rfl, rfl⟩
  | cons c cs ih =>
    rw [List.forall_mem_cons] at h
    rw [firsts, repeats, if_pos h.1, if_pos h.1, (ih h.2).1, (ih h.2).2]
    exact ⟨rfl, rfl⟩

/-- Of distinct names that are not known each is the first. -/
theorem firsts_of_distinct {known : String → Bool} {cs : List Class}
    (distinct : (cs.map (·.name.text)).Nodup) (fresh : ∀ c ∈ cs, known c.name.text = false) :
    firsts known cs = cs ∧ repeats known cs = [] := by
  induction cs generalizing known with
  | nil => exact ⟨rfl, rfl⟩
  | cons c cs ih =>
    rw [List.map_cons, List.nodup_cons] at distinct
    rw [List.forall_mem_cons] at fresh
    have later : ∀ c' ∈ cs, learn c.name.text known c'.name.text = false := by
      intro c' hc'
      rw [learn, fresh.2 c' hc', Bool.or_false, beq_eq_false_iff_ne]
      exact fun hname => distinct.1 (List.mem_map.2 ⟨c', hc', hname⟩)
    obtain ⟨all, none⟩ := ih distinct.2 later
    rw [firsts, repeats, fresh.1, if_neg Bool.false_ne_true, if_neg Bool.false_ne_true, all, none]
    exact ⟨rfl, rfl⟩

theorem firsts_eq_self {cs : List Class} (distinct : (cs.map (·.name.text)).Nodup) :
    firsts (fun _ => false) cs = cs := (firsts_of_distinct distinct fun _ _ => rfl).1

theorem repeats_eq_nil {cs : List Class} (distinct : (cs.map (·.name.text)).Nodup) :
    repeats (fun _ => false) cs = [] := (firsts_of_distinct distinct fun _ _ => rfl).2

/-- The first ones have all the names that are new. -/
theorem mem_names_firsts (known : String → Bool) (cs : List Class) (word : String) :
    word ∈ (firsts known cs).map (·.name.text) ↔
      word ∈ cs.map (·.name.text) ∧ known word = false := by
  induction cs generalizing known with
  | nil => simp [firsts]
  | cons c cs ih =>
    rw [firsts]
    cases hknown : known c.name.text with
    | true =>
      rw [if_pos rfl, ih, List.map_cons, List.mem_cons]
      constructor
      · exact fun h => ⟨.inr h.1, h.2⟩
      · rintro ⟨rfl | h, hword⟩
        · rw [hknown] at hword
          nomatch hword
        · exact ⟨h, hword⟩
    | false =>
      rw [if_neg Bool.false_ne_true, List.map_cons, List.mem_cons, ih, List.map_cons,
        List.mem_cons, learn, Bool.or_eq_false_iff, beq_eq_false_iff_ne]
      by_cases hword : word = c.name.text
      · simp [hword, hknown]
      · simp [hword]

end Class

namespace Check

variable {α β : Type} {rules : Rules}

/-! ### Checks that only report -/

/-- The check gives a value and adds errors, in whatever state it is run. -/
def Reports (m : Check α) (a : α) (errors : List TypeError) : Prop :=
  ∀ s, m.run s = (a, { s with errors := s.errors ++ errors })

namespace Reports

variable {m : Check α} {f : α → Check β} {a : α} {b : β} {es fs : List TypeError}

theorem pure (a : α) : Reports (Pure.pure a) a [] := fun s => by
  rw [List.append_nil]
  rfl

theorem reportAll (errors : List TypeError) : Reports (reportAll errors) () errors := fun _ => rfl

theorem bind (h : Reports m a es) (k : Reports (f a) b fs) : Reports (m >>= f) b (es ++ fs) := by
  intro s
  rw [run_bind, h s, k, List.append_assoc]

/-- A value behind the check makes no difference to what it reports. -/
theorem map (h : Reports m a es) (k : Reports (f a) b []) : Reports (m >>= f) b es := by
  have := h.bind k
  rwa [List.append_nil] at this

end Reports

/-! ### Written types -/

/-- A written type that names nothing. -/
def typeErrors (rules : Rules) (name : Name) : List TypeError :=
  if (rules.classes.type? name.text).isSome then [] else [⟨.unknownType name.text, name.span⟩]

theorem reports_resolveType (name : Name) :
    Reports (resolveType rules name) (declaredType rules name) (typeErrors rules name) := by
  unfold resolveType declaredType typeErrors
  cases rules.classes.type? name.text with
  | some type => exact .pure type
  | none => exact .map (.reportAll _) (.pure _)

theorem reports_resolveTypes (names : List Name) :
    Reports (resolveTypes rules names) (names.map (declaredType rules))
      (names.flatMap (typeErrors rules)) := by
  induction names with
  | nil => exact .pure _
  | cons name names ih => exact .bind (reports_resolveType name) (.map ih (.pure _))

/-- The signature that a method is declared with. -/
def declaredSignature (rules : Rules) (m : Method) : Signature :=
  ⟨(m.params.map (·.type)).map (declaredType rules), declaredType rules m.returnType⟩

def signatureErrors (rules : Rules) (m : Method) : List TypeError :=
  (m.params.map (·.type)).flatMap (typeErrors rules) ++ typeErrors rules m.returnType

theorem reports_signatureOf (m : Method) :
    Reports (signatureOf rules m) (declaredSignature rules m) (signatureErrors rules m) :=
  .bind (reports_resolveTypes _) (.map (reports_resolveType _) (.pure _))

/-! ### Members of one sort -/

section

variable {ι : Type} (name : ι → Name) (value : ι → α) (found : ι → List TypeError)

/-- The entries of a list of items, those of later items first. -/
def entriesOf (is : List ι) : List (String × α) :=
  (is.map fun i => ((name i).text, value i)).reverse

/-- What is wrong in each item, and the repeated names, where some are known before. -/
def errorsOf (known : String → Bool) : List ι → List TypeError
  | [] => []
  | i :: is =>
    found i ++ ((if known (name i).text then [⟨.duplicate (name i).text, (name i).span⟩] else []) ++
      errorsOf (Class.learn (name i).text known) is)

variable {name value found}

theorem entriesOf_cons (i : ι) (is : List ι) (table : List (String × α)) :
    entriesOf name value (i :: is) ++ table =
      entriesOf name value is ++ ((name i).text, value i) :: table := by
  simp [entriesOf]

theorem reports_declareMember (table : List (String × α)) (n : Name) (a : α) :
    Reports (declareMember table n a) ((n.text, a) :: table)
      (if (table.lookup n.text).isSome then [⟨.duplicate n.text, n.span⟩] else []) := by
  unfold declareMember
  dsimp only
  split
  · exact .map (.reportAll _) (.pure _)
  · exact .pure _

theorem reports_collectAll (name : ι → Name) {entry : ι → Check α}
    (h : ∀ i, Reports (entry i) (value i) (found i)) (table : List (String × α)) (is : List ι) :
    Reports (collectAll name entry table is) (entriesOf name value is ++ table)
      (errorsOf name found (fun word => (table.lookup word).isSome) is) := by
  induction is generalizing table with
  | nil => exact .pure _
  | cons i is ih =>
    have known : (fun word => ((((name i).text, value i) :: table).lookup word).isSome) =
        Class.learn (name i).text fun word => (table.lookup word).isSome := by
      funext word
      rw [Class.learn, List.lookup_cons]
      cases word == (name i).text <;> rfl
    have others := ih (((name i).text, value i) :: table)
    rw [known] at others
    rw [entriesOf_cons]
    exact .bind (h i) (.bind (reports_declareMember _ _ _) others)

theorem errorsOf_of_distinct {known : String → Bool} {is : List ι}
    (distinct : (is.map fun i => (name i).text).Nodup)
    (fresh : ∀ i ∈ is, known (name i).text = false) :
    errorsOf name found known is = is.flatMap found := by
  induction is generalizing known with
  | nil => rfl
  | cons i is ih =>
    rw [List.map_cons, List.nodup_cons] at distinct
    rw [List.forall_mem_cons] at fresh
    have later : ∀ j ∈ is, Class.learn (name i).text known (name j).text = false := by
      intro j hj
      rw [Class.learn, fresh.2 j hj, Bool.or_false, beq_eq_false_iff_ne]
      exact fun hname => distinct.1 (List.mem_map.2 ⟨j, hj, hname⟩)
    rw [errorsOf, fresh.1, if_neg Bool.false_ne_true, List.nil_append, ih distinct.2 later,
      List.flatMap_cons]

/-- What is looked up was entered. -/
theorem mem_of_lookup {entries : List (String × α)} {word : String} {a : α}
    (h : entries.lookup word = some a) : (word, a) ∈ entries := by
  obtain ⟨newer, older, rfl, -⟩ := List.lookup_eq_some_iff.1 h
  exact List.mem_append_right _ List.mem_cons_self

theorem lookup_eq_some_iff_mem {entries : List (String × α)}
    (distinct : (entries.map Prod.fst).Nodup) {word : String} {a : α} :
    entries.lookup word = some a ↔ (word, a) ∈ entries := by
  induction entries with
  | nil => simp
  | cons entry entries ih =>
    obtain ⟨key, b⟩ := entry
    rw [List.map_cons, List.nodup_cons] at distinct
    rw [List.lookup_cons, List.mem_cons]
    cases hword : word == key with
    | true =>
      obtain rfl := beq_iff_eq.1 hword
      have other : (word, a) ∉ entries := fun h => distinct.1 (List.mem_map.2 ⟨_, h, rfl⟩)
      simp [other, eq_comm]
    | false =>
      have hne : word ≠ key := beq_eq_false_iff_ne.1 hword
      simp [hne, ih distinct.2]

/-- Under distinct names, an item is looked up by its name. -/
theorem lookup_entriesOf {is : List ι} (distinct : (is.map fun i => (name i).text).Nodup)
    {word : String} {a : α} :
    (entriesOf name value is).lookup word = some a ↔
      ∃ i ∈ is, (name i).text = word ∧ value i = a := by
  have keys : ((entriesOf name value is).map Prod.fst).Nodup := by
    rw [entriesOf, List.map_reverse, List.nodup_reverse, List.map_map]
    exact distinct
  rw [lookup_eq_some_iff_mem keys, entriesOf, List.mem_reverse, List.mem_map]
  simp only [Prod.mk.injEq]

end

/-! ### Classes -/

/-- What other classes see of a class. -/
def declaredInfo (rules : Rules) (c : Class) : ClassInfo where
  fields := entriesOf (fun f : Field => f.name) (fun f => declaredType rules f.type) c.fields
  methods := entriesOf (fun m : Method => m.name) (declaredSignature rules) c.methods

/-- What is wrong in the declarations of a class. -/
def declarationErrors (rules : Rules) (c : Class) : List TypeError :=
  errorsOf (fun f : Field => f.name) (fun f => typeErrors rules f.type) (fun _ => false) c.fields ++
    errorsOf (fun m : Method => m.name) (signatureErrors rules) (fun _ => false) c.methods

theorem reports_collectClass (c : Class) :
    Reports (collectClass rules c) (declaredInfo rules c) (declarationErrors rules c) := by
  have type (f : Field) : Reports (resolveType rules f.type) _ _ := reports_resolveType f.type
  have signature (m : Method) : Reports (signatureOf rules m) _ _ := reports_signatureOf m
  have fields := reports_collectAll (fun f : Field => f.name) type [] c.fields
  have methods := reports_collectAll (fun m : Method => m.name) signature [] c.methods
  rw [← collectFields_eq, List.append_nil] at fields
  rw [← collectMethods_eq, List.append_nil] at methods
  exact .bind fields (.map methods (.pure _))

theorem reports_declareClasses (table : ClassTable) (cs : List Class) :
    Reports (declareClasses table cs)
      ⟨entriesOf Class.name (fun _ => ({} : ClassInfo)) (Class.firsts table.contains cs) ++
        table.entries⟩
      ((Class.repeats table.contains cs).map Class.duplicate) := by
  induction cs generalizing table with
  | nil => exact .pure _
  | cons c cs ih =>
    rw [declareClasses, Class.firsts, Class.repeats]
    cases hknown : table.contains c.name.text with
    | true => exact .bind (.reportAll _) (ih table)
    | false =>
      have known : (table.insert c.name.text {}).contains =
          Class.learn c.name.text table.contains := by
        funext word
        rw [ClassTable.contains, ClassTable.find?_insert, Class.learn]
        split
        · next h => simp [h]
        · next h => simp [h, ClassTable.contains]
      have others := ih (table.insert c.name.text {})
      rw [known] at others
      rw [if_neg Bool.false_ne_true, if_neg Bool.false_ne_true, if_neg Bool.false_ne_true,
        entriesOf_cons]
      exact others

theorem reports_collectClasses (table : ClassTable) (seen : List String) (cs : List Class) :
    Reports (collectClasses rules table seen cs)
      ⟨entriesOf Class.name (declaredInfo rules) (Class.firsts seen.contains cs) ++ table.entries⟩
      ((Class.firsts seen.contains cs).flatMap (declarationErrors rules)) := by
  induction cs generalizing table seen with
  | nil => exact .pure _
  | cons c cs ih =>
    rw [collectClasses, Class.firsts]
    cases hseen : seen.contains c.name.text with
    | true =>
      rw [if_pos rfl, if_pos rfl]
      exact ih table seen
    | false =>
      have known : (c.name.text :: seen).contains = Class.learn c.name.text seen.contains := by
        funext word
        exact List.contains_cons
      have others := ih (table.insert c.name.text (declaredInfo rules c)) (c.name.text :: seen)
      rw [known] at others
      rw [if_neg Bool.false_ne_true, if_neg Bool.false_ne_true, entriesOf_cons]
      exact .bind (reports_collectClass c) others

/-! What is declared depends on the types that words name. -/

section

variable {r r' : Rules} (types : ∀ word, r.classes.type? word = r'.classes.type? word)

include types

theorem typeErrors_congr (name : Name) : typeErrors r name = typeErrors r' name := by
  rw [typeErrors, typeErrors, types]

theorem signatureErrors_congr (m : Method) : signatureErrors r m = signatureErrors r' m := by
  rw [signatureErrors, signatureErrors, funext (typeErrors_congr types)]

theorem declaredSignature_congr (m : Method) : declaredSignature r m = declaredSignature r' m := by
  rw [declaredSignature, declaredSignature, funext (declaredType_congr types)]

theorem declarationErrors_congr (c : Class) : declarationErrors r c = declarationErrors r' c := by
  simp only [declarationErrors, typeErrors_congr types, funext (signatureErrors_congr types)]

theorem declaredInfo_congr (c : Class) : declaredInfo r c = declaredInfo r' c := by
  simp only [declaredInfo, declaredType_congr types, funext (declaredSignature_congr types)]

end

/-! ### Units -/

/-- The rules under which the declarations of a unit are read: its classes are known. -/
def declaredRules (rules : Rules) (u : CompilationUnit) : Rules :=
  { rules with
    classes.entries :=
      entriesOf Class.name (fun _ => ({} : ClassInfo))
        (Class.firsts rules.classes.contains u.classes) ++ rules.classes.entries }

/-- The table of classes behind the declarations of a unit. -/
def collectedTable (rules : Rules) (u : CompilationUnit) : ClassTable where
  entries :=
    entriesOf Class.name (declaredInfo (declaredRules rules u))
      (Class.firsts (fun _ => false) u.classes) ++ (declaredRules rules u).classes.entries

/-- The rules under which the members of a unit are checked. -/
def checkedRules (rules : Rules) (u : CompilationUnit) : Rules :=
  { rules with classes := collectedTable rules u }

/-- What is wrong in the declarations of the classes of a unit, but for their own names. -/
def memberErrors (rules : Rules) (u : CompilationUnit) : List TypeError :=
  (Class.firsts (fun _ => false) u.classes).flatMap (declarationErrors (declaredRules rules u))

/-- Whatever is wrong with what a unit declares, this is what collecting it gives and reports. -/
theorem reports_collect (u : CompilationUnit) :
    Reports (collect rules u) (collectedTable rules u)
      ((Class.repeats rules.classes.contains u.classes).map Class.duplicate ++
        memberErrors rules u) :=
  .bind (reports_declareClasses _ _) (reports_collectClasses _ [] _)

/-- Putting entries in front of a table makes their names known. -/
theorem contains_append_iff (value : Class → ClassInfo) (cs : List Class) (table : ClassTable)
    (word : String) :
    ClassTable.contains ⟨entriesOf Class.name value cs ++ table.entries⟩ word = true ↔
      word ∈ cs.map (·.name.text) ∨ table.contains word = true := by
  rw [ClassTable.contains, ClassTable.find?, List.lookup_append, Option.isSome_or, Bool.or_eq_true,
    List.lookup_isSome_iff, entriesOf]
  refine or_congr ?_ .rfl
  simp [@eq_comm _ word]

/-- The classes of the unit become known, and no others. -/
theorem contains_declaredRules (u : CompilationUnit) (word : String) :
    (declaredRules rules u).classes.contains word = true ↔
      word ∈ u.classes.map (·.name.text) ∨ rules.classes.contains word = true := by
  refine (contains_append_iff _ _ rules.classes word).trans ?_
  rw [Class.mem_names_firsts]
  cases rules.classes.contains word <;> simp

/-- Members that are collected make no other class known. -/
theorem contains_collectedTable (u : CompilationUnit) (word : String) :
    (collectedTable rules u).contains word = (declaredRules rules u).classes.contains word := by
  rw [Bool.eq_iff_iff]
  refine (contains_append_iff _ _ (declaredRules rules u).classes word).trans ?_
  rw [Class.mem_names_firsts, contains_declaredRules]
  simp

/-- Written types name the same while members are collected and behind that. -/
theorem type?_checkedRules (u : CompilationUnit) (word : String) :
    (checkedRules rules u).classes.type? word = (declaredRules rules u).classes.type? word := by
  rw [ClassTable.type?, ClassTable.type?]
  exact congrArg _ (by rw [checkedRules, contains_collectedTable])

end Check

/-! ### What is read of a unit -/

/-- What is read of a class when it is collected: its name, its fields with their types, and its
methods with their types and parameters. -/
def Class.declared (c : Class) : Name × List (Name × Name) × List (Name × Name × List Param) :=
  (c.name, c.fields.map fun f => (f.type, f.name),
    c.methods.map fun m => (m.returnType, m.name, m.params))

namespace Check

variable {rules : Rules}

theorem collectFields_congr {fs fs' : List Field} (table : List (String × Ty))
    (h : (fs'.map fun f => (f.type, f.name)) = fs.map fun f => (f.type, f.name)) :
    collectFields rules table fs' = collectFields rules table fs := by
  induction fs generalizing fs' table with
  | nil => rw [List.map_eq_nil_iff.1 h]
  | cons f fs ih =>
    obtain ⟨f', rest, rfl, same, others⟩ := List.map_eq_cons_iff.1 h
    obtain ⟨type, name⟩ := Prod.mk.inj same
    simp only [collectFields, type, name, ih _ others]

theorem collectMethods_congr {ms ms' : List Method} (table : List (String × Signature))
    (h : (ms'.map fun m => (m.returnType, m.name, m.params)) =
      ms.map fun m => (m.returnType, m.name, m.params)) :
    collectMethods rules table ms' = collectMethods rules table ms := by
  induction ms generalizing ms' table with
  | nil => rw [List.map_eq_nil_iff.1 h]
  | cons m ms ih =>
    obtain ⟨m', rest, rfl, same, others⟩ := List.map_eq_cons_iff.1 h
    obtain ⟨type, same⟩ := Prod.mk.inj same
    obtain ⟨name, params⟩ := Prod.mk.inj same
    simp only [collectMethods, type, name, params, ih _ others]

theorem collectClass_congr {c c' : Class} (h : c'.declared = c.declared) :
    collectClass rules c' = collectClass rules c := by
  obtain ⟨-, rest⟩ := Prod.mk.inj h
  obtain ⟨fields, methods⟩ := Prod.mk.inj rest
  rw [collectClass, collectClass, collectFields_congr _ fields, collectMethods_congr _ methods]

theorem declareClasses_congr {cs cs' : List Class} (table : ClassTable)
    (h : cs'.map Class.declared = cs.map Class.declared) :
    declareClasses table cs' = declareClasses table cs := by
  induction cs generalizing cs' table with
  | nil => rw [List.map_eq_nil_iff.1 h]
  | cons c cs ih =>
    obtain ⟨c', rest, rfl, same, others⟩ := List.map_eq_cons_iff.1 h
    have name : c'.name = c.name := (Prod.mk.inj same).1
    simp only [declareClasses, name, ih _ others]

theorem collectClasses_congr {cs cs' : List Class} (table : ClassTable) (seen : List String)
    (h : cs'.map Class.declared = cs.map Class.declared) :
    collectClasses rules table seen cs' = collectClasses rules table seen cs := by
  induction cs generalizing cs' table seen with
  | nil => rw [List.map_eq_nil_iff.1 h]
  | cons c cs ih =>
    obtain ⟨c', rest, rfl, same, others⟩ := List.map_eq_cons_iff.1 h
    have name : c'.name = c.name := (Prod.mk.inj same).1
    simp only [collectClasses, name, collectClass_congr same, ih _ _ others]

/-- Nothing else is read of a unit when it is collected. -/
theorem collect_congr {u w : CompilationUnit}
    (h : w.classes.map Class.declared = u.classes.map Class.declared) :
    collect rules w = collect rules u := by
  rw [collect, collect, declareClasses_congr _ h]
  exact congrArg _ (funext fun _ => collectClasses_congr _ _ h)

theorem Reports.unique {α : Type} {m : Check α} {a a' : α} {es es' : List TypeError}
    (h : Reports m a es) (h' : Reports m a' es') : a = a' ∧ es = es' := by
  have same := (h {}).symm.trans (h' {})
  exact ⟨congrArg Prod.fst same, congrArg (fun r => r.2.errors) same⟩

/-- So what is collected is the same, and so is what is wrong in it. -/
theorem collected_congr {u w : CompilationUnit}
    (h : w.classes.map Class.declared = u.classes.map Class.declared) :
    collectedTable rules w = collectedTable rules u ∧
      (Class.repeats rules.classes.contains w.classes).map Class.duplicate ++ memberErrors rules w =
        (Class.repeats rules.classes.contains u.classes).map Class.duplicate ++
          memberErrors rules u := by
  have reports : Reports (collect rules w) _ _ := reports_collect w
  rw [collect_congr h] at reports
  exact reports.unique (reports_collect u)

end Check

end Contracts
