import Contracts.Proofs.Typing.Sites
import Mathlib.Data.List.Nodup

/-! Collecting what a unit declares finds nothing wrong exactly when the names of its
classes are distinct, so are those of the fields and of the methods of each class, and
every written type denotes one. What is looked up in the table that it gives is then what
the unit declares (`for_of_collect`). -/

namespace Contracts

/-! ### Declarations of a unit -/

theorem Class.mem_fields {c : Class} {f : Field} : f ∈ c.fields ↔ .field f ∈ c.members := by
  rw [fields, List.mem_filterMap]
  constructor
  · rintro ⟨m, hm, h⟩
    cases m with
    | field f' => exact Option.some.inj h ▸ hm
    | _ => nomatch h
  · exact fun h => ⟨_, h, rfl⟩

theorem Class.mem_methods {c : Class} {m : Method} : m ∈ c.methods ↔ .method m ∈ c.members := by
  rw [methods, List.mem_filterMap]
  constructor
  · rintro ⟨m', hm', h⟩
    cases m' with
    | method m' => exact Option.some.inj h ▸ hm'
    | _ => nomatch h
  · exact fun h => ⟨_, h, rfl⟩

/-- The parameters and the result of a method have the types of the signature. -/
def Method.Has (u : CompilationUnit) (m : Method) (signature : Signature) : Prop :=
  List.Forall₂ (fun p τ => Denotes u p.type.text τ) m.params signature.params ∧
    Denotes u m.returnType.text signature.result

/-- A class declares its members under distinct names and with types of the unit. -/
structure Class.Declares (u : CompilationUnit) (c : Class) : Prop where
  fields : (c.fields.map (·.name.text)).Nodup
  methods : (c.methods.map (·.name.text)).Nodup
  types : ∀ f ∈ c.fields, ∃ τ, Denotes u f.type.text τ
  signatures : ∀ m ∈ c.methods, ∃ signature, m.Has u signature

structure CompilationUnit.Declares (u : CompilationUnit) : Prop where
  distinct : (u.classes.map (·.name.text)).Nodup
  classes : ∀ c ∈ u.classes, c.Declares u

/-- What other classes see of a class is what it declares. -/
structure ClassInfo.Describes (u : CompilationUnit) (info : ClassInfo) (c : Class) : Prop where
  fields {word : String} {τ : Ty} :
    info.fields.lookup word = some τ ↔
      ∃ f ∈ c.fields, f.name.text = word ∧ Denotes u f.type.text τ
  methods {word : String} {signature : Signature} :
    info.methods.lookup word = some signature ↔
      ∃ m ∈ c.methods, m.name.text = word ∧ m.Has u signature

namespace ClassTable

variable {table : ClassTable} {u : CompilationUnit}

theorem contains_insert (name word : String) (info : ClassInfo) :
    (table.insert name info).contains word = true ↔ word = name ∨ table.contains word = true := by
  rw [contains, find?_insert]
  split
  · next h => simp [h]
  · next h => simp [h, contains]

/-- When the table has the classes of the unit, words name what they denote there. -/
theorem type?_eq_some_iff
    (h : ∀ word, table.contains word = true ↔ word ∈ u.classes.map (·.name.text)) {word : String}
    {τ : Ty} : table.type? word = some τ ↔ Denotes u word τ := by
  rw [type?, Option.or_eq_some_iff]
  constructor
  · rintro (hprimitive | ⟨hother, hnamed⟩)
    · unfold Ty.primitive? at hprimitive
      split at hprimitive
      · exact Option.some.inj hprimitive ▸ .int
      · exact Option.some.inj hprimitive ▸ .boolean
      · exact Option.some.inj hprimitive ▸ .void
      · nomatch hprimitive
    · split at hnamed
      · next hcontains =>
        obtain ⟨c, hc, rfl⟩ := List.mem_map.1 ((h word).1 hcontains)
        exact Option.some.inj hnamed ▸ .named hc hother
      · nomatch hnamed
  · intro hdenotes
    cases hdenotes with
    | int | boolean | void => exact .inl rfl
    | named declared other =>
      refine .inr ⟨other, ?_⟩
      rw [if_pos ((h _).2 (List.mem_map_of_mem declared))]

end ClassTable

namespace Check

open CheckState

variable {rules : Rules} {u : CompilationUnit} {s : CheckState}

/-! ### Names of classes -/

theorem of_declareClasses {table table' : ClassTable} {cs : List Class}
    (h : Gives (declareClasses table cs) s table') :
    (cs.map (·.name.text)).Nodup ∧ (∀ c ∈ cs, table.contains c.name.text = false) ∧
      ∀ word, table'.contains word = true ↔
        table.contains word = true ∨ word ∈ cs.map (·.name.text) := by
  induction cs generalizing table s with
  | nil =>
    obtain rfl := gives_pure_iff.1 h
    simp
  | cons c cs ih =>
    rw [declareClasses] at h
    cases hknown : table.contains c.name.text with
    | true =>
      rw [hknown, if_pos rfl] at h
      exact absurd h (not_gives_report (keeps_declareClasses _ _))
    | false =>
      rw [hknown, if_neg Bool.false_ne_true] at h
      obtain ⟨distinct, fresh, hcontains⟩ := ih h
      simp only [← Bool.not_eq_true, ClassTable.contains_insert, not_or] at fresh
      refine ⟨?_, ?_, fun word => ?_⟩
      · rw [List.map_cons, List.nodup_cons]
        refine ⟨fun hmem => ?_, distinct⟩
        obtain ⟨c', hc', hname⟩ := List.mem_map.1 hmem
        exact (fresh c' hc').1 hname
      · rw [List.forall_mem_cons]
        exact ⟨hknown, fun c' hc' => Bool.eq_false_iff.2 (fresh c' hc').2⟩
      · rw [hcontains, ClassTable.contains_insert, List.map_cons, List.mem_cons]
        tauto

theorem gives_declareClasses {table : ClassTable} {cs : List Class}
    (distinct : (cs.map (·.name.text)).Nodup)
    (fresh : ∀ c ∈ cs, table.contains c.name.text = false) :
    ∃ table', Gives (declareClasses table cs) s table' := by
  induction cs generalizing table with
  | nil => exact ⟨table, .pure _ _⟩
  | cons c cs ih =>
    rw [List.map_cons, List.nodup_cons] at distinct
    rw [List.forall_mem_cons] at fresh
    have later : ∀ c' ∈ cs, (table.insert c.name.text {}).contains c'.name.text = false := by
      intro c' hc'
      rw [← Bool.not_eq_true, ClassTable.contains_insert, not_or, Bool.not_eq_true]
      exact ⟨fun hname => distinct.1 (List.mem_map.2 ⟨c', hc', hname⟩), fresh.2 c' hc'⟩
    obtain ⟨table', h⟩ := ih distinct.2 later
    refine ⟨table', ?_⟩
    rw [declareClasses, fresh.1, if_neg Bool.false_ne_true]
    exact h

/-! ### Members of one sort -/

section

variable {ι α : Type}

theorem gives_declareMember_iff {table table' : List (String × α)} {name : Name} {a : α} :
    Gives (declareMember table name a) s table' ↔
      table.lookup name.text = none ∧ table' = (name.text, a) :: table := by
  unfold declareMember
  cases h : table.lookup name.text with
  | some _ => exact iff_of_false (not_gives_report (.pure _)) (by simp)
  | none =>
    apply gives_pure_iff.trans
    rw [eq_self_iff_true, true_and]
    exact eq_comm

/-- Enters what is found for each item under the name of the item. -/
def collectAll (name : ι → Name) (entry : ι → Check α) (table : List (String × α)) :
    List ι → Check (List (String × α))
  | [] => return table
  | i :: is => do
    let a ← entry i
    let table ← declareMember table (name i) a
    collectAll name entry table is

variable {name : ι → Name} {entry : ι → Check α} {R : ι → α → Prop}

theorem keeps_collectAll (hkeeps : ∀ i, Keeps Grows (entry i)) (table : List (String × α))
    (is : List ι) : Keeps Grows (collectAll name entry table is) := by
  induction is generalizing table with
  | nil => exact .pure _
  | cons i is ih =>
    exact .bind (hkeeps i) fun _ => .bind (keeps_declareMember _ _ _) fun _ => ih _

theorem of_collectAll (hkeeps : ∀ i, Keeps Grows (entry i))
    (hentry : ∀ i s a, Gives (entry i) s a ↔ R i a)
    {table table' : List (String × α)} {is : List ι}
    (h : Gives (collectAll name entry table is) s table') :
    (is.map fun i => (name i).text).Nodup ∧ (∀ i ∈ is, table.lookup (name i).text = none) ∧
      (∀ i ∈ is, ∃ a, R i a) ∧ ∀ word a, table'.lookup word = some a ↔
        table.lookup word = some a ∨ ∃ i ∈ is, (name i).text = word ∧ R i a := by
  induction is generalizing table s with
  | nil =>
    obtain rfl := gives_pure_iff.1 h
    simp
  | cons i is ih =>
    obtain ⟨a, hfirst, h⟩ := h.of_bind (hkeeps i) fun _ =>
      .bind (keeps_declareMember _ _ _) fun _ => keeps_collectAll hkeeps _ _
    obtain ⟨_, hdeclare, h⟩ := h.of_bind (keeps_declareMember _ _ _) fun _ =>
      keeps_collectAll hkeeps _ _
    obtain ⟨hnew, rfl⟩ := gives_declareMember_iff.1 hdeclare
    obtain ⟨distinct, fresh, found, hlookup⟩ := ih h
    have table₁ := fun word => congrFun (lookup_cons_eq_update (name i).text a table) word
    have other : ∀ i' ∈ is, (name i').text ≠ (name i).text := by
      intro i' hi' hname
      have := fresh i' hi'
      rw [table₁, hname, Function.update_self] at this
      nomatch this
    refine ⟨?_, ?_, ?_, fun word b => ?_⟩
    · rw [List.map_cons, List.nodup_cons]
      refine ⟨fun hmem => ?_, distinct⟩
      obtain ⟨i', hi', hname⟩ := List.mem_map.1 hmem
      exact other i' hi' hname
    · rw [List.forall_mem_cons]
      refine ⟨hnew, fun i' hi' => ?_⟩
      have := fresh i' hi'
      rwa [table₁, Function.update_of_ne (other i' hi')] at this
    · exact List.forall_mem_cons.2 ⟨⟨a, (hentry i s a).1 hfirst⟩, found⟩
    · rw [hlookup, table₁, List.exists_mem_cons_iff]
      by_cases hword : word = (name i).text
      · subst hword
        have unique : a = b ↔ R i b := by
          rw [← hentry i s b]
          exact ⟨fun h => h ▸ hfirst, fun h => hfirst.unique h⟩
        simp [hnew, unique]
      · have hne : ¬(name i).text = word := fun h => hword h.symm
        simp [hword, hne]

theorem gives_collectAll (hentry : ∀ i s a, Gives (entry i) s a ↔ R i a)
    {table : List (String × α)} {is : List ι} (distinct : (is.map fun i => (name i).text).Nodup)
    (fresh : ∀ i ∈ is, table.lookup (name i).text = none) (found : ∀ i ∈ is, ∃ a, R i a) :
    ∃ table', Gives (collectAll name entry table is) s table' := by
  induction is generalizing table s with
  | nil => exact ⟨table, .pure _ _⟩
  | cons i is ih =>
    rw [List.map_cons, List.nodup_cons] at distinct
    rw [List.forall_mem_cons] at fresh found
    obtain ⟨a, ha⟩ := found.1
    have first : Gives (entry i) s a := (hentry i s a).2 ha
    have second (t : CheckState) :
        Gives (declareMember table (name i) a) t (((name i).text, a) :: table) :=
      gives_declareMember_iff.2 ⟨fresh.1, rfl⟩
    have others : ∀ i' ∈ is, (((name i).text, a) :: table).lookup (name i').text = none := by
      intro i' hi'
      have hne : (name i').text ≠ (name i).text := fun hname =>
        distinct.1 (List.mem_map.2 ⟨i', hi', hname⟩)
      have := congrFun (lookup_cons_eq_update (name i).text a table) (name i').text
      rw [this, Function.update_of_ne hne]
      exact fresh.2 i' hi'
    obtain ⟨table', h⟩ := ih (s := ((declareMember table (name i) a).run ((entry i).run s).2).2)
      distinct.2 others found.2
    exact ⟨table', .bind first (.bind (second _) h)⟩

end

/-! ### Members of a class -/

theorem collectFields_eq (rules : Rules) (table : List (String × Ty)) (fs : List Field) :
    collectFields rules table fs =
      collectAll (fun f : Field => f.name) (fun f => resolveType rules f.type) table fs := by
  induction fs generalizing table with
  | nil => rfl
  | cons f fs ih => simp only [collectFields, collectAll, ih]

/-- Finds the signature of a method. -/
def signatureOf (rules : Rules) (m : Method) : Check Signature := do
  let params ← resolveTypes rules (m.params.map (·.type))
  let result ← resolveType rules m.returnType
  return ⟨params, result⟩

theorem collectMethods_eq (rules : Rules) (table : List (String × Signature)) (ms : List Method) :
    collectMethods rules table ms =
      collectAll (fun m : Method => m.name) (signatureOf rules) table ms := by
  induction ms generalizing table with
  | nil => rfl
  | cons m ms ih => simp only [collectMethods, collectAll, signatureOf, ih, bind_assoc, pure_bind]

theorem keeps_signatureOf (rules : Rules) (m : Method) : Keeps Grows (signatureOf rules m) :=
  .bind (keeps_resolveTypes _ _).grows fun _ => .bind (keeps_resolveType _ _).grows fun _ => .pure _

section

variable (htype : ∀ {word : String} {τ : Ty},
  rules.classes.type? word = some τ ↔ Denotes u word τ)

include htype

theorem gives_signatureOf_iff (m : Method) (s : CheckState) (signature : Signature) :
    Gives (signatureOf rules m) s signature ↔ m.Has u signature := by
  have hparams (params : List Ty) :
      List.Forall₂ (fun n τ => rules.classes.type? n.text = some τ) (m.params.map (·.type)) params ↔
        List.Forall₂ (fun p τ => Denotes u p.type.text τ) m.params params := by
    simp only [List.forall₂_map_left_iff, htype]
  constructor
  · intro h
    obtain ⟨params, first, h⟩ := h.of_bind (keeps_resolveTypes _ _).grows fun _ =>
      .bind (keeps_resolveType _ _).grows fun _ => .pure _
    obtain ⟨result, second, h⟩ := h.of_bind (keeps_resolveType _ _).grows fun _ => .pure _
    obtain rfl := gives_pure_iff.1 h
    refine ⟨(hparams params).1 (gives_resolveTypes_iff.1 first), ?_⟩
    exact htype.1 (gives_resolveType_iff.1 second)
  · rintro ⟨params, result⟩
    exact .bind (gives_resolveTypes_iff.2 ((hparams _).2 params))
      (.bind (gives_resolveType_iff.2 (htype.2 result)) (.pure _ _))

theorem of_collectClass {c : Class} {info : ClassInfo} (h : Gives (collectClass rules c) s info) :
    c.Declares u ∧ info.Describes u c := by
  obtain ⟨fields, first, h⟩ := h.of_bind (keeps_collectFields _ _ _) fun _ =>
    .bind (keeps_collectMethods _ _ _) fun _ => .pure _
  obtain ⟨methods, second, h⟩ := h.of_bind (keeps_collectMethods _ _ _) fun _ => .pure _
  obtain rfl := gives_pure_iff.1 h
  rw [collectFields_eq] at first
  rw [collectMethods_eq] at second
  obtain ⟨fieldNames, -, types, hfields⟩ := of_collectAll (R := fun f τ => Denotes u f.type.text τ)
    (fun f => (keeps_resolveType _ _).grows) (fun f s τ => gives_resolveType_iff.trans htype) first
  obtain ⟨methodNames, -, signatures, hmethods⟩ := of_collectAll (R := Method.Has u)
    (keeps_signatureOf rules) (gives_signatureOf_iff htype) second
  refine ⟨⟨fieldNames, methodNames, types, signatures⟩, ?_, ?_⟩
  · simp [hfields]
  · simp [hmethods]

theorem gives_collectClass {c : Class} (h : c.Declares u) :
    ∃ info, Gives (collectClass rules c) s info := by
  have first : ∃ fields, Gives (collectFields rules [] c.fields) s fields := by
    simp only [collectFields_eq]
    exact gives_collectAll (R := fun f τ => Denotes u f.type.text τ)
      (fun f s τ => gives_resolveType_iff.trans htype) h.fields (fun _ _ => rfl) h.types
  obtain ⟨fields, first⟩ := first
  have second (t : CheckState) :
      ∃ methods, Gives (collectMethods rules [] c.methods) t methods := by
    simp only [collectMethods_eq]
    exact gives_collectAll (gives_signatureOf_iff htype) h.methods (fun _ _ => rfl) h.signatures
  obtain ⟨methods, second⟩ := second ((collectFields rules [] c.fields).run s).2
  exact ⟨⟨fields, methods⟩, .bind first (.bind second (.pure _ _))⟩

/-! ### Classes of a unit -/

omit htype in
theorem later_fresh {c : Class} {cs : List Class} {seen : List String}
    (hnew : c.name.text ∉ cs.map (·.name.text)) (fresh : ∀ c' ∈ cs, c'.name.text ∉ seen) :
    ∀ c' ∈ cs, c'.name.text ∉ c.name.text :: seen := by
  intro c' hc' hmem
  rcases List.mem_cons.1 hmem with hname | hmem
  · exact hnew (List.mem_map.2 ⟨c', hc', hname⟩)
  · exact fresh c' hc' hmem

/-- Every class has its own entry, and no other entry is another one than before. -/
theorem of_collectClasses {table table' : ClassTable} {seen : List String} {cs : List Class}
    (distinct : (cs.map (·.name.text)).Nodup) (fresh : ∀ c ∈ cs, c.name.text ∉ seen)
    (h : Gives (collectClasses rules table seen cs) s table') :
    (∀ c ∈ cs, c.Declares u ∧ ∃ info, table'.find? c.name.text = some info ∧ info.Describes u c) ∧
      ∀ word ∉ cs.map (·.name.text), table'.find? word = table.find? word := by
  induction cs generalizing table seen s with
  | nil =>
    obtain rfl := gives_pure_iff.1 h
    simp
  | cons c cs ih =>
    rw [List.map_cons, List.nodup_cons] at distinct
    rw [List.forall_mem_cons] at fresh
    rw [collectClasses, if_neg (by simpa using fresh.1)] at h
    obtain ⟨info, first, h⟩ := h.of_bind (keeps_collectClass _ _) fun _ => keeps_collectClasses _ _ _ _
    have later := later_fresh distinct.1 fresh.2
    obtain ⟨others, same⟩ := ih distinct.2 later h
    obtain ⟨declares, describes⟩ := of_collectClass htype first
    constructor
    · rw [List.forall_mem_cons]
      refine ⟨⟨declares, info, ?_, describes⟩, others⟩
      rw [same _ distinct.1, ClassTable.find?_insert, if_pos rfl]
    · intro word hword
      rw [List.map_cons, List.mem_cons, not_or] at hword
      rw [same word hword.2, ClassTable.find?_insert, if_neg hword.1]

theorem gives_collectClasses {table : ClassTable} {seen : List String} {cs : List Class}
    (distinct : (cs.map (·.name.text)).Nodup) (fresh : ∀ c ∈ cs, c.name.text ∉ seen)
    (declares : ∀ c ∈ cs, c.Declares u) :
    ∃ table', Gives (collectClasses rules table seen cs) s table' := by
  induction cs generalizing table seen s with
  | nil => exact ⟨table, .pure _ _⟩
  | cons c cs ih =>
    rw [List.map_cons, List.nodup_cons] at distinct
    rw [List.forall_mem_cons] at fresh declares
    obtain ⟨info, first⟩ := gives_collectClass (s := s) htype declares.1
    have later := later_fresh distinct.1 fresh.2
    obtain ⟨table', h⟩ := ih (s := ((collectClass rules c).run s).2) distinct.2 later declares.2
    refine ⟨table', ?_⟩
    rw [collectClasses, if_neg (by simpa using fresh.1)]
    exact .bind first h

end

/-- What is looked up in the entry of a class is what the class of that name has. -/
theorem bind_find?_iff {table : ClassTable} {α : Type} {look : ClassInfo → Option α}
    {P : Class → α → Prop} (distinct : (u.classes.map (·.name.text)).Nodup)
    (entries : ∀ c ∈ u.classes,
      ∃ info, table.find? c.name.text = some info ∧ ∀ a, look info = some a ↔ P c a)
    (nothing : ∀ word ∉ u.classes.map (·.name.text), table.find? word = none) {owner : String}
    {a : α} :
    (table.find? owner).bind look = some a ↔ ∃ c ∈ u.classes, c.name.text = owner ∧ P c a := by
  by_cases howner : owner ∈ u.classes.map (·.name.text)
  · obtain ⟨c, hc, rfl⟩ := List.mem_map.1 howner
    obtain ⟨info, hinfo, hlook⟩ := entries c hc
    rw [hinfo, Option.bind_some, hlook]
    constructor
    · exact fun hP => ⟨c, hc, rfl, hP⟩
    · rintro ⟨c', hc', hname, hP⟩
      rwa [List.inj_on_of_nodup_map distinct hc' hc hname] at hP
  · rw [nothing owner howner, Option.bind_none]
    apply iff_of_false (by simp)
    rintro ⟨c, hc, rfl, -⟩
    exact howner (List.mem_map_of_mem hc)

/-- When every class of the unit has its entry in the table and nothing else is there, the
table says what the unit declares. -/
theorem for_of_entries {table : ClassTable} (distinct : (u.classes.map (·.name.text)).Nodup)
    (entries : ∀ c ∈ u.classes,
      ∃ info, table.find? c.name.text = some info ∧ info.Describes u c)
    (nothing : ∀ word ∉ u.classes.map (·.name.text), table.find? word = none) :
    Rules.For { registry := .standard, classes := table } u := by
  refine ⟨rfl, rfl, ?_, ?_, ?_⟩
  · refine ClassTable.type?_eq_some_iff fun word => ?_
    constructor
    · intro h
      by_contra hword
      rw [ClassTable.contains, nothing word hword] at h
      nomatch h
    · intro h
      obtain ⟨c, hc, rfl⟩ := List.mem_map.1 h
      obtain ⟨info, hinfo, -⟩ := entries c hc
      rw [ClassTable.contains, hinfo]
      rfl
  · intro owner field τ
    have fields : ∀ c ∈ u.classes, ∃ info, table.find? c.name.text = some info ∧ ∀ τ,
        info.fields.lookup field = some τ ↔
          ∃ f ∈ c.fields, f.name.text = field ∧ Denotes u f.type.text τ := by
      intro c hc
      obtain ⟨info, hinfo, describes⟩ := entries c hc
      exact ⟨info, hinfo, fun _ => describes.fields⟩
    exact bind_find?_iff distinct fields nothing
  · intro owner method params result
    have methods : ∀ c ∈ u.classes, ∃ info, table.find? c.name.text = some info ∧ ∀ signature,
        info.methods.lookup method = some signature ↔
          ∃ m ∈ c.methods, m.name.text = method ∧ m.Has u signature := by
      intro c hc
      obtain ⟨info, hinfo, describes⟩ := entries c hc
      exact ⟨info, hinfo, fun _ => describes.methods⟩
    exact bind_find?_iff distinct methods nothing

/-- On a new checker the declared classes are those of the unit. -/
theorem contains_of_declareClasses {table : ClassTable}
    (h : Gives (declareClasses {} u.classes) s table) (word : String) :
    table.contains word = true ↔ word ∈ u.classes.map (·.name.text) := by
  rw [(of_declareClasses h).2.2]
  exact or_iff_right (by simp [ClassTable.contains, ClassTable.find?])

/-- Collecting finds nothing wrong exactly when the unit declares its members as it should,
and then the table says what it declares. -/
theorem for_of_collect {table : ClassTable}
    (h : Gives (collect { registry := .standard } u) s table) :
    u.Declares ∧ Rules.For { registry := .standard, classes := table } u := by
  obtain ⟨declared, first, h⟩ := h.of_bind (keeps_declareClasses _ _) fun _ =>
    keeps_collectClasses _ _ _ _
  have distinct := (of_declareClasses first).1
  have known := contains_of_declareClasses first
  obtain ⟨entries, same⟩ := of_collectClasses (u := u) (ClassTable.type?_eq_some_iff known)
    distinct (fun _ _ => List.not_mem_nil) h
  refine ⟨⟨distinct, fun c hc => (entries c hc).1⟩, for_of_entries distinct
    (fun c hc => (entries c hc).2) fun word hword => ?_⟩
  rw [same word hword]
  rw [← known, ClassTable.contains, Option.not_isSome_iff_eq_none] at hword
  exact hword

theorem gives_collect (h : u.Declares) :
    ∃ table, Gives (collect { registry := .standard } u) s table := by
  obtain ⟨declared, first⟩ : ∃ table, Gives (declareClasses {} u.classes) s table :=
    gives_declareClasses h.distinct fun _ _ => rfl
  have second : ∃ table, Gives
      (collectClasses { registry := .standard, classes := declared } declared [] u.classes)
      ((declareClasses {} u.classes).run s).2 table :=
    gives_collectClasses (ClassTable.type?_eq_some_iff (contains_of_declareClasses first))
      h.distinct (fun _ _ => List.not_mem_nil) h.classes
  obtain ⟨table, second⟩ := second
  exact ⟨table, .bind first second⟩

end Check

end Contracts
