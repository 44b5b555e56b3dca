import Contracts.Proofs.Grammar.Layers
import Contracts.Proofs.Typing.Points

/-! What is reported around an expression. Each place of a unit has a setting, and a check
reports what is found in the expression there and where its type does not fit; what it reports
before and behind depends on the span of the expression alone (`Check.checkUnit_fill`). -/

namespace Contracts

variable {registry : Registry}

/-! ### Descriptors in a place and around it -/

namespace Statement

theorem own_fill (slot : Slot) (e : Expr) (span : Span) :
    (slot.fill e).Own registry ↔ (slot.fill (.missing span)).Own registry ∧ e.Own registry := by
  cases slot with
  | declare | ghost | leave => simp [Slot.fill, Own, Variable.Own, Expr.Own]
  | assign | expr => simp [Slot.fill, Own, Expr.Own]
  | clause => exact ⟨fun h => ⟨⟨h.descriptor, trivial⟩, h.expr⟩, fun h => ⟨h.1.descriptor, h.2⟩⟩

theorem listOwn_around (before after : List Statement) (s : Statement) :
    Own.listOwn registry (before ++ s :: after) ↔
      Own.listOwn registry (before ++ after) ∧ s.Own registry := by
  induction before with
  | nil => exact and_comm
  | cons t before ih => exact (and_congr_right fun _ => ih).trans and_assoc.symm

/-- Labels and blocks have descriptors in their other statements only. -/
theorem own_wrap (layers : List Layer) (s : Statement) (span : Span) :
    (wrap layers s).Own registry ↔
      (wrap layers (.missing span)).Own registry ∧ s.Own registry := by
  induction layers with
  | nil => exact (and_iff_right trivial).symm
  | cons l layers ih =>
    cases l with
    | labeled label _ => exact ih
    | block before after blockSpan =>
      have around (t : Statement) :
          (wrap (.block before after blockSpan :: layers) t).Own registry ↔ _ :=
        listOwn_around before after (wrap layers t)
      rw [around, around, ih, and_assoc]

end Statement

theorem SpecClause.own_fill (c : SpecClause) (e : Expr) (span : Span) :
    SpecClause.Own registry { c with expr := e } ↔
      SpecClause.Own registry { c with expr := .missing span } ∧ e.Own registry :=
  ⟨fun h => ⟨⟨h.descriptor, trivial⟩, h.expr⟩, fun h => ⟨h.1.descriptor, h.2⟩⟩

theorem Method.own_iff (m : Method) :
    m.Own registry ↔ (∀ k ∈ m.cases, ∀ s ∈ k.clauses, s.Own registry) ∧
      Statement.Own.listOwn registry m.body.statements :=
  ⟨fun h => ⟨h.cases, h.body⟩, fun h => ⟨h.1, h.2⟩⟩

theorem Member.own_fill (slot : Slot) (e : Expr) (span : Span) :
    (slot.fill e).Own registry ↔ (slot.fill (.missing span)).Own registry ∧ e.Own registry := by
  cases slot with
  | field f =>
    refine ⟨fun h => ⟨⟨h.ghost, ?_⟩, h.init e rfl⟩, fun h => ⟨h.1.ghost, ?_⟩⟩
    · rintro _ ⟨⟩
      trivial
    · rintro _ ⟨⟩
      exact h.2
  | clause c => exact ⟨fun h => ⟨⟨h.descriptor, trivial⟩, h.expr⟩, fun h => ⟨h.1.descriptor, h.2⟩⟩
  | spec m casesBefore casesAfter k before after c =>
    simp only [Slot.fill, Own, Method.own_iff, List.forall_mem_append, List.forall_mem_cons]
    rw [SpecClause.own_fill c e span]
    tauto
  | body m before after layers slot =>
    simp only [Slot.fill, Own, Method.own_iff, Statement.listOwn_around]
    rw [Statement.own_wrap layers (slot.fill e) span,
      Statement.own_wrap layers (slot.fill (.missing span)) span, Statement.own_fill slot e span]
    tauto

theorem CompilationUnit.own_fill (slot : Slot) (e : Expr) (span : Span) :
    (slot.fill e).Own registry ↔ (slot.fill (.missing span)).Own registry ∧ e.Own registry := by
  simp only [CompilationUnit.Own, Slot.fill, Slot.fillClass, Class.Own, List.forall_mem_append,
    List.forall_mem_cons]
  rw [Member.own_fill slot.member e span]
  tauto

/-! ### Declarations around a place -/

/-- What stands in a place is not read when declarations are collected. -/
theorem CompilationUnit.declared_fill (slot : Slot) (e e' : Expr) :
    (slot.fill e').classes.map Class.declared = (slot.fill e).classes.map Class.declared := by
  obtain ⟨classesBefore, classesAfter, owner, before, after, member⟩ := slot
  cases member <;> simp [Slot.fill, Slot.fillClass, Member.Slot.fill, Class.declared, Class.fields,
    Class.methods]

namespace Check

theorem unitRules_fill (registry : Registry) (booleanClauses : Bool)
    (slot : CompilationUnit.Slot) (e e' : Expr) :
    unitRules registry booleanClauses (slot.fill e') =
      unitRules registry booleanClauses (slot.fill e) := by
  rw [unitRules, unitRules, checkedRules, checkedRules,
    (collected_congr (CompilationUnit.declared_fill slot e e')).1]

theorem declarationErrors_fill (k : Checker) (slot : CompilationUnit.Slot) (e e' : Expr) :
    k.declarationErrors (slot.fill e') = k.declarationErrors (slot.fill e) :=
  (collected_congr (CompilationUnit.declared_fill slot e e')).2

end Check

/-! ### Settings -/

namespace Statement.Slot

/-- The clause that the place is in, if the statement is one. -/
def clause? : Slot → Option Descriptor
  | ghost d _ _ _ => some d
  | clause d _ => some d
  | _ => none

/-- The setting of the place when the statement stands at a point. -/
def setting (c : Context) (q : Point) (slot : Slot) : Setting := (q.setting c).inside slot.clause?

theorem holds_clause {e : Expr} (slot : Slot) (h : (slot.fill e).Own registry) :
    ∀ d ∈ slot.clause?, registry.Holds d := by
  cases slot with
  | ghost d => exact fun _ hd => Option.some.inj hd ▸ h.1
  | clause d => exact fun _ hd => Option.some.inj hd ▸ h.descriptor
  | _ => nofun

end Statement.Slot

/-- The setting of the place in a class. -/
def Member.Slot.setting (rules : Rules) (className : String) : Member.Slot → Setting
  | .field f => (Check.outside className {}).inside f.ghost
  | .clause k => (Check.outside className {}).inside (some k.descriptor)
  | .spec m _ _ _ _ _ k => ((m.entry rules className).setting {}).inside (some k.descriptor)
  | .body m before after layers slot =>
    slot.setting {} ((m.entry rules className).enterAll rules {}
      (.block before after m.body.span :: layers))

namespace Check

variable {rules : Rules} {c : Context} {p : Setting} {q : Point}

/-! ### Reports around a place -/

/-- What is reported is what is found in an expression in a setting, and where its type does not
fit; what stands before and behind depends on the span of the expression alone. -/
def Reads (rules : Rules) (p : Setting) (report : Expr → List TypeError) : Prop :=
  ∃ (before : List TypeError) (expected : Option Ty) (after : Span → List TypeError),
    ∀ e, report e = before ++ (errorsAs rules p expected e ++ after e.span)

namespace Reads

variable {report : Expr → List TypeError}

theorem errorsAs (rules : Rules) (p : Setting) (expected : Option Ty) :
    Reads rules p (errorsAs rules p expected) := ⟨[], expected, fun _ => [], by simp⟩

/-- Where no type is asked for, what is found is all there is. -/
theorem found (rules : Rules) (p : Setting) : Reads rules p fun e => (found rules p e).errors :=
  ⟨[], none, fun _ => [], by simp [Check.errorsAs, mismatch]⟩

theorem append_left (h : Reads rules p report) (errors : List TypeError) :
    Reads rules p fun e => errors ++ report e := by
  obtain ⟨before, expected, after, h⟩ := h
  exact ⟨errors ++ before, expected, after, by simp [h]⟩

theorem append_right (h : Reads rules p report) (errors : Span → List TypeError) :
    Reads rules p fun e => report e ++ errors e.span := by
  obtain ⟨before, expected, after, h⟩ := h
  exact ⟨before, expected, fun s => after s ++ errors s, by simp [h]⟩

theorem around (h : Reads rules p report) (before after : List TypeError) :
    Reads rules p fun e => before ++ (report e ++ after) :=
  (h.append_right fun _ => after).append_left before

/-- Everything that is found in the expression is reported, in its order. -/
theorem part (h : Reads rules p report) (e : Expr) :
    (Check.found rules p e).errors <:+: report e := by
  obtain ⟨before, expected, after, h⟩ := h
  refine ⟨before, mismatch expected (Check.found rules p e).type e.span ++ after e.span, ?_⟩
  simp [h, Check.errorsAs]

end Reads

/-- What is reported of one item of a list is reported of the list. -/
theorem Reads.among {α : Type} (errors : α → List TypeError) {item : Expr → α}
    (h : Reads rules p fun e => errors (item e)) (before after : List α) :
    Reads rules p fun e => (before ++ item e :: after).flatMap errors := by
  simp only [List.flatMap_append, List.flatMap_cons]
  exact h.around _ _

theorem reads_variable (c : Context) (q : Point) (type name : Name) (span : Span) :
    Reads rules (q.setting c) fun e => variableErrors rules q c ⟨type, name, some e, span⟩ :=
  ((Reads.errorsAs rules (q.setting c) (some (declaredType rules type))).append_right
    fun _ => q.duplicates name).append_left (typeErrors rules type)

theorem reads_leave (p : Setting) (span : Span) :
    Reads rules p fun e => leaveErrors rules p (some e) span := by
  unfold leaveErrors
  dsimp only
  split
  · exact (Reads.found rules p).append_right fun s => [⟨.valueInVoid, s⟩]
  · exact .errorsAs _ _ _

theorem reads_slot (slot : Statement.Slot) (h : ∀ d ∈ slot.clause?, rules.registry.Holds d) :
    Reads rules (slot.setting c q) fun e => (passed rules c q (slot.fill e)).errors := by
  cases slot with
  | declare type name span =>
    simp only [Statement.Slot.fill, passed_declare]
    exact reads_variable c q type name span
  | ghost d type name span =>
    simp only [Statement.Slot.fill, passed_ghost (h d rfl)]
    exact reads_variable (Local.inside (some d) c) q type name span
  | assign target span =>
    simp only [Statement.Slot.fill, passed_assign]
    exact (Reads.errorsAs _ _ _).append_left _
  | clause d span =>
    simp only [Statement.Slot.fill, passed_clause (h d rfl)]
    exact .errorsAs _ _ _
  | leave span =>
    simp only [Statement.Slot.fill, passed_leave]
    exact reads_leave _ _
  | expr =>
    simp only [Statement.Slot.fill, passed_expr]
    exact .found _ _

/-- What stands in the place makes no difference to the point behind the statement. -/
theorem behind_slot (slot : Statement.Slot) (c : Context) (q : Point) (e e' : Expr) :
    (passed rules c q (slot.fill e')).behind = (passed rules c q (slot.fill e)).behind := by
  cases slot with
  | declare => simp only [Statement.Slot.fill, passed_declare, Point.behind]
  | ghost d =>
    by_cases h : rules.registry.Holds d
    · simp only [Statement.Slot.fill, passed_ghost h, Point.behind]
    · simp only [Statement.Slot.fill, passed_ghost_foreign h]
  | assign => simp only [Statement.Slot.fill, passed_assign]
  | clause d span =>
    by_cases h : rules.registry.Holds d
    · simp only [Statement.Slot.fill, passed_clause h]
    · simp only [Statement.Slot.fill, passed_clause_foreign (k := ⟨d, _, span⟩) h]
  | leave => simp only [Statement.Slot.fill, passed_leave]
  | expr => simp only [Statement.Slot.fill, passed_expr]

/-- Statements of one point behind them, inside layers. -/
theorem reads_wrap {s : Expr → Statement} (layers : List Statement.Layer)
    (behind : ∀ e e', (passed rules c (q.enterAll rules c layers) (s e')).behind =
      (passed rules c (q.enterAll rules c layers) (s e)).behind)
    (reads : Reads rules p fun e => (passed rules c (q.enterAll rules c layers) (s e)).errors) :
    (Reads rules p fun e => (passed rules c q (.wrap layers (s e))).errors) ∧
      ∀ e e', (passed rules c q (.wrap layers (s e'))).behind =
        (passed rules c q (.wrap layers (s e))).behind := by
  induction layers generalizing q with
  | nil => exact ⟨reads, behind⟩
  | cons l layers ih =>
    obtain ⟨reads, behind⟩ := ih behind reads
    cases l with
    | labeled label span =>
      simp only [Statement.wrap_cons, Statement.Layer.wrap, passed_labeled]
      exact ⟨reads.append_left _, behind⟩
    | block before after span =>
      simp only [Statement.wrap_cons, Statement.Layer.wrap, passed_block, passedAll_append,
        passedAll_cons]
      let r := (passed rules c (behindAll rules c q before)
        (.wrap layers (s (.missing ⟨0, 0⟩)))).behind
      have same (e : Expr) :
          (passed rules c (behindAll rules c q before) (.wrap layers (s e))).behind = r :=
        behind _ e
      simp only [same]
      exact ⟨(reads.append_right fun _ => _).append_left _, fun _ _ => trivial⟩

/-! ### Members and units -/

theorem reads_clause (p : Setting) (d : Descriptor) :
    Reads rules (p.inside (some d)) (clauseErrors rules p d) := .errorsAs _ _ _

/-- Statements on end are read like a block. -/
theorem reads_statements (q : Point) (before after : List Statement)
    (layers : List Statement.Layer) (span : Span) (slot : Statement.Slot)
    (h : ∀ d ∈ slot.clause?, rules.registry.Holds d) :
    Reads rules (slot.setting c (q.enterAll rules c (.block before after span :: layers)))
      fun e => (passedAll rules c q (before ++ .wrap layers (slot.fill e) :: after)).errors := by
  obtain ⟨reads, -⟩ := reads_wrap (.block before after span :: layers)
    (behind_slot slot c (q.enterAll rules c (.block before after span :: layers)))
    (reads_slot slot h)
  simpa only [Statement.wrap_cons, Statement.Layer.wrap, passed_block] using reads

/-- What is wrong in the clauses of a case. -/
def caseErrors (rules : Rules) (p : Setting) (k : SpecCase) : List TypeError :=
  k.clauses.flatMap fun s => clauseErrors rules p s.descriptor s.expr

theorem found_method {m : Method}
    (h : ∀ k ∈ m.cases, ∀ s ∈ k.clauses, rules.registry.Holds s.descriptor) (className : String) :
    foundIn rules {} className (.method m) =
      (m.start rules className).paramErrors rules m.params ++
        (m.cases.flatMap (caseErrors rules ((m.entry rules className).setting {})) ++
          (passedAll rules {} (m.entry rules className) m.body.statements).errors) :=
  (member_method h className {}).2

/-- A clause is read between what is wrong in the parameters and in the other clauses, and what
is wrong in the body. -/
theorem reads_spec (m : Method) (casesBefore casesAfter : List SpecCase) (k : SpecCase)
    (before after : List SpecClause) (clause : SpecClause) (className : String)
    (h : ∀ k' ∈ casesBefore ++ { k with clauses := before ++ clause :: after } :: casesAfter,
      ∀ s ∈ k'.clauses, rules.registry.Holds s.descriptor) :
    let slot := Member.Slot.spec m casesBefore casesAfter k before after clause
    Reads rules (slot.setting rules className) fun e =>
      foundIn rules {} className (slot.fill e) := by
  intro slot
  let case (e : Expr) : SpecCase :=
    { k with clauses := before ++ { clause with expr := e } :: after }
  let p := (m.entry rules className).setting {}
  let errors (s : SpecClause) := clauseErrors rules p s.descriptor s.expr
  have inClause : Reads rules (slot.setting rules className) fun e =>
      errors { clause with expr := e } := reads_clause p clause.descriptor
  have inCase : Reads rules (slot.setting rules className) fun e => caseErrors rules p (case e) :=
    inClause.among errors before after
  have descriptors (e : Expr) : ∀ k' ∈ casesBefore ++ case e :: casesAfter,
      ∀ s ∈ k'.clauses, rules.registry.Holds s.descriptor := by
    simpa only [case, List.forall_mem_append, List.forall_mem_cons] using h
  have found (e : Expr) : foundIn rules {} className (slot.fill e) =
      (m.start rules className).paramErrors rules m.params ++
        ((casesBefore ++ case e :: casesAfter).flatMap (caseErrors rules p) ++
          (passedAll rules {} (m.entry rules className) m.body.statements).errors) :=
    found_method (m := { m with cases := _ }) (descriptors e) className
  simp only [found]
  exact (inCase.among (caseErrors rules p) casesBefore casesAfter).around _ _

/-- A body is read behind what is wrong in the parameters and in the clauses. -/
theorem reads_body (m : Method) (before after : List Statement) (layers : List Statement.Layer)
    (slot : Statement.Slot) (className : String)
    (cases : ∀ k ∈ m.cases, ∀ s ∈ k.clauses, rules.registry.Holds s.descriptor)
    (clause : ∀ d ∈ slot.clause?, rules.registry.Holds d) :
    let slot := Member.Slot.body m before after layers slot
    Reads rules (slot.setting rules className) fun e =>
      foundIn rules {} className (slot.fill e) := by
  intro whole
  let q := m.entry rules className
  let statements (e : Expr) := before ++ .wrap layers (slot.fill e) :: after
  have found (e : Expr) : foundIn rules {} className (whole.fill e) =
      (m.start rules className).paramErrors rules m.params ++
        (m.cases.flatMap (caseErrors rules (q.setting {})) ++
          (passedAll rules {} q (statements e)).errors) :=
    found_method (m := { m with body := { m.body with statements := statements e } }) cases _
  have inBody := reads_statements (c := {}) q before after layers m.body.span slot clause
  simp only [found]
  exact (inBody.append_left _).append_left _

theorem reads_member (slot : Member.Slot) {span : Span}
    (own : (slot.fill (.missing span)).Own rules.registry) (className : String) :
    Reads rules (slot.setting rules className) fun e =>
      foundIn rules {} className (slot.fill e) := by
  cases slot with
  | field f =>
    have found (e : Expr) :=
      (member_field (f := { f with init := some e }) own.ghost className {}).2
    simp only [Member.Slot.fill, found]
    exact .errorsAs _ _ _
  | clause k =>
    have found (e : Expr) :=
      (member_clause (k := { k with expr := e }) own.descriptor className {}).2
    simp only [Member.Slot.fill, found]
    exact (reads_clause _ k.descriptor).append_right fun _ => unknownMethods rules className k.frame
  | spec m casesBefore casesAfter k before after clause =>
    let case : SpecCase :=
      { k with clauses := before ++ { clause with expr := .missing span } :: after }
    have cases : ∀ k' ∈ casesBefore ++ case :: casesAfter,
        ∀ s ∈ k'.clauses, s.Own rules.registry := own.cases
    have descriptors := fun k' hk s hs => (cases k' hk s hs).descriptor
    refine reads_spec m casesBefore casesAfter k before after clause className ?_
    simpa only [case, List.forall_mem_append, List.forall_mem_cons] using descriptors
  | body m before after layers slot =>
    have inBody := ((Statement.listOwn_around _ _ _).1 own.body).2
    exact reads_body m before after layers slot className
      (fun k hk s hs => (own.cases k hk s hs).descriptor)
      (slot.holds_clause ((Statement.own_wrap layers _ span).1 inBody).2)

/-- What is reported in a unit around an expression. -/
theorem checkUnit_fill {registry : Registry} (booleanClauses : Bool) (slot : CompilationUnit.Slot)
    {e : Expr} (own : (slot.fill e).Own registry) :
    let rules := unitRules registry booleanClauses (slot.fill e)
    ∃ report, Reads rules (slot.member.setting rules slot.owner.name.text) report ∧
      ∀ e' : Expr, e'.Own registry →
        checkUnit registry booleanClauses (slot.fill e') = .ok (report e') := by
  intro rules
  let errors := (Checker.new registry booleanClauses).declarationErrors (slot.fill e)
  let span : Span := ⟨0, 0⟩
  have blank := ((CompilationUnit.own_fill slot e span).1 own).1
  refine ⟨fun e' => errors ++ (slot.fill e').gather (foundIn rules {}), ?_, fun e' own' => ?_⟩
  · have member := blank _ (List.mem_append_right _ List.mem_cons_self) _
      (List.mem_append_right _ List.mem_cons_self)
    have reads : Reads rules _ _ := reads_member slot.member member slot.owner.name.text
    simp only [CompilationUnit.gather, CompilationUnit.Slot.fill, CompilationUnit.Slot.fillClass,
      Class.gather, List.flatMap_append, List.flatMap_cons]
    exact ((reads.around _ _).around _ _).append_left _
  · rw [(checkUnit_own ((CompilationUnit.own_fill slot e' span).2 ⟨blank, own'⟩) booleanClauses).1,
      declarationErrors_fill _ slot e e', unitRules_fill registry booleanClauses slot e e']

end Check

end Contracts
