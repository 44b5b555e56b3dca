import Contracts.Proofs.Grammar.Layers
import Contracts.Proofs.Typing.Found
import Contracts.Proofs.Typing.Through

/-! Points of a method. A statement is checked at a point, which is what is in scope there and
the names that the method has declared so far, and it leads to another point
(`Check.passed`). There is one equation for each form of statement, in terms of what is found
in its expressions; from them a member is told without a run of the checker
(`Check.member_method`). -/

namespace Contracts

/-- Where the check of a method is: what is in scope, and the names declared so far. -/
structure Point where
  scope : Scope
  names : List String

namespace Point

/-- The point behind a declaration; a name that was declared before stays what it is. -/
def declare (p : Point) (name : Name) (type : Ty) : Point :=
  if p.names.contains name.text then p
  else ⟨p.scope.addLocal name.text type, name.text :: p.names⟩

def duplicates (p : Point) (name : Name) : List TypeError :=
  if p.names.contains name.text then [⟨.duplicate name.text, name.span⟩] else []

/-- The point behind a label; one that is in force stays where it is. -/
def label (p : Point) (name : Name) : Point :=
  if p.scope.hasLabel name.text then p else { p with scope := p.scope.addLabel name.text }

@[simp] theorem names_label (p : Point) (name : Name) : (p.label name).names = p.names := by
  unfold label
  split <;> rfl

def labelErrors (p : Point) (name : Name) : List TypeError :=
  if p.scope.hasLabel name.text then [⟨.duplicate name.text, name.span⟩] else []

/-- The setting of an expression that is read here. -/
def setting (p : Point) (c : Context) : Setting := ⟨p.scope, c⟩

/-- The point behind the declaration of a variable. -/
def behind (rules : Rules) (p : Point) (v : Variable) : Point :=
  p.declare v.name (Check.declaredType rules v.type)

/-- The point behind a parameter. -/
def param (rules : Rules) (p : Point) (q : Param) : Point :=
  p.declare q.name (Check.declaredType rules q.type)

/-- What is wrong in the names of parameters. -/
def paramErrors (rules : Rules) (p : Point) : List Param → List TypeError
  | [] => []
  | q :: qs => p.duplicates q.name ++ (p.param rules q).paramErrors rules qs

end Point

namespace Method

/-- The point at which the parameters of a method are declared. -/
def start (rules : Rules) (className : String) (m : Method) : Point where
  scope.env := { className, returnType := some (Check.declaredType rules m.returnType) }
  names := []

/-- The point of the entry of a method, where its parameters are known. -/
def entry (rules : Rules) (className : String) (m : Method) : Point :=
  let p := m.params.foldl (Point.param rules) (m.start rules className)
  { p with scope.entry := some p.scope.env }

end Method

namespace Check

variable {rules : Rules} {c : Context} {names : List String} {p : Setting}

/-! ### Expressions in their places -/

/-- What is wrong in an expression where a type may be asked for. -/
def errorsAs (rules : Rules) (p : Setting) (expected : Option Ty) (e : Expr) : List TypeError :=
  (found rules p e).errors ++ mismatch expected (found rules p e).type e.span

def initErrors (rules : Rules) (p : Setting) (expected : Ty) (init : Option Expr) :
    List TypeError :=
  (init.map (errorsAs rules p (some expected))).getD []

/-- The type that is asked for in a clause, if one is. -/
def clauseType (rules : Rules) : Option Ty := if rules.booleanClauses then some .boolean else none

def clauseErrors (rules : Rules) (p : Setting) (d : Descriptor) (e : Expr) : List TypeError :=
  errorsAs rules (p.inside (some d)) (clauseType rules) e

theorem finds_inferAs (expected : Option Ty) (e : Expr) :
    Finds p.context names (inferAs rules p.scope expected e)
      ((found rules p e).type, (found rules p e).expr) (errorsAs rules p expected e) names :=
  .bind (finds_infer rules p e names) (.map (reports_require _ _ _).finds (.pure _))

theorem finds_inferInit (expected : Ty) (init : Option Expr) :
    Finds p.context names (inferInit rules p.scope expected init)
      (init.map fun e => (found rules p e).expr) (initErrors rules p expected init) names := by
  cases init with
  | none => exact .pure _
  | some e => exact .map (finds_inferAs (some expected) e) (.pure _)

theorem finds_inferClause (d : Descriptor) (e : Expr) :
    Finds p.context names (inferClause rules p.scope d e) (found rules (p.inside (some d)) e).expr
      (clauseErrors rules p d e) names :=
  .map (.within _ (finds_inferAs (p := p.inside (some d)) _ e)) (.pure _)

/-- What a clause is made of and what is wrong in it. -/
theorem finds_checkSpecClause {d : Descriptor} (h : rules.registry.Holds d) (e : Expr)
    (span : Span) :
    Finds p.context names (checkSpecClause rules p.scope ⟨d, e, span⟩)
      ⟨d, (found rules (p.inside (some d)) e).expr, span⟩ (clauseErrors rules p d e) names := by
  refine .next (.isRegistered h) ?_
  rw [if_pos rfl]
  exact .map (finds_inferClause d e) (.pure _)

theorem finds_checkSpecClause_foreign {d : Descriptor} (h : ¬rules.registry.Holds d) (e : Expr)
    (span : Span) :
    Finds p.context names (checkSpecClause rules p.scope ⟨d, e, span⟩) ⟨d, e, span⟩ [] names :=
  .next (.isForeign h) (.pure _)

/-- What is wrong in what a method gives back. -/
def leaveErrors (rules : Rules) (p : Setting) (value : Option Expr) (span : Span) :
    List TypeError :=
  let type := p.scope.env.returnType.getD .void
  match value with
  | some e =>
    if type.isVoid then (found rules p e).errors ++ [⟨.valueInVoid, e.span⟩]
    else errorsAs rules p (some type) e
  | none => if !type.isVoid && !type.isError then [⟨.missingValue, span⟩] else []

theorem finds_checkLeave (value : Option Expr) (span : Span) :
    Finds p.context names (checkLeave rules p.scope value span)
      (value.map fun e => (found rules p e).expr) (leaveErrors rules p value span) names := by
  unfold checkLeave leaveErrors
  cases value with
  | none =>
    dsimp only
    split
    · exact .map (.reportAll _) (.pure _)
    · exact .pure _
  | some e =>
    dsimp only
    split
    · exact .bind (finds_infer rules p e names) (.map (.reportAll _) (.pure _))
    · exact .map (finds_inferAs _ e) (.pure _)

/-! ### Declarations -/

theorem finds_declare (p : Point) (name : Name) (type : Ty) :
    Finds c p.names (declare p.scope name type) (p.declare name type).scope (p.duplicates name)
      (p.declare name type).names := by
  rintro s - hs
  refine ⟨0, s.fault, ?_⟩
  rw [run_declare, hs, Point.declare, Point.duplicates]
  split
  · rw [← hs]
    rfl
  · rw [List.append_nil]
    rfl

theorem finds_declareLabel (p : Point) (label : Name) :
    Finds c names (declareLabel p.scope label) (p.label label).scope (p.labelErrors label)
      names := by
  unfold declareLabel Point.label Point.labelErrors
  split
  · exact .map (.reportAll _) (.pure _)
  · exact .pure _

/-- A variable with its value read at a point. -/
def readVariable (rules : Rules) (p : Setting) (v : Variable) : Variable :=
  { v with init := v.init.map fun e => (found rules p e).expr }

/-- What is wrong in the declaration of a variable. -/
def variableErrors (rules : Rules) (p : Point) (c : Context) (v : Variable) : List TypeError :=
  typeErrors rules v.type ++ (initErrors rules (p.setting c) (declaredType rules v.type) v.init ++
    p.duplicates v.name)

theorem finds_checkVariable (p : Point) (v : Variable) :
    Finds c p.names (checkVariable rules p.scope v)
      (readVariable rules (p.setting c) v, (p.behind rules v).scope) (variableErrors rules p c v)
      (p.behind rules v).names :=
  .bind (reports_resolveType v.type).finds (.bind (finds_inferInit (p := p.setting c) _ v.init)
    (.map (finds_declare p v.name _) (.pure _)))

/-! ### Statements -/

/-- What checking a statement gives: the statement with its types recorded, what is wrong in it,
and the point behind it. -/
structure Passed where
  statement : Statement
  errors : List TypeError
  behind : Point

/-- What is found for a statement at a point. -/
def passed (rules : Rules) (c : Context) (p : Point) (s : Statement) : Passed :=
  let e := (checkStatement rules p.scope s).effect c p.names
  ⟨e.value.1, e.errors, ⟨e.value.2, e.names⟩⟩

/-- What checking statements one behind the other gives, with the names that they leave. -/
structure PassedAll where
  statements : List Statement
  errors : List TypeError
  names : List String

def passedAll (rules : Rules) (c : Context) (p : Point) (ss : List Statement) : PassedAll :=
  let e := (checkStatements rules p.scope ss).effect c p.names
  ⟨e.value, e.errors, e.names⟩

variable {q : Point}

theorem finds_checkStatement (rules : Rules) (c : Context) (q : Point) (s : Statement) :
    Finds c q.names (checkStatement rules q.scope s)
      ((passed rules c q s).statement, (passed rules c q s).behind.scope)
      (passed rules c q s).errors (passed rules c q s).behind.names :=
  (local_checkStatement rules q.scope s (False.elim : False → _)).finds c q.names

theorem finds_checkStatements (rules : Rules) (c : Context) (q : Point) (ss : List Statement) :
    Finds c q.names (checkStatements rules q.scope ss) (passedAll rules c q ss).statements
      (passedAll rules c q ss).errors (passedAll rules c q ss).names :=
  (local_checkStatements rules q.scope ss (False.elim : False → _)).finds c q.names

theorem Finds.passed_eq {s s' : Statement} {r : Point} {errors : List TypeError}
    (h : Finds c q.names (checkStatement rules q.scope s) (s', r.scope) errors r.names) :
    passed rules c q s = ⟨s', errors, r⟩ := by
  obtain ⟨value, found, left⟩ := h.effect
  rw [passed, value, found, left]

theorem Finds.passedAll_eq {ss ss' : List Statement} {left : List String}
    {errors : List TypeError}
    (h : Finds c q.names (checkStatements rules q.scope ss) ss' errors left) :
    passedAll rules c q ss = ⟨ss', errors, left⟩ := by
  obtain ⟨value, found, left⟩ := h.effect
  rw [passedAll, value, found, left]

theorem passed_declare (v : Variable) :
    passed rules c q (.declare v) =
      ⟨.declare (readVariable rules (q.setting c) v), variableErrors rules q c v,
        q.behind rules v⟩ :=
  Finds.passed_eq (.map (finds_checkVariable q v) (.pure _))

theorem passed_ghost {d : Descriptor} (h : rules.registry.Holds d) (v : Variable) :
    passed rules c q (.ghost d v) =
      let inner := Local.inside (some d) c
      ⟨.ghost d (readVariable rules (q.setting inner) v), variableErrors rules q inner v,
        q.behind rules v⟩ := by
  refine Finds.passed_eq (.next (.isRegistered h) ?_)
  rw [if_pos rfl]
  exact .map (.within _ (finds_checkVariable q v)) (.pure _)

theorem passed_ghost_foreign {d : Descriptor} (h : ¬rules.registry.Holds d) (v : Variable) :
    passed rules c q (.ghost d v) = ⟨.ghost d v, [], q⟩ :=
  Finds.passed_eq (.next (.isForeign h) (.pure _))

theorem passed_assign (target : Name) (e : Expr) (span : Span) :
    passed rules c q (.assign target e span) =
      let type := (q.scope.env.typeOf? rules.classes target.text).getD .error
      ⟨.assign target (found rules (q.setting c) e).expr span,
        symbolErrors rules q.scope.env target ++ errorsAs rules (q.setting c) (some type) e, q⟩ :=
  Finds.passed_eq (.bind (reports_variableType _ target).finds
    (.map (finds_inferAs (p := q.setting c) _ e) (.pure _)))

theorem passed_labeled (label : Name) (s : Statement) (span : Span) :
    passed rules c q (.labeled label s span) =
      let body := passed rules c (q.label label) s
      ⟨.labeled label body.statement span, q.labelErrors label ++ body.errors, body.behind⟩ := by
  have body := finds_checkStatement rules c (q.label label) s
  rw [Point.names_label] at body
  exact Finds.passed_eq (.bind (finds_declareLabel q label) (.map body (.pure _)))

theorem passed_clause {d : Descriptor} (h : rules.registry.Holds d) (e : Expr) (span : Span) :
    passed rules c q (.clause ⟨d, e, span⟩) =
      ⟨.clause ⟨d, (found rules ((q.setting c).inside (some d)) e).expr, span⟩,
        clauseErrors rules (q.setting c) d e, q⟩ :=
  Finds.passed_eq (.map (finds_checkSpecClause (p := q.setting c) h e span) (.pure _))

theorem passed_clause_foreign {k : SpecClause} (h : ¬rules.registry.Holds k.descriptor) :
    passed rules c q (.clause k) = ⟨.clause k, [], q⟩ :=
  Finds.passed_eq
    (.map (finds_checkSpecClause_foreign (p := q.setting c) h k.expr k.span) (.pure _))

theorem passed_leave (value : Option Expr) (span : Span) :
    passed rules c q (.leave value span) =
      ⟨.leave (value.map fun e => (found rules (q.setting c) e).expr) span,
        leaveErrors rules (q.setting c) value span, q⟩ :=
  Finds.passed_eq (.map (finds_checkLeave (p := q.setting c) value span) (.pure _))

theorem passed_expr (e : Expr) :
    passed rules c q (.expr e) =
      ⟨.expr (found rules (q.setting c) e).expr, (found rules (q.setting c) e).errors, q⟩ :=
  Finds.passed_eq (.map (finds_infer rules (q.setting c) e q.names) (.pure _))

/-- Behind a block stands what was in scope before it, with the names that it has declared. -/
theorem passed_block (ss : List Statement) (span : Span) :
    passed rules c q (.block ss span) =
      let inner := passedAll rules c q ss
      ⟨.block inner.statements span, inner.errors, { q with names := inner.names }⟩ :=
  Finds.passed_eq (.map (finds_checkStatements rules c q ss) (.pure _))

theorem passed_missing (span : Span) :
    passed rules c q (.missing span) = ⟨.missing span, [], q⟩ := Finds.passed_eq (.pure _)

theorem passedAll_nil : passedAll rules c q [] = ⟨[], [], q.names⟩ :=
  Finds.passedAll_eq (.pure _)

theorem passedAll_cons (s : Statement) (ss : List Statement) :
    passedAll rules c q (s :: ss) =
      let first := passed rules c q s
      let others := passedAll rules c first.behind ss
      ⟨first.statement :: others.statements, first.errors ++ others.errors, others.names⟩ :=
  Finds.passedAll_eq (.bind (finds_checkStatement rules c q s)
    (.map (finds_checkStatements rules c _ ss) (.pure _)))

/-- The point behind statements that stand one behind the other. -/
def behindAll (rules : Rules) (c : Context) : Point → List Statement → Point :=
  List.foldl fun q s => (passed rules c q s).behind

theorem passedAll_append (ss ts : List Statement) :
    passedAll rules c q (ss ++ ts) =
      let first := passedAll rules c q ss
      let others := passedAll rules c (behindAll rules c q ss) ts
      ⟨first.statements ++ others.statements, first.errors ++ others.errors, others.names⟩ := by
  induction ss generalizing q with
  | nil => simp only [passedAll_nil, List.nil_append, behindAll, List.foldl_nil]
  | cons s ss ih =>
    simp only [List.cons_append, passedAll_cons, ih, behindAll, List.foldl_cons, List.append_assoc]

end Check

namespace Point

/-- The point of what stands inside a layer. -/
def enter (rules : Rules) (c : Context) (p : Point) : Statement.Layer → Point
  | .labeled label _ => p.label label
  | .block before _ _ => Check.behindAll rules c p before

/-- The point of a statement inside layers, the outermost first. -/
def enterAll (rules : Rules) (c : Context) (p : Point) (layers : List Statement.Layer) : Point :=
  layers.foldl (enter rules c) p

end Point

namespace Check

variable {rules : Rules} {c : Context} {names : List String} {p : Setting} {q : Point}

/-! ### Members -/

theorem finds_declareParams (p : Point) (ps : List Param) :
    Finds c p.names (declareParams rules p.scope ps) (ps.foldl (Point.param rules) p).scope
      (p.paramErrors rules ps) (ps.foldl (Point.param rules) p).names := by
  induction ps generalizing p with
  | nil => exact .pure _
  | cons q ps ih => exact .bind (finds_declare p q.name _) (ih (p.param rules q))

/-- The clauses of a specification with the types recorded that are found in a setting. -/
def readClause (rules : Rules) (p : Setting) (k : SpecClause) : SpecClause :=
  { k with expr := (found rules (p.inside (some k.descriptor)) k.expr).expr }

theorem finds_checkSpecClauses {ks : List SpecClause}
    (h : ∀ k ∈ ks, rules.registry.Holds k.descriptor) :
    Finds p.context names (checkSpecClauses rules p.scope ks) (ks.map (readClause rules p))
      (ks.flatMap fun k => clauseErrors rules p k.descriptor k.expr) names := by
  induction ks with
  | nil => exact .pure _
  | cons k ks ih =>
    rw [List.forall_mem_cons] at h
    exact .bind (finds_checkSpecClause h.1 k.expr k.span) (.map (ih h.2) (.pure _))

theorem finds_checkCases {ks : List SpecCase}
    (h : ∀ k ∈ ks, ∀ s ∈ k.clauses, rules.registry.Holds s.descriptor) :
    Finds p.context names (checkCases rules p.scope ks)
      (ks.map fun k => { k with clauses := k.clauses.map (readClause rules p) })
      (ks.flatMap fun k => k.clauses.flatMap fun s => clauseErrors rules p s.descriptor s.expr)
      names := by
  induction ks with
  | nil => exact .pure _
  | cons k ks ih =>
    rw [List.forall_mem_cons] at h
    exact .bind (finds_checkSpecClauses h.1) (.map (ih h.2) (.pure _))

/-- The setting of what stands outside methods. -/
def outside (className : String) (c : Context) : Setting := ⟨{ env := { className } }, c⟩

theorem Finds.member_eq {className : String} {m m' : Member} {errors : List TypeError}
    {left : List String} (h : Finds c [] (checkMember rules className m) m' errors left) :
    checkedMember rules c className m = m' ∧ foundIn rules c className m = errors :=
  ⟨h.effect.1, h.effect.2.1⟩

theorem member_field {f : Field} (h : ∀ d ∈ f.ghost, rules.registry.Holds d)
    (className : String) (c : Context) :
    let p := (outside className c).inside f.ghost
    checkedMember rules c className (.field f) =
        .field { f with init := f.init.map fun e => (found rules p e).expr } ∧
      foundIn rules c className (.field f) =
        initErrors rules p (declaredType rules f.type) f.init := by
  obtain ⟨type, name, init, ghost, span⟩ := f
  let p := (outside className c).inside ghost
  have finds : Finds c []
      (checkField rules { env := { className } } ⟨type, name, init, ghost, span⟩)
      ⟨type, name, init.map fun e => (found rules p e).expr, ghost, span⟩
      (initErrors rules p (declaredType rules type) init) [] := by
    unfold checkField
    cases init with
    | none => exact .pure _
    | some e =>
      cases ghost with
      | none => exact .map (finds_inferInit (p := p) _ (some e)) (.pure _)
      | some d =>
        refine .next (.isRegistered (h d rfl)) ?_
        rw [if_pos rfl]
        exact .map (.within _ (finds_inferInit (p := p) _ (some e))) (.pure _)
  exact Finds.member_eq (.map finds (.pure _))

theorem member_clause {k : TypeClause} (h : rules.registry.Holds k.descriptor)
    (className : String) (c : Context) :
    let p := outside className c
    checkedMember rules c className (.clause k) =
        .clause { k with expr := (found rules (p.inside (some k.descriptor)) k.expr).expr } ∧
      foundIn rules c className (.clause k) =
        clauseErrors rules p k.descriptor k.expr ++ unknownMethods rules className k.frame := by
  let p := outside className c
  have finds : Finds c [] (checkTypeClause rules { env := { className } } k)
      { k with expr := (found rules (p.inside (some k.descriptor)) k.expr).expr }
      (clauseErrors rules p k.descriptor k.expr ++ unknownMethods rules className k.frame) [] := by
    refine .next (.isRegistered h) ?_
    rw [if_pos rfl]
    exact .bind (finds_inferClause (p := p) k.descriptor k.expr) (.map (.reportAll _) (.pure _))
  exact Finds.member_eq (.map finds (.pure _))

/-- A method is checked from its entry on: first what it specifies, then its body. -/
theorem member_method {m : Method}
    (h : ∀ k ∈ m.cases, ∀ s ∈ k.clauses, rules.registry.Holds s.descriptor)
    (className : String) (c : Context) :
    let start := m.start rules className
    let p := (m.entry rules className).setting c
    let body := passedAll rules c (m.entry rules className) m.body.statements
    checkedMember rules c className (.method m) =
        .method { m with
          cases := m.cases.map fun k => { k with clauses := k.clauses.map (readClause rules p) }
          body := { m.body with statements := body.statements } } ∧
      foundIn rules c className (.method m) =
        start.paramErrors rules m.params ++
          ((m.cases.flatMap fun k => k.clauses.flatMap fun s =>
            clauseErrors rules p s.descriptor s.expr) ++ body.errors) := by
  let start := m.start rules className
  let p := (m.entry rules className).setting c
  let body := passedAll rules c (m.entry rules className) m.body.statements
  have forget : Finds c [] (modify fun s => { s with names := [] } : Check Unit) () [] [] := by
    rintro s - -
    refine ⟨0, s.fault, ?_⟩
    rw [List.append_nil]
    rfl
  have finds : Finds c [] (checkMethod rules className m)
      { m with
        cases := m.cases.map fun k => { k with clauses := k.clauses.map (readClause rules p) }
        body := { m.body with statements := body.statements } }
      (start.paramErrors rules m.params ++
        ((m.cases.flatMap fun k => k.clauses.flatMap fun s =>
          clauseErrors rules p s.descriptor s.expr) ++ body.errors)) body.names :=
    .next forget (.bind (finds_declareParams start m.params) (.bind (finds_checkCases (p := p) h)
      (.map (finds_checkStatements rules c (m.entry rules className) m.body.statements) (.pure _))))
  exact Finds.member_eq (.map finds (.pure _))

/-- The rules under which the members of a unit are checked. -/
def unitRules (registry : Registry) (booleanClauses : Bool) (u : CompilationUnit) : Rules :=
  checkedRules (Checker.new registry booleanClauses).rules u

/-- Where every descriptor is the registry's own, a unit is told from its declarations and its
members. -/
theorem checkUnit_own {registry : Registry} {u : CompilationUnit} (own : u.Own registry)
    (booleanClauses : Bool) :
    checkUnit registry booleanClauses u =
        .ok ((Checker.new registry booleanClauses).declarationErrors u ++
          u.gather (foundIn (unitRules registry booleanClauses u) {})) ∧
      ((Checker.new registry booleanClauses).check u).unit =
        u.mapMembers (checkedMember (unitRules registry booleanClauses u) {}) := by
  obtain ⟨n, checked⟩ := (Checker.new registry booleanClauses).check_own u rfl own
  rw [checkUnit, checked]
  exact ⟨rfl, rfl⟩

end Check

end Contracts
