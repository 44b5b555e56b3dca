import Contracts.Proofs.Parsing.Registered
import Contracts.Proofs.Typing.Agreement
import Contracts.Proofs.Typing.Points

/-! Clauses whose bodies need not be boolean. Whether they have to is asked once for each clause,
behind what is found in its body, and the answer is used for nothing else. So a check that does not
ask gives what a check gives that does, but for the reports on the bodies as a whole
(`checkUnit_relaxed`). -/

namespace Contracts

/-! ### Bodies of clauses -/

/-- The body of a clause, in the setting that it is read in. -/
structure Body where
  setting : Setting
  expr : Expr

/-- What is reported on a body as a whole where it has to be boolean. -/
def Body.objection? (rules : Rules) (b : Body) : Option TypeError :=
  let type := (Check.found rules b.setting b.expr).type
  if type = .boolean ∨ type = .error then none
  else some ⟨.incompatibleTypes .boolean type, b.expr.span⟩

/-- The body of a clause that stands in a setting. -/
def Setting.body (p : Setting) (d : Descriptor) (e : Expr) : Body := ⟨p.inside (some d), e⟩

/-- The bodies of the clauses among statements, in their order. -/
def Statement.bodies (rules : Rules) (c : Context) (q : Point) : Statement → List Body
  | labeled label s _ => s.bodies rules c (q.label label)
  | clause k => [(q.setting c).body k.descriptor k.expr]
  | block ss _ => listBodies rules c q ss
  | _ => []
where
  listBodies (rules : Rules) (c : Context) (q : Point) : List Statement → List Body
    | [] => []
    | s :: ss => s.bodies rules c q ++ listBodies rules c (Check.passed rules c q s).behind ss

/-- The bodies of the clauses of a class or of a method, those of its specification first. -/
def Member.bodies (rules : Rules) (className : String) : Member → List Body
  | field _ => []
  | clause k => [(Check.outside className {}).body k.descriptor k.expr]
  | method m =>
    let q := m.entry rules className
    (m.specClauses.map fun s => (q.setting {}).body s.descriptor s.expr) ++
      Statement.bodies.listBodies rules {} q m.body.statements

def CompilationUnit.bodies (rules : Rules) (u : CompilationUnit) : List Body :=
  u.gather (Member.bodies rules)

/-! ### Reports with and without objections -/

/-- A part of what is reported. -/
inductive ReportPart
  /-- What is found in the body of a clause. -/
  | body (body : Body)
  | other (errors : List TypeError)

namespace ReportPart

def body? : ReportPart → Option Body
  | body b => some b
  | other _ => none

/-- What is reported whether or not bodies have to be boolean. -/
def errors (rules : Rules) : ReportPart → List TypeError
  | body b => (Check.found rules b.setting b.expr).errors
  | other errors => errors

/-- What is reported where bodies have to be boolean: the objection to a body, if there is one, is
behind what is found in it. -/
def strictErrors (rules : Rules) (part : ReportPart) : List TypeError :=
  part.errors rules ++ (part.body?.bind (Body.objection? rules)).toList

end ReportPart

/-- The second report is the first one without the objections to these bodies, each of which stands
behind what is found in its body. -/
def Drops (rules : Rules) (bodies : List Body) (strict relaxed : List TypeError) : Prop :=
  ∃ parts : List ReportPart, parts.filterMap ReportPart.body? = bodies ∧
    parts.flatMap (ReportPart.strictErrors rules) = strict ∧
    parts.flatMap (ReportPart.errors rules) = relaxed

namespace Drops

variable {rules : Rules} {bodies bodies' : List Body} {es es' fs fs' : List TypeError}

theorem same (rules : Rules) (es : List TypeError) : Drops rules [] es es := by
  refine ⟨[.other es], rfl, ?_, ?_⟩
  · simp [ReportPart.strictErrors, ReportPart.errors, ReportPart.body?]
  · simp [ReportPart.errors]

theorem append (h : Drops rules bodies es fs) (h' : Drops rules bodies' es' fs') :
    Drops rules (bodies ++ bodies') (es ++ es') (fs ++ fs') := by
  obtain ⟨parts, rfl, rfl, rfl⟩ := h
  obtain ⟨parts', rfl, rfl, rfl⟩ := h'
  exact ⟨parts ++ parts', List.filterMap_append, List.flatMap_append, List.flatMap_append⟩

/-- Errors in front make no difference. -/
theorem behind (errors : List TypeError) (h : Drops rules bodies es fs) :
    Drops rules bodies (errors ++ es) (errors ++ fs) := (same rules errors).append h

theorem before (h : Drops rules bodies es fs) (errors : List TypeError) :
    Drops rules bodies (es ++ errors) (fs ++ errors) := by
  have both := h.append (same rules errors)
  rwa [List.append_nil] at both

theorem flatMap {ι : Type} {bodies : ι → List Body} {strict relaxed : ι → List TypeError}
    {is : List ι} (h : ∀ i ∈ is, Drops rules (bodies i) (strict i) (relaxed i)) :
    Drops rules (is.flatMap bodies) (is.flatMap strict) (is.flatMap relaxed) := by
  induction is with
  | nil => exact same rules []
  | cons i is ih =>
    rw [List.forall_mem_cons] at h
    exact h.1.append (ih h.2)

end Drops

/-! ### Rules that do not ask -/

/-- The same rules, but that the bodies of clauses need not be boolean. -/
structure Rules.Relaxes (r' r : Rules) : Prop where
  answers : r.Answers r'
  strict : r.booleanClauses = true
  relaxed : r'.booleanClauses = false

theorem Point.param_congr {r r' : Rules} (h : r.Answers r') : Point.param r' = Point.param r := by
  funext p q
  rw [param, param, Check.declaredType_congr h.types]

theorem Point.paramErrors_congr {r r' : Rules} (h : r.Answers r') (p : Point) (ps : List Param) :
    p.paramErrors r' ps = p.paramErrors r ps := by
  induction ps generalizing p with
  | nil => rfl
  | cons q ps ih => rw [paramErrors, paramErrors, param_congr h, ih]

theorem Method.start_congr {r r' : Rules} (h : r.Answers r') (className : String) (m : Method) :
    m.start r' className = m.start r className := by
  rw [start, start, Check.declaredType_congr h.types]

theorem Method.entry_congr {r r' : Rules} (h : r.Answers r') (className : String) (m : Method) :
    m.entry r' className = m.entry r className := by
  rw [entry, entry, Point.param_congr h, start_congr h]

namespace Check

variable {r r' : Rules} {c : Context} {q : Point}

theorem found_congr (h : r.Answers r') (p : Setting) (e : Expr) : found r' p e = found r p e := by
  rw [found, found, infer_congr h]

theorem mismatch_boolean (type : Ty) (span : Span) :
    mismatch (some .boolean) type span =
      (if type = .boolean ∨ type = .error then none
        else some (⟨.incompatibleTypes .boolean type, span⟩ : TypeError)).toList := by
  cases type <;> rfl

/-- The body of a clause is asked for a boolean type, or for none. -/
theorem drops_clause (h : r'.Relaxes r) (p : Setting) (d : Descriptor) (e : Expr) :
    Drops r [p.body d e] (clauseErrors r p d e) (clauseErrors r' p d e) := by
  refine ⟨[.body (p.body d e)], rfl, ?_, ?_⟩
  · rw [clauseErrors, clauseType, if_pos h.strict, errorsAs, mismatch_boolean]
    exact List.append_nil _
  · rw [clauseErrors, clauseType, if_neg (by simp [h.relaxed]), errorsAs, found_congr h.answers]
    rfl

/-! ### Statements -/

/-- Of two ways through a statement, both give the same statement and lead to the same point, and
the second one drops the objections. -/
structure Passed.Relaxes (r : Rules) (bodies : List Body) (strict relaxed : Passed) : Prop where
  statement : relaxed.statement = strict.statement
  behind : relaxed.behind = strict.behind
  errors : Drops r bodies strict.errors relaxed.errors

structure PassedAll.Relaxes (r : Rules) (bodies : List Body) (strict relaxed : PassedAll) :
    Prop where
  statements : relaxed.statements = strict.statements
  names : relaxed.names = strict.names
  errors : Drops r bodies strict.errors relaxed.errors

/-- A statement without clauses is checked in the same way. -/
theorem passed_unasked {s : Statement}
    (same : checkStatement r q.scope s = checkStatement r' q.scope s) :
    (passed r c q s).Relaxes r [] (passed r' c q s) := by
  have equal : passed r' c q s = passed r c q s := by rw [passed, passed, same]
  rw [equal]
  exact ⟨rfl, rfl, .same r _⟩

mutual

theorem passed_relaxes (h : r'.Relaxes r) (c : Context) (q : Point) :
    ∀ s : Statement, s.Own r.registry →
      (passed r c q s).Relaxes r (s.bodies r c q) (passed r' c q s)
  | .declare _, _ =>
    passed_unasked (by simp only [checkStatement, checkVariable_congr h.answers])
  | .ghost _ _, _ =>
    passed_unasked (by
      simp only [checkStatement, isRegistered_congr h.answers, checkVariable_congr h.answers])
  | .assign _ _ _, _ =>
    passed_unasked (by
      simp only [checkStatement, variableType_congr h.answers, inferAs_congr h.answers])
  | .labeled label s span, own => by
    obtain ⟨statement, behind, errors⟩ := passed_relaxes h c (q.label label) s own
    rw [passed_labeled, passed_labeled]
    exact ⟨congrArg (Statement.labeled label · span) statement, behind, errors.behind _⟩
  | .clause ⟨d, e, span⟩, own => by
    have holds : r'.registry.Holds d := h.answers.registry ▸ own.descriptor
    rw [passed_clause own.descriptor, passed_clause holds, found_congr h.answers]
    exact ⟨rfl, rfl, drops_clause h _ d e⟩
  | .leave _ _, _ =>
    passed_unasked (by simp only [checkStatement, checkLeave_congr h.answers])
  | .expr _, _ => passed_unasked (by simp only [checkStatement, infer_congr h.answers])
  | .block ss span, own => by
    obtain ⟨statements, names, errors⟩ := passedAll_relaxes h c q ss own
    rw [passed_block, passed_block]
    exact ⟨congrArg (Statement.block · span) statements,
      congrArg (fun names => { q with names }) names, errors⟩
  | .missing _, _ => passed_unasked rfl

theorem passedAll_relaxes (h : r'.Relaxes r) (c : Context) (q : Point) :
    ∀ ss : List Statement, Statement.Own.listOwn r.registry ss →
      (passedAll r c q ss).Relaxes r (Statement.bodies.listBodies r c q ss) (passedAll r' c q ss)
  | [], _ => by
    rw [passedAll_nil, passedAll_nil]
    exact ⟨rfl, rfl, .same r _⟩
  | s :: ss, own => by
    obtain ⟨statement, behind, errors⟩ := passed_relaxes h c q s own.1
    obtain ⟨statements, names, others⟩ := passedAll_relaxes h c (passed r c q s).behind ss own.2
    simp only [passedAll_cons, behind]
    exact ⟨congrArg₂ List.cons statement statements, names, errors.append others⟩

end

/-! ### Members and units -/

/-- A member is given with the same types recorded, and only the objections to its clauses are
dropped. -/
theorem member_relaxes (h : r'.Relaxes r) (className : String) {m : Member}
    (own : m.Own r.registry) :
    checkedMember r' {} className m = checkedMember r {} className m ∧
      Drops r (m.bodies r className) (foundIn r {} className m) (foundIn r' {} className m) := by
  cases m with
  | field f =>
    have same : checkMember r className (.field f) = checkMember r' className (.field f) := by
      simp only [checkMember, checkField_congr h.answers]
    rw [checkedMember, checkedMember, foundIn, foundIn, same]
    exact ⟨rfl, .same r _⟩
  | clause k =>
    have holds : r'.registry.Holds k.descriptor := h.answers.registry ▸ own.descriptor
    obtain ⟨member, errors⟩ := member_clause own.descriptor className {}
    obtain ⟨member', errors'⟩ := member_clause holds className {}
    rw [member, member', errors, errors', found_congr h.answers,
      ← unknownMethods_congr h.answers className k.frame]
    exact ⟨rfl, (drops_clause h _ k.descriptor k.expr).before _⟩
  | method m =>
    have descriptors := fun k hk s hs => (own.cases k hk s hs).descriptor
    have descriptors' : ∀ k ∈ m.cases, ∀ s ∈ k.clauses, r'.registry.Holds s.descriptor :=
      h.answers.registry ▸ descriptors
    let q := m.entry r className
    have read : readClause r' (q.setting {}) = readClause r (q.setting {}) := by
      funext k
      rw [readClause, readClause, found_congr h.answers]
    have cases : Drops r (m.specClauses.map fun s => (q.setting {}).body s.descriptor s.expr)
        (m.cases.flatMap fun k => k.clauses.flatMap fun s =>
          clauseErrors r (q.setting {}) s.descriptor s.expr)
        (m.cases.flatMap fun k => k.clauses.flatMap fun s =>
          clauseErrors r' (q.setting {}) s.descriptor s.expr) := by
      rw [Method.specClauses, List.map_flatMap]
      refine .flatMap fun k _ => ?_
      rw [List.map_eq_flatMap]
      exact .flatMap fun s _ => drops_clause h _ s.descriptor s.expr
    obtain ⟨statements, -, errors⟩ := passedAll_relaxes h {} q m.body.statements own.body
    obtain ⟨member, found⟩ := member_method descriptors className {}
    obtain ⟨member', found'⟩ := member_method descriptors' className {}
    rw [Method.entry_congr h.answers] at member' found'
    rw [Method.start_congr h.answers, Point.paramErrors_congr h.answers] at found'
    rw [member, member', found, found', read, statements]
    exact ⟨rfl, .behind _ (cases.append errors)⟩

/-- The rules of a unit are the same but for the question. -/
theorem unitRules_relaxes (registry : Registry) (u : CompilationUnit) :
    (unitRules registry false u).Relaxes (unitRules registry true u) where
  answers := ⟨rfl, fun _ => rfl, fun _ _ => rfl, fun _ _ => rfl⟩
  strict := rfl
  relaxed := rfl

end Check

/-- Where the bodies of clauses need not be boolean, a check finds what it finds where they have
to be, in the same order, but for the objections to the bodies of clauses: one for each body that
has a type other than boolean, at the span of the body and behind what is found in it. The same
types are recorded. -/
theorem checkUnit_relaxed {registry : Registry} {u : CompilationUnit} (own : u.Own registry) :
    let rules := Check.unitRules registry true u
    ∃ parts : List ReportPart, parts.filterMap ReportPart.body? = u.bodies rules ∧
      checkUnit registry true u = .ok (parts.flatMap (ReportPart.strictErrors rules)) ∧
      checkUnit registry false u = .ok (parts.flatMap (ReportPart.errors rules)) ∧
      ((Checker.new registry false).check u).unit = ((Checker.new registry true).check u).unit := by
  intro rules
  have relaxes : (Check.unitRules registry false u).Relaxes rules :=
    Check.unitRules_relaxes registry u
  have members (c : Class) (hc : c ∈ u.classes) (m : Member) (hm : m ∈ c.members) :=
    Check.member_relaxes relaxes c.name.text (own c hc m hm)
  have drops : Drops rules (u.bodies rules) (u.gather (Check.foundIn rules {}))
      (u.gather (Check.foundIn (Check.unitRules registry false u) {})) :=
    .flatMap fun c hc => .flatMap fun m hm => (members c hc m hm).2
  obtain ⟨strict, unit⟩ := Check.checkUnit_own own true
  obtain ⟨relaxed, unit'⟩ := Check.checkUnit_own own false
  obtain ⟨parts, bodies, errors, errors'⟩ :=
    drops.behind ((Checker.new registry true).declarationErrors u)
  refine ⟨parts, bodies, strict.trans (congrArg Except.ok errors.symm),
    relaxed.trans (congrArg Except.ok errors'.symm), ?_⟩
  rw [unit, unit']
  refine congrArg CompilationUnit.mk (List.map_congr_left fun c hc => ?_)
  exact congrArg (fun members => { c with members })
    (List.map_congr_left fun m hm => (members c hc m hm).1)

/-- Three bodies of clauses, two of them of type `int` and one of the error type. The initial value
of the field has to be boolean all the same. -/
theorem checkUnit_relaxed_clauses :
    let source := "class C \x7b boolean b = 1; invariant 1; void m() \x7b " ++
      "\x7b assert \\old(2); \x7d assume !3; \x7d \x7d"
    let u := (parseUnit .standard source).unit
    let rules := Check.unitRules .standard true u
    u.Own .standard ∧
      (u.bodies rules).map (fun b => (b.objection? rules).map (·.span)) =
        [some ⟨35, 36⟩, some ⟨58, 65⟩, none] ∧
      ∃ parts : List ReportPart, parts.filterMap ReportPart.body? = u.bodies rules ∧
        checkUnit .standard true u = .ok (parts.flatMap (ReportPart.strictErrors rules)) ∧
        checkUnit .standard false u = .ok (parts.flatMap (ReportPart.errors rules)) ∧
        (parts.flatMap (ReportPart.strictErrors rules)).map (·.fault) =
          [.incompatibleTypes .boolean .int, .incompatibleTypes .boolean .int,
            .incompatibleTypes .boolean .int, .badOperand .not .int] ∧
        (parts.flatMap (ReportPart.errors rules)).map (·.fault) =
          [.incompatibleTypes .boolean .int, .badOperand .not .int] ∧
        ((Checker.new .standard false).check u).unit.stateTypes = [some .int] ∧
        ((Checker.new .standard true).check u).unit.stateTypes = [some .int] := by
  intro source u rules
  have own : u.Own .standard := (registered_parseUnit .standard source).own
  obtain ⟨parts, bodies, strict, relaxed, unit⟩ := checkUnit_relaxed own
  have evaluated : (u.bodies rules).map (fun b => (b.objection? rules).map (·.span)) =
        [some ⟨35, 36⟩, some ⟨58, 65⟩, none] ∧
      (checkUnit .standard true u).toOption.map (List.map (·.fault)) =
        some [.incompatibleTypes .boolean .int, .incompatibleTypes .boolean .int,
          .incompatibleTypes .boolean .int, .badOperand .not .int] ∧
      (checkUnit .standard false u).toOption.map (List.map (·.fault)) =
        some [.incompatibleTypes .boolean .int, .badOperand .not .int] ∧
      ((Checker.new .standard true).check u).unit.stateTypes = [some .int] := by
    decide +kernel
  obtain ⟨objections, faults, faults', types⟩ := evaluated
  rw [strict] at faults
  rw [relaxed] at faults'
  exact ⟨own, objections, parts, bodies, strict, relaxed, Option.some.inj faults,
    Option.some.inj faults', (congrArg CompilationUnit.stateTypes unit).trans types, types⟩

end Contracts
