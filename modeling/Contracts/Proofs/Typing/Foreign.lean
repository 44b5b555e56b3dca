import Contracts.Proofs.Typing.Meets
import Contracts.Proofs.Typing.Sessions
import Contracts.Proofs.Typing.Through

/-! Descriptors that are not the registry's own. Members meet their descriptors one behind the
other, and the walk through the classes stops behind the first class in which one is foreign
(`Check.stop_sweep`). So a check ends exactly if the registry holds all descriptors that it meets;
otherwise it is given up because of the first one that the registry does not hold, delivers nothing
and leaves no fault (`check_foreign`). -/

namespace Contracts

/-! ### Scopes of members -/

namespace Position.Fits

variable {p : Position} {scope : Scope}

theorem ofClass (className : String) : Position.Fits {} { env := { className } } :=
  ⟨rfl, fun label => by cases label <;> rfl, fun _ => rfl⟩

theorem ofMethod (className : String) (returns : Ty) :
    Position.method.Fits { env := { className, returnType := some returns } } :=
  ⟨rfl, fun label => by cases label <;> rfl, fun _ => rfl⟩

/-- The environment at hand may be fixed as that of the entry. -/
theorem enter (h : p.Fits scope) : p.Fits { scope with entry := some scope.env } := by
  constructor
  · exact h.inMethod
  · intro label
    cases label with
    | entry => exact h.inMethod
    | named name => exact h.earlier (.named name)
  · exact h.labels

end Position.Fits

namespace Check

variable {rules : Rules} {clause : Option Descriptor} {p : Position} {scope : Scope}

theorem fits_declareParams (fits : p.Fits scope) (ps : List Param) :
    Returns p.Fits (declareParams rules scope ps) := by
  induction ps generalizing scope with
  | nil => exact .pure fits
  | cons param ps ih => exact .bind (fits_declare fits _ _) fun _ declared => ih declared

/-! ### Members -/

theorem meets_checkField (className : String) (f : Field) :
    Meets rules.registry none f.met (checkField rules { env := { className } } f) := by
  obtain ⟨type, name, init, ghost, span⟩ := f
  have fits := Position.Fits.ofClass className
  cases init with
  | none => exact .pure _
  | some e =>
    cases ghost with
    | none => exact (meets_inferInit fits _ (some e)).andThen fun _ => .pure _
    | some d =>
      apply Meets.registered
      exact (meets_inferInit (fits.inside d) _ (some e)).inside.andThen fun _ => .pure _

theorem meets_checkTypeClause (className : String) (c : TypeClause) :
    Meets rules.registry none c.met (checkTypeClause rules { env := { className } } c) := by
  apply Meets.registered
  apply (meets_inferClause (.ofClass className) c.descriptor c.expr).andThen
  exact fun _ => .bind (.reportAll _) fun _ => .pure _

theorem meets_checkSpecClauses (fits : p.Fits scope) (cs : List SpecClause) :
    Meets rules.registry clause (cs.flatMap (·.met p)) (checkSpecClauses rules scope cs) := by
  induction cs with
  | nil => exact .pure _
  | cons c cs ih =>
    exact (meets_checkSpecClause fits c).bind fun _ => ih.andThen fun _ => .pure _

theorem meets_checkCases (fits : p.Fits scope) (cs : List SpecCase) :
    Meets rules.registry clause (cs.flatMap fun c => c.clauses.flatMap (·.met p))
      (checkCases rules scope cs) := by
  induction cs with
  | nil => exact .pure _
  | cons c cs ih =>
    exact (meets_checkSpecClauses fits c.clauses).bind fun _ => ih.andThen fun _ => .pure _

theorem meets_checkMethod (className : String) (m : Method) :
    Meets rules.registry none m.met (checkMethod rules className m) := by
  have start := Position.Fits.ofMethod className (declaredType rules m.returnType)
  have declared (scope : Scope) :
      Meets rules.registry none [] (declareParams rules scope m.params) :=
    .of_local (local_declareParams scope m.params)
  rw [Method.met, Method.specClauses, List.flatMap_assoc]
  apply Meets.behind local_forgetNames
  intro _
  apply (declared _).bind_of_returns (fits_declareParams start m.params)
  intro scope fits
  apply (meets_checkCases fits.enter m.cases).bind
  intro _
  exact (meets_checkStatements fits.enter m.body.statements).andThen fun _ => .pure _

theorem meets_checkMember (className : String) (m : Member) :
    Meets rules.registry none m.met (checkMember rules className m) := by
  cases m with
  | field f => exact (meets_checkField className f).andThen fun _ => .pure _
  | clause c => exact (meets_checkTypeClause className c).andThen fun _ => .pure _
  | method m => exact (meets_checkMethod className m).andThen fun _ => .pure _

theorem meets_checkMembers (className : String) (ms : List Member) :
    Meets rules.registry none (ms.flatMap (·.met)) (checkMembers rules className ms) := by
  induction ms with
  | nil => exact .pure _
  | cons m ms ih => exact (meets_checkMember className m).bind fun _ => ih.andThen fun _ => .pure _

theorem meets_checkClass (c : Class) :
    Meets rules.registry none c.met (checkClass rules c) :=
  (meets_checkMembers _ _).andThen fun _ => .pure _

/-! ### Units -/

/-- Outside all clauses and with no frame open, the walk through the classes stops because of the
first foreign descriptor: a class without one is passed, and classes behind one with are not looked
at. -/
theorem stop_sweep {c : Context} (outside : c.clause = none) (cs : List Class) :
    (sweep rules c 0 cs).value.1 = rules.registry.foreign? (cs.flatMap (·.met)) := by
  induction cs with
  | nil => rfl
  | cons d ds ih =>
    have stopped : stop? 0 d ((checkClass rules d).effect c []).fault =
        rules.registry.foreign? d.met := by
      rw [(meets_checkClass d).fault_effect outside, stop?, if_pos rfl, Option.or_none]
    rw [List.flatMap_cons, Registry.foreign?_append, sweep, stopped]
    cases rules.registry.foreign? d.met with
    | none => exact ih
    | some e => rfl

end Check

namespace Checker

/-- Outside all clauses and with no frame open, a check ends unless it meets a foreign
descriptor. -/
theorem result_check (k : Checker) (closed : k.contexts.depth = 0)
    (outside : k.contexts.current.clause = none) (u : CompilationUnit) :
    (∃ errors, k.rules.registry.foreign? u.met = none ∧ (k.check u).result = .ok errors) ∨
      ∃ e, k.rules.registry.foreign? u.met = some e ∧ (k.check u).result = .error e := by
  have stop : (Check.sweep (Check.checkedRules k.rules u) k.contexts.current 0 u.classes).value.1 =
      k.rules.registry.foreign? u.met := Check.stop_sweep outside u.classes
  rw [k.check_told, closed]
  dsimp only
  rw [stop]
  cases k.rules.registry.foreign? u.met with
  | none => exact .inl ⟨_, rfl, rfl⟩
  | some e => exact .inr ⟨e, rfl, rfl⟩

theorem registry_check (k : Checker) (u : CompilationUnit) :
    (k.check u).checker.rules.registry = k.rules.registry := by
  rw [check_told]
  dsimp only
  split <;> rfl

end Checker

namespace Workspace

/-- Checks leave the registry and the frames as they were, also where they are given up. -/
theorem afterAll_checks {w : Workspace} (h : w.Idle) (units : List CompilationUnit) :
    (w.afterAll (units.map .check)).rules.registry = w.rules.registry ∧
      ∃ n, (w.afterAll (units.map .check)).contexts = w.contexts.cycled n := by
  induction units generalizing w with
  | nil => exact ⟨rfl, 0, rfl⟩
  | cons u units ih =>
    obtain ⟨names, after⟩ := after_check h u
    obtain ⟨registry, n, contexts⟩ := ih (idle_after h (.check u))
    obtain ⟨n', closed⟩ := w.checker.check_contexts u
    have kept : (w.after (.check u)).rules.registry = w.rules.registry := by
      rw [after]
      exact w.checker.registry_check u
    have back : (w.after (.check u)).contexts = w.contexts.cycled n' := by
      rw [after]
      exact closed
    constructor
    · exact registry.trans kept
    · refine ⟨n' + n, contexts.trans ?_⟩
      rw [back, ContextStack.cycled_cycled]

/-- Behind whatever checks on a checker that knew no classes, a check is given up exactly if it
meets a foreign descriptor. -/
theorem given_afterAll (registry : Registry) (booleanClauses : Bool)
    (earlier : List CompilationUnit) (unit : CompilationUnit) :
    let call : Call := ⟨(new registry booleanClauses).afterAll (earlier.map .check), unit⟩
    (∃ errors, registry.foreign? unit.met = none ∧ call.given.1 = .ok errors) ∨
      ∃ e, registry.foreign? unit.met = some e ∧ call.given.1 = .error e := by
  intro call
  have start := Idle.new registry booleanClauses
  obtain ⟨same, n, contexts⟩ := afterAll_checks start earlier
  have closed : call.before.contexts.depth = 0 := by
    rw [contexts]
    rfl
  have outside : call.before.contexts.current.clause = none := by
    rw [contexts]
    rfl
  have registry_eq : call.before.checker.rules.registry = registry := same
  have given : call.given.1 = (call.before.checker.check unit).result :=
    congrArg Prod.fst (given_eq (idle_afterAll start _) unit)
  have told := call.before.checker.result_check closed outside unit
  rw [registry_eq, ← given] at told
  exact told

end Workspace

/-- Descriptors that are not the registry's own are found exactly. On a checker that knew no
classes, also behind checks of other units that may have been given up, a check of a unit ends with
type errors exactly if the registry holds every descriptor that is met: those of clauses, of ghost
variables, of ghost fields with an initial value, and of the references to earlier states that are
looked at. Otherwise it is given up because of the first one that the registry does not hold and
delivers nothing. It never leaves a fault for the next check. -/
theorem check_foreign (registry : Registry) (booleanClauses : Bool)
    (earlier : List CompilationUnit) (unit : CompilationUnit) :
    let call : Call := ⟨(Workspace.new registry booleanClauses).afterAll (earlier.map .check), unit⟩
    ((∃ errors, call.given.1 = .ok errors) ↔ ∀ d ∈ unit.met, registry.Holds d) ∧
      (∀ before d behind, unit.met = before ++ d :: behind →
        (∀ e ∈ before, registry.Holds e) → ¬registry.Holds d →
          call.given.1 = .error (.foreignDescriptor d.keyword) ∧ call.delivered = []) ∧
      call.behind.fault = none := by
  intro call
  have idle : call.before.Idle :=
    Workspace.idle_afterAll (.new registry booleanClauses) (earlier.map .check)
  have told := Workspace.given_afterAll registry booleanClauses earlier unit
  refine ⟨?_, ?_, (Workspace.idle_after idle (.check unit)).fault⟩
  · rw [← Registry.foreign?_eq_none_iff]
    rcases told with ⟨errors, clear, result⟩ | ⟨e, foreign, result⟩
    · exact iff_of_true ⟨errors, result⟩ clear
    · rw [foreign, result]
      exact iff_of_false nofun nofun
  · intro before d behind met held other
    rw [met, Registry.foreign?_of_first held other] at told
    rcases told with ⟨errors, clear, -⟩ | ⟨e, foreign, result⟩
    · nomatch clear
    · obtain rfl := Option.some.inj foreign
      refine ⟨result, Call.delivered_of_failed ?_⟩
      rw [result]
      nofun

/-- An invariant with a reference that it does not admit, and behind it another clause and a ghost
field under descriptors of other capabilities. The argument of the reference is not looked at, and
the first of the others is told; the check of a class without them is not disturbed. -/
theorem check_foreign_second_clause :
    let own := Descriptor.ofKind (.typeClause .invariant)
    let other (kind : ClauseKind) :=
      { Descriptor.ofKind kind with capabilities := ⟨false, true, true⟩ }
    let reference (word : StateKeyword) (d : Descriptor) (arg : Expr) : Expr :=
      .state ⟨d, word, [], .origin, .origin⟩ [arg] none
    let inner := reference .old (other (.state .old)) (.missing .origin)
    let pre := reference .pre (.ofKind (.state .pre)) inner
    let clause (d : Descriptor) (e : Expr) : Member := .clause ⟨d, e, none, .origin⟩
    let constraint := other (.typeClause .constraint)
    let ghost : Member :=
      .field ⟨⟨"int", .origin⟩, ⟨"g", .origin⟩, some inner, some (other .declaration), .origin⟩
    let plain : CompilationUnit := ⟨[⟨⟨"A", .origin⟩, [clause own pre], .origin⟩]⟩
    let broken : CompilationUnit :=
      ⟨[⟨⟨"B", .origin⟩, [clause own pre, clause constraint inner, ghost], .origin⟩]⟩
    let first : Call := ⟨.new .standard true, broken⟩
    let second : Call := ⟨first.behind, plain⟩
    first.given.1 = .error (.foreignDescriptor "constraint") ∧ first.delivered = [] ∧
      first.behind.fault = none ∧ ∃ errors, second.given.1 = .ok errors := by
  intro own other reference inner pre clause constraint ghost plain broken first second
  have met : broken.met = [own, .ofKind (.state .pre)] ++ constraint ::
      [other (.state .old), other .declaration, other (.state .old)] := by
    decide +kernel
  have held : ∀ e ∈ [own, .ofKind (.state .pre)], Registry.standard.Holds e :=
    Registry.foreign?_eq_none_iff.1 (by decide +kernel)
  have foreign : ¬Registry.standard.Holds constraint := by
    unfold Registry.Holds
    decide +kernel
  have clear : ∀ d ∈ plain.met, Registry.standard.Holds d :=
    Registry.foreign?_eq_none_iff.1 (by decide +kernel)
  obtain ⟨-, given_up, faultless⟩ := check_foreign .standard true [] broken
  obtain ⟨ends, -⟩ := check_foreign .standard true [broken] plain
  obtain ⟨result, nothing⟩ := given_up _ _ _ met held foreign
  exact ⟨result, nothing, faultless, ends.2 clear⟩

end Contracts
