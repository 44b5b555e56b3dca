import Contracts.Proofs.Typing.Alike
import Contracts.Proofs.Typing.Balance
import Contracts.Proofs.Typing.Workspace

/-! Sessions on one workspace: units are checked in it, and frames are opened, changed and closed
around the checks. Every workspace that a session comes to is idle (`Workspace.idle_afterAll`), and
a call neither loses nor repeats a type error (`Call.conserves`), so over a session the type errors
that were produced are those that were delivered and those that are left (`sessions_deliver`). -/

namespace Contracts

/-- What is done with a checker from outside. -/
inductive Event
  | check (unit : CompilationUnit)
  /-- A frame is opened, inside the given clause if there is one. -/
  | enter (clause : Option Descriptor)
  /-- What the innermost open frame says is changed. -/
  | change (f : Context → Context)
  /-- The innermost open frame is closed. -/
  | leave

namespace Workspace

/-- The workspace of a checker that knows no classes. -/
def new (registry : Registry) (booleanClauses : Bool) : Workspace :=
  { rules := { registry, booleanClauses } }

def after (w : Workspace) : Event → Workspace
  | .check unit => ((Work.check unit).run w).2
  | .enter clause => { w with contexts := w.contexts.enter clause }
  | .change f => if w.contexts.depth = 0 then w else { w with contexts := w.contexts.modifyTop f }
  | .leave => { w with contexts := w.contexts.pop }

def afterAll (w : Workspace) (session : List Event) : Workspace := session.foldl after w

end Workspace

/-- A check of a unit, with the workspace that it was started in. -/
structure Call where
  before : Workspace
  unit : CompilationUnit

namespace Call

def behind (c : Call) : Workspace := c.before.after (.check c.unit)

/-- What is given back: the type errors, unless the check was given up, and the unit with its types
recorded. -/
def given (c : Call) : Except CheckError (List TypeError) × CompilationUnit :=
  ((Work.check c.unit).run c.before).1

/-- The type errors that the call hands over. -/
def delivered (c : Call) : List TypeError :=
  match c.given.1 with
  | .ok errors => errors
  | .error _ => []

/-- The type errors that the call finds: those of the same call where all earlier ones are
delivered. -/
def produced (c : Call) : List TypeError :=
  let alone : Call := { c with before := { c.before with errors := [] } }
  alone.delivered ++ alone.behind.errors

end Call

namespace Workspace

/-- The call that is made, if one is. -/
def callOf (w : Workspace) : Event → List Call
  | .check unit => [⟨w, unit⟩]
  | _ => []

/-- The calls of a session, one behind the other. -/
def calls (w : Workspace) : List Event → List Call
  | [] => []
  | e :: session => w.callOf e ++ calls (w.after e) session

/-! ### Steps -/

variable {w w' : Workspace}

theorem after_check (h : w.Idle) (unit : CompilationUnit) :
    ∃ names, w.after (.check unit) =
      { w.withChecker (w.checker.check unit).checker with names := names } := by
  obtain ⟨names, run⟩ := Work.run_check h unit
  exact ⟨names, congrArg Prod.snd run⟩

theorem idle_after (h : w.Idle) (e : Event) : (w.after e).Idle := by
  cases e with
  | check unit =>
    obtain ⟨names, run⟩ := after_check h unit
    rw [run]
    exact ⟨⟨h.entry, h.labels, h.labelOrder⟩, h.fault⟩
  | enter clause => exact ⟨⟨h.entry, h.labels, h.labelOrder⟩, h.fault⟩
  | change f =>
    rw [after]
    split
    · exact h
    · exact ⟨⟨h.entry, h.labels, h.labelOrder⟩, h.fault⟩
  | leave => exact ⟨⟨h.entry, h.labels, h.labelOrder⟩, h.fault⟩

theorem idle_afterAll (h : w.Idle) (session : List Event) : (w.afterAll session).Idle := by
  induction session generalizing w with
  | nil => exact h
  | cons e session ih => exact ih (idle_after h e)

theorem Idle.new (registry : Registry) (booleanClauses : Bool) :
    (new registry booleanClauses).Idle := ⟨⟨rfl, rfl, rfl⟩, rfl⟩

/-- Nothing but open frames is changed from outside. -/
theorem base_after (h : w.Idle) (e : Event) :
    (w.after e).contexts.base = w.contexts.base := by
  cases e with
  | check unit =>
    obtain ⟨names, run⟩ := after_check h unit
    obtain ⟨n, contexts⟩ := w.checker.check_contexts unit
    have base := congrArg ContextStack.base contexts
    rw [run]
    exact base
  | enter clause =>
    obtain ⟨top, entered⟩ := w.contexts.enter_eq clause
    have base := congrArg ContextStack.base entered
    exact base
  | change f =>
    rw [after]
    split
    · rfl
    · next h =>
      obtain ⟨top, outer, frames⟩ :=
        List.exists_cons_of_length_pos (Nat.pos_of_ne_zero h)
      simp only [ContextStack.modifyTop, frames]
  | leave =>
    rw [after, ContextStack.pop]
    split <;> rfl

theorem base_afterAll (h : w.Idle) (session : List Event) :
    (w.afterAll session).contexts.base = w.contexts.base := by
  induction session generalizing w with
  | nil => rfl
  | cons e session ih => exact (ih (idle_after h e)).trans (base_after h e)

/-! ### Workspaces that cannot be told apart -/

theorem given_eq (h : w.Idle) (unit : CompilationUnit) :
    Call.given ⟨w, unit⟩ = ((w.checker.check unit).result, (w.checker.check unit).unit) := by
  obtain ⟨names, run⟩ := Work.run_check h unit
  exact congrArg Prod.fst run

/-- Whatever is done in both, they stay alike. -/
theorem alike_after (h : w.Idle) (h' : w'.Idle) (alike : w.checker.Alike w'.checker) (e : Event) :
    (w.after e).checker.Alike (w'.after e).checker := by
  cases e with
  | check unit =>
    obtain ⟨names, run⟩ := after_check h unit
    obtain ⟨names', run'⟩ := after_check h' unit
    rw [run, run']
    exact (alike.check unit).2.2
  | enter clause => exact ⟨alike.rules, alike.contexts.enter clause, alike.pending⟩
  | change f =>
    have depth : w.contexts.depth = w'.contexts.depth := alike.contexts.depth
    rw [after, after, depth]
    split
    · exact alike
    · exact ⟨alike.rules, alike.contexts.modifyTop f, alike.pending⟩
  | leave => exact ⟨alike.rules, alike.contexts.pop, alike.pending⟩

/-- Sessions in workspaces that are alike give the same. -/
theorem given_calls (h : w.Idle) (h' : w'.Idle) (alike : w.checker.Alike w'.checker)
    (session : List Event) :
    (w.calls session).map Call.given = (w'.calls session).map Call.given := by
  induction session generalizing w w' with
  | nil => rfl
  | cons e session ih =>
    have first : (w.callOf e).map Call.given = (w'.callOf e).map Call.given := by
      cases e with
      | check unit =>
        obtain ⟨result, checked, -⟩ := alike.check unit
        rw [callOf, callOf, List.map_singleton, List.map_singleton, given_eq h, given_eq h',
          result, checked]
      | _ => rfl
    rw [calls, calls, List.map_append, List.map_append, first,
      ih (idle_after h e) (idle_after h' e) (alike_after h h' alike e)]

end Workspace

/-! ### Deliveries -/

namespace Call

variable {c : Call}

theorem answer (h : c.before.Idle) :
    c.given.1 = (c.before.checker.check c.unit).result ∧
      c.behind.errors = (c.before.checker.check c.unit).checker.pending := by
  obtain ⟨names, run⟩ := Workspace.after_check h c.unit
  exact ⟨congrArg Prod.fst (Workspace.given_eq h c.unit), by rw [behind, run]; rfl⟩

/-- Of the type errors that were not delivered before a call and those that it finds, none is
lost or repeated and all keep their places. A call that is not given up leaves none behind. -/
theorem conserves (h : c.before.Idle) :
    c.delivered ++ c.behind.errors = c.before.errors ++ c.produced ∧
      (c.given.1.isOk → c.behind.errors = []) := by
  let alone : Call := { c with before := { c.before with errors := [] } }
  have idle : alone.before.Idle := ⟨⟨h.entry, h.labels, h.labelOrder⟩, h.fault⟩
  obtain ⟨given, left⟩ := answer h
  obtain ⟨given', left'⟩ := answer idle
  have found : c.produced = alone.delivered ++ alone.behind.errors := rfl
  rw [found, delivered, delivered, left, left', given, given']
  obtain ⟨errors, result', pending', result, pending⟩ | ⟨e, result', result, pending⟩ :=
    c.before.checker.check_pending c.unit
  · change (alone.before.checker.check alone.unit).result = _ at result'
    change (alone.before.checker.check alone.unit).checker.pending = _ at pending'
    rw [result, result', pending, pending', List.append_nil, List.append_nil]
    exact ⟨rfl, fun _ => rfl⟩
  · change (alone.before.checker.check alone.unit).result = _ at result'
    rw [result, result', pending]
    exact ⟨rfl, nofun⟩

/-- A call that is given up delivers nothing. -/
theorem delivered_of_failed (h : ¬c.given.1.isOk) : c.delivered = [] := by
  rw [delivered]
  cases result : c.given.1 with
  | ok errors => exact absurd (by rw [result]; rfl) h
  | error e => rfl

end Call

namespace Workspace

variable {w : Workspace}

theorem idle_calls (h : w.Idle) (session : List Event) :
    ∀ c ∈ w.calls session, c.before.Idle := by
  induction session generalizing w with
  | nil => exact List.forall_mem_nil _
  | cons e session ih =>
    rw [calls, List.forall_mem_append]
    refine ⟨?_, ih (idle_after h e)⟩
    cases e with
    | check unit => exact List.forall_mem_singleton.2 h
    | _ => exact List.forall_mem_nil _

theorem callOf_conserves (h : w.Idle) (e : Event) :
    (w.callOf e).flatMap Call.delivered ++ (w.after e).errors =
      w.errors ++ (w.callOf e).flatMap Call.produced := by
  cases e with
  | check unit =>
    rw [callOf, List.flatMap_singleton, List.flatMap_singleton]
    exact (Call.conserves (c := ⟨w, unit⟩) h).1
  | enter clause => exact (List.append_nil _).symm
  | change f =>
    rw [after]
    split <;> exact (List.append_nil _).symm
  | leave => exact (List.append_nil _).symm

/-- What the calls of a session deliver, and what they leave, is what was there before and what
they produce. -/
theorem calls_conserve (h : w.Idle) (session : List Event) :
    (w.calls session).flatMap Call.delivered ++ (w.afterAll session).errors =
      w.errors ++ (w.calls session).flatMap Call.produced := by
  induction session generalizing w with
  | nil => exact (List.append_nil _).symm
  | cons e session ih =>
    have others := ih (idle_after h e)
    rw [calls, List.flatMap_append, List.flatMap_append, List.append_assoc]
    change _ ++ (_ ++ ((w.after e).afterAll session).errors) = _
    rw [others, ← List.append_assoc, callOf_conserves h, List.append_assoc]

/-- A call of a session is made where a part of the session leads to. -/
theorem exists_of_calls {session : List Event} {earlier later : List Call} {c : Call}
    (split : w.calls session = earlier ++ c :: later) :
    ∃ first, earlier = w.calls first ∧ c.before = w.afterAll first := by
  induction session generalizing w earlier with
  | nil => exact absurd split.symm (List.append_ne_nil_of_right_ne_nil _ (List.cons_ne_nil _ _))
  | cons e session ih =>
    -- The first call is the one that is made by the first event, or the event makes none.
    have later_call {earlier : List Call}
        (split : (w.after e).calls session = earlier ++ c :: later) :
        ∃ first, w.callOf e ++ earlier = w.calls first ∧ c.before = w.afterAll first := by
      obtain ⟨first, rfl, before⟩ := ih split
      exact ⟨e :: first, rfl, before⟩
    cases e with
    | check unit =>
      rw [calls, callOf, List.singleton_append] at split
      cases earlier with
      | nil =>
        obtain ⟨rfl, -⟩ := List.cons.inj split
        exact ⟨[], rfl, rfl⟩
      | cons x earlier =>
        obtain ⟨rfl, others⟩ := List.cons.inj split
        exact later_call others
    | _ => exact later_call split

/-- Before a call, what the calls that were given up since the last other call produced is not
delivered yet. -/
theorem errors_before (h : w.Idle) (clear : w.errors = []) {session : List Event}
    {earlier failed later : List Call} {call : Call}
    (split : w.calls session = earlier ++ failed ++ call :: later)
    (ended : ∀ c ∈ earlier.getLast?, c.given.1.isOk) (given_up : ∀ c ∈ failed, ¬c.given.1.isOk) :
    call.before.errors = failed.flatMap Call.produced := by
  have conserved {before after : List Call} {c : Call}
      (split : w.calls session = before ++ c :: after) :
      before.flatMap Call.delivered ++ c.before.errors = before.flatMap Call.produced := by
    obtain ⟨first, rfl, hc⟩ := exists_of_calls split
    rw [hc, calls_conserve h, clear, List.nil_append]
  have balanced : earlier.flatMap Call.delivered = earlier.flatMap Call.produced := by
    obtain rfl | ⟨others, last, rfl⟩ := List.eq_nil_or_concat earlier
    · rfl
    · have split_last : w.calls session = others ++ last :: (failed ++ call :: later) := by
        rw [split]
        simp
      have idle : last.before.Idle := idle_calls h session last (by rw [split_last]; simp)
      obtain ⟨conserves, none_left⟩ := last.conserves idle
      rw [none_left (ended last (by simp)), List.append_nil] at conserves
      rw [List.concat_eq_append, List.flatMap_append, List.flatMap_append, List.flatMap_singleton,
        List.flatMap_singleton, conserves, ← List.append_assoc, conserved split_last]
  have nothing : failed.flatMap Call.delivered = [] :=
    List.flatMap_eq_nil_iff.2 fun c hc => Call.delivered_of_failed (given_up c hc)
  have all := conserved split
  rw [List.flatMap_append, List.flatMap_append, nothing, List.append_nil, balanced] at all
  exact List.append_cancel_left all

end Workspace

/-- Sessions on checkers that know no classes at first. No fault, entry or label is ever left, and a
unit is checked as by the checker that is left when these are forgotten. Sessions that lead to the
same rules, undelivered type errors and open frames are not told apart by anything that follows.
And type errors are delivered exactly once: what the calls deliver and what is left is, in order,
what the calls produce, and a call that is not given up delivers, in front of its own, what the
calls that were given up right before it produced. -/
theorem sessions_deliver :
    (∀ (registry : Registry) (booleanClauses : Bool) (session : List Event),
      let w := (Workspace.new registry booleanClauses).afterAll session
      (w.fault = none ∧ w.entry = none ∧ w.labels = [] ∧ w.labelOrder = []) ∧
        ∀ unit : CompilationUnit,
          let outcome := w.checker.check unit
          (Call.mk w unit).given = (outcome.result, outcome.unit) ∧
            (w.after (.check unit)).checker = outcome.checker) ∧
    (∀ (registry registry' : Registry) (booleanClauses booleanClauses' : Bool)
      (session session' : List Event),
      let w := (Workspace.new registry booleanClauses).afterAll session
      let w' := (Workspace.new registry' booleanClauses').afterAll session'
      w.rules.Same w'.rules → w.errors = w'.errors → w.contexts.frames = w'.contexts.frames →
        ∀ later : List Event, (w.calls later).map Call.given = (w'.calls later).map Call.given) ∧
    ∀ (registry : Registry) (booleanClauses : Bool) (session : List Event),
      let start := Workspace.new registry booleanClauses
      (start.calls session).flatMap Call.delivered ++ (start.afterAll session).errors =
          (start.calls session).flatMap Call.produced ∧
        ∀ (earlier failed later : List Call) (call : Call) (errors : List TypeError),
          start.calls session = earlier ++ failed ++ call :: later →
          (∀ c ∈ earlier.getLast?, c.given.1.isOk) → (∀ c ∈ failed, ¬c.given.1.isOk) →
          call.given.1 = .ok errors →
            errors = failed.flatMap Call.produced ++ call.produced := by
  refine ⟨fun registry booleanClauses session => ?_,
    fun registry registry' booleanClauses booleanClauses' session session' => ?_,
    fun registry booleanClauses session => ⟨?_, ?_⟩⟩
  · have idle := Workspace.idle_afterAll (.new registry booleanClauses) session
    refine ⟨⟨idle.fault, idle.entry, idle.labels, idle.labelOrder⟩, fun unit => ?_⟩
    obtain ⟨names, after⟩ := Workspace.after_check idle unit
    exact ⟨Workspace.given_eq idle unit, by rw [after]; rfl⟩
  · intro w w' rules errors frames later
    have idle : w.Idle := Workspace.idle_afterAll (.new registry booleanClauses) session
    have idle' : w'.Idle := Workspace.idle_afterAll (.new registry' booleanClauses') session'
    have base : w.contexts.base = w'.contexts.base :=
      (Workspace.base_afterAll (.new registry booleanClauses) session).trans
        (Workspace.base_afterAll (.new registry' booleanClauses') session').symm
    exact Workspace.given_calls idle idle' ⟨rules, ⟨base, frames⟩, errors⟩ later
  · exact Workspace.calls_conserve (.new registry booleanClauses) session
  · intro earlier failed later call errors split ended given_up result
    have idle : call.before.Idle :=
      Workspace.idle_calls (.new registry booleanClauses) session call (by rw [split]; simp)
    obtain ⟨conserves, none_left⟩ := call.conserves idle
    rw [none_left (by rw [result]; rfl), List.append_nil, Call.delivered, result] at conserves
    rw [← Workspace.errors_before (.new registry booleanClauses) rfl split ended given_up]
    exact conserves

/-- A class with a descriptor that is not the registry's own, another class that is checked inside
a frame, and that class again: the last call gives what all three found. -/
theorem sessions_deliver_given_up :
    let start := Workspace.new .standard true
    let other := { Descriptor.ofKind (.typeClause .invariant) with capabilities := .all }
    let foreign : TypeClause := ⟨other, .missing .origin, none, .origin⟩
    let field (type : String) : Member :=
      .field ⟨⟨type, .origin⟩, ⟨"x", .origin⟩, none, none, .origin⟩
    let broken : CompilationUnit := ⟨[⟨⟨"A", .origin⟩, [field "M", .clause foreign], .origin⟩]⟩
    let plain : CompilationUnit := ⟨[⟨⟨"B", .origin⟩, [field "N"], .origin⟩]⟩
    let first : Call := ⟨start, broken⟩
    let second : Call := ⟨first.behind.after (.enter none), plain⟩
    let third : Call := ⟨second.behind.after .leave, plain⟩
    let around := start.afterAll [.check broken, .enter none, .leave]
    start.calls [.check broken, .enter none, .check plain, .leave, .check plain] =
        [first, second, third] ∧
      ((start.afterAll [.check broken]).calls [.check plain]).map Call.given =
        (around.calls [.check plain]).map Call.given ∧
      ∃ errors, third.given.1 = .ok errors ∧
        errors = first.produced ++ (second.produced ++ third.produced) ∧
        errors.map (·.message) =
          ["cannot find type `M`", "cannot find type `N`", "`B` is already defined in this scope",
            "cannot find type `N`"] := by
  intro start other foreign field broken plain first second third around
  obtain ⟨-, determined, delivered⟩ := sessions_deliver
  have made : start.calls [.check broken, .enter none, .check plain, .leave, .check plain] =
      [first, second, third] := rfl
  have evaluated : first.given.1.isOk = false ∧ second.given.1.isOk = false ∧
      third.given.1.isOk = true ∧ third.delivered.map (·.message) =
        ["cannot find type `M`", "cannot find type `N`", "`B` is already defined in this scope",
          "cannot find type `N`"] := by
    decide +kernel
  obtain ⟨first_fails, second_fails, third_ends, messages⟩ := evaluated
  obtain ⟨errors, given⟩ : ∃ errors, third.given.1 = .ok errors := by
    cases result : third.given.1 with
    | ok errors => exact ⟨errors, rfl⟩
    | error e => rw [result] at third_ends; nomatch third_ends
  have failed : ∀ c ∈ [first, second], ¬c.given.1.isOk := by
    simp [first_fails, second_fails]
  have opening : ∀ c ∈ ([] : List Call).getLast?, c.given.1.isOk := by simp
  have produced := (delivered .standard true _).2 [] [first, second] [] third errors made opening
    failed given
  have passed (w : Workspace) : w.rules.Same (w.afterAll [.enter none, .leave]).rules ∧
      w.errors = (w.afterAll [.enter none, .leave]).errors ∧
      w.contexts.frames = (w.afterAll [.enter none, .leave]).contexts.frames := ⟨.refl _, rfl, rfl⟩
  obtain ⟨rules, left, frames⟩ := passed (start.afterAll [.check broken])
  refine ⟨made, ?_, errors, given, ?_, ?_⟩
  · exact determined .standard .standard true true [.check broken]
      [.check broken, .enter none, .leave] rules left frames [.check plain]
  · rw [produced]
    simp
  · rw [← messages, Call.delivered, given]

end Contracts
