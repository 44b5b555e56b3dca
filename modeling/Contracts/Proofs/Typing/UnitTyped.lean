import Contracts.Proofs.Parsing.UnitSound
import Contracts.Proofs.Typing.MemberTyped
import Contracts.Proofs.Typing.Recorded

/-! Checking a unit that was read without an error finds nothing wrong exactly when the
unit is well typed, and then it records the types of the judgement (`checkUnit_exact`). A
check that goes through all classes is one that nothing stops behind any of them, so no
fault is left at its end. -/

namespace Contracts

/-! ### What a unit that is well typed declares -/

theorem ParamsTyped.denotes {u : CompilationUnit} {Γ Δ : Site} {ps : List Param}
    (h : ParamsTyped u Γ ps Δ) :
    ∃ τs, List.Forall₂ (fun p τ => Denotes u p.type.text τ) ps τs := by
  induction h with
  | nil => exact ⟨[], .nil⟩
  | cons type _ ih =>
    obtain ⟨τs, others⟩ := ih
    exact ⟨_ :: τs, .cons type others⟩

theorem ClassTyped.declares {u : CompilationUnit} {c c' : Class} (h : ClassTyped u c c') :
    c.Declares u := by
  obtain ⟨fields, methods, members⟩ := h
  refine ⟨fields, methods, fun f hf => ?_, fun m hm => ?_⟩
  · obtain ⟨_, typed⟩ := Check.exists_of_forall₂ members _ (Class.mem_fields.1 hf)
    cases typed with
    | field type _ => exact ⟨_, type⟩
  · obtain ⟨_, typed⟩ := Check.exists_of_forall₂ members _ (Class.mem_methods.1 hm)
    cases typed with
    | method h =>
      obtain ⟨type, params, -, -, -⟩ := h
      obtain ⟨τs, hτs⟩ := params.denotes
      exact ⟨⟨τs, _⟩, hτs, type⟩

theorem WellTyped.declares {u u' : CompilationUnit} (h : WellTyped u u') : u.Declares := by
  refine ⟨h.distinct, fun c hc => ?_⟩
  obtain ⟨_, typed⟩ := Check.exists_of_forall₂ h.classes c hc
  exact typed.declares

/-- Nothing is open and no fault has been found. -/
structure CheckState.Idle (s : CheckState) : Prop where
  fault : s.fault = none
  depth : s.contexts.depth = 0
  outside : s.contexts.current = {}

namespace Check

open CheckState

variable {rules : Rules} {u : CompilationUnit} {s : CheckState}

/-! ### Going through the classes -/

theorem Gives.idle {α : Type} {m : Check α} {a : α} (h : Gives m s a) (hm : Keeps Grows m)
    (idle : s.Idle) : (m.run s).2.Idle := by
  obtain ⟨n, hn⟩ := (hm s).contexts
  refine ⟨h.fault.trans idle.fault, ?_, (hm s).current.trans idle.outside⟩
  rw [hn, ContextStack.depth_cycled]
  exact idle.depth

theorem run_stopBehind (c : Class) (idle : s.Idle) : (stopBehind c).run s = (none, s) := by
  unfold stopBehind
  simp only [StateT.run_bind, StateT.run_get, pure_bind, idle.fault, idle.depth, if_true]
  rfl

theorem gives_checkClasses_iff (hrules : rules.For u) {cs cs' : List Class}
    (declares : ∀ c ∈ cs, c.Declares u) (fresh : ∀ c ∈ cs, c.Fresh) (idle : s.Idle) :
    Gives (checkClasses rules cs) s (none, cs') ↔ List.Forall₂ (ClassTyped u) cs cs' := by
  induction cs generalizing s cs' with
  | nil =>
    unfold checkClasses
    rw [gives_pure_iff, List.forall₂_nil_left_iff, Prod.mk.injEq, eq_self_iff_true, true_and]
    exact eq_comm
  | cons c cs ih =>
    rw [List.forall_mem_cons] at declares fresh
    have first {c' : Class} : Gives (checkClass rules c) s c' ↔ ClassTyped u c c' :=
      gives_checkClass_iff hrules declares.1 fresh.1 idle.outside
    unfold checkClasses
    constructor
    · intro h
      obtain ⟨c', hc, h⟩ := h.of_bind (keeps_checkClass _ _) fun _ =>
        .bind (keeps_stopBehind _) fun stop => by
          cases stop with
          | some e => exact .pure _
          | none => exact .bind (keeps_checkClasses _ _) fun _ => .pure _
      have idle' := hc.idle (keeps_checkClass _ _) idle
      rw [gives_look_iff (run_stopBehind c idle')] at h
      obtain ⟨⟨stop, rest⟩, others, h⟩ := h.of_bind (keeps_checkClasses _ _) fun _ => .pure _
      obtain ⟨rfl, rfl⟩ := Prod.mk.inj (gives_pure_iff.1 h)
      exact .cons (first.1 hc) ((ih declares.2 fresh.2 idle').1 others)
    · intro h
      cases h with
      | cons hc others =>
        have hc := first.2 hc
        have idle' := hc.idle (keeps_checkClass _ _) idle
        refine .bind hc ?_
        rw [gives_look_iff (run_stopBehind c idle')]
        exact .bind ((ih declares.2 fresh.2 idle').2 others) (.pure _ _)

/-- Behind a class at which the check was not given up there is no fault. -/
theorem fault_of_stopBehind {c : Class} (h : ((stopBehind c).run s).1 = none) :
    s.fault = none := by
  unfold stopBehind at h
  cases hfault : s.fault with
  | none => rfl
  | some e => simp [hfault] at h

/-- A check that has gone through all classes leaves no fault. -/
theorem fault_of_checkClasses {cs : List Class} (start : cs = [] → s.fault = none)
    (h : ((checkClasses rules cs).run s).1.1 = none) :
    ((checkClasses rules cs).run s).2.fault = none := by
  induction cs generalizing s with
  | nil => exact start rfl
  | cons c cs ih =>
    unfold checkClasses at h ⊢
    rw [run_bind, run_bind, state_stopBehind] at h ⊢
    cases hstop : ((stopBehind c).run ((checkClass rules c).run s).2).1 with
    | some e =>
      rw [hstop] at h
      nomatch h
    | none =>
      rw [hstop] at h
      exact ih (fun _ => fault_of_stopBehind hstop) h

/-! ### The whole check -/

/-- Collects what a unit declares and checks its classes, on a checker that knows none. -/
def inspect (u : CompilationUnit) : Check (Option CheckError × List Class) := do
  let table ← collect { registry := .standard } u
  checkClasses { registry := .standard, classes := table } u.classes

theorem gives_inspect_iff {cs : List Class} (fresh : u.Fresh) (idle : s.Idle) :
    Gives (inspect u) s (none, cs) ↔ WellTyped u ⟨cs⟩ := by
  constructor
  · intro h
    obtain ⟨table, first, h⟩ := h.of_bind (keeps_collect _ _) fun _ => keeps_checkClasses _ _
    obtain ⟨declares, hrules⟩ := for_of_collect first
    have idle' := first.idle (keeps_collect _ _) idle
    exact ⟨declares.distinct, (gives_checkClasses_iff hrules declares.classes fresh idle').1 h⟩
  · intro h
    have declares := h.declares
    obtain ⟨table, first⟩ := gives_collect (s := s) declares
    have hrules := (for_of_collect first).2
    have idle' := first.idle (keeps_collect _ _) idle
    exact .bind first ((gives_checkClasses_iff hrules declares.classes fresh idle').2 h.classes)

end Check

namespace Checker

open Check

theorem idle_start : CheckState.Idle {} := ⟨rfl, rfl, rfl⟩

theorem checked_new (u : CompilationUnit) :
    (new .standard true).checked u = (inspect u).run {} := rfl

theorem classes_check_new (u : CompilationUnit) :
    ((new .standard true).check u).unit.classes = ((inspect u).run {}).1.2 := by
  rw [check_eq, ← checked_new]
  split <;> rfl

/-- On a new checker, a check that goes through all classes leaves no fault. -/
theorem fault_of_checked {u : CompilationUnit}
    (h : ((new .standard true).checked u).1.1 = none) :
    ((new .standard true).checked u).2.fault = none := by
  refine fault_of_checkClasses (fun hnil => ?_) h
  unfold collected collect
  rw [hnil]
  rfl

/-- Nothing is found exactly when the whole check gives classes. -/
theorem check_eq_ok_iff (u : CompilationUnit) :
    ((new .standard true).check u).result = .ok [] ↔
      Gives (inspect u) {} (none, ((new .standard true).check u).unit.classes) := by
  rw [check_eq]
  cases hstop : ((new .standard true).checked u).1.1 with
  | some e =>
    refine iff_of_false (fun h => nomatch h) fun h => ?_
    have stop := congrArg Prod.fst h.result
    rw [← checked_new, hstop] at stop
    nomatch stop
  | none =>
    have fault := fault_of_checked hstop
    constructor
    · intro h
      refine ⟨Prod.ext hstop rfl, Except.ok.inj h, fault⟩
    · exact fun h => congrArg Except.ok h.errors

end Checker

/-- A unit that was read without an error is checked on a new checker without a finding
exactly when it is well typed. The check then gives the unit that the judgement gives, in
which every reference to an earlier state has the type of its rule recorded and none has the
type that stands for a mistake. -/
theorem checkUnit_exact {source : String} {u : CompilationUnit}
    (read : parseUnit .standard source = ⟨u, []⟩) :
    (checkUnit .standard true u = .ok [] ↔ ∃ u', WellTyped u u') ∧
      ∀ u', WellTyped u u' →
        ((Checker.new .standard true).check u).unit = u' ∧
          ∀ t ∈ u'.stateTypes, ∃ τ, t = some τ ∧ τ ≠ .error := by
  have fresh : (parseUnit .standard source).unit.Fresh := fresh_parseUnit (by rw [read])
  rw [read] at fresh
  have given {cs : List Class} : Check.Gives (Check.inspect u) {} (none, cs) ↔ WellTyped u ⟨cs⟩ :=
    Check.gives_inspect_iff fresh Checker.idle_start
  have same {cs : List Class} (h : WellTyped u ⟨cs⟩) :
      ((Checker.new .standard true).check u).unit.classes = cs := by
    rw [Checker.classes_check_new, (given.2 h).result]
  refine ⟨⟨fun h => ?_, fun ⟨⟨cs⟩, h⟩ => ?_⟩, fun ⟨cs⟩ h => ⟨?_, h.recorded⟩⟩
  · exact ⟨_, given.1 ((Checker.check_eq_ok_iff u).1 h)⟩
  · refine (Checker.check_eq_ok_iff u).2 ?_
    rw [same h]
    exact given.2 h
  · exact congrArg CompilationUnit.mk (same h)

/-- A class whose method refers to the state at its entry and to the one at a label. -/
theorem checkUnit_exact_counter :
    let source := "class C \x7b int n; ensures n > \\old(n); " ++
      "void m() \x7b s: assert n > \\old(n, s); \x7d \x7d"
    let u := (parseUnit .standard source).unit
    parseUnit .standard source = ⟨u, []⟩ ∧
      ∃ u', WellTyped u u' ∧ u'.stateTypes = [some .int, some .int] := by
  intro source u
  have errors : (parseUnit .standard source).errors = [] := by decide +kernel
  have read : parseUnit .standard source = ⟨u, []⟩ := by rw [← errors]
  have checked : checkUnit .standard true u = .ok [] := by decide +kernel
  obtain ⟨u', typed⟩ := (checkUnit_exact read).1.1 checked
  have same := ((checkUnit_exact read).2 u' typed).1
  refine ⟨read, u', typed, ?_⟩
  rw [← same]
  decide +kernel

end Contracts
