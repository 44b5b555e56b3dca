import Contracts.Typing.Checker
import Mathlib.Order.Defs.Unbundled

/-! What checking leaves of the state that it was started in. Frames are closed in
the order in which they were opened, so the stack of contexts comes back but for its
counts; errors are only added, and a fault that has been found stays
(`CheckState.Grows`). Inferring the type of an expression also leaves the declared
names alone (`CheckState.Extends`), and to the expression it does nothing but record
types (`Expr.Resolves`). -/

namespace Contracts

/-! ### Counts of the stack -/

namespace ContextStack

/-- The stack after `n` more frames have been opened and closed again. -/
def cycled (n : Nat) (s : ContextStack) : ContextStack :=
  { s with pushes := s.pushes + n, pops := s.pops + n }

theorem cycled_cycled (m n : Nat) (s : ContextStack) :
    (s.cycled m).cycled n = s.cycled (m + n) := by
  simp only [cycled, Nat.add_assoc]

@[simp] theorem current_cycled (n : Nat) (s : ContextStack) : (s.cycled n).current = s.current := rfl

@[simp] theorem depth_cycled (n : Nat) (s : ContextStack) : (s.cycled n).depth = s.depth := rfl

/-- Inside a clause only the clause of the context is another one. -/
theorem current_enter (d : Descriptor) (s : ContextStack) :
    (s.enter (some d)).current = { s.current with clause := some d } := rfl

/-- Closing a frame forgets the clause and the label that were set in it. -/
theorem pop_cycled_enter (clause : Option Descriptor) (n : Nat) (s : ContextStack) :
    ((s.enter clause).cycled n).pop = s.cycled (n + 1) := by
  cases clause
  all_goals
    simp only [enter, push, modifyTop, cycled, pop]
    congr 1
    omega

/-- Opening puts a frame on top of the stack and counts it. -/
theorem enter_eq (clause : Option Descriptor) (s : ContextStack) :
    ∃ top, s.enter clause = { s with frames := top :: s.frames, pushes := s.pushes + 1 } := by
  cases clause <;> exact ⟨_, rfl⟩

theorem pop_cycled_setLabel (label : StateLabel) (n : Nat) (s : ContextStack) :
    (((s.enter none).setLabel label).cycled n).pop = s.cycled (n + 1) := by
  rw [← pop_cycled_enter none n s]
  rfl

end ContextStack

/-! ### States of a check -/

namespace CheckState

/-- What checking any part of a unit may do to the state. -/
structure Grows (s t : CheckState) : Prop where
  contexts : ∃ n, t.contexts = s.contexts.cycled n
  errors : s.errors <+: t.errors
  fault : s.fault.isSome → t.fault = s.fault

/-- What inferring the type of an expression may do to the state. -/
structure Extends (s t : CheckState) : Prop extends Grows s t where
  names : t.names = s.names

theorem Grows.refl (s : CheckState) : Grows s s :=
  ⟨⟨0, rfl⟩, List.prefix_refl _, fun _ => rfl⟩

theorem Grows.trans {s t u : CheckState} (h : Grows s t) (k : Grows t u) : Grows s u := by
  obtain ⟨m, hm⟩ := h.contexts
  obtain ⟨n, hn⟩ := k.contexts
  refine ⟨⟨m + n, ?_⟩, h.errors.trans k.errors, fun found => ?_⟩
  · rw [hn, hm, ContextStack.cycled_cycled]
  · have kept := h.fault found
    rw [k.fault (kept ▸ found), kept]

theorem Extends.refl (s : CheckState) : Extends s s := ⟨.refl s, rfl⟩

theorem Extends.trans {s t u : CheckState} (h : Extends s t) (k : Extends t u) : Extends s u :=
  ⟨h.toGrows.trans k.toGrows, k.names.trans h.names⟩

instance : Std.Refl Grows := ⟨Grows.refl⟩

instance : IsTrans CheckState Grows := ⟨fun _ _ _ => Grows.trans⟩

instance : Std.Refl Extends := ⟨Extends.refl⟩

instance : IsTrans CheckState Extends := ⟨fun _ _ _ => Extends.trans⟩

theorem Grows.current {s t : CheckState} (h : Grows s t) :
    t.contexts.current = s.contexts.current := by
  obtain ⟨n, hn⟩ := h.contexts
  rw [hn, ContextStack.current_cycled]

theorem Extends.report (s : CheckState) (errors : List TypeError) :
    Extends s { s with errors := s.errors ++ errors } :=
  ⟨⟨⟨0, rfl⟩, List.prefix_append _ _, fun _ => rfl⟩, rfl⟩

end CheckState

/-! ### Checks that keep a relation -/

namespace Check

open CheckState

variable {α β : Type} {R : CheckState → CheckState → Prop}

/-- The state behind the check stands in the relation to the state before it. -/
def Keeps (R : CheckState → CheckState → Prop) (m : Check α) : Prop := ∀ s, R s (m.run s).2

theorem run_bind (m : Check α) (f : α → Check β) (s : CheckState) :
    (m >>= f).run s = (f (m.run s).1).run (m.run s).2 := rfl

namespace Keeps

theorem pure [Std.Refl R] (a : α) : Keeps R (Pure.pure a : Check α) := fun s => Std.Refl.refl s

theorem bind [IsTrans CheckState R] {m : Check α} {f : α → Check β} (hm : Keeps R m)
    (hf : ∀ a, Keeps R (f a)) : Keeps R (m >>= f) := fun s =>
  IsTrans.trans _ _ _ (hm s) (hf _ _)

theorem grows {m : Check α} (h : Keeps Extends m) : Keeps Grows m := fun s => (h s).toGrows

theorem reportAll (errors : List TypeError) : Keeps Extends (reportAll errors) := fun s =>
  .report s errors

theorem report (fault : TypeFault) (span : Span) : Keeps Extends (report fault span) := fun s =>
  .report s _

/-- A frame of its own is closed behind a check. -/
theorem within_grows {m : Check α} (clause : Option Descriptor) (h : Keeps Grows m) :
    Keeps Grows (within clause m) := fun s => by
  have inner := h { s with contexts := s.contexts.enter clause }
  obtain ⟨n, hn⟩ := inner.contexts
  refine ⟨⟨n + 1, ?_⟩, inner.errors, inner.fault⟩
  rw [run_within, ← ContextStack.pop_cycled_enter clause, ← hn]

theorem within {m : Check α} (clause : Option Descriptor) (h : Keeps Extends m) :
    Keeps Extends (within clause m) := fun s =>
  ⟨within_grows clause h.grows s, (h { s with contexts := s.contexts.enter clause }).names⟩

end Keeps

/-! ### Results of checks -/

/-- The check gives only results that have the property. -/
def Returns (P : α → Prop) (m : Check α) : Prop := ∀ s, P (m.run s).1

namespace Returns

variable {P : β → Prop} {Q : α → Prop}

theorem any (m : Check α) : Returns (fun _ => True) m := fun _ => trivial

theorem pure {b : β} (h : P b) : Returns P (Pure.pure b) := fun _ => h

theorem bind {m : Check α} {f : α → Check β} (hm : Returns Q m)
    (hf : ∀ a, Q a → Returns P (f a)) : Returns P (m >>= f) := fun s => hf _ (hm s) _

/-- What a check gives does not depend on whose frame it runs in. -/
theorem within {m : Check β} (clause : Option Descriptor) (h : Returns P m) :
    Returns P (within clause m) := fun _ => h _

end Returns

end Check

end Contracts
