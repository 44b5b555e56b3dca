import Contracts.Proofs.Grammar.Registered
import Contracts.Proofs.Typing.Growth

/-! What a check adds. A check looks at the context that it is started in and at the names that
the method has declared, and whatever it does to the state it adds to it: so a run from any
state is told by one effect (`Check.Local`). Errors that were found before, frames further
out and the counts of the stack make no difference to it. -/

namespace Contracts

/-- What running a check gives, and what it adds to a state. -/
structure Effect (α : Type) where
  value : α
  errors : List TypeError := []
  /-- The number of frames that were opened and closed again. -/
  cycles : Nat := 0
  fault : Option CheckError := none
  names : List String

namespace Effect

variable {α β : Type}

def on (e : Effect α) (s : CheckState) : α × CheckState :=
  (e.value,
    { contexts := s.contexts.cycled e.cycles
      errors := s.errors ++ e.errors
      fault := s.fault.or e.fault
      names := e.names })

/-- One effect and another one behind it. -/
def andThen (e : Effect α) (f : Effect β) : Effect β where
  value := f.value
  errors := e.errors ++ f.errors
  cycles := e.cycles + f.cycles
  fault := e.fault.or f.fault
  names := f.names

/-- The same in a frame of its own. -/
def cycled (e : Effect α) : Effect α := { e with cycles := e.cycles + 1 }

theorem on_andThen (e : Effect α) (f : Effect β) (s : CheckState) :
    (e.andThen f).on s = f.on (e.on s).2 := by
  simp only [on, andThen, ContextStack.cycled_cycled, List.append_assoc, Option.or_assoc]

end Effect

namespace Check

open CheckState

variable {α β : Type}

/-- The effect of a check that is started in this context, with nothing found yet and these
names declared. -/
def effect (m : Check α) (c : Context) (names : List String) : Effect α :=
  let r := m.run { contexts := { base := c }, names }
  ⟨r.1, r.2.errors, r.2.contexts.pushes, r.2.fault, r.2.names⟩

/-- The effect of a check and of another one behind it. -/
def effectBind (m : Check α) (f : α → Check β) (c : Context) (names : List String) : Effect β :=
  (m.effect c names).andThen ((f (m.effect c names).value).effect c (m.effect c names).names)

/-- The check adds to whatever state it is started in what it adds to a new one. It notes no
fault if `faultless` is the case, and leaves the names alone if `blind` is. -/
structure Local (faultless blind : Prop) (m : Check α) : Prop where
  run : ∀ s, m.run s = (m.effect s.contexts.current s.names).on s
  fault : faultless → ∀ c names, (m.effect c names).fault = none
  names : blind → ∀ c names names',
    m.effect c names' = { m.effect c names with names := names' }

/-- A function that tells all runs of a check tells its effect. -/
theorem effect_eq {m : Check α} (out : Context → List String → Effect α)
    (h : ∀ s, m.run s = (out s.contexts.current s.names).on s) : m.effect = out := by
  funext c names
  have run := h { contexts := { base := c }, names }
  rw [effect, run]
  simp [Effect.on, ContextStack.cycled, ContextStack.current]

namespace Local

variable {faultless blind : Prop} {m : Check α}

theorem of_out (out : Context → List String → Effect α)
    (run : ∀ s, m.run s = (out s.contexts.current s.names).on s)
    (fault : faultless → ∀ c names, (out c names).fault = none)
    (names : blind → ∀ c names names', out c names' = { out c names with names := names' }) :
    Local faultless blind m := by
  have same := effect_eq out run
  refine ⟨fun s => ?_, fun h c ns => ?_, fun h c ns ns' => ?_⟩
  · rw [same, run]
  · rw [same, fault h]
  · rw [same]
    exact names h c ns ns'

/-! ### Rules -/

theorem pure (a : α) : Local faultless blind (Pure.pure a : Check α) := by
  refine .of_out (fun _ names => { value := a, names }) (fun s => ?_) (fun _ _ _ => rfl)
    fun _ _ _ _ => rfl
  simp only [Effect.on, List.append_nil, Option.or_none]
  rfl

theorem run_bind {f : α → Check β} (hm : Local faultless blind m)
    (hf : ∀ a, Local faultless blind (f a)) (s : CheckState) :
    (m >>= f).run s = (effectBind m f s.contexts.current s.names).on s := by
  rw [Check.run_bind, hm.run, (hf _).run, effectBind, Effect.on_andThen]
  rfl

theorem effect_bind {f : α → Check β} (hm : Local faultless blind m)
    (hf : ∀ a, Local faultless blind (f a)) : (m >>= f).effect = effectBind m f :=
  effect_eq _ (run_bind hm hf)

theorem bind {f : α → Check β} (hm : Local faultless blind m)
    (hf : ∀ a, Local faultless blind (f a)) : Local faultless blind (m >>= f) := by
  refine .of_out (effectBind m f) (run_bind hm hf) (fun h c ns => ?_) fun h c ns ns' => ?_
  · simp only [effectBind, Effect.andThen, hm.fault h, (hf _).fault h, Option.or_none]
  · rw [effectBind, hm.names h c ns ns']
    dsimp only
    rw [(hf _).names h c (m.effect c ns).names ns']
    rfl

theorem reportAll (errors : List TypeError) : Local faultless blind (reportAll errors) := by
  refine .of_out (fun _ names => { value := (), errors, names }) (fun s => ?_)
    (fun _ _ _ => rfl) fun _ _ _ _ => rfl
  simp only [Effect.on, Option.or_none]
  rfl

theorem report (fault : TypeFault) (span : Span) : Local faultless blind (report fault span) :=
  reportAll _

theorem context : Local faultless blind context := by
  refine .of_out (fun c names => { value := c, names }) (fun s => ?_) (fun _ _ _ => rfl)
    fun _ _ _ _ => rfl
  simp only [Effect.on, List.append_nil, Option.or_none]
  rfl

/-- A descriptor is no fault where the registry holds it. -/
theorem isRegistered {rules : Rules} {d : Descriptor}
    (h : faultless → rules.registry.Holds d) : Local faultless blind (isRegistered rules d) := by
  let out (_ : Context) (names : List String) : Effect Bool :=
    if rules.registry.get? d.keyword = some d then { value := true, names }
    else { value := false, fault := some (.foreignDescriptor d.keyword), names }
  refine .of_out out (fun s => ?_) (fun hf c ns => ?_) fun _ c ns ns' => ?_
  · rw [run_isRegistered]
    dsimp only [out]
    split <;> simp [Effect.on, ContextStack.cycled]
  · exact congrArg Effect.fault (if_pos (h hf))
  · dsimp only [out]
    split <;> rfl

/-- The context of a frame that is opened in another context. -/
def inside (clause : Option Descriptor) (c : Context) : Context :=
  match clause with
  | none => c
  | some d => { c with clause := some d }

theorem current_enter (clause : Option Descriptor) (s : ContextStack) :
    (s.enter clause).current = inside clause s.current := by
  cases clause <;> rfl

theorem within (clause : Option Descriptor) (hm : Local faultless blind m) :
    Local faultless blind (Check.within clause m) := by
  refine .of_out (fun c names => (m.effect (inside clause c) names).cycled) (fun s => ?_)
    (fun h c ns => hm.fault h _ _) fun h c ns ns' => ?_
  · rw [run_within, hm.run, current_enter]
    simp only [Effect.on, Effect.cycled, ContextStack.pop_cycled_enter]
  · rw [hm.names h _ ns ns']
    rfl

/-- A label is set in a frame of its own, which takes it back. -/
theorem run_labeled (label : StateLabel) (hm : Local faultless blind m) (s : CheckState) :
    (Check.within none (setLabel label >>= fun _ => m)).run s =
      (m.effect { s.contexts.current with label := some label } s.names).cycled.on s := by
  rw [run_within, Check.run_bind, run_setLabel, hm.run]
  simp only [Effect.on, Effect.cycled, ContextStack.pop_cycled_setLabel]
  rfl

theorem effect_labeled (label : StateLabel) (hm : Local faultless blind m) :
    (Check.within none (setLabel label >>= fun _ => m)).effect =
      fun c names => (m.effect { c with label := some label } names).cycled :=
  effect_eq _ (run_labeled label hm)

theorem labeled (label : StateLabel) (hm : Local faultless blind m) :
    Local faultless blind (Check.within none (setLabel label >>= fun _ => m)) := by
  refine .of_out (fun c names => (m.effect { c with label := some label } names).cycled)
    (run_labeled label hm) (fun h c ns => hm.fault h _ _) fun h c ns ns' => ?_
  rw [hm.names h _ ns ns']
  rfl

/-- A reference to an earlier state reports what is wrong with it and reads its argument, if
nothing is wrong, under its label. -/
theorem reference_eq (head : StateHead) (args : List Expr) (scope : Scope)
    (read : Option Scope → Check α) :
    Check.within none (enterState head args scope >>= read) = (do
      let clause := (← Check.context).clause
      let errors := head.errors args clause scope
      let label := head.label args scope
      Check.reportAll errors
      Check.within none (setLabel label >>= fun _ =>
        read (if errors.isEmpty then some (scope.asOf clause label) else none))) := rfl

theorem reference {read : Option Scope → Check α} (head : StateHead) (args : List Expr)
    (scope : Scope) (h : ∀ inner, Local faultless blind (read inner)) :
    Local faultless blind (Check.within none (enterState head args scope >>= read)) := by
  rw [reference_eq]
  exact .bind .context fun _ => .bind (.reportAll _) fun _ => .labeled _ (h _)

/-! ### What a state is left with -/

theorem weaken (h : Local faultless blind m) : Local False False m :=
  ⟨h.run, False.elim, False.elim⟩

theorem grows (h : Local False False m) : Keeps Grows m := by
  intro s
  rw [h.run]
  refine ⟨⟨_, rfl⟩, List.prefix_append _ _, fun found => ?_⟩
  obtain ⟨e, he⟩ := Option.isSome_iff_exists.1 found
  simp [Effect.on, he]

theorem extending (h : Local False True m) : Keeps Extends m := by
  intro s
  refine ⟨h.weaken.grows s, ?_⟩
  rw [h.run, h.names trivial _ s.names s.names]
  rfl

end Local

end Check

end Contracts
