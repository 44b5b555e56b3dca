import Contracts.Proofs.Grammar.Fresh
import Contracts.Proofs.Typing.Outcomes
import Contracts.Proofs.Typing.Resolution

/-! References that change nothing. Outside methods and in the specification of a method no other
environment is entered, and a reference with a single argument reads it in the scope in which
it would be read itself. Only the label of the context is another one, which nothing but `\result`
looks at (`Check.unlabeled_infer`): what is found in the argument is found in the reference
(`reference_transparent`). -/

namespace Contracts

/-- The expression does not ask for the value that a method returns; inside references to earlier
states it may. -/
def Expr.ResultFree : Expr → Prop
  | result _ => False
  | binary _ left right _ => left.ResultFree ∧ right.ResultFree
  | unary _ operand _ => operand.ResultFree
  | field base _ _ => base.ResultFree
  | call callee args _ => callee.ResultFree ∧ listFree args
  | _ => True
where
  listFree : List Expr → Prop
    | [] => True
    | e :: es => e.ResultFree ∧ listFree es

namespace Check

variable {α β : Type} {rules : Rules} {m : Check α}

/-- The check adds the same under every label that the context may have. -/
structure Unlabeled (m : Check α) : Prop where
  isLocal : Local False False m
  effect_eq : ∀ c label names, m.effect { c with label } names = m.effect c names

namespace Unlabeled

theorem of_contextless (h : Local False False m) (k : Contextless m) : Unlabeled m :=
  ⟨h, fun _ _ _ => k _ _ _⟩

theorem of_reports {a : α} {errors : List TypeError} (h : Reports m a errors) : Unlabeled m :=
  .of_contextless h.isLocal h.contextless

theorem pure (a : α) : Unlabeled (Pure.pure a : Check α) := .of_reports (.pure a)

theorem bind {f : α → Check β} (hm : Unlabeled m) (hf : ∀ a, Unlabeled (f a)) :
    Unlabeled (m >>= f) := by
  refine ⟨.bind hm.isLocal fun a => (hf a).isLocal, fun c label names => ?_⟩
  rw [Local.effect_bind hm.isLocal fun a => (hf a).isLocal, effectBind, effectBind,
    hm.effect_eq, (hf _).effect_eq]

/-- Under a label of its own nothing is left of the one around it. -/
theorem labeled (label : StateLabel) (h : Local False False m) :
    Unlabeled (within none (setLabel label >>= fun _ => m)) := by
  refine ⟨.labeled label h, fun c _ names => ?_⟩
  rw [Local.effect_labeled label h]

theorem reference {read : Option Scope → Check α} (head : StateHead) (args : List Expr)
    (scope : Scope) (h : ∀ inner, Local False False (read inner)) :
    Unlabeled (within none (enterState head args scope >>= read)) := by
  refine ⟨.reference head args scope h, fun c label names => ?_⟩
  -- What is done with the context depends on its clause only.
  let below (clause : Option Descriptor) : Check α := do
    let errors := head.errors args clause scope
    let label := head.label args scope
    Check.reportAll errors
    within none (setLabel label >>= fun _ =>
      read (if errors.isEmpty then some (scope.asOf clause label) else none))
  have unlabeled (clause : Option Descriptor) : Unlabeled (below clause) :=
    .bind (.of_reports (.reportAll _)) fun _ => .labeled _ (h _)
  have step (c : Context) : (within none (enterState head args scope >>= read)).effect c names =
      ({ value := c, names } : Effect Context).andThen ((below c.clause).effect c names) := by
    rw [Local.reference_eq, Local.effect_bind .context fun k => (unlabeled k.clause).isLocal]
    rfl
  rw [step, step, (unlabeled _).effect_eq]
  rfl

end Unlabeled

/-! ### Expressions -/

theorem unlabeled_signature (owner : Ty) (method : Name) (args : List Expr) (span : Span) :
    Unlabeled (callSignature rules owner method args span) :=
  .of_contextless (local_callSignature owner method args span)
    (contextless_signature rules owner method args span)

/-- The three parts of the mutual recursion, in its own cases. -/
theorem unlabeled_infer_all (rules : Rules) :
    (∀ scope e, e.ResultFree → Unlabeled (infer rules scope e)) ∧
    (∀ scope typeArgs es, Expr.ResultFree.listFree es →
      Unlabeled (inferPayload rules scope typeArgs es)) ∧
    ∀ scope params es, Expr.ResultFree.listFree es →
      Unlabeled (inferArgs rules scope params es) := by
  apply infer.mutual_induct _ _ _ ?name ?int ?bool ?result ?binary ?unary ?field ?ownCall
    ?fieldCall ?otherCall ?state ?missing ?noPayload ?payload ?noArgs ?args
  case name => exact fun _ _ _ => .bind (.of_reports (reports_variableType _ _)) fun _ => .pure _
  case int => exact fun _ _ _ _ => .pure _
  case bool => exact fun _ _ _ _ => .pure _
  case result => exact fun _ _ free => free.elim
  case binary =>
    exact fun _ _ _ _ _ left right free => .bind (left free.1) fun _ =>
      .bind (right free.2) fun _ =>
        .bind (.of_contextless (local_binaryType _ _ _ _) (contextless_binary _ _ _ _)) fun _ =>
          .pure _
  case unary =>
    exact fun _ _ _ _ operand free => .bind (operand free) fun _ =>
      .bind (.of_contextless (local_unaryType _ _ _) (contextless_unary _ _ _)) fun _ => .pure _
  case field =>
    exact fun _ _ _ _ base free => .bind (base free) fun _ =>
      .bind (.of_contextless (local_fieldType _ _) (contextless_field _ _ _)) fun _ => .pure _
  case ownCall =>
    exact fun _ _ _ _ args free => .bind (unlabeled_signature _ _ _ _) fun signature =>
      .bind (args signature free.2) fun _ => .pure _
  case fieldCall =>
    exact fun _ _ _ _ _ _ base args free => .bind (base free.1) fun _ =>
      .bind (unlabeled_signature _ _ _ _) fun signature =>
        .bind (args signature free.2) fun _ => .pure _
  case otherCall =>
    intro scope callee args span notName notField hcallee hargs free
    rw [infer_call_eq notName notField]
    exact .bind (hcallee free.1) fun r => .bind (hargs free.2) fun _ =>
      .bind (.of_reports (reports_requireCallable r.1 span)) fun _ => .pure _
  case state =>
    -- Its own label stands around the argument, so `\result` may be there.
    intro scope head args recorded payload free
    have infers (inner : Scope) (types : List Name) (es : List Expr) :
        Local False False (inferPayload rules inner types es) :=
      (local_infer_all rules).2.1 inner types es False.elim
    rw [infer_state_eq]
    apply Unlabeled.bind
      (.of_contextless (.isRegistered False.elim) (contextless_isRegistered rules head.descriptor))
    intro registered
    split
    · rw [bind_assoc]
      apply Unlabeled.reference
      intro inner
      cases inner with
      | none => exact .bind (.pure _) fun _ => .pure _
      | some inner => exact .bind (infers inner _ args) fun _ => .pure _
    · exact .pure _
  case missing => exact fun _ _ _ => .pure _
  case noPayload => exact fun _ _ _ => .pure _
  case payload =>
    exact fun _ _ _ _ e free => .bind (e free.1) fun _ =>
      .bind (.of_reports (reports_resolveTypes _)) fun _ => .pure _
  case noArgs => exact fun _ _ _ => .pure _
  case args =>
    exact fun _ _ _ _ e es free => .bind (e free.1) fun _ =>
      .bind (.of_reports (reports_require _ _ _)) fun _ => .bind (es free.2) fun _ => .pure _

theorem unlabeled_infer (scope : Scope) {e : Expr} (free : e.ResultFree) :
    Unlabeled (infer rules scope e) := (unlabeled_infer_all rules).1 scope e free

end Check

/-! ### References -/

/-- In its own place the scope of a reference is the one at hand. -/
theorem Scope.asOf_eq_self {scope : Scope} {clause : Option Descriptor}
    (place : scope.env.inMethod = false ∨ ∃ d ∈ clause, d.kind.isMethodSpec = true)
    (label : StateLabel) : scope.asOf clause label = scope := by
  unfold asOf Embedding.classify
  rcases place with outside | ⟨d, rfl, spec⟩
  · rw [outside]
    rfl
  · cases scope.env.inMethod <;> simp [spec]

/-- Outside methods and in the specification of a method, a reference to an earlier state with a
single argument, in a place that admits it, is read like its argument: it has the type of it, the
same is wrong in it, and the same types are recorded in it, from every state of the check and in
every scope. Only one more frame is opened and closed. -/
theorem reference_transparent (rules : Rules) (standard : rules.registry = .standard)
    (scope : Scope) (s : CheckState)
    (place : scope.env.inMethod = false ∨
      ∃ d ∈ s.contexts.current.clause, d.kind.isMethodSpec = true)
    (head : StateHead) (descriptor : head.descriptor = .ofKind (.state head.keyword))
    (types : ∀ name ∈ head.typeArgs, (rules.classes.type? name.text).isSome)
    (e : Expr) (free : e.ResultFree)
    (admitted : head.Admitted [e] scope.env.inMethod s.contexts.current.clause) :
    let alone := (Check.infer rules scope e).run s
    (Check.infer rules scope (.state head [e] none)).run s =
      ((alone.1.1, .state head [alone.1.2] (some alone.1.1)),
        { alone.2 with contexts := alone.2.contexts.cycled 1 }) := by
  intro alone
  let p : Setting := ⟨scope, s.contexts.current⟩
  have registered : rules.registry.Holds head.descriptor := by
    rw [standard, descriptor]
    exact Registry.get?_keyword_kind (.state head.keyword)
  have clean : p.stateErrors head [e] = [] := by
    refine StateHead.errors_eq_nil_iff.2 ⟨?_, (head.admitted_iff ..).1 admitted, nofun⟩
    rw [descriptor]
    cases head.keyword <;> rfl
  let label := head.label [e] scope
  let effect := (Check.infer rules scope e).effect s.contexts.current s.names
  have unlabeled : Check.Unlabeled (Check.infer rules scope e) := Check.unlabeled_infer scope free
  have run : alone = effect.on s := unlabeled.isLocal.run s
  -- Under the label of the reference the argument adds what it adds without it.
  have payload : (Check.infer rules scope e).run
      { s with contexts := s.contexts.push.setLabel label } =
        effect.on { s with contexts := s.contexts.push.setLabel label } := by
    rw [unlabeled.isLocal.run]
    exact congrArg (Effect.on · _) (unlabeled.effect_eq s.contexts.current (some label) s.names)
  have known : head.typeArgs.flatMap (Check.typeErrors rules) = [] := by
    refine List.flatMap_eq_nil_iff.2 fun name h => ?_
    rw [Check.typeErrors, if_pos (types name h)]
  rw [Check.run_reference_of_clean registered rfl clean, Scope.asOf_eq_self place, payload, run]
  simp only [Check.reports_resolveTypes head.typeArgs _, known, List.append_nil, Effect.on,
    ContextStack.cycled_cycled]
  exact congrArg (fun contexts => (_, CheckState.mk contexts _ _ _))
    (ContextStack.pop_cycled_setLabel label effect.cycles s.contexts)

/-- In the clause `ensures \old(\past(a) && b);` of a method `boolean m(boolean a)` the outer
reference is as good as its argument, in which `b` is not known. -/
theorem reference_transparent_unknown :
    let o : Span := .origin
    let scope : Scope :=
      { env := { className := "C", returnType := some .boolean, locals := [("a", .boolean)] } }
    let s : CheckState :=
      { contexts := { base := { clause := some (.ofKind (.methodSpec .ensures)) } } }
    let head : StateHead := ⟨.ofKind (.state .old), .old, [], o, o⟩
    let past : StateHead := ⟨.ofKind (.state .past), .past, [], o, o⟩
    let e : Expr :=
      .binary .and (.state past [.name ⟨"a", o⟩] none) (.name ⟨"b", o⟩) o
    let alone := (Check.infer { registry := .standard } scope e).run s
    alone.2.errors = [⟨.unknownSymbol "b", o⟩] ∧
      (Check.infer { registry := .standard } scope (.state head [e] none)).run s =
        ((alone.1.1, .state head [alone.1.2] (some alone.1.1)),
          { alone.2 with contexts := alone.2.contexts.cycled 1 }) := by
  intro o scope s head past e
  refine ⟨by decide +kernel, ?_⟩
  exact reference_transparent { registry := .standard } rfl scope s (.inr ⟨_, rfl, rfl⟩) head rfl
    nofun e ⟨trivial, trivial⟩ (.unlabeled (by decide) (by decide) rfl)

end Contracts
