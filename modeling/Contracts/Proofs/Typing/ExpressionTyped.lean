import Contracts.Proofs.Grammar.Fresh
import Contracts.Proofs.Typing.Sites

/-! Inferring the type of an expression finds nothing wrong exactly when the expression has
a type in the judgement, and then it gives that type and records the types that the
judgement gives. One direction goes by the recursion of `infer` (`hasType_of_gives`), the
other by the rules (`gives_of_hasType`). -/

namespace Contracts.Check

open CheckState

variable {rules : Rules} {u : CompilationUnit} {scope : Scope} {c : Context}

/-! ### Sequences -/

section

variable {α β : Type} {m : Check α} {f : α → Check β} {s : CheckState} {b : β}

/-- A sequence of checks that leave the context and the names as they are. -/
theorem Gives.seq (h : Gives (m >>= f) s b) (hm : Keeps Extends m)
    (hf : ∀ a, Keeps Extends (f a)) :
    ∃ a t, t.contexts.current = s.contexts.current ∧ Gives m s a ∧ Gives (f a) t b := by
  obtain ⟨a, first, second⟩ := h.of_bind hm.grows fun a => (hf a).grows
  exact ⟨a, _, (hm s).current, first, second⟩

theorem keeps_reportUnless (quiet : Bool) (fault : TypeFault) (span : Span) (a : α) :
    Keeps Extends (do
      if !quiet then
        report fault span
      return a) := by
  cases quiet
  · exact .bind (.report _ _) fun _ => .pure _
  · exact .pure _

/-- A reference is read on exactly when nothing is wrong with it. -/
theorem gives_enterState_iff {head : StateHead} {args : List Expr} {f : Option Scope → Check β}
    (hf : ∀ r, Keeps Grows (f r)) :
    Gives (enterState head args scope >>= f) s b ↔
      head.errors args s.contexts.current.clause scope = [] ∧
        Gives (f (some (scope.asOf s.contexts.current.clause (head.label args scope))))
          { s with contexts := s.contexts.setLabel (head.label args scope) } b := by
  have run := run_enterState head args scope s
  by_cases hnone : head.errors args s.contexts.current.clause scope = []
  · simp only [hnone, List.isEmpty_nil, if_true, List.append_nil] at run
    rw [gives_step_iff run rfl rfl, and_iff_right hnone]
  · refine iff_of_false (fun h => hnone ?_) fun h => hnone h.1
    have grown :=
      (hf ((enterState head args scope).run s).1 ((enterState head args scope).run s).2).errors
    have kept : ((f ((enterState head args scope).run s).1).run
        ((enterState head args scope).run s).2).2.errors = s.errors := h.errors
    rw [kept, run] at grown
    have hlength := grown.length_le
    rw [List.length_append] at hlength
    exact List.length_eq_zero_iff.1 (by omega)

theorem registered_of_standard (hrules : rules.For u) {d : Descriptor} (h : d.Standard) :
    rules.registry.get? d.keyword = some d := by
  rw [hrules.registry]
  exact h.get?

/-- The state inside the frame of a reference that means an earlier state. -/
def referring (s : CheckState) (label : StateLabel) : CheckState :=
  { s with contexts := (s.contexts.enter none).setLabel label }

theorem current_referring (s : CheckState) (label : StateLabel) :
    (referring s label).contexts.current = { s.contexts.current with label := some label } := rfl

/-- What a fresh reference to an earlier state gives. -/
theorem gives_state_iff {head : StateHead} {args : List Expr} {τ : Ty} {e' : Expr}
    (registered : rules.registry.get? head.descriptor.keyword = some head.descriptor) :
    Gives (infer rules scope (.state head args none)) s (τ, e') ↔
      head.errors args s.contexts.current.clause scope = [] ∧
        ∃ args', e' = .state head args' (some τ) ∧
          Gives
            (inferPayload rules (scope.asOf s.contexts.current.clause (head.label args scope))
              head.typeArgs args)
            (referring s (head.label args scope)) (τ, args') := by
  rw [infer, gives_isRegistered_iff registered, if_pos rfl, gives_within_iff,
    gives_enterState_iff]
  · refine and_congr_right fun _ => (gives_map_iff (keeps_inferPayload _ _ _ _).grows).trans ?_
    constructor
    · rintro ⟨⟨σ, args'⟩, payload, heq⟩
      obtain ⟨rfl, rfl⟩ := Prod.mk.inj heq
      exact ⟨args', rfl, payload⟩
    · rintro ⟨args', rfl, payload⟩
      exact ⟨(τ, args'), payload, rfl⟩
  · intro inner
    cases inner with
    | none => exact .bind (.pure _) fun _ => .pure _
    | some inner => exact .bind (keeps_inferPayload _ _ _ _).grows fun _ => .pure _

end

/-! ### What is inferred has its type -/

/-- What is inferred for the expression is its type in the judgement. -/
def InferSound (rules : Rules) (u : CompilationUnit) (scope : Scope) (e : Expr) : Prop :=
  ∀ c s τ e', scope.Fits c → e.Fresh → s.contexts.current = c →
    Gives (infer rules scope e) s (τ, e') → HasType u (scope.site c) e τ e'

/-- The same of the expression in front of a label, if there is one. -/
def PayloadSound (rules : Rules) (u : CompilationUnit) (scope : Scope) (typeArgs : List Name)
    (es : List Expr) : Prop :=
  ∀ c s τ es' e label, scope.Fits c → es = e :: label → e.Fresh → s.contexts.current = c →
    Gives (inferPayload rules scope typeArgs es) s (τ, es') →
      ∃ e', es' = e' :: label ∧ HasType u (scope.site c) e τ e'

/-- The same of arguments, which have the types of the parameters. -/
def ArgsSound (rules : Rules) (u : CompilationUnit) (scope : Scope) (params : List Ty)
    (es : List Expr) : Prop :=
  ∀ c s es', scope.Fits c → Expr.Fresh.listFresh es → s.contexts.current = c →
    params.length = es.length → (∀ τ ∈ params, τ ≠ .error) →
      Gives (inferArgs rules scope params es) s es' → HasTypes u (scope.site c) es params es'

theorem InferSound.result (rules : Rules) (u : CompilationUnit) (scope : Scope) (span : Span) :
    InferSound rules u scope (.result span) := by
  intro c s τ e' fits _ hs h
  obtain ⟨σ, hresult, heq⟩ := (gives_map_iff (keeps_resultType _ _).grows).1 h
  obtain ⟨rfl, rfl⟩ := Prod.mk.inj heq
  obtain ⟨now, clause, returns, value⟩ := gives_resultType_iff.1 hresult
  rw [hs] at now clause
  exact .result clause (by rw [Scope.site, now, Option.isSome_none]) returns value

theorem InferSound.binary {left right : Expr} (hleft : InferSound rules u scope left)
    (hright : InferSound rules u scope right) (op : BinaryOp) (span : Span) :
    InferSound rules u scope (.binary op left right span) := by
  intro c s τ e' fits fresh hs h
  obtain ⟨⟨σ, left'⟩, t, ht, first, h⟩ := h.seq (keeps_infer _ _ _) fun _ =>
    .bind (keeps_infer _ _ _) fun _ => .bind (keeps_binaryType _ _ _ _) fun _ => .pure _
  obtain ⟨⟨σ', right'⟩, t', -, second, h⟩ := h.seq (keeps_infer _ _ _) fun _ =>
    .bind (keeps_binaryType _ _ _ _) fun _ => .pure _
  obtain ⟨τ', hop, heq⟩ := (gives_map_iff (keeps_binaryType _ _ _ _).grows).1 h
  obtain ⟨rfl, rfl⟩ := Prod.mk.inj heq
  have typedLeft := hleft c s σ left' fits fresh.1 hs first
  have typedRight := hright c t σ' right' fits fresh.2 (ht.trans hs) second
  obtain ⟨rfl, takes⟩ := (gives_binaryType_iff (typedLeft.ne_error fits.clean)
    (typedRight.ne_error fits.clean)).1 hop
  exact .binary takes typedLeft typedRight

theorem InferSound.unary {operand : Expr} (hoperand : InferSound rules u scope operand)
    (op : UnaryOp) (span : Span) : InferSound rules u scope (.unary op operand span) := by
  intro c s τ e' fits fresh hs h
  obtain ⟨⟨σ, operand'⟩, t, -, first, h⟩ := h.seq (keeps_infer _ _ _) fun _ =>
    .bind (keeps_unaryType _ _ _) fun _ => .pure _
  obtain ⟨τ', hop, heq⟩ := (gives_map_iff (keeps_unaryType _ _ _).grows).1 h
  obtain ⟨rfl, rfl⟩ := Prod.mk.inj heq
  have typed := hoperand c s σ operand' fits fresh hs first
  obtain ⟨rfl, takes⟩ := (gives_unaryType_iff (typed.ne_error fits.clean)).1 hop
  exact .unary takes typed

theorem PayloadSound.cons {e : Expr} (he : InferSound rules u scope e) (typeArgs : List Name)
    (es : List Expr) : PayloadSound rules u scope typeArgs (e :: es) := by
  intro c s τ es' e₀ label fits hes fresh hs h
  obtain ⟨rfl, rfl⟩ := List.cons.inj hes
  obtain ⟨⟨σ, e'⟩, t, -, value, h⟩ := h.seq (keeps_infer _ _ _) fun _ =>
    .bind (keeps_resolveTypes _ _) fun _ => .pure _
  obtain ⟨_, _, heq⟩ := (gives_map_iff (keeps_resolveTypes _ _).grows).1 h
  obtain ⟨rfl, rfl⟩ := Prod.mk.inj heq
  exact ⟨e', rfl, he c s σ e' fits fresh hs value⟩

theorem ArgsSound.nil (rules : Rules) (u : CompilationUnit) (scope : Scope) (params : List Ty) :
    ArgsSound rules u scope params [] := by
  intro c s es' fits _ hs hlength _ h
  obtain rfl := List.length_eq_zero_iff.1 hlength
  obtain rfl := gives_pure_iff.1 h
  exact .nil

theorem ArgsSound.cons {params : List Ty} {e : Expr} {es : List Expr}
    (he : InferSound rules u scope e) (hes : ArgsSound rules u scope params.tail es) :
    ArgsSound rules u scope params (e :: es) := by
  intro c s es' fits fresh hs hlength hparams h
  obtain ⟨τ, τs, rfl⟩ := List.exists_cons_of_length_eq_add_one hlength
  obtain ⟨⟨σ, e'⟩, t, ht, first, h⟩ := h.seq (keeps_infer _ _ _) fun _ =>
    .bind (keeps_require _ _ _) fun _ => .bind (keeps_inferArgs _ _ _ _) fun _ => .pure _
  obtain ⟨_, t', ht', required, h⟩ := h.seq (keeps_require _ _ _) fun _ =>
    .bind (keeps_inferArgs _ _ _ _) fun _ => .pure _
  obtain ⟨rest, others, rfl⟩ := (gives_map_iff (keeps_inferArgs _ _ _ _).grows).1 h
  rw [List.forall_mem_cons] at hparams
  have typed := he c s σ e' fits fresh.1 hs first
  obtain rfl := (gives_require_iff hparams.1 (typed.ne_error fits.clean)).1 required
  exact .cons typed (hes c t' rest fits fresh.2 (ht'.trans (ht.trans hs)) (Nat.succ.inj hlength)
    hparams.2 others)

section

variable (hrules : rules.For u)

include hrules

theorem InferSound.name (scope : Scope) (n : Name) : InferSound rules u scope (.name n) := by
  intro c s τ e' fits _ hs h
  obtain ⟨σ, hname, heq⟩ := (gives_map_iff (keeps_variableType _ _ _).grows).1 h
  obtain ⟨rfl, rfl⟩ := Prod.mk.inj heq
  exact .name ((Scope.sees_iff hrules).1 (gives_variableType_iff.1 hname))

theorem InferSound.field {base : Expr} (hbase : InferSound rules u scope base) (field : Name)
    (span : Span) : InferSound rules u scope (.field base field span) := by
  intro c s τ e' fits fresh hs h
  obtain ⟨⟨owner, base'⟩, t, -, first, h⟩ := h.seq (keeps_infer _ _ _) fun _ =>
    .bind (keeps_fieldType _ _ _) fun _ => .pure _
  obtain ⟨τ', hfield, heq⟩ := (gives_map_iff (keeps_fieldType _ _ _).grows).1 h
  obtain ⟨rfl, rfl⟩ := Prod.mk.inj heq
  have typed := hbase c s owner base' fits fresh hs first
  obtain ⟨name, rfl, declared⟩ := (gives_fieldType_iff (typed.ne_error fits.clean)).1 hfield
  exact .field typed (hrules.field.1 declared)

theorem InferSound.ownCall {args : List Expr}
    (hargs : ∀ signature, ArgsSound rules u scope (paramsOf signature) args) (method : Name)
    (span : Span) : InferSound rules u scope (.call (.name method) args span) := by
  intro c s τ e' fits fresh hs h
  obtain ⟨r, t, ht, hsignature, h⟩ := h.seq (keeps_callSignature _ _ _ _ _) fun _ =>
    .bind (keeps_inferArgs _ _ _ _) fun _ => .pure _
  obtain ⟨args', others, heq⟩ := (gives_map_iff (keeps_inferArgs _ _ _ _).grows).1 h
  obtain ⟨rfl, rfl⟩ := Prod.mk.inj heq
  obtain ⟨name, ⟨params, result⟩, hname, declared, hlength, rfl⟩ :=
    (gives_callSignature_iff (by simp)).1 hsignature
  obtain rfl := Ty.named.inj hname
  have declared := hrules.method.1 declared
  exact .ownCall declared (hargs (some ⟨params, result⟩) c t args' fits fresh.2 (ht.trans hs)
    hlength declared.params_ne_error others)

theorem InferSound.fieldCall {base : Expr} {args : List Expr}
    (hbase : InferSound rules u scope base)
    (hargs : ∀ signature, ArgsSound rules u scope (paramsOf signature) args) (method : Name)
    (calleeSpan span : Span) :
    InferSound rules u scope (.call (.field base method calleeSpan) args span) := by
  intro c s τ e' fits fresh hs h
  obtain ⟨⟨owner, base'⟩, t, ht, first, h⟩ := h.seq (keeps_infer _ _ _) fun _ =>
    .bind (keeps_callSignature _ _ _ _ _) fun _ => .bind (keeps_inferArgs _ _ _ _) fun _ => .pure _
  obtain ⟨r, t', ht', hsignature, h⟩ := h.seq (keeps_callSignature _ _ _ _ _) fun _ =>
    .bind (keeps_inferArgs _ _ _ _) fun _ => .pure _
  obtain ⟨args', others, heq⟩ := (gives_map_iff (keeps_inferArgs _ _ _ _).grows).1 h
  obtain ⟨rfl, rfl⟩ := Prod.mk.inj heq
  have typed := hbase c s owner base' fits fresh.1 hs first
  obtain ⟨name, ⟨params, result⟩, rfl, declared, hlength, rfl⟩ :=
    (gives_callSignature_iff (typed.ne_error fits.clean)).1 hsignature
  have declared := hrules.method.1 declared
  exact .call typed declared (hargs (some ⟨params, result⟩) c t' args' fits fresh.2
    (ht'.trans (ht.trans hs)) hlength declared.params_ne_error others)

theorem InferSound.state {head : StateHead} {args : List Expr}
    (payload : ∀ inner, PayloadSound rules u inner head.typeArgs args) (scope : Scope)
    (recorded : Option Ty) : InferSound rules u scope (.state head args recorded) := by
  intro c s τ e' fits fresh hs h
  obtain ⟨hstandard, htypes, rfl, fresh⟩ := fresh
  have registered := registered_of_standard hrules (.of_eq hstandard)
  obtain ⟨hnone, args', rfl, value⟩ := (gives_state_iff registered).1 h
  rw [hs] at hnone value
  obtain ⟨e, label, rfl, refers⟩ := StateHead.refers_of_errors fits hstandard hnone
  have inside := Scope.fits_asOf fits (head.label (e :: label) scope) (refers.clean fits.clean)
  obtain ⟨e', rfl, typed⟩ := payload _ _ _ _ _ e label inside rfl fresh.1
    (by rw [current_referring, hs]) value
  rw [Scope.site_asOf fits] at typed
  exact .state refers typed

end

/-- A callee that is no name and no field has a type, so the call is reported. -/
theorem InferSound.otherCall {callee : Expr} (notName : ∀ method, callee ≠ .name method)
    (notField : ∀ base method span, callee ≠ .field base method span)
    (hcallee : InferSound rules u scope callee) (args : List Expr) (span : Span) :
    InferSound rules u scope (.call callee args span) := by
  intro c s τ e' fits fresh hs h
  rw [infer] at h
  · obtain ⟨⟨σ, callee'⟩, t, ht, first, h⟩ := h.seq (keeps_infer _ _ _) fun _ =>
      .bind (keeps_inferArgs _ _ _ _) fun _ => keeps_reportUnless _ _ _ _
    obtain ⟨args', _, _, _, h⟩ := h.seq (keeps_inferArgs _ _ _ _) fun _ =>
      keeps_reportUnless _ _ _ _
    have typed := hcallee c s σ callee' fits fresh.1 hs first
    simp only [Ty.isError_eq_false (typed.ne_error fits.clean), Bool.not_false, if_true] at h
    exact absurd h (not_gives_report (.pure _))
  · exact notName
  · exact notField

theorem infer_sound (hrules : rules.For u) :
    (∀ scope e, InferSound rules u scope e) ∧
    (∀ scope typeArgs es, PayloadSound rules u scope typeArgs es) ∧
    ∀ scope params es, ArgsSound rules u scope params es := by
  refine infer.mutual_induct _ _ _ ?name ?int ?bool ?result ?binary ?unary ?field ?ownCall
    ?fieldCall ?otherCall ?state ?missing ?noPayload ?payload ?noArgs ?args
  case name => exact fun scope n => .name hrules scope n
  case int =>
    intro scope value span c s τ e' _ _ _ h
    obtain ⟨rfl, rfl⟩ := Prod.mk.inj (gives_pure_iff.1 h)
    exact .int
  case bool =>
    intro scope value span c s τ e' _ _ _ h
    obtain ⟨rfl, rfl⟩ := Prod.mk.inj (gives_pure_iff.1 h)
    exact .bool
  case result => exact fun scope span => .result rules u scope span
  case binary => exact fun _ op _ _ span hleft hright => hleft.binary hright op span
  case unary => exact fun _ op _ span hoperand => hoperand.unary op span
  case field => exact fun _ _ field span hbase => hbase.field hrules field span
  case ownCall => exact fun _ method _ span hargs => .ownCall hrules hargs method span
  case fieldCall =>
    exact fun _ _ method calleeSpan _ span hbase hargs =>
      .fieldCall hrules hbase hargs method calleeSpan span
  case otherCall =>
    exact fun _ _ args span notName notField hcallee _ =>
      .otherCall notName notField hcallee args span
  case state => exact fun scope _ _ recorded payload => .state hrules payload scope recorded
  case missing => exact fun _ _ _ _ _ _ _ fresh _ _ => fresh.elim
  case noPayload =>
    intro scope typeArgs c s τ es' e label fits hes
    cases hes
  case payload => exact fun _ typeArgs _ es he => .cons he typeArgs es
  case noArgs => exact fun scope params => .nil rules u scope params
  case args => exact fun _ _ _ _ he hes => .cons he hes

theorem hasType_of_gives (hrules : rules.For u) {e e' : Expr} {s : CheckState} {τ : Ty}
    (fits : scope.Fits c) (fresh : e.Fresh) (hs : s.contexts.current = c)
    (h : Gives (infer rules scope e) s (τ, e')) : HasType u (scope.site c) e τ e' :=
  (infer_sound hrules).1 scope e c s τ e' fits fresh hs h

/-! ### What has a type is inferred -/

mutual

theorem gives_of_hasType (hrules : rules.For u) :
    ∀ {Γ : Site} {e e' : Expr} {τ : Ty}, HasType u Γ e τ e' →
      ∀ (scope : Scope) (c : Context) (s : CheckState), scope.Fits c → scope.site c = Γ →
        e.Fresh → s.contexts.current = c → Gives (infer rules scope e) s (τ, e')
  | _, _, _, _, .name seen, scope, c, s, fits, hΓ, _, hs => by
    subst hΓ
    exact .bind (gives_variableType_iff.2 ((Scope.sees_iff hrules).2 seen)) (.pure _ _)
  | _, _, _, _, .int, _, _, _, _, _, _, _ => .pure _ _
  | _, _, _, _, .bool, _, _, _, _, _, _, _ => .pure _ _
  | _, _, _, _, .result clause now returns value, scope, c, s, fits, hΓ, _, hs => by
    subst hΓ
    refine .bind (gives_resultType_iff.2 ⟨?_, ?_, returns, value⟩) (.pure _ _)
    · rw [hs]
      exact Option.isNone_iff_eq_none.1 (Option.isSome_eq_false_iff.1 now)
    · rw [hs]
      exact clause
  | _, _, _, _, .binary takes hleft hright, scope, c, s, fits, hΓ, fresh, hs => by
    subst hΓ
    have left := gives_of_hasType hrules hleft scope c s fits rfl fresh.1 hs
    refine .bind left (.bind (gives_of_hasType hrules hright scope c _ fits rfl fresh.2 ?_)
      (.bind ?_ (.pure _ _)))
    · exact (keeps_infer _ _ _ _).current.trans hs
    · exact (gives_binaryType_iff (hleft.ne_error fits.clean) (hright.ne_error fits.clean)).2
        ⟨rfl, takes⟩
  | _, _, _, _, .unary takes hoperand, scope, c, s, fits, hΓ, fresh, hs => by
    subst hΓ
    have operand := gives_of_hasType hrules hoperand scope c s fits rfl fresh hs
    refine .bind operand (.bind ?_ (.pure _ _))
    exact (gives_unaryType_iff (hoperand.ne_error fits.clean)).2 ⟨rfl, takes⟩
  | _, _, _, _, .field hbase declared, scope, c, s, fits, hΓ, fresh, hs => by
    subst hΓ
    have base := gives_of_hasType hrules hbase scope c s fits rfl fresh hs
    refine .bind base (.bind ?_ (.pure _ _))
    exact (gives_fieldType_iff (by simp)).2 ⟨_, rfl, hrules.field.2 declared⟩
  | _, _, _, _, .ownCall declared hargs, scope, c, s, fits, hΓ, fresh, hs => by
    subst hΓ
    refine .bind (gives_callSignature_iff (by simp) |>.2
      ⟨_, _, rfl, hrules.method.2 declared, hargs.length_eq, rfl⟩) (.bind ?_ (.pure _ _))
    exact gives_of_hasTypes hrules hargs scope c _ fits rfl fresh.2
      ((keeps_callSignature _ _ _ _ _ _).current.trans hs) declared.params_ne_error
  | _, _, _, _, .call hbase declared hargs, scope, c, s, fits, hΓ, fresh, hs => by
    subst hΓ
    have base := gives_of_hasType hrules hbase scope c s fits rfl fresh.1 hs
    refine .bind base (.bind (gives_callSignature_iff (by simp) |>.2
      ⟨_, _, rfl, hrules.method.2 declared, hargs.length_eq, rfl⟩) (.bind ?_ (.pure _ _)))
    exact gives_of_hasTypes hrules hargs scope c _ fits rfl fresh.2
      ((keeps_callSignature _ _ _ _ _ _).current.trans ((keeps_infer _ _ _ _).current.trans hs))
      declared.params_ne_error
  | _, _, _, _, .state refers hvalue, scope, c, s, fits, hΓ, fresh, hs => by
    subst hΓ
    obtain ⟨hstandard, htypes, -, fresh, -⟩ := fresh
    have registered := registered_of_standard hrules (.of_eq hstandard)
    obtain ⟨hnone, hvars⟩ := StateHead.errors_of_refers fits hstandard refers
    have inside := Scope.fits_asOf fits _ (hvars ▸ refers.clean fits.clean)
    rw [gives_state_iff registered, hs]
    refine ⟨hnone, _, rfl, .bind (gives_of_hasType hrules hvalue _ _ _ inside ?_ fresh ?_) ?_⟩
    · rw [Scope.site_asOf fits, hvars]
    · rw [current_referring, hs]
    · rw [htypes]
      exact .bind (gives_resolveTypes_iff.2 .nil) (.pure _ _)

theorem gives_of_hasTypes (hrules : rules.For u) :
    ∀ {Γ : Site} {es es' : List Expr} {τs : List Ty}, HasTypes u Γ es τs es' →
      ∀ (scope : Scope) (c : Context) (s : CheckState), scope.Fits c → scope.site c = Γ →
        Expr.Fresh.listFresh es → s.contexts.current = c → (∀ τ ∈ τs, τ ≠ .error) →
          Gives (inferArgs rules scope τs es) s es'
  | _, _, _, _, .nil, _, _, _, _, _, _, _, _ => .pure _ _
  | _, _, _, _, .cons first others, scope, c, s, fits, hΓ, fresh, hs, hτs => by
    subst hΓ
    rw [List.forall_mem_cons] at hτs
    have value := gives_of_hasType hrules first scope c s fits rfl fresh.1 hs
    have fitting := first.ne_error fits.clean
    refine .bind value (.bind ((gives_require_iff hτs.1 fitting).2 rfl) (.bind ?_ (.pure _ _)))
    exact gives_of_hasTypes hrules others scope c _ fits rfl fresh.2
      ((keeps_require _ _ _ _).current.trans ((keeps_infer _ _ _ _).current.trans hs)) hτs.2

end

/-! ### Places that ask for a type -/

theorem gives_infer_iff (hrules : rules.For u) {e e' : Expr} {s : CheckState} {τ : Ty}
    (fits : scope.Fits c) (fresh : e.Fresh) (hs : s.contexts.current = c) :
    Gives (infer rules scope e) s (τ, e') ↔ HasType u (scope.site c) e τ e' := by
  constructor
  · exact hasType_of_gives hrules fits fresh hs
  · exact fun h => gives_of_hasType hrules h scope c s fits rfl fresh hs

theorem gives_inferAs_iff (hrules : rules.For u) {e e' : Expr} {s : CheckState} {σ τ : Ty}
    (fits : scope.Fits c) (fresh : e.Fresh) (hs : s.contexts.current = c) (hσ : σ ≠ .error) :
    Gives (inferAs rules scope (some σ) e) s (τ, e') ↔ τ = σ ∧ HasType u (scope.site c) e τ e' := by
  constructor
  · intro h
    obtain ⟨⟨τ', e''⟩, t, -, value, h⟩ := h.seq (keeps_infer _ _ _) fun _ =>
      .bind (keeps_require _ _ _) fun _ => .pure _
    obtain ⟨_, _, _, required, h⟩ := h.seq (keeps_require _ _ _) fun _ => .pure _
    obtain ⟨rfl, rfl⟩ := Prod.mk.inj (gives_pure_iff.1 h)
    have typed := hasType_of_gives hrules fits fresh hs value
    exact ⟨(gives_require_iff hσ (typed.ne_error fits.clean)).1 required, typed⟩
  · rintro ⟨rfl, typed⟩
    have value := gives_of_hasType hrules typed scope c s fits rfl fresh hs
    exact .bind value (.bind ((gives_require_iff hσ hσ).2 rfl) (.pure _ _))

theorem gives_inferInit_iff (hrules : rules.For u) {init init' : Option Expr} {s : CheckState}
    {σ : Ty} (fits : scope.Fits c) (fresh : ∀ e ∈ init, e.Fresh) (hs : s.contexts.current = c)
    (hσ : σ ≠ .error) :
    Gives (inferInit rules scope σ init) s init' ↔ InitTyped u (scope.site c) σ init init' := by
  cases init with
  | none =>
    rw [inferInit, gives_pure_iff]
    constructor
    · rintro rfl
      exact .none
    · rintro ⟨⟩
      rfl
  | some e =>
    refine (gives_map_iff (keeps_inferAs _ _ _ _).grows).trans ?_
    constructor
    · rintro ⟨⟨τ, e'⟩, value, rfl⟩
      obtain ⟨rfl, typed⟩ := (gives_inferAs_iff hrules fits (fresh e rfl) hs hσ).1 value
      exact .some typed
    · intro h
      cases h with
      | some typed =>
        exact ⟨_, (gives_inferAs_iff hrules fits (fresh e rfl) hs hσ).2 ⟨rfl, typed⟩, rfl⟩

theorem gives_inferClause_iff (hrules : rules.For u) {d : Descriptor} {e e' : Expr}
    {s : CheckState} (fits : scope.Fits { c with clause := some d }) (fresh : e.Fresh)
    (hs : s.contexts.current = c) :
    Gives (inferClause rules scope d e) s e' ↔
      HasType u ((scope.site c).inside d.kind) e .boolean e' := by
  have entered : (s.contexts.enter (some d)).current = { c with clause := some d } := by
    rw [ContextStack.current_enter, hs]
  unfold inferClause
  rw [hrules.booleanClauses, if_pos rfl]
  refine (gives_map_iff (Keeps.within _ (keeps_inferAs _ _ _ _)).grows).trans ?_
  constructor
  · rintro ⟨⟨τ, e''⟩, value, rfl⟩
    obtain ⟨rfl, typed⟩ :=
      (gives_inferAs_iff hrules fits fresh entered (by simp)).1 (gives_within_iff.1 value)
    exact typed
  · intro typed
    refine ⟨(.boolean, e'), gives_within_iff.2 ?_, rfl⟩
    exact (gives_inferAs_iff hrules fits fresh entered (by simp)).2 ⟨rfl, typed⟩

end Contracts.Check
