import Contracts.Proofs.Typing.Collected
import Contracts.Proofs.Typing.Locality
import Contracts.Proofs.Typing.Stable

/-! What is found in an expression. The type of an expression, the expression with its types
recorded and what is wrong in it depend on the setting that it is read in (`Check.found`); there
is one equation for each form, which tells them from those of the parts. Errors are those of
the parts in order, with those of the form itself behind them; only a reference to an earlier
state reports its own mistakes first. -/

namespace Contracts

namespace Check

variable {α β : Type} {c : Context} {names left behind : List String} {m : Check α}

/-- In this context, with these names declared, the check gives a value, finds errors and leaves
names, whatever was found before. -/
def Finds (c : Context) (names : List String) (m : Check α) (a : α) (errors : List TypeError)
    (left : List String) : Prop :=
  ∀ s : CheckState, s.contexts.current = c → s.names = names →
    ∃ (n : Nat) (fault : Option CheckError), m.run s =
      (a, { contexts := s.contexts.cycled n, errors := s.errors ++ errors, fault, names := left })

theorem Local.finds {faultless blind : Prop} (h : Local faultless blind m) (c : Context)
    (names : List String) :
    Finds c names m (m.effect c names).value (m.effect c names).errors
      (m.effect c names).names := by
  rintro s rfl rfl
  exact ⟨_, _, h.run s⟩

/-- A check that leaves the names alone finds the same under all names. -/
theorem Local.finds_blind {faultless : Prop} (h : Local faultless True m) (c : Context)
    (names : List String) :
    Finds c names m (m.effect c []).value (m.effect c []).errors names := by
  have same := h.finds c names
  rwa [h.names trivial c [] names] at same

theorem Reports.finds {a : α} {errors : List TypeError} (h : Reports m a errors) :
    Finds c names m a errors names := by
  rintro s - rfl
  exact ⟨0, s.fault, h s⟩

namespace Finds

variable {a : α} {b : β} {es fs : List TypeError} {f : α → Check β}

theorem effect (h : Finds c names m a es left) :
    (m.effect c names).value = a ∧ (m.effect c names).errors = es ∧
      (m.effect c names).names = left := by
  obtain ⟨n, fault, run⟩ := h { contexts := { base := c }, names } rfl rfl
  rw [Check.effect, run]
  exact ⟨rfl, rfl, rfl⟩

theorem pure (a : α) : Finds c names (Pure.pure a) a [] names := (Reports.pure a).finds

theorem reportAll (errors : List TypeError) :
    Finds c names (reportAll errors) () errors names := (Reports.reportAll errors).finds

theorem context : Finds c names context c [] names := by
  rintro s rfl rfl
  refine ⟨0, s.fault, ?_⟩
  rw [List.append_nil]
  rfl

theorem isRegistered {rules : Rules} {d : Descriptor} (h : rules.registry.Holds d) :
    Finds c names (isRegistered rules d) true [] names := by
  rintro s - rfl
  refine ⟨0, s.fault, ?_⟩
  rw [run_isRegistered, if_pos (show _ = _ from h), List.append_nil]
  rfl

theorem isForeign {rules : Rules} {d : Descriptor} (h : ¬rules.registry.Holds d) :
    Finds c names (Check.isRegistered rules d) false [] names := by
  rintro s - rfl
  refine ⟨0, s.fault.or (some (.foreignDescriptor d.keyword)), ?_⟩
  rw [run_isRegistered, if_neg (show ¬_ = _ from h), List.append_nil]
  rfl

theorem bind (h : Finds c names m a es behind) (k : Finds c behind (f a) b fs left) :
    Finds c names (m >>= f) b (es ++ fs) left := by
  intro s hs hnames
  obtain ⟨n, fault, run⟩ := h s hs hnames
  obtain ⟨n', fault', run'⟩ := k
    { contexts := s.contexts.cycled n, errors := s.errors ++ es, fault, names := behind } hs rfl
  refine ⟨n + n', fault', ?_⟩
  rw [run_bind, run, run', ContextStack.cycled_cycled, List.append_assoc]

/-- What stands behind a check that finds nothing. -/
theorem next (h : Finds c names m a [] behind) (k : Finds c behind (f a) b fs left) :
    Finds c names (m >>= f) b fs left := h.bind k

/-- A value behind a check makes no difference to what is found. -/
theorem map (h : Finds c names m a es behind) (k : Finds c behind (f a) b [] left) :
    Finds c names (m >>= f) b es left := by
  have := h.bind k
  rwa [List.append_nil] at this

theorem within (clause : Option Descriptor) (h : Finds (Local.inside clause c) names m a es left) :
    Finds c names (within clause m) a es left := by
  rintro s rfl hnames
  obtain ⟨n, fault, run⟩ := h { s with contexts := s.contexts.enter clause }
    (Local.current_enter clause s.contexts) hnames
  refine ⟨n + 1, fault, ?_⟩
  rw [run_within, run, ← ContextStack.pop_cycled_enter clause]

/-- A label is set in a frame of its own. -/
theorem labeled (label : StateLabel) (h : Finds { c with label := some label } names m a es left) :
    Finds c names (Check.within none (setLabel label >>= fun _ => m)) a es left := by
  rintro s rfl hnames
  obtain ⟨n, fault, run⟩ := h { s with contexts := (s.contexts.enter none).setLabel label }
    rfl hnames
  refine ⟨n + 1, fault, ?_⟩
  rw [run_within, run_bind, run_setLabel, run, ← ContextStack.pop_cycled_setLabel label]

end Finds

/-- What a check that looks at no names gives. -/
def given (m : Check α) (c : Context) : α := (m.effect c []).value

/-- What is wrong by a check that looks at no names. -/
def wrong (m : Check α) (c : Context) : List TypeError := (m.effect c []).errors

theorem Finds.given_eq {a : α} {es : List TypeError} (h : Finds c [] m a es left) :
    given m c = a := h.effect.1

theorem Finds.wrong_eq {a : α} {es : List TypeError} (h : Finds c [] m a es left) :
    wrong m c = es := h.effect.2.1

theorem Local.finds_given {faultless : Prop} (h : Local faultless True m) :
    Finds c names m (given m c) (wrong m c) names := h.finds_blind c names

end Check

/-! ### Settings -/

/-- The setting that an expression is read in: what is in scope there, and the context. -/
structure Setting where
  scope : Scope
  context : Context

namespace Setting

/-- The same setting in a clause, if there is one. -/
def inside (clause : Option Descriptor) (p : Setting) : Setting :=
  { p with context := Check.Local.inside clause p.context }

/-- Where a reference to an earlier state reads its argument. -/
def earlier (p : Setting) (head : StateHead) (args : List Expr) : Setting :=
  let label := head.label args p.scope
  ⟨p.scope.asOf p.context.clause label, { p.context with label := some label }⟩

/-- What is wrong with a reference to an earlier state itself. -/
def stateErrors (p : Setting) (head : StateHead) (args : List Expr) : List TypeError :=
  head.errors args p.context.clause p.scope

end Setting

namespace Check

/-- What reading an expression gives. -/
structure Found where
  type : Ty
  /-- The expression with its types recorded. -/
  expr : Expr
  errors : List TypeError

/-- What is found for an expression in a setting. -/
def found (rules : Rules) (p : Setting) (e : Expr) : Found :=
  let m := infer rules p.scope e
  ⟨(given m p.context).1, (given m p.context).2, wrong m p.context⟩

/-- Arguments with their types recorded, and what is wrong in them, where types are asked for. -/
def foundArgs (rules : Rules) (p : Setting) (params : List Ty) (es : List Expr) :
    List Expr × List TypeError :=
  let m := inferArgs rules p.scope params es
  (given m p.context, wrong m p.context)

variable {rules : Rules} {p : Setting} {names : List String}

theorem finds_infer (rules : Rules) (p : Setting) (e : Expr) (names : List String) :
    Finds p.context names (infer rules p.scope e) ((found rules p e).type, (found rules p e).expr)
      (found rules p e).errors names :=
  (local_infer p.scope (False.elim : False → _)).finds_given

theorem finds_inferArgs (rules : Rules) (p : Setting) (params : List Ty) (es : List Expr)
    (names : List String) :
    Finds p.context names (inferArgs rules p.scope params es) (foundArgs rules p params es).1
      (foundArgs rules p params es).2 names :=
  ((local_infer_all rules).2.2 p.scope params es (False.elim : False → _)).finds_given

theorem Finds.found_eq {e e' : Expr} {τ : Ty} {errors : List TypeError}
    (h : Finds p.context [] (infer rules p.scope e) (τ, e') errors []) :
    found rules p e = ⟨τ, e', errors⟩ := by
  rw [Check.found, h.given_eq, h.wrong_eq]

theorem Finds.foundArgs_eq {params : List Ty} {es es' : List Expr} {errors : List TypeError}
    (h : Finds p.context [] (inferArgs rules p.scope params es) es' errors []) :
    foundArgs rules p params es = (es', errors) := by
  rw [Check.foundArgs, h.given_eq, h.wrong_eq]

/-! ### Small checks -/

/-- What is wrong with a name that no variable has. -/
def symbolErrors (rules : Rules) (env : Env) (n : Name) : List TypeError :=
  if (env.typeOf? rules.classes n.text).isSome then [] else [⟨.unknownSymbol n.text, n.span⟩]

theorem reports_variableType (env : Env) (n : Name) :
    Reports (variableType rules env n) ((env.typeOf? rules.classes n.text).getD .error)
      (symbolErrors rules env n) := by
  unfold variableType symbolErrors
  cases env.typeOf? rules.classes n.text with
  | some type => exact .pure type
  | none => exact .map (.reportAll _) (.pure _)

/-- What is wrong with a type where another one is asked for. -/
def mismatch (expected : Option Ty) (found : Ty) (span : Span) : List TypeError :=
  match expected with
  | none => []
  | some wanted =>
    if found.isError || wanted.isError || found == wanted then []
    else [⟨.incompatibleTypes wanted found, span⟩]

theorem reports_require (expected : Option Ty) (found : Ty) (span : Span) :
    Reports (require expected found span) () (mismatch expected found span) := by
  unfold require mismatch
  cases expected with
  | none => exact .pure ()
  | some wanted =>
    dsimp only
    split
    · exact .pure ()
    · exact .reportAll _

/-- What is wrong with something that is called without a name. -/
def callableErrors (callee : Ty) (span : Span) : List TypeError :=
  if callee.isError then [] else [⟨.notCallable, span⟩]

theorem reports_requireCallable (callee : Ty) (span : Span) :
    Reports (requireCallable callee span) () (callableErrors callee span) := by
  unfold requireCallable callableErrors
  cases callee.isError
  · exact .reportAll _
  · exact .pure ()

/-! ### Forms of expressions -/

theorem found_name (n : Name) :
    found rules p (.name n) =
      ⟨(p.scope.env.typeOf? rules.classes n.text).getD .error, .name n,
        symbolErrors rules p.scope.env n⟩ :=
  Finds.found_eq (.map (reports_variableType _ n).finds (.pure _))

theorem found_int (value : Nat) (span : Span) :
    found rules p (.int value span) = ⟨.int, .int value span, []⟩ := Finds.found_eq (.pure _)

theorem found_bool (value : Bool) (span : Span) :
    found rules p (.bool value span) = ⟨.boolean, .bool value span, []⟩ := Finds.found_eq (.pure _)

theorem found_missing (span : Span) :
    found rules p (.missing span) = ⟨.error, .missing span, []⟩ := Finds.found_eq (.pure _)

theorem found_result (span : Span) :
    found rules p (.result span) =
      ⟨given (resultType p.scope.env span) p.context, .result span,
        wrong (resultType p.scope.env span) p.context⟩ :=
  Finds.found_eq (.map (local_resultType _ _ : Local False _ _).finds_given (.pure _))

theorem found_binary (op : BinaryOp) (l r : Expr) (span : Span) :
    found rules p (.binary op l r span) =
      let join := binaryType op (found rules p l).type (found rules p r).type span
      ⟨given join p.context, .binary op (found rules p l).expr (found rules p r).expr span,
        (found rules p l).errors ++ ((found rules p r).errors ++ wrong join p.context)⟩ :=
  Finds.found_eq (.bind (finds_infer rules p l []) (.bind (finds_infer rules p r [])
    (.map (local_binaryType _ _ _ _ : Local False _ _).finds_given (.pure _))))

theorem found_unary (op : UnaryOp) (e : Expr) (span : Span) :
    found rules p (.unary op e span) =
      let apply := unaryType op (found rules p e).type span
      ⟨given apply p.context, .unary op (found rules p e).expr span,
        (found rules p e).errors ++ wrong apply p.context⟩ :=
  Finds.found_eq (.bind (finds_infer rules p e [])
    (.map (local_unaryType _ _ _ : Local False _ _).finds_given (.pure _)))

theorem found_field (base : Expr) (n : Name) (span : Span) :
    found rules p (.field base n span) =
      let select := fieldType rules (found rules p base).type n
      ⟨given select p.context, .field (found rules p base).expr n span,
        (found rules p base).errors ++ wrong select p.context⟩ :=
  Finds.found_eq (.bind (finds_infer rules p base [])
    (.map (local_fieldType _ _ : Local False _ _).finds_given (.pure _)))

/-! ### Calls -/

theorem found_ownCall (method : Name) (es : List Expr) (span : Span) :
    found rules p (.call (.name method) es span) =
      let callee := callSignature rules (.named p.scope.env.className) method es span
      let args := foundArgs rules p (paramsOf (given callee p.context)) es
      ⟨resultOf (given callee p.context), .call (.name method) args.1 span,
        wrong callee p.context ++ args.2⟩ :=
  Finds.found_eq (.bind (local_callSignature _ _ _ _ : Local False _ _).finds_given
    (.map (finds_inferArgs rules p _ es []) (.pure _)))

theorem found_fieldCall (base : Expr) (method : Name) (calleeSpan : Span) (es : List Expr)
    (span : Span) :
    found rules p (.call (.field base method calleeSpan) es span) =
      let callee := callSignature rules (found rules p base).type method es span
      let args := foundArgs rules p (paramsOf (given callee p.context)) es
      ⟨resultOf (given callee p.context),
        .call (.field (found rules p base).expr method calleeSpan) args.1 span,
        (found rules p base).errors ++ (wrong callee p.context ++ args.2)⟩ :=
  Finds.found_eq (.bind (finds_infer rules p base []) (.bind
    (local_callSignature _ _ _ _ : Local False _ _).finds_given
    (.map (finds_inferArgs rules p _ es []) (.pure _))))

theorem found_otherCall {callee : Expr} {es : List Expr} {span : Span}
    (notName : ∀ n, callee = .name n → False)
    (notField : ∀ base n s, callee = .field base n s → False) :
    found rules p (.call callee es span) =
      ⟨.error, .call (found rules p callee).expr (foundArgs rules p [] es).1 span,
        (found rules p callee).errors ++ ((foundArgs rules p [] es).2 ++
          callableErrors (found rules p callee).type span)⟩ := by
  have finds := Finds.bind (f := fun r => do
      let args ← inferArgs rules p.scope [] es
      requireCallable r.1 span
      return (Ty.error, Expr.call r.2 args span)) (finds_infer rules p callee []) (.bind
    (finds_inferArgs rules p [] es [])
    (.map (reports_requireCallable (found rules p callee).type span).finds (.pure _)))
  refine Finds.found_eq ?_
  rw [infer_call_eq notName notField]
  exact finds

theorem foundArgs_nil (params : List Ty) : foundArgs rules p params [] = ([], []) := by
  refine Finds.foundArgs_eq ?_
  rw [inferArgs]
  exact .pure _

theorem foundArgs_cons (params : List Ty) (e : Expr) (es : List Expr) :
    foundArgs rules p params (e :: es) =
      let others := foundArgs rules p params.tail es
      ((found rules p e).expr :: others.1,
        (found rules p e).errors ++
          (mismatch params.head? (found rules p e).type e.span ++ others.2)) :=
  Finds.foundArgs_eq (.bind (finds_infer rules p e []) (.bind (reports_require _ _ _).finds
    (.map (finds_inferArgs rules p params.tail es []) (.pure _))))

/-! ### References to earlier states -/

/-- What reading the first argument of a reference gives: its type, the arguments and what is
wrong. -/
def foundPayload (rules : Rules) (p : Setting) (typeArgs : List Name) :
    List Expr → Ty × List Expr × List TypeError
  | [] => (.error, [], [])
  | e :: es =>
    let first := found rules p e
    (first.type, first.expr :: es, first.errors ++ typeArgs.flatMap (typeErrors rules))

theorem finds_inferPayload (rules : Rules) (p : Setting) (typeArgs : List Name) (es : List Expr)
    (names : List String) :
    let payload := foundPayload rules p typeArgs es
    Finds p.context names (inferPayload rules p.scope typeArgs es) (payload.1, payload.2.1)
      payload.2.2 names := by
  cases es with
  | nil => exact .pure _
  | cons e es =>
    exact .bind (finds_infer rules p e names) (.map (reports_resolveTypes typeArgs).finds (.pure _))

/-- A reference reads its argument if nothing is wrong with itself. -/
theorem found_state {head : StateHead} (h : rules.registry.Holds head.descriptor)
    (es : List Expr) (recorded : Option Ty) :
    found rules p (.state head es recorded) =
      let own := p.stateErrors head es
      let payload :=
        if own = [] then foundPayload rules (p.earlier head es) head.typeArgs es
        else (.error, es, [])
      ⟨recorded.getD payload.1, .state head payload.2.1 (some (recorded.getD payload.1)),
        own ++ payload.2.2⟩ := by
  let own := p.stateErrors head es
  let payload :=
    if own = [] then foundPayload rules (p.earlier head es) head.typeArgs es else (.error, es, [])
  let clause := p.context.clause
  have read : Finds (p.earlier head es).context []
      (readState rules head
        (if own.isEmpty then some (p.earlier head es).scope else none) es)
      (payload.1, payload.2.1) payload.2.2 [] := by
    by_cases hown : own = []
    · simp only [payload, hown, if_true, List.isEmpty_nil]
      exact finds_inferPayload rules (p.earlier head es) head.typeArgs es []
    · have heq : own.isEmpty = false := by simpa using hown
      simp only [payload, hown, heq, if_false, Bool.false_eq_true]
      exact .pure _
  refine Finds.found_eq ?_
  rw [infer_state_eq]
  refine .next (.isRegistered h) ?_
  rw [if_pos rfl]
  have inner (kept : Ty × List Expr → Check (Ty × Expr)) (r : Ty × Expr)
      (hkept : Finds (p.earlier head es).context [] (kept (payload.1, payload.2.1)) r [] []) :
      Finds p.context [] (within none
        ((enterState head es p.scope >>= fun inner => readState rules head inner es) >>= kept))
        r (own ++ payload.2.2) [] := by
    rw [bind_assoc, Local.reference_eq]
    exact .next .context (.bind (.reportAll _) (.labeled _ (.map read hkept)))
  exact inner _ _ (.pure _)

/-- What does not belong to the registry is left as it is. -/
theorem found_state_foreign {head : StateHead} (h : ¬rules.registry.Holds head.descriptor)
    (es : List Expr) (recorded : Option Ty) :
    found rules p (.state head es recorded) = ⟨.error, .state head es recorded, []⟩ := by
  refine Finds.found_eq ?_
  rw [infer_state_eq]
  exact .next (.isForeign h) (.pure _)

end Check

end Contracts
