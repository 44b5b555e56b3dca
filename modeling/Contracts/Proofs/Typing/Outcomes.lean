import Contracts.Proofs.Typing.Found

/-! How the small checks of an expression come out. Each gives what it looks for and reports
nothing, or reports one mistake, or says nothing where the part that it looks at has been
found wrong before (`Check.Outcome`). What they report has nothing to do with earlier states. -/

namespace Contracts.Check

variable {α : Type} {rules : Rules} {c : Context}

/-- None of the errors is about earlier states. -/
def Host (errors : List TypeError) : Prop := ∀ e ∈ errors, e.category = .host

theorem Host.nil : Host [] := List.forall_mem_nil _

theorem Host.one {fault : TypeFault} (span : Span) (h : fault.category = .host) :
    Host [⟨fault, span⟩] := List.forall_mem_singleton.2 h

theorem Host.append {es fs : List TypeError} (h : Host es) (k : Host fs) : Host (es ++ fs) :=
  List.forall_mem_append.2 ⟨h, k⟩

theorem Host.ite {p : Prop} [Decidable p] {es fs : List TypeError} (h : p → Host es)
    (k : ¬p → Host fs) : Host (if p then es else fs) := by
  split
  · next hp => exact h hp
  · next hp => exact k hp

theorem Host.flatMap {ι : Type} {f : ι → List TypeError} {is : List ι} (h : ∀ i, Host (f i)) :
    Host (is.flatMap f) := by
  intro e he
  obtain ⟨i, -, hi⟩ := List.mem_flatMap.1 he
  exact h i e hi

/-- A value and the errors behind it: the value is right and nothing is wrong, or it is the one
that stands for a mistake, which is reported or was found before. -/
inductive Outcome (right : α → Prop) (blamed : Prop) (bad : α) : α → List TypeError → Prop
  | right {a : α} : right a → Outcome right blamed bad a []
  | reported {f : TypeFault} (span : Span) : f.category = .host →
      Outcome right blamed bad bad [⟨f, span⟩]
  | silent : blamed → Outcome right blamed bad bad []

namespace Outcome

variable {right : α → Prop} {blamed : Prop} {bad a : α} {errors : List TypeError}

theorem host (h : Outcome right blamed bad a errors) : Host errors := by
  cases h with
  | right | silent => exact .nil
  | reported span host => exact .one span host

/-- Where nothing is wrong, before and now, the value is right. -/
theorem of_quiet (h : Outcome right blamed bad a errors) (quiet : errors = [])
    (innocent : ¬blamed) : right a := by
  cases h with
  | right h => exact h
  | reported => nomatch quiet
  | silent h => exact absurd h innocent

theorem of_finds {m : Check α} (h : Finds c [] m a errors [])
    (k : Outcome right blamed bad a errors) :
    Outcome right blamed bad (given m c) (wrong m c) := by
  rwa [h.given_eq, h.wrong_eq]

end Outcome

/-! ### Names and written types -/

theorem outcome_symbol (rules : Rules) (env : Env) (n : Name) :
    Outcome (env.typeOf? rules.classes n.text = some ·) False .error
      ((env.typeOf? rules.classes n.text).getD .error) (symbolErrors rules env n) := by
  unfold symbolErrors
  cases env.typeOf? rules.classes n.text with
  | some type => exact .right rfl
  | none => exact .reported n.span rfl

theorem outcome_type (rules : Rules) (n : Name) :
    Outcome (rules.classes.type? n.text = some ·) False .error (declaredType rules n)
      (typeErrors rules n) := by
  unfold declaredType typeErrors
  cases rules.classes.type? n.text with
  | some type => exact .right rfl
  | none => exact .reported n.span rfl

theorem host_mismatch (expected : Option Ty) (found : Ty) (span : Span) :
    Host (mismatch expected found span) := by
  unfold mismatch
  split
  · exact .nil
  · exact .ite (fun _ => .nil) fun _ => .one span rfl

/-! ### Operators, fields and results -/

theorem eq_error_of_isError {type : Ty} (h : type.isError = true) : type = .error := by
  by_contra known
  rw [Ty.isError_eq_false known] at h
  cases h

theorem outcome_binary (op : BinaryOp) (left right : Ty) (span : Span) (c : Context) :
    Outcome (op.result? left right = some ·) (left = .error ∨ right = .error) .error
      (given (binaryType op left right span) c) (wrong (binaryType op left right span) c) := by
  unfold binaryType
  split
  · next unknown =>
    exact .silent ((Bool.or_eq_true_iff.1 unknown).imp eq_error_of_isError eq_error_of_isError)
  · cases op.result? left right with
    | some type => exact .right rfl
    | none => exact .reported span rfl

theorem outcome_unary (op : UnaryOp) (operand : Ty) (span : Span) (c : Context) :
    Outcome (· = op.typing) (operand = .error) .error
      (given (unaryType op operand span) c) (wrong (unaryType op operand span) c) := by
  unfold unaryType
  split
  · next fits =>
    rcases Bool.or_eq_true_iff.1 fits with unknown | same
    · rw [eq_error_of_isError unknown]
      exact .silent rfl
    · exact .right (beq_iff_eq.1 same)
  · exact .reported span rfl

theorem outcome_field (rules : Rules) (owner : Ty) (field : Name) (c : Context) :
    Outcome (fun type => ∃ name, owner = .named name ∧
        rules.classes.field? name field.text = some type) (owner = .error) .error
      (given (fieldType rules owner field) c) (wrong (fieldType rules owner field) c) := by
  unfold fieldType
  cases owner with
  | error => exact .silent rfl
  | named name =>
    dsimp only
    cases h : rules.classes.field? name field.text with
    | some type => exact Outcome.right (a := type) ⟨name, rfl, h⟩
    | none => exact Outcome.reported (f := .unknownField (.named name) field.text) _ rfl
  | int => exact Outcome.reported (f := .unknownField .int field.text) _ rfl
  | boolean => exact Outcome.reported (f := .unknownField .boolean field.text) _ rfl
  | void => exact Outcome.reported (f := .unknownField .void field.text) _ rfl

theorem outcome_result (env : Env) (span : Span) (c : Context) :
    Outcome (env.returnType = some ·) False .error
      (given (resultType env span) c) (wrong (resultType env span) c) := by
  have misplaced : Finds c [] (do report .misplacedResult span; return Ty.error) .error
      [⟨.misplacedResult, span⟩] [] := .map (.reportAll _) (.pure _)
  by_cases labeled : c.label.isSome
  · refine .of_finds (.next .context ?_) (.reported (f := .resultInState) span rfl)
    rw [if_pos labeled]
    exact .map (.reportAll _) (.pure _)
  · cases h : env.returnType with
    | none =>
      refine .of_finds (.next .context ?_) (.reported (f := .misplacedResult) span rfl)
      rw [if_neg labeled, h]
      exact misplaced
    | some type =>
      by_cases legal : c.clause.map (·.kind) = some (.methodSpec .ensures) ∧ ¬type.isVoid
      · refine .of_finds (.next .context ?_) (.right (a := type) rfl)
        rw [if_neg labeled, h]
        dsimp only
        rw [if_pos legal]
        exact .pure _
      · refine .of_finds (.next .context ?_) (.reported (f := .misplacedResult) span rfl)
        rw [if_neg labeled, h]
        dsimp only
        rw [if_neg legal]
        exact misplaced

theorem outcome_signature (rules : Rules) (owner : Ty) (method : Name) (args : List Expr)
    (span : Span) (c : Context) :
    Outcome (fun signature => signature.isSome ∧ signature? rules owner method.text = signature)
      (owner = .error) none (given (callSignature rules owner method args span) c)
      (wrong (callSignature rules owner method args span) c) := by
  unfold callSignature
  cases h : signature? rules owner method.text with
  | none =>
    dsimp only
    cases known : owner.isError with
    | true => exact .silent (eq_error_of_isError known)
    | false => exact .reported method.span rfl
  | some signature =>
    dsimp only
    split
    · exact .right ⟨rfl, rfl⟩
    · exact .reported span rfl

theorem host_callable (callee : Ty) (span : Span) : Host (callableErrors callee span) :=
  .ite (fun _ => .nil) fun _ => .one span rfl

/-! ### Checks without a context -/

/-- The check adds the same in every context. -/
def Contextless (m : Check α) : Prop := ∀ c c' names, m.effect c' names = m.effect c names

namespace Contextless

variable {m : Check α}

theorem given_eq (h : Contextless m) (c c' : Context) : given m c' = given m c :=
  congrArg Effect.value (h c c' [])

theorem wrong_eq (h : Contextless m) (c c' : Context) : wrong m c' = wrong m c :=
  congrArg Effect.errors (h c c' [])

end Contextless

theorem Reports.contextless {m : Check α} {a : α} {errors : List TypeError}
    (h : Reports m a errors) : Contextless m := by
  intro c c' names
  rw [effect, effect, h, h]

theorem Reports.isLocal {faultless blind : Prop} {m : Check α} {a : α} {errors : List TypeError}
    (h : Reports m a errors) : Local faultless blind m := by
  refine .of_out (fun _ names => { value := a, errors, names }) (fun s => ?_) (fun _ _ _ => rfl)
    fun _ _ _ _ => rfl
  rw [h, Effect.on, Option.or_none]
  rfl

theorem contextless_isRegistered (rules : Rules) (d : Descriptor) :
    Contextless (isRegistered rules d) := by
  intro c c' names
  simp only [effect, run_isRegistered]
  split <;> rfl

theorem contextless_binary (op : BinaryOp) (left right : Ty) (span : Span) :
    Contextless (binaryType op left right span) := by
  intro c c' names
  unfold binaryType
  split
  · rfl
  · split <;> rfl

theorem contextless_unary (op : UnaryOp) (operand : Ty) (span : Span) :
    Contextless (unaryType op operand span) := by
  intro c c' names
  unfold unaryType
  split <;> rfl

theorem contextless_field (rules : Rules) (owner : Ty) (field : Name) :
    Contextless (fieldType rules owner field) := by
  intro c c' names
  unfold fieldType
  split
  · rfl
  · split <;> rfl
  · rfl

theorem contextless_signature (rules : Rules) (owner : Ty) (method : Name) (args : List Expr)
    (span : Span) : Contextless (callSignature rules owner method args span) := by
  intro c c' names
  unfold callSignature
  split
  · split <;> rfl
  · split <;> rfl

/-- `\result` looks at the kind of the clause, and whether there is a label. -/
theorem result_congr (env : Env) (span : Span) {c c' : Context}
    (label : c'.label.isSome = c.label.isSome)
    (kind : c'.clause.map (·.kind) = c.clause.map (·.kind)) :
    given (resultType env span) c' = given (resultType env span) c ∧
      wrong (resultType env span) c' = wrong (resultType env span) c := by
  let misplaced : Check Ty := do report .misplacedResult span; return .error
  let body (labeled : Bool) (kind : Option ClauseKind) : Check Ty :=
    if labeled then do report .resultInState span; return .error
    else env.returnType.elim misplaced fun type =>
      if kind = some (.methodSpec .ensures) ∧ ¬type.isVoid then return type else misplaced
  have contextless (labeled : Bool) (kind : Option ClauseKind) :
      Contextless (body labeled kind) := by
    intro c c' names
    dsimp only [body]
    split
    · rfl
    · cases env.returnType with
      | none => rfl
      | some type =>
        dsimp only [Option.elim_some]
        split <;> rfl
  have read (c : Context) :
      (resultType env span).effect c [] =
        (body c.label.isSome (c.clause.map (·.kind))).effect c [] := by
    obtain ⟨className, returnType, locals⟩ := env
    cases returnType <;> rfl
  rw [given, given, wrong, wrong, read, read, label, kind, contextless _ _ c c']
  exact ⟨rfl, rfl⟩

end Contracts.Check
