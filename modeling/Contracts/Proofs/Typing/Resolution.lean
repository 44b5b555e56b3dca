import Contracts.Proofs.Typing.Placeholders
import Contracts.Proofs.Typing.Workspace

/-! How a reference to an earlier state is resolved. What is wrong with the reference itself is of
three kinds, which are told apart by its place, its arguments and the labels in force, and each is
reported at most once. If nothing is wrong, the first argument is read once, and in which
environment depends on where the reference stands (`resolve_reference`). -/

namespace Contracts

/-! ### Scopes behind statements -/

theorem Scope.Widens.refl (s : Scope) : s.Widens s := (Scope.Declares.refl s).widens

namespace Point

variable {rules : Rules} {c : Context}

theorem widens_label (p : Point) (name : Name) : p.scope.Widens (p.label name).scope := by
  unfold label
  split
  · exact .refl _
  · next free => exact .addLabel (Bool.not_eq_true _ ▸ free)

theorem widens_passed (p : Point) (s : Statement) :
    p.scope.Widens (Check.passed rules c p s).behind.scope :=
  Check.widens_checkStatement p.scope s _

theorem widens_behindAll (p : Point) (ss : List Statement) :
    p.scope.Widens (Check.behindAll rules c p ss).scope := by
  induction ss generalizing p with
  | nil => exact .refl _
  | cons s ss ih => exact (widens_passed p s).trans (ih _)

theorem widens_enterAll (p : Point) (layers : List Statement.Layer) :
    p.scope.Widens (p.enterAll rules c layers).scope := by
  induction layers generalizing p with
  | nil => exact .refl _
  | cons l layers ih =>
    have first : p.scope.Widens (p.enter rules c l).scope := by
      cases l with
      | labeled label span => exact widens_label p label
      | block before after span => exact widens_behindAll p before
    exact first.trans (ih _)

end Point

/-! ### Scopes of settings -/

/-- What holds of the scope of a place, and is kept when the environment of an earlier state is
entered, holds wherever an expression is read inside the one in that place. -/
theorem Check.scope_settingAt? {rules : Rules} {P : Scope → Prop}
    (kept : ∀ scope clause label, P scope → P (scope.asOf clause label))
    {layers : List Expr.Layer} {e : Expr} {p q : Setting}
    (read : settingAt? rules p layers e = some q) (h : P p.scope) : P q.scope := by
  induction layers generalizing p with
  | nil =>
    obtain rfl := Option.some.inj read
    exact h
  | cons l layers ih =>
    obtain ⟨inner, first, read⟩ := Option.bind_eq_some_iff.1 read
    refine ih read ?_
    cases l with
    | stateArg head before after recorded =>
      simp only [into, Option.ite_none_right_eq_some] at first
      obtain ⟨-, first⟩ := first
      obtain rfl := Option.some.inj first
      exact kept _ _ _ h
    | _ =>
      obtain rfl := Option.some.inj first
      exact h

namespace Scope

theorem envAt_entry {s : Scope} {env : Env} (fixed : s.entry = some env) :
    s.envAt .entry = env := by
  rw [envAt, fixed, Option.getD_some]

theorem envAt_label {s : Scope} {env : Env} {label : Name}
    (fixed : s.labels.lookup label.text = some env) : s.envAt (.named label) = env := by
  rw [envAt, fixed, Option.getD_some]

/-- Inside a method the environment of its entry is known. -/
def Anchored (s : Scope) : Prop := s.env.inMethod = true → ∃ env, s.entry = some env

theorem Anchored.asOf {s : Scope} (h : s.Anchored) (clause : Option Descriptor)
    (label : StateLabel) : (s.asOf clause label).Anchored := by
  unfold Scope.asOf Embedding.classify
  cases inMethod : s.env.inMethod with
  | false => exact h
  | true =>
    split
    · exact h
    · exact h
    · exact fun _ => h inMethod

end Scope

theorem Member.Slot.anchored (rules : Rules) (className : String) (slot : Member.Slot) :
    (slot.setting rules className).scope.Anchored := by
  cases slot with
  | field f => exact nofun
  | clause k => exact nofun
  | spec m => exact fun _ => ⟨_, rfl⟩
  | body m before after layers slot =>
    exact fun _ => ⟨_, (Point.widens_enterAll (m.entry rules className) _).entry⟩

/-! ### What a reference asks of its place -/

namespace StateHead

/-- The references that may stand in a clause, or outside all clauses. Clauses say by their
capabilities which references they admit; what is declared in a method may refer to labels, and
to the state before. -/
inductive Admitted (head : StateHead) (args : List Expr) (inMethod : Bool) :
    Option Descriptor → Prop
  | free (keyword : head.keyword ≠ .pre) (count : args.length < 2) :
    Admitted head args inMethod none
  | entry {d : Descriptor} (keyword : head.keyword = .pre) (capable : d.capabilities.entry = true) :
    Admitted head args inMethod (some d)
  | unlabeled {d : Descriptor} (keyword : head.keyword ≠ .pre) (count : args.length < 2)
    (capable : d.capabilities.unlabeled = true) : Admitted head args inMethod (some d)
  | labeled {d : Descriptor} (keyword : head.keyword ≠ .pre) (count : 2 ≤ args.length)
    (capable : d.capabilities.labeled = true) : Admitted head args inMethod (some d)
  | declaration {d : Descriptor} (keyword : head.keyword ≠ .pre)
    (kind : d.kind.isDeclaration = true) (within : inMethod = true) :
    Admitted head args inMethod (some d)

theorem form_eq (head : StateHead) (args : List Expr) :
    head.form args =
      if head.keyword = .pre then .entry else if 2 ≤ args.length then .labeled else .unlabeled := by
  rw [form, StateForm.ofArguments]
  cases head.keyword <;> rfl

theorem admitted_iff (head : StateHead) (args : List Expr) (inMethod : Bool)
    (clause : Option Descriptor) :
    head.Admitted args inMethod clause ↔ (head.form args).isLegal clause inMethod = true := by
  rw [form_eq]
  constructor
  · rintro (⟨keyword, count⟩ | ⟨keyword, capable⟩ | ⟨keyword, count, capable⟩ |
      ⟨keyword, count, capable⟩ | ⟨keyword, kind, within⟩)
    · rw [if_neg keyword, if_neg (by omega)]
      rfl
    · rw [if_pos keyword]
      exact capable
    · rw [if_neg keyword, if_neg (by omega)]
      simp [StateForm.isLegal, capable]
    · rw [if_neg keyword, if_pos count]
      simp [StateForm.isLegal, capable]
    · rw [if_neg keyword]
      split <;> simp [StateForm.isLegal, kind, within]
  · intro legal
    split at legal
    · next keyword =>
      cases clause with
      | none => cases legal
      | some d => exact .entry keyword legal
    · next keyword =>
      split at legal
      · next count =>
        cases clause with
        | none => cases legal
        | some d =>
          simp only [StateForm.isLegal, Bool.or_eq_true, Bool.and_eq_true] at legal
          rcases legal with capable | ⟨kind, within⟩
          · exact .labeled keyword count capable
          · exact .declaration keyword kind within
      · next count =>
        cases clause with
        | none => exact .free keyword (by omega)
        | some d =>
          simp only [StateForm.isLegal, Bool.or_eq_true, Bool.and_eq_true] at legal
          rcases legal with capable | ⟨kind, within⟩
          · exact .unlabeled keyword (by omega) capable
          · exact .declaration keyword kind within

end StateHead

/-- The expression names a label that is in force in the method at hand. -/
def Scope.Resolves (scope : Scope) (e : Expr) (label : Name) : Prop :=
  e = .name label ∧ scope.env.inMethod = true ∧ ∃ env, scope.labels.lookup label.text = some env

theorem Scope.label?_iff_resolves {scope : Scope} {e : Expr} {label : Name} :
    scope.label? e = some label ↔ scope.Resolves e label := by
  have named : e.asName? = some label ↔ e = .name label := by
    cases e <;> simp [Expr.asName?]
  have known : scope.hasLabel label.text = true ↔
      ∃ env, scope.labels.lookup label.text = some env := Option.isSome_iff_exists
  rw [label?, Resolves]
  split
  · next within => rw [Option.filter_eq_some_iff, named, known, and_iff_right within]
  · next outside => exact iff_of_false (Option.some_ne_none label).symm fun h => outside h.2.1

namespace StateHead

/-- The state that a reference means with which nothing is wrong: the label that its second
argument names, or the entry of the method. -/
inductive Means (head : StateHead) (scope : Scope) : List Expr → StateLabel → Prop
  | named {e second : Expr} {label : Name} (keyword : head.keyword ≠ .pre)
    (resolves : scope.Resolves second label) : Means head scope [e, second] (.named label)
  | entry {args : List Expr} (unnamed : head.keyword = .pre ∨ args.length ≠ 2) :
    Means head scope args .entry

end StateHead

/-- The environment in which the first argument of a reference is read. Outside methods and in the
specification of a method it is the environment at hand, otherwise the one that was fixed at the
label or at the entry of the method. -/
inductive Setting.Payload (p : Setting) : StateLabel → Env → Prop
  | topLevel {label : StateLabel} (outside : p.scope.env.inMethod = false) :
    Payload p label p.scope.env
  | specification {label : StateLabel} {d : Descriptor} (clause : p.context.clause = some d)
    (kind : d.kind.isMethodSpec = true) : Payload p label p.scope.env
  | entry {env : Env} (within : p.scope.env.inMethod = true)
    (body : ∀ d ∈ p.context.clause, d.kind.isMethodSpec = false)
    (fixed : p.scope.entry = some env) : Payload p .entry env
  | label {name : Name} {env : Env} (within : p.scope.env.inMethod = true)
    (body : ∀ d ∈ p.context.clause, d.kind.isMethodSpec = false)
    (fixed : p.scope.labels.lookup name.text = some env) : Payload p (.named name) env

namespace StateHead

variable {head : StateHead} {args : List Expr} {scope : Scope}

/-! ### Mistakes -/

theorem labelArgument?_eq_some_iff {label : Expr} :
    head.labelArgument? args = some label ↔ head.keyword ≠ .pre ∧ ∃ e, args = [e, label] := by
  constructor
  · intro h
    unfold labelArgument? at h
    split at h
    · next e second =>
      split at h
      · cases h
      · next other =>
        cases h
        refine ⟨fun keyword => other ?_, e, rfl⟩
        rw [keyword]
        rfl
    · cases h
  · rintro ⟨keyword, e, rfl⟩
    exact labelArgument?_pair keyword e label

theorem isSome_arityError? :
    (head.arityError? args).isSome ↔ ¬head.descriptor.arity.admits args.length = true := by
  unfold arityError?
  dsimp only
  split
  · next admitted => simp [admitted]
  · next admitted => split <;> simp [admitted]

theorem isSome_placeError? {clause : Option Descriptor} {inMethod : Bool} :
    (head.placeError? args clause inMethod).isSome ↔ ¬head.Admitted args inMethod clause := by
  rw [admitted_iff]
  unfold placeError?
  dsimp only
  split
  · next legal => simp [legal]
  · next legal => simp [legal]

theorem isSome_labelError? :
    (head.labelError? args scope).isSome ↔
      head.keyword ≠ .pre ∧
        ∃ e second, args = [e, second] ∧ ∀ label, ¬scope.Resolves second label := by
  simp only [← Scope.label?_iff_resolves]
  unfold labelError?
  split
  · next unasked =>
    refine iff_of_false nofun ?_
    rintro ⟨keyword, e, second, rfl, -⟩
    exact Option.some_ne_none _ ((labelArgument?_pair keyword e second).symm.trans unasked)
  · next second asked =>
    obtain ⟨keyword, e, rfl⟩ := labelArgument?_eq_some_iff.1 asked
    cases known : scope.label? second with
    | none => exact iff_of_true rfl ⟨keyword, e, second, rfl, by simp [known]⟩
    | some label =>
      refine iff_of_false nofun ?_
      rintro ⟨-, e', second', same, unknown⟩
      cases same
      exact unknown label known

theorem category_arityError? : ∀ e ∈ head.arityError? args, e.category = .arity := by
  unfold arityError?
  dsimp only
  intro e he
  split at he
  · cases he
  · split at he <;> cases he <;> rfl

theorem category_placeError? {clause : Option Descriptor} {inMethod : Bool} :
    ∀ e ∈ head.placeError? args clause inMethod, e.category = .contextLegality := by
  unfold placeError?
  dsimp only
  intro e he
  split at he <;> cases he
  rfl

theorem category_labelError? :
    ∀ e ∈ head.labelError? args scope, e.category = .labelResolution := by
  unfold labelError?
  intro e he
  split at he
  · cases he
  · split at he <;> cases he
    rfl

/-- The kinds of the mistakes, in the order in which they are reported. -/
theorem categories_errors (clause : Option Descriptor) :
    (head.errors args clause scope).map (·.category) =
      (if (head.arityError? args).isSome then [.arity] else []) ++
        ((if (head.placeError? args clause scope.env.inMethod).isSome
          then [.contextLegality] else []) ++
          if (head.labelError? args scope).isSome then [.labelResolution] else []) := by
  have kinds : ∀ (o : Option TypeError) (c : Category), (∀ e ∈ o, e.category = c) →
      o.toList.map (·.category) = if o.isSome then [c] else [] := by
    rintro (_ | e) c h
    · rfl
    · exact congrArg (· :: []) (h e rfl)
  rw [errors, List.map_append, List.map_append, List.append_assoc,
    kinds _ _ category_arityError?, kinds _ _ category_placeError?, kinds _ _ category_labelError?]

/-- Each kind of mistake is reported at most once, and exactly where it is made. -/
theorem mistakes (head : StateHead) (args : List Expr) (clause : Option Descriptor)
    (scope : Scope) :
    let kinds := (head.errors args clause scope).map (·.category)
    kinds.Sublist [.arity, .contextLegality, .labelResolution] ∧
      (.arity ∈ kinds ↔ ¬head.descriptor.arity.admits args.length = true) ∧
      (.contextLegality ∈ kinds ↔ ¬head.Admitted args scope.env.inMethod clause) ∧
      (.labelResolution ∈ kinds ↔ head.keyword ≠ .pre ∧
        ∃ e second, args = [e, second] ∧ ∀ label, ¬scope.Resolves second label) := by
  intro kinds
  simp only [kinds, categories_errors, ← isSome_arityError?, ← isSome_placeError?,
    ← isSome_labelError?]
  cases (head.arityError? args).isSome <;>
    cases (head.placeError? args clause scope.env.inMethod).isSome <;>
    cases (head.labelError? args scope).isSome <;> decide

/-- A reference with nothing wrong means what it says. -/
theorem means_label {clause : Option Descriptor} (clean : head.errors args clause scope = []) :
    head.Means scope args (head.label args scope) := by
  obtain ⟨-, -, known⟩ := errors_eq_nil_iff.1 clean
  rw [label]
  cases asked : head.labelArgument? args with
  | none =>
    refine .entry (or_iff_not_imp_left.2 fun keyword pair => ?_)
    obtain ⟨e, second, rfl⟩ := List.length_eq_two.1 pair
    exact Option.some_ne_none _ ((labelArgument?_pair keyword e second).symm.trans asked)
  | some second =>
    obtain ⟨keyword, e, rfl⟩ := labelArgument?_eq_some_iff.1 asked
    obtain ⟨name, named⟩ := Option.isSome_iff_exists.1 (known second asked)
    rw [Option.bind_some, named]
    exact .named keyword (Scope.label?_iff_resolves.1 named)

end StateHead

/-- With nothing wrong, the first argument is read in the environment of the state that is
meant. -/
theorem Setting.exists_payload {p : Setting} (anchored : p.scope.Anchored) {head : StateHead}
    {args : List Expr} {label : StateLabel} (means : head.Means p.scope args label) :
    ∃ env, p.Payload label env ∧
      p.scope.asOf p.context.clause label = { p.scope with env := env } := by
  unfold Scope.asOf Embedding.classify
  cases within : p.scope.env.inMethod with
  | false => exact ⟨_, .topLevel within, rfl⟩
  | true =>
    cases spec : (p.context.clause.map (·.kind)).any (·.isMethodSpec) with
    | true =>
      obtain ⟨d, clause, kind⟩ : ∃ d, p.context.clause = some d ∧ d.kind.isMethodSpec = true := by
        cases clause : p.context.clause <;> simp_all
      exact ⟨_, .specification clause kind, rfl⟩
    | false =>
      have body : ∀ d ∈ p.context.clause, d.kind.isMethodSpec = false := by
        cases clause : p.context.clause <;> simp_all
      cases means with
      | @named _ _ name keyword resolves =>
        obtain ⟨-, -, env, fixed⟩ := resolves
        exact ⟨env, .label within body fixed, congrArg (Scope.mk · _ _) (Scope.envAt_label fixed)⟩
      | entry unnamed =>
        obtain ⟨env, fixed⟩ := anchored within
        exact ⟨env, .entry within body fixed, congrArg (Scope.mk · _ _) (Scope.envAt_entry fixed)⟩

/-! ### Runs -/

namespace Check

variable {rules : Rules} {p : Setting} {head : StateHead} {s : CheckState}

/-- A reference is read in a frame of its own, where the state that it means is noted. -/
theorem run_reference (registered : rules.registry.Holds head.descriptor) (args : List Expr)
    (here : s.contexts.current = p.context) :
    let own := p.stateErrors head args
    let inner := if own.isEmpty then some (p.earlier head args).scope else none
    let r := (readState rules head inner args).run { s with
      contexts := s.contexts.push.setLabel (head.label args p.scope), errors := s.errors ++ own }
    (infer rules p.scope (.state head args none)).run s =
      ((r.1.1, .state head r.1.2 (some r.1.1)), { r.2 with contexts := r.2.contexts.pop }) := by
  have clause : (s.contexts.enter none).current.clause = p.context.clause := by
    rw [← here]
    rfl
  rw [infer_state_eq, run_bind, run_isRegistered, if_pos (show _ = _ from registered)]
  simp only [if_true, run_within, run_bind, run_enterState, clause, Option.getD_none]
  rfl

theorem run_reference_of_failed (registered : rules.registry.Holds head.descriptor)
    {args : List Expr} (here : s.contexts.current = p.context)
    (failed : p.stateErrors head args ≠ [] ∨ args = []) :
    (infer rules p.scope (.state head args none)).run s =
      ((.error, .state head args (some .error)),
        { s with
          contexts := s.contexts.cycled 1
          errors := s.errors ++ p.stateErrors head args }) := by
  have unread : readState rules head
      (if (p.stateErrors head args).isEmpty then some (p.earlier head args).scope else none) args =
        pure (.error, args) := by
    rcases failed with wrong | rfl
    · rw [if_neg (by simpa using wrong)]
      rfl
    · split <;> rfl
  rw [run_reference registered args here, unread]
  exact congrArg (Prod.mk _) (congrArg (CheckState.mk · _ _ _)
    (ContextStack.pop_cycled_setLabel _ 0 _))

theorem run_reference_of_clean (registered : rules.registry.Holds head.descriptor) {e : Expr}
    {es : List Expr} (here : s.contexts.current = p.context)
    (clean : p.stateErrors head (e :: es) = []) :
    let label := head.label (e :: es) p.scope
    let payload := (infer rules (p.scope.asOf p.context.clause label) e).run
      { s with contexts := s.contexts.push.setLabel label }
    let behind := ((resolveTypes rules head.typeArgs).run payload.2).2
    (infer rules p.scope (.state head (e :: es) none)).run s =
      ((payload.1.1, .state head (payload.1.2 :: es) (some payload.1.1)),
        { behind with contexts := behind.contexts.pop }) := by
  rw [run_reference registered (e :: es) here, clean]
  simp only [List.isEmpty_nil, if_true, List.append_nil]
  rfl

end Check

/-- References to earlier states are resolved as their place and their arguments ask for, in every
place that the check of a member comes to and from every state of the check there. Of the
reference itself are reported, in this order and each at most once, that its descriptor does not
admit so many arguments, that its place does not admit it, and that the second of two arguments is
no label. If something is, or there are no arguments, it has the error type and nothing else is
done. Otherwise its first argument and no other one is read, once, in a frame of its own with the
state noted that the reference means, and in the environment of that state; the type that is found
is the type of the reference. -/
theorem resolve_reference (rules : Rules) (className : String) (slot : Member.Slot)
    (layers : List Expr.Layer) (head : StateHead) (args : List Expr) (p : Setting)
    (reached : Check.settingAt? rules (slot.setting rules className) layers
      (.state head args none) = some p)
    (registered : rules.registry.Holds head.descriptor) (s : CheckState)
    (here : s.contexts.current = p.context) :
    let own := p.stateErrors head args
    let kinds := own.map (·.category)
    let run := (Check.infer rules p.scope (.state head args none)).run s
    kinds.Sublist [.arity, .contextLegality, .labelResolution] ∧
    (.arity ∈ kinds ↔ ¬head.descriptor.arity.admits args.length = true) ∧
    (.contextLegality ∈ kinds ↔ ¬head.Admitted args p.scope.env.inMethod p.context.clause) ∧
    (.labelResolution ∈ kinds ↔ head.keyword ≠ .pre ∧
      ∃ e second, args = [e, second] ∧ ∀ label, ¬p.scope.Resolves second label) ∧
    (own ≠ [] ∨ args = [] →
      run = ((.error, .state head args (some .error)),
        { s with contexts := s.contexts.cycled 1, errors := s.errors ++ own })) ∧
    ∀ e es, own = [] → args = e :: es →
      ∃ label env, head.Means p.scope args label ∧ p.Payload label env ∧
        let payload := (Check.infer rules { p.scope with env } e).run
          { s with contexts := s.contexts.push.setLabel label }
        let behind := ((Check.resolveTypes rules head.typeArgs).run payload.2).2
        run = ((payload.1.1, .state head (payload.1.2 :: es) (some payload.1.1)),
          { behind with contexts := behind.contexts.pop }) := by
  intro own kinds run
  obtain ⟨order, arity, place, label⟩ := head.mistakes args p.context.clause p.scope
  refine ⟨order, arity, place, label, Check.run_reference_of_failed registered here, ?_⟩
  rintro e es clean rfl
  have anchored : p.scope.Anchored :=
    Check.scope_settingAt? (fun _ clause label h => h.asOf clause label) reached
      (slot.anchored rules className)
  have means := StateHead.means_label clean
  obtain ⟨env, holds, scope⟩ := Setting.exists_payload anchored means
  refine ⟨_, env, means, holds, ?_⟩
  rw [← scope]
  exact Check.run_reference_of_clean registered here clean

/-- In a method `void m(boolean a)` behind `L: a; boolean b;` the reference of
`assert \old(a, L);` is read at the label. -/
theorem resolve_reference_label :
    let o : Span := .origin
    let m : Method := ⟨⟨"void", o⟩, ⟨"m", o⟩, [⟨⟨"boolean", o⟩, ⟨"a", o⟩, o⟩], [], ⟨[], o⟩, o⟩
    let before : List Statement :=
      [.labeled ⟨"L", o⟩ (.expr (.name ⟨"a", o⟩)) o, .declare ⟨⟨"boolean", o⟩, ⟨"b", o⟩, none, o⟩]
    let slot : Member.Slot := .body m before [] [] (.clause (.ofKind (.statement .assert)) o)
    let p := slot.setting { registry := .standard } "C"
    let head : StateHead := ⟨.ofKind (.state .old), .old, [], o, o⟩
    let args : List Expr := [.name ⟨"a", o⟩, .name ⟨"L", o⟩]
    let s : CheckState := { contexts := { base := p.context } }
    p.stateErrors head args = [] ∧
      ∃ label env, head.Means p.scope args label ∧ p.Payload label env ∧
        ((Check.infer { registry := .standard } p.scope (.state head args none)).run s).1.1 =
          ((Check.infer { registry := .standard } { p.scope with env } (.name ⟨"a", o⟩)).run
            { s with contexts := s.contexts.push.setLabel label }).1.1 := by
  intro o m before slot p head args s
  have clean : p.stateErrors head args = [] := by decide +kernel
  obtain ⟨-, -, -, -, -, resolved⟩ := resolve_reference { registry := .standard } "C" slot [] head
    args p rfl (show Registry.get? _ _ = _ by decide +kernel) s rfl
  obtain ⟨label, env, means, holds, run⟩ := resolved _ _ clean rfl
  refine ⟨clean, label, env, means, holds, ?_⟩
  rw [run]

end Contracts
