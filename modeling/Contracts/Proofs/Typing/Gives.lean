import Contracts.Proofs.Typing.Balance
import Contracts.Proofs.Typing.Judgement

/-! Checks that find nothing wrong. A check gives a result from a state when it leaves the
errors and the fault of the state as they are. Errors are only added and a fault that has
been found stays, so a sequence gives a result exactly when each of its parts does
(`Gives.bind`, `Gives.of_bind`). What the small checks give is stated once for each. -/

namespace Contracts

/-! ### Operators -/

theorem Ty.isError_eq_false {τ : Ty} (h : τ ≠ .error) : τ.isError = false := by
  cases τ with
  | error => exact absurd rfl h
  | _ => rfl

theorem Ty.isVoid_iff {τ : Ty} : τ.isVoid = true ↔ τ = .void := by
  cases τ <;> simp [isVoid]

/-- The table of operators is the relation. -/
theorem BinaryOp.result?_eq_some_iff {op : BinaryOp} {left right τ : Ty} :
    op.result? left right = some τ ↔ left = right ∧ op.Takes left τ := by
  constructor
  · intro h
    unfold result? at h
    split at h
    · next hfits =>
      obtain ⟨hleft, rfl⟩ := hfits
      obtain rfl := Option.some.inj h
      refine ⟨rfl, ?_⟩
      cases op with
      | equal | notEqual => exact .equality (by decide)
      | _ =>
        rw [hleft]
        first
          | exact .arithmetic (by decide)
          | exact .comparison (by decide)
          | exact .logic (by decide)
    · nomatch h
  · rintro ⟨rfl, h⟩
    unfold result?
    cases h with
    | _ hop =>
      cases op with
      | _ => first | exact absurd hop (by decide) | simp [typing]

theorem UnaryOp.typing_eq_iff {op : UnaryOp} {τ : Ty} : τ = op.typing ↔ op.Takes τ := by
  constructor
  · rintro rfl
    cases op
    · exact .neg
    · exact .not
  · intro h
    cases h <;> rfl

namespace Check

open CheckState

variable {α β : Type} {m : Check α} {f : α → Check β} {s : CheckState} {a : α} {b : β}

/-- From this state the check has this result and finds nothing wrong. -/
structure Gives (m : Check α) (s : CheckState) (a : α) : Prop where
  result : (m.run s).1 = a
  errors : (m.run s).2.errors = s.errors
  fault : (m.run s).2.fault = s.fault

namespace Gives

theorem pure (a : α) (s : CheckState) : Gives (Pure.pure a) s a := ⟨rfl, rfl, rfl⟩

theorem bind (hm : Gives m s a) (hf : Gives (f a) (m.run s).2 b) : Gives (m >>= f) s b := by
  obtain ⟨rfl, errors, fault⟩ := hm
  exact ⟨hf.result, hf.errors.trans errors, hf.fault.trans fault⟩

/-- A sequence that finds nothing wrong has parts that find nothing wrong. -/
theorem of_bind (h : Gives (m >>= f) s b) (hm : Keeps Grows m) (hf : ∀ a, Keeps Grows (f a)) :
    ∃ a, Gives m s a ∧ Gives (f a) (m.run s).2 b := by
  have first := hm s
  have second := hf (m.run s).1 (m.run s).2
  have errors : (m.run s).2.errors = s.errors := by
    refine (first.errors.eq_of_length_le ?_).symm
    have hlast : ((f (m.run s).1).run (m.run s).2).2.errors = s.errors := h.errors
    rw [← hlast]
    exact second.errors.length_le
  have fault : (m.run s).2.fault = s.fault := by
    cases hmid : (m.run s).2.fault with
    | some e => rw [← second.fault (by rw [hmid]; rfl)] at hmid; exact hmid.symm.trans h.fault
    | none =>
      cases hs : s.fault with
      | some e => exact absurd ((first.fault (by rw [hs]; rfl)).symm.trans hmid) (by rw [hs]; simp)
      | none => rfl
  refine ⟨_, ⟨rfl, errors, fault⟩, h.result, ?_, ?_⟩
  · exact (show _ = s.errors from h.errors).trans errors.symm
  · exact (show _ = s.fault from h.fault).trans fault.symm

theorem unique {a' : α} (h : Gives m s a) (h' : Gives m s a') : a = a' :=
  h.result.symm.trans h'.result

end Gives

theorem gives_pure_iff {a' : α} : Gives (pure a) s a' ↔ a = a' :=
  ⟨fun h => h.result, fun h => h ▸ .pure a s⟩

/-- A check whose result is handed on. -/
theorem gives_map_iff {g : α → β} (hm : Keeps Grows m) :
    Gives (m >>= fun a => pure (g a)) s b ↔ ∃ a, Gives m s a ∧ g a = b := by
  constructor
  · intro h
    obtain ⟨a, first, h⟩ := h.of_bind hm fun _ => .pure _
    exact ⟨a, first, gives_pure_iff.1 h⟩
  · rintro ⟨a, first, rfl⟩
    exact first.bind (.pure _ _)

/-- A first step that is known and finds nothing wrong. -/
theorem gives_step_iff {t : CheckState} (h : m.run s = (a, t)) (errors : t.errors = s.errors)
    (fault : t.fault = s.fault) : Gives (m >>= f) s b ↔ Gives (f a) t b := by
  have same : (m >>= f).run s = (f a).run t := by rw [run_bind, h]
  constructor
  · intro g
    exact ⟨same ▸ g.result, errors ▸ same ▸ g.errors, fault ▸ same ▸ g.fault⟩
  · intro g
    refine ⟨?_, ?_, ?_⟩
    · rw [same, g.result]
    · rw [same, g.errors, errors]
    · rw [same, g.fault, fault]

/-- A check that looks at the state and leaves it. -/
theorem gives_look_iff (h : m.run s = (a, s)) : Gives (m >>= f) s b ↔ Gives (f a) s b :=
  gives_step_iff h rfl rfl

theorem gives_within_iff {clause : Option Descriptor} :
    Gives (within clause m) s a ↔ Gives m { s with contexts := s.contexts.enter clause } a :=
  ⟨fun h => ⟨h.result, h.errors, h.fault⟩, fun h => ⟨h.result, h.errors, h.fault⟩⟩

theorem gives_isRegistered_iff {rules : Rules} {d : Descriptor} {f : Bool → Check β}
    (h : rules.registry.get? d.keyword = some d) :
    Gives (isRegistered rules d >>= f) s b ↔ Gives (f true) s b :=
  gives_look_iff (by rw [run_isRegistered, if_pos h])

/-! ### Reports -/

theorem not_gives_reportAll {errors : List TypeError} {f : Unit → Check β} (hne : errors ≠ [])
    (hf : Keeps Grows (f ())) : ¬Gives (reportAll errors >>= f) s b := by
  intro h
  obtain ⟨_, first, _⟩ := h.of_bind (Keeps.reportAll _).grows fun _ => hf
  have := first.errors
  rw [run_reportAll] at this
  exact hne (List.append_right_eq_self.1 this)

theorem not_gives_report {fault : TypeFault} {span : Span} {f : Unit → Check β}
    (hf : Keeps Grows (f ())) : ¬Gives (report fault span >>= f) s b :=
  not_gives_reportAll (List.cons_ne_nil _ _) hf

/-! ### Names -/

theorem gives_resolveType_iff {rules : Rules} {name : Name} {τ : Ty} :
    Gives (resolveType rules name) s τ ↔ rules.classes.type? name.text = some τ := by
  unfold resolveType
  cases rules.classes.type? name.text with
  | some type => simp only [gives_pure_iff, Option.some.injEq]
  | none => exact iff_of_false (not_gives_report (.pure _)) (by simp)

theorem gives_resolveTypes_iff {rules : Rules} {names : List Name} {τs : List Ty} :
    Gives (resolveTypes rules names) s τs ↔
      List.Forall₂ (fun n τ => rules.classes.type? n.text = some τ) names τs := by
  induction names generalizing s τs with
  | nil =>
    unfold resolveTypes
    rw [gives_pure_iff, List.forall₂_nil_left_iff]
    exact eq_comm
  | cons name names ih =>
    unfold resolveTypes
    constructor
    · intro h
      obtain ⟨τ, hτ, h⟩ := h.of_bind (keeps_resolveType _ _).grows fun _ =>
        .bind (keeps_resolveTypes _ _).grows fun _ => .pure _
      obtain ⟨rest, hrest, h⟩ := h.of_bind (keeps_resolveTypes _ _).grows fun _ => .pure _
      obtain rfl := gives_pure_iff.1 h
      exact .cons (gives_resolveType_iff.1 hτ) (ih.1 hrest)
    · intro h
      cases h with
      | cons first others =>
        exact .bind (gives_resolveType_iff.2 first) (.bind (ih.2 others) (.pure _ _))

theorem gives_variableType_iff {rules : Rules} {env : Env} {name : Name} {τ : Ty} :
    Gives (variableType rules env name) s τ ↔ env.typeOf? rules.classes name.text = some τ := by
  unfold variableType
  cases env.typeOf? rules.classes name.text with
  | some type => simp only [gives_pure_iff, Option.some.injEq]
  | none => exact iff_of_false (not_gives_report (.pure _)) (by simp)

theorem gives_declare_iff {scope scope' : Scope} {name : Name} {τ : Ty} :
    Gives (declare scope name τ) s scope' ↔
      name.text ∉ s.names ∧ scope' = scope.addLocal name.text τ := by
  unfold declare
  rw [gives_look_iff (m := get) rfl]
  by_cases h : name.text ∈ s.names
  · rw [if_pos (by simpa using h)]
    exact iff_of_false (not_gives_report (.pure _)) fun g => g.1 h
  · simp only [List.contains_iff_mem, h, if_false, not_false_eq_true, true_and]
    exact ⟨fun g => g.result.symm, fun heq => heq ▸ ⟨rfl, rfl, rfl⟩⟩

/-! ### Types -/

theorem gives_require_iff {wanted found : Ty} {span : Span} (hwanted : wanted ≠ .error)
    (hfound : found ≠ .error) : Gives (require (some wanted) found span) s () ↔ found = wanted := by
  unfold require
  simp only [Ty.isError_eq_false hwanted, Ty.isError_eq_false hfound, Bool.false_or, beq_iff_eq]
  split
  · next h => exact ⟨fun _ => h, fun _ => .pure _ _⟩
  · next h =>
    refine ⟨fun g => ?_, fun heq => absurd heq h⟩
    rw [← bind_pure (report _ _)] at g
    exact (not_gives_report (.pure _) g).elim

theorem gives_binaryType_iff {op : BinaryOp} {left right τ : Ty} {span : Span}
    (hleft : left ≠ .error) (hright : right ≠ .error) :
    Gives (binaryType op left right span) s τ ↔ left = right ∧ op.Takes left τ := by
  unfold binaryType
  rw [Ty.isError_eq_false hleft, Ty.isError_eq_false hright, Bool.or_self, if_neg Bool.false_ne_true,
    ← BinaryOp.result?_eq_some_iff]
  cases op.result? left right with
  | some type => simp only [gives_pure_iff, Option.some.injEq]
  | none => exact iff_of_false (not_gives_report (.pure _)) (by simp)

theorem gives_unaryType_iff {op : UnaryOp} {operand τ : Ty} {span : Span}
    (h : operand ≠ .error) :
    Gives (unaryType op operand span) s τ ↔ operand = τ ∧ op.Takes operand := by
  unfold unaryType
  rw [Ty.isError_eq_false h, Bool.false_or, ← UnaryOp.typing_eq_iff]
  simp only [beq_iff_eq]
  split
  · next htype => simp only [gives_pure_iff, htype, and_true]
  · next htype => exact iff_of_false (not_gives_report (.pure _)) fun g => htype g.2

theorem gives_fieldType_iff {rules : Rules} {owner τ : Ty} {field : Name} (h : owner ≠ .error) :
    Gives (fieldType rules owner field) s τ ↔
      ∃ name, owner = .named name ∧ rules.classes.field? name field.text = some τ := by
  unfold fieldType
  cases owner with
  | error => exact absurd rfl h
  | named name =>
    dsimp only
    simp only [Ty.named.injEq, exists_eq_left']
    cases rules.classes.field? name field.text with
    | some type => simp only [gives_pure_iff, Option.some.injEq]
    | none => exact iff_of_false (not_gives_report (.pure _)) (by simp)
  | _ => exact iff_of_false (not_gives_report (.pure _)) (by simp)

theorem gives_resultType_iff {env : Env} {span : Span} {τ : Ty} :
    Gives (resultType env span) s τ ↔
      s.contexts.current.label = none ∧
        s.contexts.current.clause.map (·.kind) = some (.methodSpec .ensures) ∧
          env.returnType = some τ ∧ τ ≠ .void := by
  unfold resultType
  rw [gives_look_iff (run_context s)]
  split
  · next h =>
    rw [Option.isSome_iff_ne_none] at h
    exact iff_of_false (not_gives_report (.pure _)) fun g => h g.1
  · next h =>
    rw [Bool.not_eq_true, Option.isSome_eq_false_iff, Option.isNone_iff_eq_none] at h
    simp only [h, true_and]
    split
    · next type htype =>
      split
      · next hfits =>
        rw [gives_pure_iff, htype, Option.some.injEq]
        constructor
        · rintro rfl
          exact ⟨hfits.1, rfl, fun hvoid => hfits.2 (Ty.isVoid_iff.2 hvoid)⟩
        · exact fun g => g.2.1
      · next hfits =>
        refine iff_of_false (not_gives_report (.pure _)) ?_
        rintro ⟨hclause, heq, hτ⟩
        obtain rfl := Option.some.inj (htype.symm.trans heq)
        exact hfits ⟨hclause, fun hvoid => hτ (Ty.isVoid_iff.1 hvoid)⟩
    · next hnone => exact iff_of_false (not_gives_report (.pure _)) (by simp [hnone])

theorem gives_callSignature_iff {rules : Rules} {owner : Ty} {method : Name} {args : List Expr}
    {span : Span} {r : Option Signature} (h : owner ≠ .error) :
    Gives (callSignature rules owner method args span) s r ↔
      ∃ name signature, owner = .named name ∧
        rules.classes.method? name method.text = some signature ∧
          signature.params.length = args.length ∧ r = some signature := by
  unfold callSignature
  cases hfound : signature? rules owner method.text with
  | none =>
    simp only [Ty.isError_eq_false h, Bool.not_false, if_true]
    refine iff_of_false (not_gives_report (.pure _)) ?_
    rintro ⟨name, signature, rfl, hmethod, -⟩
    exact nomatch hfound.symm.trans hmethod
  | some signature =>
    have hrule : ∀ name signature', (owner = .named name ∧
        rules.classes.method? name method.text = some signature') → signature' = signature := by
      rintro name signature' ⟨rfl, hmethod⟩
      exact Option.some.inj (hmethod.symm.trans hfound)
    dsimp only
    split
    · next hlength =>
      rw [gives_pure_iff]
      constructor
      · rintro rfl
        unfold signature? at hfound
        split at hfound
        · next name => exact ⟨name, signature, rfl, hfound, hlength, rfl⟩
        · nomatch hfound
      · rintro ⟨name, signature', howner, hmethod, -, rfl⟩
        rw [hrule name signature' ⟨howner, hmethod⟩]
    · next hlength =>
      refine iff_of_false (not_gives_report (.pure _)) ?_
      rintro ⟨name, signature', howner, hmethod, hsame, -⟩
      exact hlength (hrule name signature' ⟨howner, hmethod⟩ ▸ hsame)

/-! ### Runs -/

variable {t : CheckState}

/-- From the first state the check gives the result and leaves the second state. -/
structure Runs (m : Check α) (s : CheckState) (a : α) (t : CheckState) : Prop
    extends Gives m s a where
  state : (m.run s).2 = t

namespace Runs

theorem of_gives (h : Gives m s a) : Runs m s a (m.run s).2 := ⟨h, rfl⟩

theorem bind (hm : Runs m s a t) (hf : Gives (f a) t b) : Gives (m >>= f) s b := by
  obtain ⟨first, rfl⟩ := hm
  exact first.bind hf

theorem of_bind (h : Runs (m >>= f) s b t) (hm : Keeps Grows m) (hf : ∀ a, Keeps Grows (f a)) :
    ∃ a r, r.contexts.current = s.contexts.current ∧ Runs m s a r ∧ Runs (f a) r b t := by
  obtain ⟨a, first, second⟩ := h.toGives.of_bind hm hf
  refine ⟨a, _, (hm s).current, .of_gives first, second, ?_⟩
  rw [← h.state, run_bind, first.result]

theorem names (h : Runs m s a t) (hm : Keeps Extends m) : t.names = s.names :=
  h.state ▸ (hm s).names

theorem current (h : Runs m s a t) (hm : Keeps Grows m) :
    t.contexts.current = s.contexts.current :=
  h.state ▸ (hm s).current

end Runs

theorem runs_pure_iff {a' : α} : Runs (pure a) s a' t ↔ a = a' ∧ s = t :=
  ⟨fun h => ⟨h.result, h.state⟩, fun ⟨h, h'⟩ => h ▸ h' ▸ ⟨.pure a s, rfl⟩⟩

/-- A check whose result is handed on leaves the state that it leaves without that. -/
theorem Runs.of_map {g : α → β} (h : Runs (m >>= fun a => pure (g a)) s b t)
    (hm : Keeps Grows m) : ∃ a, Runs m s a t ∧ g a = b := by
  obtain ⟨a, r, _, first, h⟩ := h.of_bind hm fun _ => .pure _
  obtain ⟨heq, rfl⟩ := runs_pure_iff.1 h
  exact ⟨a, first, heq⟩

theorem runs_look_iff (h : m.run s = (a, s)) : Runs (m >>= f) s b t ↔ Runs (f a) s b t := by
  have same : (m >>= f).run s = (f a).run s := by rw [run_bind, h]
  exact ⟨fun g => ⟨(gives_look_iff h).1 g.toGives, same ▸ g.state⟩,
    fun g => ⟨(gives_look_iff h).2 g.toGives, same ▸ g.state⟩⟩

theorem runs_isRegistered_iff {rules : Rules} {d : Descriptor} {f : Bool → Check β}
    (h : rules.registry.get? d.keyword = some d) :
    Runs (isRegistered rules d >>= f) s b t ↔ Runs (f true) s b t :=
  runs_look_iff (by rw [run_isRegistered, if_pos h])

theorem runs_within_iff {clause : Option Descriptor} :
    Runs (within clause m) s a t ↔
      ∃ r, Runs m { s with contexts := s.contexts.enter clause } a r ∧
        { r with contexts := r.contexts.pop } = t := by
  constructor
  · intro h
    exact ⟨_, .of_gives (gives_within_iff.1 h.toGives), h.state⟩
  · rintro ⟨r, h, hr⟩
    exact ⟨gives_within_iff.2 h.toGives, by rw [run_within, ← hr, ← h.state]⟩

theorem of_runs_declare {scope scope' : Scope} {name : Name} {τ : Ty}
    (h : Runs (declare scope name τ) s scope' t) :
    name.text ∉ s.names ∧ scope' = scope.addLocal name.text τ ∧ t.names = name.text :: s.names := by
  obtain ⟨hnew, rfl⟩ := gives_declare_iff.1 h.toGives
  refine ⟨hnew, rfl, ?_⟩
  have run : (declare scope name τ).run s =
      (scope.addLocal name.text τ, { s with names := name.text :: s.names }) := by
    unfold declare
    rw [run_bind]
    simp only [List.contains_iff_mem]
    exact congrFun (if_neg hnew) s
  rw [← h.state, run]

end Check

end Contracts
