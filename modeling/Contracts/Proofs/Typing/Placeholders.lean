import Contracts.Proofs.Typing.Blurred
import Contracts.Proofs.Typing.Surroundings

/-! A placeholder in place of an expression. What stands around an expression is read in a
setting of its own or is not read at all (`Check.typeAt?`). With a placeholder instead of the
expression every type around it stays or becomes the error type, and nothing new is reported
(`placeholder_quiet`). -/

namespace Contracts

namespace Expr

variable {registry : Registry}

theorem listOwn_around (before after : List Expr) (e : Expr) :
    Own.listOwn registry (before ++ e :: after) ↔
      Own.listOwn registry (before ++ after) ∧ e.Own registry := by
  induction before with
  | nil => exact and_comm
  | cons _ before ih => exact (and_congr_right fun _ => ih).trans and_assoc.symm

theorem own_wrap (layers : List Layer) (e : Expr) (span : Span) :
    (wrap layers e).Own registry ↔ (wrap layers (.missing span)).Own registry ∧ e.Own registry := by
  induction layers with
  | nil => exact (and_iff_right trivial).symm
  | cons l layers ih =>
    cases l with
    | unary | field => exact ih
    | binaryLeft | callee =>
      simp only [wrap_cons, Layer.wrap, Own]
      rw [ih]
      tauto
    | binaryRight =>
      simp only [wrap_cons, Layer.wrap, Own]
      rw [ih, and_assoc]
    | arg | stateArg =>
      simp only [wrap_cons, Layer.wrap, Own, listOwn_around]
      rw [ih]
      tauto

theorem atLabel_append {inner : List Layer} (h : inner ≠ []) (outer : List Layer) :
    AtLabel (outer ++ inner) ↔ AtLabel inner := by
  rw [AtLabel, AtLabel, List.getLast?_append_of_ne_nil _ h]

/-- What a name or a name behind a point calls is looked up among the methods. -/
def Layer.calls : Layer → Expr → Bool
  | callee .., .name _ => true
  | callee .., .field .. => true
  | _, _ => false

end Expr

namespace Check

variable {rules : Rules} {p : Setting}

/-! ### Settings inside expressions -/

/-- The setting of what stands in a layer, if that is read. -/
def into (rules : Rules) (p : Setting) (e : Expr) : Expr.Layer → Option Setting
  | .stateArg head before after _ =>
    let args := before ++ e :: after
    if before.isEmpty ∧ rules.registry.get? head.descriptor.keyword = some head.descriptor ∧
        p.stateErrors head args = [] then
      some (p.earlier head args)
    else none
  | _ => some p

/-- The setting of what stands in layers, the outermost first. -/
def settingAt? (rules : Rules) (p : Setting) : List Expr.Layer → Expr → Option Setting
  | [], _ => some p
  | l :: layers, e => (into rules p (.wrap layers e) l).bind (settingAt? rules · layers e)

/-- The type that is found for an expression in layers, if it is read there. -/
def typeAt? (rules : Rules) (p : Setting) (layers : List Expr.Layer) (e : Expr) : Option Ty :=
  if layers.getLast?.any (·.calls e) then none
  else (settingAt? rules p layers e).map fun q => (found rules q e).type

/-- What stands in a layer makes no difference to its setting. -/
theorem into_congr (e e' : Expr) (l : Expr.Layer) : into rules p e' l = into rules p e l := by
  cases l with
  | stateArg head before after recorded =>
    cases before with
    | nil =>
      have label : head.labelArgument? (e' :: after) = head.labelArgument? (e :: after) := by
        match after with
        | [] | [_] | _ :: _ :: _ => rfl
      have own : p.stateErrors head (e' :: after) = p.stateErrors head (e :: after) :=
        StateHead.errors_congr (by simp) (congrArg _ label) (congrArg _ label) _ _
      have earlier : p.earlier head (e' :: after) = p.earlier head (e :: after) := by
        rw [Setting.earlier, Setting.earlier, StateHead.label_congr (congrArg _ label)]
      simp only [into, List.nil_append, own, earlier]
    | cons => simp [into]
  | _ => rfl

theorem settingAt?_congr (layers : List Expr.Layer) (e e' : Expr) :
    settingAt? rules p layers e' = settingAt? rules p layers e := by
  induction layers generalizing p with
  | nil => rfl
  | cons l layers ih =>
    rw [settingAt?, settingAt?, into_congr (.wrap layers e)]
    exact congrArg _ (funext fun _ => ih)

/-- With a placeholder inside, an expression that is not a label keeps its type, or its type is
not known. -/
theorem typeAt?_blank (rules : Rules) (p : Setting) (outer : List Expr.Layer)
    {inner : List Expr.Layer} (nonempty : inner ≠ []) (notLabel : ¬Expr.AtLabel inner) (e : Expr) :
    let type := typeAt? rules p outer (.wrap inner e)
    let type' := typeAt? rules p outer (.wrap inner (.missing e.span))
    type' = type ∨ type.isSome ∧ type' = some .error := by
  have calls (l : Expr.Layer) :
      l.calls (.wrap inner (.missing e.span)) = l.calls (.wrap inner e) := by
    cases inner with
    | nil => exact absurd rfl nonempty
    | cons l' inner => cases l <;> cases l' <;> rfl
  simp only [typeAt?, calls, settingAt?_congr outer (.wrap inner e)]
  split
  · exact .inl rfl
  · cases settingAt? rules p outer (.wrap inner e) with
    | none => exact .inl rfl
    | some q =>
      rcases (found_blurs rules q (Expr.blurs_wrap notLabel e)).type with same | unknown
      · exact .inl (congrArg some same)
      · exact .inr ⟨rfl, congrArg some unknown⟩

/-! ### Reports around blurred expressions -/

/-- Of what is reported around a blurred expression some is left. -/
theorem Reads.sublist {report : Expr → List TypeError} (h : Reads rules p report) {e e' : Expr}
    (blurs : e.Blurs e') : (report e').Sublist (report e) := by
  obtain ⟨before, expected, after, h⟩ := h
  have quieter := found_blurs rules p blurs
  have fits := mismatch_sublist e.span quieter.type (.inl (rfl : expected = expected))
  rw [h, h, Check.errorsAs, Check.errorsAs, blurs.span]
  exact ((quieter.errors.append fits).append_right _).append_left _

/-! ### Reports of what stands inside expressions -/

end Check

/-! ### Units -/

/-- The type that the check of a unit finds for an expression inside layers in a place. -/
def CompilationUnit.Slot.typeAt? (registry : Registry) (booleanClauses : Bool) (slot : Slot)
    (layers : List Expr.Layer) (e : Expr) : Option Ty :=
  let rules := Check.unitRules registry booleanClauses (slot.fill (.wrap layers e))
  Check.typeAt? rules (slot.member.setting rules slot.owner.name.text) layers e

/-- Instead of an expression that is not a label a placeholder of the same span is quiet: of what
was reported some is left in its order, nothing is new, and what stands around it keeps its type
or has the error type now. -/
theorem placeholder_quiet {registry : Registry} (booleanClauses : Bool)
    (slot : CompilationUnit.Slot) {layers : List Expr.Layer} (notLabel : ¬Expr.AtLabel layers)
    (e : Expr) (own : (slot.fill (.wrap layers e)).Own registry) :
    ∃ errors errors',
      checkUnit registry booleanClauses (slot.fill (.wrap layers e)) = .ok errors ∧
      checkUnit registry booleanClauses (slot.fill (.wrap layers (.missing e.span))) = .ok errors' ∧
      errors'.Sublist errors ∧
      ∀ outer inner, outer ++ inner = layers → inner ≠ [] →
        let type := slot.typeAt? registry booleanClauses outer (.wrap inner e)
        let type' := slot.typeAt? registry booleanClauses outer (.wrap inner (.missing e.span))
        type' = type ∨ type.isSome ∧ type' = some .error := by
  obtain ⟨report, reads, checked⟩ := Check.checkUnit_fill booleanClauses slot own
  have ownExpr := ((CompilationUnit.own_fill slot _ e.span).1 own).2
  have ownBlank : (Expr.wrap layers (.missing e.span)).Own registry :=
    ((Expr.own_wrap layers e e.span).1 ownExpr).1
  have blurs := Expr.blurs_wrap notLabel e
  refine ⟨_, _, checked _ ownExpr, checked _ ownBlank, reads.sublist blurs, ?_⟩
  rintro outer inner rfl nonempty
  have same := Check.unitRules_fill registry booleanClauses slot
    (.wrap outer (.wrap inner e)) (.wrap outer (.wrap inner (.missing e.span)))
  rw [Expr.atLabel_append nonempty] at notLabel
  simp only [CompilationUnit.Slot.typeAt?, same]
  exact Check.typeAt?_blank _ _ outer nonempty notLabel e

/-- In `class C { int m(int a, int b) { } invariant m(true, y) == 1; }` an argument is of the wrong
type and the other one is not known: a placeholder instead of the first one leaves what is wrong in
the other one, and the type of the call. -/
theorem placeholder_quiet_argument :
    let m : Method :=
      ⟨⟨"int", ⟨10, 13⟩⟩, ⟨"m", ⟨14, 15⟩⟩,
        [⟨⟨"int", ⟨16, 19⟩⟩, ⟨"a", ⟨20, 21⟩⟩, ⟨16, 21⟩⟩,
          ⟨⟨"int", ⟨23, 26⟩⟩, ⟨"b", ⟨27, 28⟩⟩, ⟨23, 28⟩⟩], [], ⟨[], ⟨30, 33⟩⟩, ⟨10, 33⟩⟩
    let equation : Expr.Layer := .binaryLeft .equal (.int 1 ⟨58, 59⟩) ⟨44, 59⟩
    let call : Expr.Layer := .arg (.name ⟨"m", ⟨44, 45⟩⟩) [] [.name ⟨"y", ⟨52, 53⟩⟩] ⟨44, 54⟩
    let e : Expr := .bool true ⟨46, 50⟩
    let slot : CompilationUnit.Slot :=
      { owner := ⟨⟨"C", ⟨6, 7⟩⟩, [], ⟨0, 62⟩⟩
        before := [.method m]
        member := .clause ⟨.ofKind (.typeClause .invariant), e, none, ⟨34, 60⟩⟩ }
    ¬Expr.AtLabel [equation, call] ∧ (slot.fill (.wrap [equation, call] e)).Own .standard ∧
      ∃ errors errors',
        checkUnit .standard true (slot.fill (.wrap [equation, call] e)) = .ok errors ∧
        checkUnit .standard true (slot.fill (.wrap [equation, call] (.missing e.span))) =
          .ok errors' ∧
        errors'.Sublist errors ∧
        errors.map (·.fault) = [.incompatibleTypes .int .boolean, .unknownSymbol "y"] ∧
        errors'.map (·.fault) = [.unknownSymbol "y"] ∧
        slot.typeAt? .standard true [equation] (call.wrap e) = some .int ∧
        slot.typeAt? .standard true [equation] (call.wrap (.missing e.span)) = some .int := by
  intro m equation call e slot
  have notLabel : ¬Expr.AtLabel [equation, call] := Bool.false_ne_true
  have own : (slot.fill (.wrap [equation, call] e)).Own .standard := by
    refine List.forall_mem_singleton.2 (List.forall_mem_cons.2 ⟨?method, ?clause⟩)
    case method => exact ⟨List.forall_mem_nil _, trivial⟩
    case clause =>
      have registered : Registry.standard.Holds (.ofKind (.typeClause .invariant)) :=
        Registry.get?_keyword_kind (.typeClause .invariant)
      exact List.forall_mem_singleton.2
        ⟨registered, ⟨⟨trivial, trivial, trivial, trivial⟩, trivial⟩⟩
  obtain ⟨errors, errors', checked, checked', sublist, types⟩ :=
    placeholder_quiet true slot notLabel e own
  have faults : (checkUnit .standard true (slot.fill (.wrap [equation, call] e))).toOption.map
      (List.map (·.fault)) = some [.incompatibleTypes .int .boolean, .unknownSymbol "y"] := by
    decide +kernel
  have faults' : (checkUnit .standard true (slot.fill (.wrap [equation, call]
      (.missing e.span)))).toOption.map (List.map (·.fault)) = some [.unknownSymbol "y"] := by
    decide +kernel
  have type : slot.typeAt? .standard true [equation] (call.wrap e) = some .int := by decide +kernel
  have known : slot.typeAt? .standard true [equation] (call.wrap (.missing e.span)) ≠
      some .error := by
    decide +kernel
  rw [checked] at faults
  rw [checked'] at faults'
  exact ⟨notLabel, own, errors, errors', checked, checked', sublist, Option.some.inj faults,
    Option.some.inj faults', type,
    ((types [equation] [call] rfl nofun).resolve_right fun h => known h.2).trans type⟩

end Contracts
