import Contracts.Proofs.Typing.Resolution

/-! Where `\result` may stand. It means the value that a method returns in the postconditions of
the method, outside references to earlier states, if there is such a value. Wherever it is read
otherwise, one mistake is reported, which says whether a reference stands around it
(`result_places`); where it is not read it makes no difference. -/

namespace Contracts

/-! ### Places -/

namespace Expr

variable {e e' : Expr}

end Expr

namespace Member.Slot

/-- The clause that the place is in, if it is in one. -/
def clause? : Member.Slot → Option Descriptor
  | field f => f.ghost
  | clause k => some k.descriptor
  | spec _ _ _ _ _ _ k => some k.descriptor
  | body _ _ _ _ slot => slot.clause?

/-- The method around the place. -/
def method? : Member.Slot → Option Method
  | spec m .. => some m
  | body m .. => some m
  | _ => none

variable (rules : Rules) (className : String) (slot : Member.Slot)

end Member.Slot

namespace Check

variable {rules : Rules} {p q : Setting} {e e' : Expr}

/-! ### Settings -/

variable {scope : Scope} {s : CheckState} {span : Span}

/-- In the setting the two expressions have one type, and the same is wrong in them. -/
structure Agree (rules : Rules) (p : Setting) (e e' : Expr) : Prop where
  type : (found rules p e').type = (found rules p e).type
  errors : (found rules p e').errors = (found rules p e).errors

theorem Agree.args (h : Agree rules p e e') (span : e'.span = e.span) (params : List Ty)
    (before after : List Expr) :
    (foundArgs rules p params (before ++ e' :: after)).2 =
      (foundArgs rules p params (before ++ e :: after)).2 := by
  induction before generalizing params with
  | nil => simp only [List.nil_append, foundArgs_cons, h.type, h.errors, span]
  | cons first before ih => simp only [List.cons_append, foundArgs_cons, ih]

theorem Agree.arg (h : Agree rules p e e') (span : e'.span = e.span) (called : Expr)
    (before after : List Expr) (callSpan : Span) :
    Agree rules p (.call called (before ++ e :: after) callSpan)
      (.call called (before ++ e' :: after) callSpan) := by
  have length (owner : Ty) (n : Name) :
      callSignature rules owner n (before ++ e' :: after) callSpan =
        callSignature rules owner n (before ++ e :: after) callSpan := by
    simp only [callSignature, List.length_append, List.length_cons]
  have args (params : List Ty) := h.args span params before after
  have other (notName : ∀ n, called = .name n → False)
      (notField : ∀ base n s, called = .field base n s → False) :
      Agree rules p (.call called (before ++ e :: after) callSpan)
        (.call called (before ++ e' :: after) callSpan) := by
    constructor <;> simp only [found_otherCall notName notField, args]
  cases called with
  | name n => constructor <;> simp only [found_ownCall, length, args]
  | field base n s => constructor <;> simp only [found_fieldCall, length, args]
  | _ => exact other (fun _ h => by cases h) fun _ _ _ h => by cases h

theorem Agree.callee (h : Agree rules p e e') (es : List Expr) (s : Span)
    (called : Expr.Layer.calls (.callee es s) e = false)
    (called' : Expr.Layer.calls (.callee es s) e' = false) :
    Agree rules p (.call e es s) (.call e' es s) := by
  have other {e : Expr} (called : Expr.Layer.calls (.callee es s) e = false) :
      (∀ n, e = .name n → False) ∧ ∀ base n s, e = .field base n s → False := by
    cases e with
    | name | field => cases called
    | _ => exact ⟨fun _ h => (by cases h), fun _ _ _ h => by cases h⟩
  obtain ⟨notName, notField⟩ := other called
  obtain ⟨notName', notField'⟩ := other called'
  constructor
  all_goals
    simp only [found_otherCall notName notField, found_otherCall notName' notField', h.type,
      h.errors]

/-- The argument of a reference, if it is read there. -/
theorem Agree.state {head : StateHead} {before after : List Expr} {recorded : Option Ty}
    (span : e'.span = e.span) (name : e'.asName? = e.asName?)
    (h : ∀ q, into rules p e (.stateArg head before after recorded) = some q →
      Agree rules q e e') :
    Agree rules p (.state head (before ++ e :: after) recorded)
      (.state head (before ++ e' :: after) recorded) := by
  have length : (before ++ e' :: after).length = (before ++ e :: after).length := by simp
  have label {α : Type} (f : Expr → α) (same : f e' = f e) :
      (head.labelArgument? (before ++ e' :: after)).map f =
        (head.labelArgument? (before ++ e :: after)).map f := by
    have args : List.Forall₂ (fun e e' => f e' = f e) (before ++ e :: after)
        (before ++ e' :: after) :=
      List.rel_append (R := fun e e' => f e' = f e) (List.forall₂_same.2 fun _ _ => rfl)
        (.cons same (List.forall₂_same.2 fun _ _ => rfl))
    exact head.labelArgument?_map (R := fun e e' => f e' = f e) id args
  have own : p.stateErrors head (before ++ e' :: after) =
      p.stateErrors head (before ++ e :: after) :=
    StateHead.errors_congr length (label _ name) (label _ span) _ _
  have earlier : p.earlier head (before ++ e' :: after) =
      p.earlier head (before ++ e :: after) := by
    rw [Setting.earlier, Setting.earlier, StateHead.label_congr (label _ name)]
  by_cases registered : rules.registry.Holds head.descriptor
  · by_cases clean : p.stateErrors head (before ++ e :: after) = []
    · have payload (q : Setting) (hq : q = p.earlier head (before ++ e :: after)) :
          (foundPayload rules q head.typeArgs (before ++ e' :: after)).1 =
              (foundPayload rules q head.typeArgs (before ++ e :: after)).1 ∧
            (foundPayload rules q head.typeArgs (before ++ e' :: after)).2.2 =
              (foundPayload rules q head.typeArgs (before ++ e :: after)).2.2 := by
        cases before with
        | nil =>
          obtain ⟨type, errors⟩ := h q (hq ▸ if_pos ⟨rfl, registered, clean⟩)
          exact ⟨type, congrArg (· ++ _) errors⟩
        | cons first before => exact ⟨rfl, rfl⟩
      constructor
      all_goals
        simp only [found_state registered, own, earlier, if_pos clean, payload _ rfl]
    · constructor <;> simp only [found_state registered, own, if_neg clean]
  · constructor <;> simp only [found_state_foreign registered]

end Check

end Contracts
