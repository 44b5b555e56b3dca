import Contracts.Proofs.Typing.Growth
import Mathlib.Data.List.Forall2

/-! Inferring types only adds to an expression: whatever it is made of, and however much of it is
wrong, it comes back with at most more types recorded (`fills_infer_all`). -/

namespace Contracts

/-! ### Recorded types -/

namespace Expr

/-- The expression without its recorded types. -/
def forget : Expr → Expr
  | binary op left right s => binary op left.forget right.forget s
  | unary op operand s => unary op operand.forget s
  | field base n s => field base.forget n s
  | call callee args s => call callee.forget (forgetList args) s
  | state head args _ => state head (forgetList args) none
  | e => e
where
  forgetList : List Expr → List Expr
    | [] => []
    | e :: es => e.forget :: forgetList es

/-- A type that is recorded stays as it is. -/
def Kept (old new : Option Ty) : Prop := ∀ type, old = some type → new = some type

theorem Kept.refl (t : Option Ty) : Kept t t := fun _ h => h

theorem Kept.getD (t : Option Ty) (type : Ty) : Kept t (some (t.getD type)) := by
  rintro known rfl
  rfl

/-- The second expression is the first with more types recorded. -/
structure Resolves (e e' : Expr) : Prop where
  same : e'.forget = e.forget
  kept : List.Forall₂ Kept e.stateTypes e'.stateTypes

/-- Expression by expression. -/
structure ResolvesList (es es' : List Expr) : Prop where
  same : forget.forgetList es' = forget.forgetList es
  kept : List.Forall₂ Kept (stateTypes.listTypes es) (stateTypes.listTypes es')

theorem Resolves.refl (e : Expr) : Resolves e e :=
  ⟨rfl, List.forall₂_same.2 fun _ _ => .refl _⟩

theorem ResolvesList.refl (es : List Expr) : ResolvesList es es :=
  ⟨rfl, List.forall₂_same.2 fun _ _ => .refl _⟩

theorem ResolvesList.cons {e e' : Expr} {es es' : List Expr} (h : Resolves e e')
    (hs : ResolvesList es es') : ResolvesList (e :: es) (e' :: es') where
  same := by simp only [forget.forgetList, h.same, hs.same]
  kept := List.rel_append h.kept hs.kept

theorem Resolves.binary {l l' r r' : Expr} (op : BinaryOp) (s : Span) (hl : Resolves l l')
    (hr : Resolves r r') : Resolves (.binary op l r s) (.binary op l' r' s) where
  same := by simp only [forget, hl.same, hr.same]
  kept := List.rel_append hl.kept hr.kept

theorem Resolves.unary {e e' : Expr} (op : UnaryOp) (s : Span) (h : Resolves e e') :
    Resolves (.unary op e s) (.unary op e' s) where
  same := by simp only [forget, h.same]
  kept := h.kept

theorem Resolves.field {e e' : Expr} (n : Name) (s : Span) (h : Resolves e e') :
    Resolves (.field e n s) (.field e' n s) where
  same := by simp only [forget, h.same]
  kept := h.kept

theorem Resolves.call {e e' : Expr} {es es' : List Expr} (s : Span) (h : Resolves e e')
    (hs : ResolvesList es es') : Resolves (.call e es s) (.call e' es' s) where
  same := by simp only [forget, h.same, hs.same]
  kept := List.rel_append h.kept hs.kept

theorem Resolves.state {es es' : List Expr} {old new : Option Ty} (head : StateHead)
    (hs : ResolvesList es es') (h : Kept old new) :
    Resolves (.state head es old) (.state head es' new) where
  same := by simp only [forget, hs.same]
  kept := .cons h hs.kept

/-- The second expression is the first with more types recorded, told form by form. -/
inductive Fills : Expr → Expr → Prop
  | name (n : Name) : Fills (.name n) (.name n)
  | int (value : Nat) (s : Span) : Fills (.int value s) (.int value s)
  | bool (value : Bool) (s : Span) : Fills (.bool value s) (.bool value s)
  | result (s : Span) : Fills (.result s) (.result s)
  | binary (op : BinaryOp) {l l' r r' : Expr} (s : Span) : Fills l l' → Fills r r' →
      Fills (.binary op l r s) (.binary op l' r' s)
  | unary (op : UnaryOp) {e e' : Expr} (s : Span) : Fills e e' →
      Fills (.unary op e s) (.unary op e' s)
  | field {e e' : Expr} (n : Name) (s : Span) : Fills e e' → Fills (.field e n s) (.field e' n s)
  | call {e e' : Expr} {es es' : List Expr} (s : Span) : Fills e e' → List.Forall₂ Fills es es' →
      Fills (.call e es s) (.call e' es' s)
  | state (head : StateHead) {es es' : List Expr} {old new : Option Ty} : Kept old new →
      List.Forall₂ Fills es es' → Fills (.state head es old) (.state head es' new)
  | missing (s : Span) : Fills (.missing s) (.missing s)

mutual

theorem Fills.refl : ∀ e : Expr, Fills e e
  | .name n => .name n
  | .int value s => .int value s
  | .bool value s => .bool value s
  | .result s => .result s
  | .binary op l r s => .binary op s (.refl l) (.refl r)
  | .unary op e s => .unary op s (.refl e)
  | .field e n s => .field n s (.refl e)
  | .call e es s => .call s (.refl e) (Fills.refl_list es)
  | .state head es recorded => .state head (.refl recorded) (Fills.refl_list es)
  | .missing s => .missing s

theorem Fills.refl_list : ∀ es : List Expr, List.Forall₂ Fills es es
  | [] => .nil
  | e :: es => .cons (.refl e) (Fills.refl_list es)

end

mutual

theorem Fills.resolves : ∀ {e e' : Expr}, Fills e e' → Resolves e e'
  | .name _, _, .name _ => .refl _
  | .int _ _, _, .int _ _ => .refl _
  | .bool _ _, _, .bool _ _ => .refl _
  | .result _, _, .result _ => .refl _
  | .binary _ _ _ _, _, .binary op s hl hr => .binary op s hl.resolves hr.resolves
  | .unary _ _ _, _, .unary op s h => .unary op s h.resolves
  | .field _ _ _, _, .field n s h => .field n s h.resolves
  | .call _ _ _, _, .call s h hs => .call s h.resolves (Fills.resolves_list hs)
  | .state _ _ _, _, .state head h hs => .state head (Fills.resolves_list hs) h
  | .missing _, _, .missing _ => .refl _

theorem Fills.resolves_list :
    ∀ {es es' : List Expr}, List.Forall₂ Fills es es' → ResolvesList es es'
  | [], _, .nil => .refl []
  | _ :: _, _, .cons h hs => .cons h.resolves (Fills.resolves_list hs)

end

end Expr

namespace Check

open CheckState

/-- A reference sets its label in the frame at hand, whatever is wrong with it. -/
theorem run_enterState (head : StateHead) (args : List Expr) (scope : Scope) (s : CheckState) :
    (enterState head args scope).run s =
      let clause := s.contexts.current.clause
      let errors := head.errors args clause scope
      let label := head.label args scope
      (if errors.isEmpty then some (scope.asOf clause label) else none,
        { s with errors := s.errors ++ errors, contexts := s.contexts.setLabel label }) := rfl

/-- Inferring changes nothing of an expression but recorded types. -/
theorem fills_infer_all (rules : Rules) :
    (∀ scope e, Returns (fun r => e.Fills r.2) (infer rules scope e)) ∧
      (∀ scope typeArgs es,
        Returns (fun r => List.Forall₂ Expr.Fills es r.2) (inferPayload rules scope typeArgs es)) ∧
      ∀ scope params es,
        Returns (List.Forall₂ Expr.Fills es) (inferArgs rules scope params es) := by
  refine infer.mutual_induct _ _ _ ?name ?int ?bool ?result ?binary ?unary ?field ?ownCall
    ?fieldCall ?otherCall ?state ?missing ?noPayload ?payload ?noArgs ?args
  case name => exact fun _ _ => .bind (.any _) fun _ _ => .pure (.refl _)
  case int => exact fun _ _ _ => .pure (.refl _)
  case bool => exact fun _ _ _ => .pure (.refl _)
  case result => exact fun _ _ => .bind (.any _) fun _ _ => .pure (.refl _)
  case binary =>
    exact fun _ op _ _ span left right => .bind left fun _ hl => .bind right fun _ hr =>
      .bind (.any _) fun _ _ => .pure (.binary op span hl hr)
  case unary =>
    exact fun _ op _ span operand => .bind operand fun _ h =>
      .bind (.any _) fun _ _ => .pure (.unary op span h)
  case field =>
    exact fun _ _ n span base => .bind base fun _ h => .bind (.any _) fun _ _ =>
      .pure (.field n span h)
  case ownCall =>
    exact fun _ _ _ span args => .bind (.any _) fun signature _ =>
      .bind (args signature) fun _ h => .pure (.call span (.refl _) h)
  case fieldCall =>
    exact fun _ _ method calleeSpan _ span base args => .bind base fun _ hb =>
      .bind (.any _) fun signature _ =>
        .bind (args signature) fun _ h => .pure (.call span (.field method calleeSpan hb) h)
  case otherCall =>
    intro scope callee args span notName notField hcallee hargs
    rw [infer]
    · refine .bind hcallee fun _ hc => .bind hargs fun _ h => ?_
      dsimp only
      split
      · exact .bind (.any _) fun _ _ => .pure (.call span hc h)
      · exact .pure (.call span hc h)
    · exact notName
    · exact notField
  case state =>
    intro scope head args recorded payload
    refine .bind (.any _) fun registered _ => ?_
    split
    · refine .within none (.bind (.any _) fun inner _ => ?_)
      cases inner with
      | none => exact fun _ => .state head (.getD recorded .error) (Expr.Fills.refl_list args)
      | some inner =>
        exact .bind (payload inner) fun r h => .pure (.state head (.getD recorded r.1) h)
    · exact .pure (.refl _)
  case missing => exact fun _ _ => .pure (.refl _)
  case noPayload => exact fun _ _ => .pure .nil
  case payload =>
    exact fun _ _ _ es e => .bind e fun _ h => .bind (.any _) fun _ _ =>
      .pure (.cons h (Expr.Fills.refl_list es))
  case noArgs => exact fun _ _ => .pure .nil
  case args =>
    exact fun _ _ _ _ e es => .bind e fun _ h => .bind (.any _) fun _ _ =>
      .bind es fun _ hs => .pure (.cons h hs)

theorem fills_infer {rules : Rules} (scope : Scope) (e : Expr) :
    Returns (fun r => e.Fills r.2) (infer rules scope e) := (fills_infer_all rules).1 scope e

theorem fills_inferAs {rules : Rules} (scope : Scope) (expected : Option Ty) (e : Expr) :
    Returns (fun r => e.Fills r.2) (inferAs rules scope expected e) :=
  .bind (fills_infer scope e) fun _ h => .bind (.any _) fun _ _ => .pure h

theorem resolves_inferAs (rules : Rules) (scope : Scope) (expected : Option Ty) (e : Expr) :
    Returns (fun r => e.Resolves r.2) (inferAs rules scope expected e) := fun s =>
  (fills_inferAs scope expected e s).resolves

end Check

end Contracts
