import Contracts.Proofs.Grammar.Layers
import Contracts.Proofs.Typing.Found

/-! Placeholders are quiet. An expression is blurred when placeholders of the same spans stand for
some of the expressions in it; labels of references stay. Read in any setting, it has the type
that it had or the error type, and of what was wrong in it some is left, in the same order, and
nothing is new (`Check.found_blurs`). -/

namespace Contracts

namespace Expr

/-- The second expression is the first with placeholders in place of some expressions. -/
inductive Blurs : Expr → Expr → Prop
  | refl (e : Expr) : Blurs e e
  | blank (e : Expr) : Blurs e (.missing e.span)
  | binary (op : BinaryOp) {l l' r r' : Expr} (s : Span) : Blurs l l' → Blurs r r' →
      Blurs (.binary op l r s) (.binary op l' r' s)
  | unary (op : UnaryOp) {e e' : Expr} (s : Span) : Blurs e e' →
      Blurs (.unary op e s) (.unary op e' s)
  | field {e e' : Expr} (n : Name) (s : Span) : Blurs e e' → Blurs (.field e n s) (.field e' n s)
  | call {e e' : Expr} {es es' : List Expr} (s : Span) : Blurs e e' → List.Forall₂ Blurs es es' →
      Blurs (.call e es s) (.call e' es' s)
  /-- What is read as a label is read as the same label. -/
  | state (head : StateHead) {es es' : List Expr} (recorded : Option Ty) :
      List.Forall₂ Blurs es es' →
      (head.labelArgument? es').map asName? = (head.labelArgument? es).map asName? →
      Blurs (.state head es recorded) (.state head es' recorded)

namespace Blurs

variable {e e' : Expr} {es es' : List Expr}

theorem span (h : Blurs e e') : e'.span = e.span := by cases h <;> rfl

theorem refl_list (es : List Expr) : List.Forall₂ Blurs es es :=
  List.forall₂_same.2 fun e _ => .refl e

end Blurs

/-! ### One placeholder -/

theorem asName?_layer (l : Layer) (e : Expr) : (l.wrap e).asName? = none := by cases l <;> rfl

theorem forall₂_around {R : Expr → Expr → Prop} (refl : ∀ e, R e e) (before after : List Expr)
    {e e' : Expr} (h : R e e') :
    List.Forall₂ R (before ++ e :: after) (before ++ e' :: after) :=
  List.rel_append (List.forall₂_same.2 fun e _ => refl e)
    (.cons h (List.forall₂_same.2 fun e _ => refl e))

/-- The label of a reference is somewhere else, or the same name stands there. -/
theorem labelArgument?_around {head : StateHead} {before after : List Expr}
    {recorded : Option Ty} {e e' : Expr}
    (h : (Layer.stateArg head before after recorded).isLabel = false ∨ e'.asName? = e.asName?) :
    (head.labelArgument? (before ++ e' :: after)).map asName? =
      (head.labelArgument? (before ++ e :: after)).map asName? := by
  match before, after with
  | [], [] | [], [_] | [], _ :: _ :: _ | [_], _ :: _ | [_, _], _ | _ :: _ :: _ :: _, _ => rfl
  | [first], [] =>
    dsimp only [List.cons_append, List.nil_append, StateHead.labelArgument?]
    split
    · rfl
    · next entry =>
      rcases h with notLabel | same
      · simp [Layer.isLabel, entry] at notLabel
      · exact congrArg some same

/-- A layer around a blurred expression. -/
theorem Layer.blurs_wrap {e e' : Expr} (h : Blurs e e') :
    ∀ l : Layer, (l.isLabel = false ∨ e'.asName? = e.asName?) → Blurs (l.wrap e) (l.wrap e')
  | .binaryLeft op r s, _ => .binary op s h (.refl r)
  | .binaryRight op l s, _ => .binary op s (.refl l) h
  | .unary op s, _ => .unary op s h
  | .field n s, _ => .field n s h
  | .callee es s, _ => .call s h (Blurs.refl_list es)
  | .arg called before after s, _ => .call s (.refl called) (forall₂_around .refl before after h)
  | .stateArg head before after recorded, label =>
    .state head recorded (forall₂_around .refl before after h)
      (labelArgument?_around label)

/-- A placeholder somewhere in an expression, but not in place of a label. -/
theorem blurs_wrap {layers : List Layer} (h : ¬AtLabel layers) (e : Expr) :
    Blurs (wrap layers e) (wrap layers (.missing e.span)) := by
  induction layers with
  | nil => exact .blank e
  | cons l layers ih =>
    cases layers with
    | nil =>
      refine Layer.blurs_wrap (.blank e) l (.inl ?_)
      simpa [AtLabel] using h
    | cons l' layers =>
      refine Layer.blurs_wrap (ih ?_) l (.inr ?_)
      · simpa [AtLabel] using h
      · rw [wrap_cons, wrap_cons, asName?_layer, asName?_layer]

end Expr

namespace Check

variable {rules : Rules} {p : Setting}

/-! ### What is found -/

/-- What is found instead: the same type or the error type, and some of what was wrong. -/
structure Quieter (f f' : Found) : Prop where
  type : f'.type = f.type ∨ f'.type = .error
  errors : f'.errors.Sublist f.errors

theorem Quieter.refl (f : Found) : Quieter f f := ⟨.inl rfl, List.Sublist.refl _⟩

theorem Quieter.blank (f : Found) (span : Span) : Quieter f (found rules p (.missing span)) := by
  rw [found_missing]
  exact ⟨.inr rfl, List.nil_sublist _⟩

/-- A type that is the same or unknown is not wrong where the other one was right. -/
theorem mismatch_sublist {expected expected' : Option Ty} {type type' : Ty} (span : Span)
    (h : type' = type ∨ type' = .error) (k : expected' = expected ∨ expected' = none) :
    (mismatch expected' type' span).Sublist (mismatch expected type span) := by
  rcases k with rfl | rfl
  · rcases h with rfl | rfl
    · exact List.Sublist.refl _
    · have quiet : mismatch expected' .error span = [] := by
        cases expected' <;> rfl
      rw [quiet]
      exact List.nil_sublist _
  · exact List.nil_sublist _

theorem binaryType_error (op : BinaryOp) {left right : Ty}
    (h : left = .error ∨ right = .error) (span : Span) (c : Context) :
    given (binaryType op left right span) c = .error ∧
      wrong (binaryType op left right span) c = [] := by
  have quiet : (left.isError || right.isError) = true := by
    rcases h with rfl | rfl
    · rfl
    · exact Bool.or_true _
  rw [binaryType, if_pos quiet]
  exact ⟨rfl, rfl⟩

/-- What a call gives when it is not known what is called. -/
theorem found_missing_call (rules : Rules) (p : Setting) (es : List Expr) (s span : Span) :
    (found rules p (.call (.missing s) es span)).type = .error ∧
      (found rules p (.call (.missing s) es span)).errors = (foundArgs rules p [] es).2 := by
  have other : found rules p (.call (.missing s) es span) = _ := found_otherCall nofun nofun
  rw [other, found_missing]
  exact ⟨rfl, List.append_nil _⟩

namespace Quieter

variable {l l' r r' e e' : Expr} {es es' : List Expr}

/-- Of an operation on what is not known nothing is reported. -/
theorem binary (op : BinaryOp) (s : Span) (hl : Quieter (found rules p l) (found rules p l'))
    (hr : Quieter (found rules p r) (found rules p r')) :
    Quieter (found rules p (.binary op l r s)) (found rules p (.binary op l' r' s)) := by
  rw [found_binary, found_binary]
  by_cases known : (found rules p l').type = (found rules p l).type ∧
      (found rules p r').type = (found rules p r).type
  · rw [known.1, known.2]
    exact ⟨.inl rfl, hl.errors.append (hr.errors.append (List.Sublist.refl _))⟩
  · have unknown : (found rules p l').type = .error ∨ (found rules p r').type = .error := by
      rcases hl.type with left | left
      · exact .inr (hr.type.resolve_left fun right => known ⟨left, right⟩)
      · exact .inl left
    obtain ⟨type, quiet⟩ := binaryType_error op unknown s p.context
    refine ⟨.inr type, ?_⟩
    dsimp only
    rw [quiet]
    exact hl.errors.append (hr.errors.append (List.nil_sublist _))

theorem unary (op : UnaryOp) (s : Span) (h : Quieter (found rules p e) (found rules p e')) :
    Quieter (found rules p (.unary op e s)) (found rules p (.unary op e' s)) := by
  rw [found_unary, found_unary]
  rcases h.type with same | unknown
  · rw [same]
    exact ⟨.inl rfl, h.errors.append (List.Sublist.refl _)⟩
  · rw [unknown]
    exact ⟨.inr rfl, h.errors.append (List.nil_sublist _)⟩

theorem field (n : Name) (s : Span) (h : Quieter (found rules p e) (found rules p e')) :
    Quieter (found rules p (.field e n s)) (found rules p (.field e' n s)) := by
  rw [found_field, found_field]
  rcases h.type with same | unknown
  · rw [same]
    exact ⟨.inl rfl, h.errors.append (List.Sublist.refl _)⟩
  · rw [unknown]
    exact ⟨.inr rfl, h.errors.append (List.nil_sublist _)⟩

/-- When it is not known what is called, no types are asked for. -/
theorem missingCall {f : Found} (s calleeSpan : Span)
    (h : (foundArgs rules p [] es').2.Sublist f.errors) :
    Quieter f (found rules p (.call (.missing calleeSpan) es' s)) := by
  obtain ⟨type, errors⟩ := found_missing_call rules p es' calleeSpan s
  exact ⟨.inr type, errors ▸ h⟩

theorem ownCall (n : Name) (s : Span) (length : es'.length = es.length)
    (hs : let callee := callSignature rules (.named p.scope.env.className) n es s
      let params := paramsOf (given callee p.context)
      (foundArgs rules p params es').2.Sublist (foundArgs rules p params es).2) :
    Quieter (found rules p (.call (.name n) es s)) (found rules p (.call (.name n) es' s)) := by
  rw [found_ownCall, found_ownCall, callSignature_congr_length length]
  exact ⟨.inl rfl, (List.Sublist.refl _).append hs⟩

theorem fieldCall (n : Name) (calleeSpan s : Span) (length : es'.length = es.length)
    (hs : let callee := callSignature rules (found rules p e).type n es s
      let params := paramsOf (given callee p.context)
      ∀ params', params' = params ∨ params' = [] →
        (foundArgs rules p params' es').2.Sublist (foundArgs rules p params es).2)
    (h : Quieter (found rules p e) (found rules p e')) :
    Quieter (found rules p (.call (.field e n calleeSpan) es s))
      (found rules p (.call (.field e' n calleeSpan) es' s)) := by
  rw [found_fieldCall, found_fieldCall, callSignature_congr_length length]
  rcases h.type with same | unknown
  · rw [same]
    exact ⟨.inl rfl, h.errors.append ((List.Sublist.refl _).append (hs _ (.inl rfl)))⟩
  · rw [unknown]
    exact ⟨.inr rfl, h.errors.append ((List.nil_sublist _).append (hs _ (.inr rfl)))⟩

theorem otherCall (s : Span) (hs : (foundArgs rules p [] es').2.Sublist (foundArgs rules p [] es).2)
    (notName : ∀ n, e = .name n → False) (notField : ∀ base n s, e = .field base n s → False)
    (blurs : e.Blurs e') (h : Quieter (found rules p e) (found rules p e')) :
    Quieter (found rules p (.call e es s)) (found rules p (.call e' es' s)) := by
  have notName' : ∀ n, e' = Expr.name n → False := by
    rintro n rfl
    cases blurs
    exact notName _ rfl
  have notField' : ∀ base n s, e' = Expr.field base n s → False := by
    rintro base n s rfl
    cases blurs <;> exact notField _ _ _ rfl
  rw [found_otherCall notName notField, found_otherCall notName' notField']
  refine ⟨.inl rfl, h.errors.append (hs.append ?_)⟩
  rcases h.type with same | unknown
  · rw [same]
  · rw [unknown]
    exact List.nil_sublist _

/-- A reference keeps a type that is recorded. -/
theorem state (head : StateHead) (recorded : Option Ty) (hs : List.Forall₂ Expr.Blurs es es')
    (label : (head.labelArgument? es').map Expr.asName? =
      (head.labelArgument? es).map Expr.asName?)
    (payload : let q := p.earlier head es
      let first := foundPayload rules q head.typeArgs es
      let first' := foundPayload rules q head.typeArgs es'
      (first'.1 = first.1 ∨ first'.1 = .error) ∧ first'.2.2.Sublist first.2.2) :
    Quieter (found rules p (.state head es recorded))
      (found rules p (.state head es' recorded)) := by
  by_cases registered : rules.registry.Holds head.descriptor
  · have own : p.stateErrors head es' = p.stateErrors head es :=
      StateHead.errors_congr hs.length_eq.symm label (head.labelArgument?_map Expr.Blurs.span hs) _ _
    have earlier : p.earlier head es' = p.earlier head es := by
      rw [Setting.earlier, Setting.earlier, StateHead.label_congr label]
    rw [found_state registered, found_state registered, own, earlier]
    by_cases right : p.stateErrors head es = []
    · simp only [if_pos right]
      refine ⟨?_, (List.Sublist.refl _).append payload.2⟩
      cases recorded with
      | some known => exact .inl rfl
      | none => exact payload.1
    · simp only [if_neg right]
      exact ⟨.inl rfl, List.Sublist.refl _⟩
  · rw [found_state_foreign registered, found_state_foreign registered]
    exact ⟨.inl rfl, List.Sublist.refl _⟩

end Quieter

/-- The three parts of the mutual recursion, in its own cases. -/
theorem found_blurs_all (rules : Rules) :
    (∀ scope e, ∀ c e', e.Blurs e' →
        Quieter (found rules ⟨scope, c⟩ e) (found rules ⟨scope, c⟩ e')) ∧
      (∀ scope typeArgs es, ∀ c es', List.Forall₂ Expr.Blurs es es' →
        let payload := foundPayload rules ⟨scope, c⟩ typeArgs es
        let payload' := foundPayload rules ⟨scope, c⟩ typeArgs es'
        (payload'.1 = payload.1 ∨ payload'.1 = .error) ∧ payload'.2.2.Sublist payload.2.2) ∧
      ∀ scope params es, ∀ c es' params', List.Forall₂ Expr.Blurs es es' →
        params' = params ∨ params' = [] →
          (foundArgs rules ⟨scope, c⟩ params' es').2.Sublist
            (foundArgs rules ⟨scope, c⟩ params es).2 := by
  refine infer.mutual_induct _ _ _ ?name ?int ?bool ?result ?binary ?unary ?field ?ownCall
    ?fieldCall ?otherCall ?state ?missing ?noPayload ?payload ?noArgs ?args
  case name =>
    intro scope n c e' h
    cases h with
    | refl => exact .refl _
    | blank => exact .blank _ _
  case int =>
    intro scope value span c e' h
    cases h with
    | refl => exact .refl _
    | blank => exact .blank _ _
  case bool =>
    intro scope value span c e' h
    cases h with
    | refl => exact .refl _
    | blank => exact .blank _ _
  case result =>
    intro scope span c e' h
    cases h with
    | refl => exact .refl _
    | blank => exact .blank _ _
  case binary =>
    intro scope op l r span left right c e' h
    cases h with
    | refl => exact .refl _
    | blank => exact .blank _ _
    | binary _ _ hl hr => exact .binary op span (left c _ hl) (right c _ hr)
  case unary =>
    intro scope op e span operand c e' h
    cases h with
    | refl => exact .refl _
    | blank => exact .blank _ _
    | unary _ _ h => exact .unary op span (operand c _ h)
  case field =>
    intro scope e n span base c e' h
    cases h with
    | refl => exact .refl _
    | blank => exact .blank _ _
    | field _ _ h => exact .field n span (base c _ h)
  case ownCall =>
    intro scope method es span args c e' h
    cases h with
    | refl => exact .refl _
    | blank => exact .blank _ _
    | call _ h hs =>
      cases h with
      | refl => exact .ownCall method span hs.length_eq.symm (args _ c _ _ hs (.inl rfl))
      | blank =>
        refine .missingCall span _ ?_
        rw [found_ownCall]
        exact (args _ c _ _ hs (.inr rfl)).trans (List.sublist_append_right _ _)
  case fieldCall =>
    intro scope base method calleeSpan es span first args c e' h
    cases h with
    | refl => exact .refl _
    | blank => exact .blank _ _
    | call _ h hs =>
      cases h with
      | refl =>
        exact .fieldCall method calleeSpan span hs.length_eq.symm (args _ c _ · hs) (.refl _)
      | blank =>
        refine .missingCall span _ ?_
        rw [found_fieldCall]
        exact ((args _ c _ _ hs (.inr rfl)).trans (List.sublist_append_right _ _)).trans
          (List.sublist_append_right _ _)
      | field _ _ h =>
        exact .fieldCall method calleeSpan span hs.length_eq.symm (args _ c _ · hs) (first c _ h)
  case otherCall =>
    intro scope callee es span notName notField hcallee hargs c e' h
    cases h with
    | refl => exact .refl _
    | blank => exact .blank _ _
    | call _ h hs =>
      exact .otherCall span (hargs c _ _ hs (.inl rfl)) notName notField h (hcallee c _ h)
  case state =>
    intro scope head es recorded payload c e' h
    cases h with
    | refl => exact .refl _
    | blank => exact .blank _ _
    | state _ _ hs label => exact .state head recorded hs label (payload _ _ _ hs)
  case missing =>
    intro scope span c e' h
    cases h with
    | refl => exact .refl _
    | blank => exact .refl _
  case noPayload =>
    intro scope typeArgs c es' h
    cases h
    exact ⟨.inl rfl, List.Sublist.refl _⟩
  case payload =>
    intro scope typeArgs e es first c es' h
    cases h with
    | cons h _ =>
      have first := first c _ h
      exact ⟨first.type, first.errors.append (List.Sublist.refl _)⟩
  case noArgs =>
    intro scope params c es' params' h _
    cases h
    rw [foundArgs_nil]
    exact List.nil_sublist _
  case args =>
    intro scope params e es first others c es' params' h k
    cases h with
    | cons h hs =>
      have first := first c _ h
      have head : params'.head? = params.head? ∨ params'.head? = none := by
        rcases k with rfl | rfl
        · exact .inl rfl
        · exact .inr rfl
      have tail : params'.tail = params.tail ∨ params'.tail = [] := by
        rcases k with rfl | rfl
        · exact .inl rfl
        · exact .inr rfl
      rw [foundArgs_cons, foundArgs_cons, h.span]
      exact first.errors.append ((mismatch_sublist _ first.type head).append
        (others c _ _ hs tail))

/-- A blurred expression has the same type or the error type, and fewer errors. -/
theorem found_blurs (rules : Rules) (p : Setting) {e e' : Expr} (h : e.Blurs e') :
    Quieter (found rules p e) (found rules p e') :=
  (found_blurs_all rules).1 p.scope e p.context e' h

end Check

end Contracts
