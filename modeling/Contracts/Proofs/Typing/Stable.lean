import Contracts.Proofs.Typing.Filled

/-! Checking again. A tree that stands between one that is checked and what the check makes of it,
in that it has some of the types recorded that the check finds, is checked in the same way, from
the same state: the types that are found again are those that are recorded
(`Check.settles_checkClasses`). -/

namespace Contracts

namespace Expr.Fills

variable {e e' : Expr} {es es' : List Expr}

theorem span (h : e.Fills e') : e'.span = e.span := by cases h <;> rfl

theorem asName? (h : e.Fills e') : e'.asName? = e.asName? := by cases h <;> rfl

end Expr.Fills

/-- A type that is found again is recorded already. -/
theorem Expr.Kept.getD_eq {old new : Option Ty} {type : Ty} (h : Kept old new)
    (found : Kept new (some (old.getD type))) : new.getD type = old.getD type := by
  cases old with
  | none =>
    cases new with
    | none => rfl
    | some known => exact (Option.some.inj (found known rfl)).symm
  | some known => rw [h known rfl]

/-! ### References to earlier states -/

namespace StateHead

variable {head : StateHead} {es es' : List Expr}

/-- What is the same of all arguments is the same of the label. -/
theorem labelArgument?_map {R : Expr → Expr → Prop} {α : Type} {f : Expr → α}
    (head : StateHead) (same : ∀ {e e'}, R e e' → f e' = f e) (h : List.Forall₂ R es es') :
    (head.labelArgument? es').map f = (head.labelArgument? es).map f := by
  unfold labelArgument?
  cases h with
  | nil => rfl
  | cons first others =>
    cases others with
    | nil => rfl
    | cons second others =>
      cases others with
      | nil =>
        dsimp only
        split
        · rfl
        · exact congrArg some (same second)
      | cons _ _ => rfl

/-- What is wrong with a reference depends on the number of its arguments and on its label. -/
theorem errors_congr (length : es'.length = es.length)
    (names : (head.labelArgument? es').map Expr.asName? =
      (head.labelArgument? es).map Expr.asName?)
    (spans : (head.labelArgument? es').map Expr.span = (head.labelArgument? es).map Expr.span)
    (clause : Option Descriptor) (scope : Scope) :
    head.errors es' clause scope = head.errors es clause scope := by
  have labels : head.labelError? es' scope = head.labelError? es scope := by
    unfold labelError?
    revert names spans
    cases head.labelArgument? es' <;> cases head.labelArgument? es
    all_goals simp +contextual [Scope.label?]
  rw [errors, errors, labels, arityError?, arityError?, placeError?, placeError?, form, form,
    length]

/-- The state that a reference means depends on its label. -/
theorem label_congr
    (names : (head.labelArgument? es').map Expr.asName? =
      (head.labelArgument? es).map Expr.asName?) (scope : Scope) :
    head.label es' scope = head.label es scope := by
  unfold label
  revert names
  cases head.labelArgument? es' <;> cases head.labelArgument? es
  all_goals simp +contextual [Scope.label?]

/-- What is wrong with a reference does not depend on recorded types. -/
theorem errors_of_fills (h : List.Forall₂ Expr.Fills es es') (clause : Option Descriptor)
    (scope : Scope) : head.errors es' clause scope = head.errors es clause scope :=
  errors_congr h.length_eq.symm (head.labelArgument?_map Expr.Fills.asName? h)
    (head.labelArgument?_map Expr.Fills.span h) clause scope

/-- Nor does the state that it means. -/
theorem label_of_fills (h : List.Forall₂ Expr.Fills es es') (scope : Scope) :
    head.label es' scope = head.label es scope :=
  label_congr (head.labelArgument?_map Expr.Fills.asName? h) scope

end StateHead

namespace Check

variable {T β : Type} {rules : Rules}

/-- Trees between the given one and what the check makes of it are checked in the same way. -/
def Settles (F : T → T → Prop) (tree : β → T) (check : T → Check β) (t : T) : Prop :=
  ∀ s t', F t t' → F t' (tree ((check t).run s).1) → (check t').run s = (check t).run s

theorem run_bind_congr {α : Type} {m m' : Check α} {f f' : α → Check β} {s : CheckState}
    (h : m'.run s = m.run s)
    (k : (f' (m.run s).1).run (m.run s).2 = (f (m.run s).1).run (m.run s).2) :
    (m' >>= f').run s = (m >>= f).run s := by rw [run_bind, run_bind, h, k]

/-- A call fits a signature by the number of its arguments. -/
theorem callSignature_congr_length {es es' : List Expr} (h : es'.length = es.length) (owner : Ty)
    (method : Name) (span : Span) :
    callSignature rules owner method es' span = callSignature rules owner method es span := by
  rw [callSignature, callSignature, h]

theorem callSignature_of_fills {owner : Ty} {method : Name} {es es' : List Expr} {span : Span}
    {s : CheckState} (h : List.Forall₂ Expr.Fills es es') :
    (callSignature rules owner method es' span).run s =
      (callSignature rules owner method es span).run s := by
  rw [callSignature_congr_length h.length_eq.symm]

/-- Reads the arguments of a reference to an earlier state, in a scope if nothing is wrong. -/
def readState (rules : Rules) (head : StateHead) (inner : Option Scope) (es : List Expr) :
    Check (Ty × List Expr) :=
  match inner with
  | some inner => inferPayload rules inner head.typeArgs es
  | none => pure (.error, es)

theorem settles_readState {head : StateHead} {es : List Expr}
    (payload : ∀ inner, Settles (List.Forall₂ Expr.Fills) Prod.snd
      (inferPayload rules inner head.typeArgs) es) (inner : Option Scope) :
    Settles (List.Forall₂ Expr.Fills) Prod.snd (readState rules head inner) es := by
  cases inner with
  | none =>
    intro s es' h found
    rw [Expr.Fills.antisymm_list h found]
  | some inner => exact payload inner

theorem infer_state_eq (scope : Scope) (head : StateHead) (es : List Expr) (recorded : Option Ty) :
    infer rules scope (.state head es recorded) = (do
      if ← isRegistered rules head.descriptor then
        within none do
          let (type, args) ← enterState head es scope >>= fun inner => readState rules head inner es
          let kept := recorded.getD type
          return (kept, .state head args (some kept))
      else
        return (.error, .state head es recorded)) := by
  rw [infer]
  refine congrArg _ (funext fun registered => ?_)
  cases registered with
  | false => rfl
  | true =>
    refine congrArg (within none) ?_
    rw [bind_assoc]
    refine congrArg _ (funext fun inner => ?_)
    cases inner <;> rfl

/-- What cannot be called is reported, unless that was done. -/
def requireCallable (callee : Ty) (span : Span) : Check Unit :=
  if !callee.isError then report .notCallable span else pure ()

theorem infer_call_eq {scope : Scope} {callee : Expr} {es : List Expr} {span : Span}
    (notName : ∀ n, callee = .name n → False)
    (notField : ∀ base n s, callee = .field base n s → False) :
    infer rules scope (.call callee es span) = (do
      let (calleeType, callee) ← infer rules scope callee
      let args ← inferArgs rules scope [] es
      requireCallable calleeType span
      return (.error, .call callee args span)) := by
  rw [infer]
  · refine congrArg _ (funext fun r => ?_)
    dsimp only
    refine congrArg _ (funext fun args => ?_)
    unfold requireCallable
    split <;> rfl
  · exact notName
  · exact notField

theorem settles_infer_all (rules : Rules) :
    (∀ scope e, Settles Expr.Fills Prod.snd (infer rules scope) e) ∧
      (∀ scope typeArgs es,
        Settles (List.Forall₂ Expr.Fills) Prod.snd (inferPayload rules scope typeArgs) es) ∧
      ∀ scope params es, Settles (List.Forall₂ Expr.Fills) id (inferArgs rules scope params) es := by
  refine infer.mutual_induct _ _ _ ?name ?int ?bool ?result ?binary ?unary ?field ?ownCall
    ?fieldCall ?otherCall ?state ?missing ?noPayload ?payload ?noArgs ?args
  case name =>
    intro scope n s t' h _
    cases h
    rfl
  case int =>
    intro scope value span s t' h _
    cases h
    rfl
  case bool =>
    intro scope value span s t' h _
    cases h
    rfl
  case result =>
    intro scope span s t' h _
    cases h
    rfl
  case binary =>
    intro scope op l r span left right s t' h found
    cases h with
    | binary _ _ hl hr =>
      cases found with
      | binary _ _ hl' hr' =>
        exact run_bind_congr (left s _ hl hl') (run_bind_congr (right _ _ hr hr') rfl)
  case unary =>
    intro scope op e span operand s t' h found
    cases h with
    | unary _ _ h =>
      cases found with
      | unary _ _ h' => exact run_bind_congr (operand s _ h h') rfl
  case field =>
    intro scope e n span base s t' h found
    cases h with
    | field _ _ h =>
      cases found with
      | field _ _ h' => exact run_bind_congr (base s _ h h') rfl
  case ownCall =>
    intro scope method es span args s t' h found
    cases h with
    | call _ h hs =>
      cases h
      cases found with
      | call _ h' hs' =>
        exact run_bind_congr (callSignature_of_fills hs) (run_bind_congr (args _ _ _ hs hs') rfl)
  case fieldCall =>
    intro scope base method calleeSpan es span first args s t' h found
    cases h with
    | call _ h hs =>
      cases h with
      | field _ _ h =>
        cases found with
        | call _ h' hs' =>
          cases h' with
          | field _ _ h' =>
            exact run_bind_congr (first s _ h h')
              (run_bind_congr (callSignature_of_fills hs) (run_bind_congr (args _ _ _ hs hs') rfl))
  case otherCall =>
    intro scope callee es span notName notField hcallee hargs s t' h found
    cases h with
    | @call _ callee' _ es' _ h hs =>
      have notName' : ∀ n, callee' = Expr.name n → False := by
        rintro n rfl
        cases h
        exact notName _ rfl
      have notField' : ∀ base n s, callee' = Expr.field base n s → False := by
        rintro base n s rfl
        cases h
        exact notField _ _ _ rfl
      rw [infer_call_eq notName notField] at found
      rw [infer_call_eq notName notField, infer_call_eq notName' notField']
      cases found with
      | call _ h' hs' =>
        exact run_bind_congr (hcallee s _ h h') (run_bind_congr (hargs _ _ hs hs') rfl)
  case state =>
    intro scope head es recorded payload s t' h found
    cases h with
    | @state _ _ es' _ new h hs =>
      have entered (s : CheckState) :
          (enterState head es' scope).run s = (enterState head es scope).run s := by
        simp only [run_enterState, StateHead.errors_of_fills hs, StateHead.label_of_fills hs]
      rw [infer_state_eq, run_bind, run_isRegistered] at found
      rw [infer_state_eq, infer_state_eq]
      refine run_bind_congr rfl ?_
      rw [run_isRegistered]
      by_cases known : rules.registry.get? head.descriptor.keyword = some head.descriptor
      · simp only [if_pos known, if_true, run_within] at found ⊢
        cases found with
        | state _ h' hs' =>
          refine congrArg (fun r : (Ty × Expr) × CheckState =>
            (r.1, { r.2 with contexts := r.2.contexts.pop })) ?_
          refine run_bind_congr
            (run_bind_congr (entered _) (settles_readState payload _ _ _ hs hs')) ?_
          exact congrArg (fun kept => ((kept, Expr.state head _ (some kept)), _)) (h.getD_eq h')
      · simp only [if_neg known, Bool.false_eq_true, if_false] at found ⊢
        rw [Expr.Fills.antisymm (.state head h hs) found]
  case missing =>
    intro scope span s t' h _
    cases h
    rfl
  case noPayload =>
    intro scope typeArgs s t' h _
    cases h
    rfl
  case payload =>
    intro scope typeArgs e es first s t' h found
    cases h with
    | cons h hs =>
      cases found with
      | cons h' hs' =>
        rw [Expr.Fills.antisymm_list hs hs']
        exact run_bind_congr (first s _ h h') rfl
  case noArgs =>
    intro scope params s t' h _
    cases h
    rfl
  case args =>
    intro scope params e es first others s t' h found
    cases h with
    | cons h hs =>
      cases found with
      | cons h' hs' =>
        refine run_bind_congr (first s _ h h')
          (run_bind_congr ?_ (run_bind_congr (others _ _ hs hs') rfl))
        rw [h.span]

theorem settles_infer (scope : Scope) (e : Expr) :
    Settles Expr.Fills Prod.snd (infer rules scope) e := (settles_infer_all rules).1 scope e

theorem settles_inferAs (scope : Scope) (expected : Option Ty) (e : Expr) :
    Settles Expr.Fills Prod.snd (inferAs rules scope expected) e := by
  intro s e' h found
  refine run_bind_congr (settles_infer scope e s e' h found) ?_
  rw [h.span]

theorem settles_inferInit (scope : Scope) (expected : Ty) (init : Option Expr) :
    Settles (Option.Rel Expr.Fills) id (inferInit rules scope expected) init := by
  intro s init' h found
  cases h with
  | none => rfl
  | some h =>
    cases found with
    | some h' => exact run_bind_congr (settles_inferAs scope _ _ s _ h h') rfl

theorem run_within_congr {α : Type} {m m' : Check α} (clause : Option Descriptor) {s : CheckState}
    (h : m'.run { s with contexts := s.contexts.enter clause } =
      m.run { s with contexts := s.contexts.enter clause }) :
    (within clause m').run s = (within clause m).run s := by rw [run_within, run_within, h]

theorem settles_inferClause (scope : Scope) (d : Descriptor) (e : Expr) :
    Settles Expr.Fills id (inferClause rules scope d) e := fun _ e' h found =>
  run_bind_congr (run_within_congr _ (settles_inferAs scope _ e _ e' h found)) rfl

/-- Whether a descriptor is the registry's own does not depend on recorded types. -/
theorem registered_congr {P : β → Prop} {d : Descriptor} {known known' foreign foreign' : Check β}
    (hknown : ∀ s, P (known.run s).1 → known'.run s = known.run s)
    (hforeign : ∀ s, P (foreign.run s).1 → foreign'.run s = foreign.run s) (s : CheckState)
    (found : P ((isRegistered rules d >>= fun b => if b = true then known else foreign).run s).1) :
    (isRegistered rules d >>= fun b => if b = true then known' else foreign').run s =
      (isRegistered rules d >>= fun b => if b = true then known else foreign).run s := by
  rw [run_bind] at found
  refine run_bind_congr rfl ?_
  revert found
  split
  · exact hknown _
  · exact hforeign _

/-! ### Statements -/

theorem settles_checkVariable (scope : Scope) (v : Variable) :
    Settles Variable.Fills Prod.fst (checkVariable rules scope) v := by
  intro s v' h found
  cases h with
  | intro type name span h =>
    cases found with
    | intro _ _ _ h' =>
      exact run_bind_congr rfl (run_bind_congr (settles_inferInit scope _ _ _ _ h h') rfl)

theorem settles_checkSpecClause (scope : Scope) (c : SpecClause) :
    Settles SpecClause.Fills id (checkSpecClause rules scope) c := by
  intro s c' h found
  cases h with
  | @intro d e e' span h =>
    refine registered_congr (P := SpecClause.Fills ⟨d, e', span⟩) (fun s found => ?_)
      (fun s found => ?_) s found
    · cases found with
      | intro _ _ h' => exact run_bind_congr (settles_inferClause scope d e s e' h h') rfl
    · rw [SpecClause.Fills.antisymm (.intro d span h) found]

theorem settles_checkLeave (scope : Scope) (span : Span) (value : Option Expr) :
    Settles (Option.Rel Expr.Fills) id (fun value => checkLeave rules scope value span) value := by
  intro s value' h found
  cases h with
  | none => rfl
  | some h =>
    unfold checkLeave at found ⊢
    dsimp only at found ⊢
    revert found
    split
    · intro found
      cases found with
      | some h' =>
        refine run_bind_congr (settles_infer scope _ s _ h h') ?_
        rw [h.span]
    · intro found
      cases found with
      | some h' => exact run_bind_congr (settles_inferAs scope _ _ s _ h h') rfl

mutual

theorem settles_checkStatement (rules : Rules) (scope : Scope) :
    ∀ t : Statement, Settles Statement.Fills Prod.fst (checkStatement rules scope) t
  | .declare v => fun s _ h found => by
    cases h with
    | declare h =>
      cases found with
      | declare h' => exact run_bind_congr (settles_checkVariable scope v s _ h h') rfl
  | .ghost d v => fun s _ h found => by
    cases h with
    | @ghost _ _ v' h =>
      refine registered_congr (P := fun r => Statement.Fills (.ghost d v') r.1)
        (fun s found => ?_) (fun s found => ?_) s found
      · cases found with
        | ghost _ h' =>
          exact run_bind_congr (run_within_congr _ (settles_checkVariable scope v _ _ h h')) rfl
      · rw [Statement.Fills.antisymm (.ghost d h) found]
  | .assign _ e _ => fun s _ h found => by
    cases h with
    | assign _ _ h =>
      cases found with
      | assign _ _ h' =>
        exact run_bind_congr rfl (run_bind_congr (settles_inferAs scope _ e _ _ h h') rfl)
  | .labeled _ t _ => fun s _ h found => by
    cases h with
    | labeled _ _ h =>
      cases found with
      | labeled _ _ h' =>
        exact run_bind_congr rfl
          (run_bind_congr (settles_checkStatement rules _ t _ _ h h') rfl)
  | .clause c => fun s _ h found => by
    cases h with
    | clause h =>
      cases found with
      | clause h' => exact run_bind_congr (settles_checkSpecClause scope c s _ h h') rfl
  | .leave value span => fun s _ h found => by
    cases h with
    | leave _ h =>
      cases found with
      | leave _ h' => exact run_bind_congr (settles_checkLeave scope span value s _ h h') rfl
  | .expr e => fun s _ h found => by
    cases h with
    | expr h =>
      cases found with
      | expr h' => exact run_bind_congr (settles_infer scope e s _ h h') rfl
  | .block ts _ => fun s _ h found => by
    cases h with
    | block _ h =>
      cases found with
      | block _ h' => exact run_bind_congr (settles_checkStatements rules scope ts s _ h h') rfl
  | .missing _ => fun s _ h _ => by
    cases h
    rfl

theorem settles_checkStatements (rules : Rules) (scope : Scope) :
    ∀ ts : List Statement,
      Settles (List.Forall₂ Statement.Fills) id (checkStatements rules scope) ts
  | [] => fun s _ h _ => by
    cases h
    rfl
  | t :: ts => fun s _ h found => by
    cases h with
    | cons h hs =>
      cases found with
      | cons h' hs' =>
        exact run_bind_congr (settles_checkStatement rules scope t s _ h h')
          (run_bind_congr (settles_checkStatements rules _ ts _ _ hs hs') rfl)

end

/-! ### Members -/

theorem settles_checkField (scope : Scope) (f : Field) :
    Settles Field.Fills id (checkField rules scope) f := by
  intro s f' h found
  cases h with
  | intro type name ghost span h =>
    cases h with
    | none => rfl
    | @some e e' h =>
      cases ghost with
      | none =>
        cases found with
        | intro _ _ _ _ h' =>
          exact run_bind_congr (settles_inferInit scope _ _ s _ (.some h) h') rfl
      | some d =>
        refine registered_congr (P := Field.Fills ⟨type, name, some e', some d, span⟩)
          (fun s found => ?_) (fun s found => ?_) s found
        · cases found with
          | intro _ _ _ _ h' =>
            exact run_bind_congr
              (run_within_congr _ (settles_inferInit scope _ _ _ _ (.some h) h')) rfl
        · cases found with
          | intro _ _ _ _ h' => rw [optionRel_antisymm Expr.Fills.antisymm (.some h) h']

theorem settles_checkTypeClause (scope : Scope) (c : TypeClause) :
    Settles TypeClause.Fills id (checkTypeClause rules scope) c := by
  intro s c' h found
  cases h with
  | @intro d e e' frame span h =>
    refine registered_congr (P := TypeClause.Fills ⟨d, e', frame, span⟩) (fun s found => ?_)
      (fun s found => ?_) s found
    · cases found with
      | intro _ _ _ h' => exact run_bind_congr (settles_inferClause scope d e s e' h h') rfl
    · cases found with
      | intro _ _ _ h' => rw [h.antisymm h']

theorem settles_checkSpecClauses (scope : Scope) (cs : List SpecClause) :
    Settles (List.Forall₂ SpecClause.Fills) id (checkSpecClauses rules scope) cs := by
  induction cs with
  | nil =>
    intro s cs' h _
    cases h
    rfl
  | cons c cs ih =>
    intro s cs' h found
    cases h with
    | cons h hs =>
      cases found with
      | cons h' hs' =>
        exact run_bind_congr (settles_checkSpecClause scope c s _ h h')
          (run_bind_congr (ih _ _ hs hs') rfl)

theorem settles_checkCases (scope : Scope) (cs : List SpecCase) :
    Settles (List.Forall₂ SpecCase.Fills) id (checkCases rules scope) cs := by
  induction cs with
  | nil =>
    intro s cs' h _
    cases h
    rfl
  | cons c cs ih =>
    intro s cs' h found
    cases h with
    | cons h hs =>
      cases h with
      | intro span h =>
        cases found with
        | cons h' hs' =>
          cases h' with
          | intro _ h' =>
            exact run_bind_congr (settles_checkSpecClauses scope _ s _ h h')
              (run_bind_congr (ih _ _ hs hs') rfl)

theorem settles_checkMember (className : String) (m : Member) :
    Settles Member.Fills id (checkMember rules className) m := by
  intro s m' h found
  cases h with
  | field h =>
    cases found with
    | field h' => exact run_bind_congr (settles_checkField _ _ s _ h h') rfl
  | clause h =>
    cases found with
    | clause h' => exact run_bind_congr (settles_checkTypeClause _ _ s _ h h') rfl
  | method h =>
    cases h with
    | intro returnType name params bodySpan span h k =>
      cases found with
      | method found =>
        cases found with
        | intro _ _ _ _ _ h' k' =>
          refine run_bind_congr (run_bind_congr rfl (run_bind_congr rfl ?_)) rfl
          exact run_bind_congr (settles_checkCases _ _ _ _ h h')
            (run_bind_congr (settles_checkStatements rules _ _ _ _ k k') rfl)

theorem settles_checkMembers (className : String) (ms : List Member) :
    Settles (List.Forall₂ Member.Fills) id (checkMembers rules className) ms := by
  induction ms with
  | nil =>
    intro s ms' h _
    cases h
    rfl
  | cons m ms ih =>
    intro s ms' h found
    cases h with
    | cons h hs =>
      cases found with
      | cons h' hs' =>
        exact run_bind_congr (settles_checkMember className m s _ h h')
          (run_bind_congr (ih _ _ hs hs') rfl)

/-! ### Classes -/

theorem settles_checkClass (c : Class) : Settles Class.Fills id (checkClass rules) c := by
  intro s c' h found
  cases h with
  | intro name span h =>
    cases found with
    | intro _ _ h' => exact run_bind_congr (settles_checkMembers _ _ s _ h h') rfl

/-- Classes that have some of the types recorded that are found for them are checked as the
classes themselves are, also where the check is given up behind one of them. -/
theorem settles_checkClasses (cs : List Class) :
    Settles (List.Forall₂ Class.Fills) Prod.snd (checkClasses rules) cs := by
  induction cs with
  | nil =>
    intro s cs' h _
    cases h
    rfl
  | cons c cs ih =>
    intro s cs' h found
    cases h with
    | @cons _ c' _ cs' h hs =>
      have stop : stopBehind c' = stopBehind c := by
        cases h
        rfl
      unfold checkClasses at found ⊢
      rw [run_bind, run_bind] at found
      rw [stop]
      cases hstop : ((stopBehind c).run ((checkClass rules c).run s).2).1 with
      | some e =>
        rw [hstop] at found
        cases found with
        | cons h' hs' =>
          refine run_bind_congr (settles_checkClass c s c' h h') (run_bind_congr rfl ?_)
          rw [hstop, forall₂_antisymm Class.Fills.antisymm hs hs']
      | none =>
        rw [hstop] at found
        cases found with
        | cons h' hs' =>
          refine run_bind_congr (settles_checkClass c s c' h h') (run_bind_congr rfl ?_)
          rw [hstop]
          exact run_bind_congr (ih _ _ hs hs') rfl

end Check

end Contracts
