import Contracts.Proofs.Typing.Locality
import Contracts.Proofs.Typing.Met

/-! Checks that meet descriptors. A check that meets a list of descriptors notes the first one of
them that the registry does not hold, unless a fault was noted before (`Check.Meets`). Checks one
behind the other meet what both meet, so a part that is not looked at, behind a descriptor that is
foreign, makes no difference. Expressions and statements meet what is told by their position
(`Check.meets_infer`, `Check.meets_checkStatement`). -/

namespace Contracts.Check

variable {α β : Type} {rules : Rules} {clause : Option Descriptor} {ds es : List Descriptor}

/-- Started in this clause, the check closes the frames that it opens and notes the first of the
descriptors that is foreign. -/
def Meets (registry : Registry) (clause : Option Descriptor) (ds : List Descriptor)
    (m : Check α) : Prop :=
  ∀ s : CheckState, s.contexts.current.clause = clause →
    (∃ n, (m.run s).2.contexts = s.contexts.cycled n) ∧
      (m.run s).2.fault = s.fault.or (registry.foreign? ds)

namespace Meets

variable {registry : Registry} {m : Check α}

/-! ### Rules -/

theorem fault_effect (h : Meets registry clause ds m) {c : Context} (hc : c.clause = clause)
    (names : List String) : (m.effect c names).fault = registry.foreign? ds := by
  have noted := (h { contexts := { base := c }, names } hc).2
  rw [Option.none_or] at noted
  exact noted

theorem of_local (h : Local True False m) : Meets registry clause [] m := by
  intro s hs
  rw [h.run]
  constructor
  · exact ⟨_, rfl⟩
  · simp [Effect.on, h.fault trivial]

theorem pure (a : α) : Meets registry clause [] (Pure.pure a : Check α) := of_local (.pure a)

/-- Checks one behind the other meet the descriptors of both. What is known of every result of the
first one may be used for the second one. -/
theorem bind_of_returns {P : α → Prop} {f : α → Check β} (hm : Meets registry clause ds m)
    (returns : Returns P m) (hf : ∀ a, P a → Meets registry clause es (f a)) :
    Meets registry clause (ds ++ es) (m >>= f) := by
  intro s hs
  obtain ⟨⟨n, contexts⟩, fault⟩ := hm s hs
  have current : (m.run s).2.contexts.current.clause = clause := by
    rw [contexts, ContextStack.current_cycled, hs]
  obtain ⟨⟨n', contexts'⟩, fault'⟩ := hf _ (returns s) _ current
  rw [run_bind]
  constructor
  · exact ⟨n + n', by rw [contexts', contexts, ContextStack.cycled_cycled]⟩
  · rw [fault', fault, Option.or_assoc, Registry.foreign?_append]

theorem bind {f : α → Check β} (hm : Meets registry clause ds m)
    (hf : ∀ a, Meets registry clause es (f a)) : Meets registry clause (ds ++ es) (m >>= f) :=
  hm.bind_of_returns (.any m) fun a _ => hf a

/-- What stands in front of a check may meet nothing. -/
theorem behind {f : α → Check β} (hm : Local True False m)
    (hf : ∀ a, Meets registry clause es (f a)) : Meets registry clause es (m >>= f) :=
  (of_local hm).bind hf

/-- What stands behind a check may meet nothing. -/
theorem andThen {f : α → Check β} (hm : Meets registry clause ds m)
    (hf : ∀ a, Local True False (f a)) : Meets registry clause ds (m >>= f) := by
  have both := hm.bind fun a => of_local (hf a)
  rwa [List.append_nil] at both

theorem context {f : Context → Check β}
    (hf : ∀ c : Context, c.clause = clause → Meets registry clause es (f c)) :
    Meets registry clause es (Check.context >>= f) := fun s hs => hf s.contexts.current hs s hs

/-- What stands behind a descriptor is looked at if the registry holds it. -/
theorem registered {d : Descriptor} {b : β} {rest : Check β}
    (h : Meets rules.registry clause ds rest) :
    Meets rules.registry clause (d :: ds)
      (isRegistered rules d >>= fun registered => if registered then rest else Pure.pure b) := by
  intro s hs
  rw [run_bind, run_isRegistered]
  by_cases holds : rules.registry.get? d.keyword = some d
  · rw [if_pos holds, Registry.foreign?_cons_of_holds holds]
    exact h s hs
  · rw [if_neg holds, Registry.foreign?_cons_of_not_holds holds]
    exact ⟨⟨0, rfl⟩, rfl⟩

theorem inside {d : Descriptor} (h : Meets registry (some d) ds m) :
    Meets registry clause ds (within (some d) m) := by
  intro s hs
  have entered : (s.contexts.enter (some d)).current.clause = some d := rfl
  obtain ⟨⟨n, contexts⟩, fault⟩ := h { s with contexts := s.contexts.enter (some d) } entered
  have closed := congrArg ContextStack.pop contexts
  rw [ContextStack.pop_cycled_enter] at closed
  exact ⟨⟨n + 1, closed⟩, fault⟩

theorem labeled (label : StateLabel) (h : Meets registry clause ds m) :
    Meets registry clause ds (within none (setLabel label >>= fun _ => m)) := by
  intro s hs
  let opened := (s.contexts.enter none).setLabel label
  have entered : opened.current.clause = clause := hs
  obtain ⟨⟨n, contexts⟩, fault⟩ := h { s with contexts := opened } entered
  have closed := congrArg ContextStack.pop contexts
  rw [ContextStack.pop_cycled_setLabel] at closed
  exact ⟨⟨n + 1, closed⟩, fault⟩

/-- A reference meets what is met where its first argument is read, if that is done. -/
theorem reference {read : Option Scope → Check α} {p : Position} {scope : Scope}
    (fits : p.Fits scope) (head : StateHead) (args : List Expr)
    (read_first : ∀ label, Meets registry p.clause ds (read (some (scope.asOf p.clause label))))
    (pass : Local True False (read none)) :
    Meets registry p.clause (if p.admits head args then ds else [])
      (within none (enterState head args scope >>= read)) := by
  rw [Local.reference_eq]
  apply context
  intro c hc
  apply behind (.reportAll _)
  intro _
  apply labeled
  rw [hc, fits.isEmpty_errors]
  by_cases admitted : p.admits head args
  · rw [if_pos admitted, if_pos admitted]
    exact read_first _
  · rw [if_neg admitted, if_neg admitted]
    exact of_local pass

end Meets

/-! ### Expressions -/

/-- The three parts of the mutual recursion, in its own cases. -/
theorem meets_infer_all (rules : Rules) :
    (∀ scope e, ∀ p : Position, p.Fits scope →
      Meets rules.registry p.clause (e.met p) (infer rules scope e)) ∧
    (∀ scope typeArgs es, ∀ p : Position, p.Fits scope →
      Meets rules.registry p.clause (Expr.met.firstMet p es)
        (inferPayload rules scope typeArgs es)) ∧
    ∀ scope params es, ∀ p : Position, p.Fits scope →
      Meets rules.registry p.clause (Expr.met.listMet p es) (inferArgs rules scope params es) := by
  apply infer.mutual_induct _ _ _ ?name ?int ?bool ?result ?binary ?unary ?field ?ownCall
    ?fieldCall ?otherCall ?state ?missing ?noPayload ?payload ?noArgs ?args
  case name =>
    exact fun _ _ _ _ => .of_local (.bind (local_variableType _ _) fun _ => .pure _)
  case int => exact fun _ _ _ _ _ => .pure _
  case bool => exact fun _ _ _ _ _ => .pure _
  case result => exact fun _ _ _ _ => .of_local (.bind (local_resultType _ _) fun _ => .pure _)
  case binary =>
    intro scope op l r span left right p fits
    exact .bind (left p fits) fun _ => (right p fits).andThen fun _ =>
      .bind (local_binaryType _ _ _ _) fun _ => .pure _
  case unary =>
    intro scope op e span operand p fits
    exact (operand p fits).andThen fun _ => .bind (local_unaryType _ _ _) fun _ => .pure _
  case field =>
    intro scope e field span base p fits
    exact (base p fits).andThen fun _ => .bind (local_fieldType _ _) fun _ => .pure _
  case ownCall =>
    intro scope method es span args p fits
    exact .behind (local_callSignature _ _ _ _) fun signature =>
      (args signature p fits).andThen fun _ => .pure _
  case fieldCall =>
    intro scope e method calleeSpan es span base args p fits
    exact .bind (base p fits) fun _ => .behind (local_callSignature _ _ _ _) fun signature =>
      (args signature p fits).andThen fun _ => .pure _
  case otherCall =>
    intro scope e es span notName notField callee args p fits
    rw [infer]
    · apply (callee p fits).bind
      intro _
      apply (args p fits).andThen
      intro _
      dsimp only
      split
      · exact .bind (.report _ _) fun _ => .pure _
      · exact .pure _
    · exact notName
    · exact notField
  case state =>
    intro scope head es recorded payload p fits
    apply Meets.registered
    apply Meets.reference fits
    · intro label
      exact (payload _ p (fits.asOf _ label)).andThen fun _ => .pure _
    · exact .bind (.pure _) fun _ => .pure _
  case missing => exact fun _ _ _ _ => .pure _
  case noPayload => exact fun _ _ _ _ => .pure _
  case payload =>
    intro scope typeArgs e es first p fits
    exact (first p fits).andThen fun _ => .bind (local_resolveTypes _) fun _ => .pure _
  case noArgs => exact fun _ _ _ _ => .pure _
  case args =>
    intro scope params e es first others p fits
    exact .bind (first p fits) fun _ => .behind (local_require _ _ _) fun _ =>
      (others p fits).andThen fun _ => .pure _

variable {p : Position} {scope : Scope}

theorem meets_infer (fits : p.Fits scope) (e : Expr) :
    Meets rules.registry p.clause (e.met p) (infer rules scope e) :=
  (meets_infer_all rules).1 scope e p fits

theorem meets_inferAs (fits : p.Fits scope) (expected : Option Ty) (e : Expr) :
    Meets rules.registry p.clause (e.met p) (inferAs rules scope expected e) :=
  (meets_infer fits e).andThen fun _ => .bind (local_require _ _ _) fun _ => .pure _

theorem meets_inferInit (fits : p.Fits scope) (expected : Ty) (init : Option Expr) :
    Meets rules.registry p.clause ((init.map (Expr.met p)).getD [])
      (inferInit rules scope expected init) := by
  cases init with
  | none => exact .pure _
  | some e => exact (meets_inferAs fits (some expected) e).andThen fun _ => .pure _

theorem meets_inferClause (fits : p.Fits scope) (d : Descriptor) (e : Expr) :
    Meets rules.registry clause (e.met (p.inside d)) (inferClause rules scope d e) :=
  (meets_inferAs (fits.inside d) _ e).inside.andThen fun _ => .pure _

theorem meets_checkSpecClause (fits : p.Fits scope) (c : SpecClause) :
    Meets rules.registry clause (c.met p) (checkSpecClause rules scope c) :=
  .registered ((meets_inferClause fits c.descriptor c.expr).andThen fun _ => .pure _)

/-! ### Statements -/

theorem fits_declare (fits : p.Fits scope) (name : Name) (type : Ty) :
    Returns p.Fits (declare scope name type) := by
  intro s
  rw [run_declare]
  split
  · exact fits
  · exact fits.addLocal _ _

theorem fits_checkVariable (fits : p.Fits scope) (v : Variable) :
    Returns (fun r => p.Fits r.2) (checkVariable rules scope v) :=
  .bind (.any _) fun _ _ => .bind (.any _) fun _ _ => .bind (fits_declare fits _ _) fun _ behind =>
    .pure behind

/-- A label is open behind its declaration, whether it was before or not. -/
theorem fits_declareLabel (fits : p.Fits scope) (label : Name) :
    Returns (p.label label).Fits (declareLabel scope label) := by
  unfold declareLabel
  split
  · next known =>
    refine .bind (.any _) fun _ _ => .pure ⟨fits.inMethod, fits.earlier, fun name => ?_⟩
    rw [fits.labels] at known ⊢
    by_cases same : name = label.text
    · simp_all [Position.label]
    · simp [Position.label, same]
  · exact .pure (fits.addLabel label)

theorem fits_checkStatement {p : Position} {scope : Scope} (fits : p.Fits scope)
    (s : Statement) :
    Returns (fun r => (p.behind s).Fits r.2) (checkStatement rules scope s) := by
  cases s with
  | declare v => exact .bind (fits_checkVariable fits v) fun _ behind => .pure behind
  | ghost d v =>
    refine .bind (.any _) fun registered _ => ?_
    split
    · exact .bind (.within _ (fits_checkVariable fits v)) fun _ behind => .pure behind
    · exact .pure fits
  | assign target value span =>
    exact .bind (.any _) fun _ _ => .bind (.any _) fun _ _ => .pure fits
  | labeled label body span =>
    exact .bind (fits_declareLabel fits label) fun _ opened =>
      .bind (fits_checkStatement opened body) fun _ behind => .pure behind
  | missing span => exact .pure fits
  | _ => exact .bind (.any _) fun _ _ => .pure fits

theorem meets_checkVariable (fits : p.Fits scope) (v : Variable) :
    Meets rules.registry p.clause (v.met p) (checkVariable rules scope v) :=
  .behind (local_resolveType _) fun _ => (meets_inferInit fits _ _).andThen fun _ =>
    .bind (local_declare _ _ _) fun _ => .pure _

theorem meets_checkLeave (fits : p.Fits scope) (value : Option Expr) (span : Span) :
    Meets rules.registry p.clause ((value.map (Expr.met p)).getD [])
      (checkLeave rules scope value span) := by
  cases value with
  | none => exact .of_local (local_checkLeave scope span nofun)
  | some e =>
    unfold checkLeave
    dsimp only
    split
    · exact (meets_infer fits e).andThen fun _ => .bind (.report _ _) fun _ => .pure _
    · exact (meets_inferAs fits _ e).andThen fun _ => .pure _

mutual

theorem meets_checkStatement {p : Position} {scope : Scope} (fits : p.Fits scope) :
    ∀ s : Statement, Meets rules.registry p.clause (s.met p) (checkStatement rules scope s)
  | .declare v => (meets_checkVariable fits v).andThen fun _ => .pure _
  | .ghost d v =>
    .registered ((meets_checkVariable (fits.inside d) v).inside.andThen fun _ => .pure _)
  | .assign _ value _ =>
    .behind (local_variableType _ _) fun _ => (meets_inferAs fits _ value).andThen fun _ => .pure _
  | .labeled label body _ => by
    -- Declaring the label meets nothing, but the body is checked in the scope that it gives.
    have declared : Meets rules.registry p.clause [] (declareLabel scope label) :=
      .of_local (local_declareLabel scope label)
    exact declared.bind_of_returns (fits_declareLabel fits label) fun _ opened =>
      (meets_checkStatement opened body).andThen fun _ => .pure _
  | .clause c => (meets_checkSpecClause fits c).andThen fun _ => .pure _
  | .leave value span => (meets_checkLeave fits value span).andThen fun _ => .pure _
  | .expr e => (meets_infer fits e).andThen fun _ => .pure _
  | .block statements _ => (meets_checkStatements fits statements).andThen fun _ => .pure _
  | .missing _ => .pure _

theorem meets_checkStatements {p : Position} {scope : Scope} (fits : p.Fits scope) :
    ∀ ss : List Statement, Meets rules.registry p.clause (Statement.met.listMet p ss)
      (checkStatements rules scope ss)
  | [] => .pure _
  | s :: ss => by
    apply (meets_checkStatement fits s).bind_of_returns (fits_checkStatement fits s)
    intro r behind
    rw [← p.clause_behind s]
    exact (meets_checkStatements behind ss).andThen fun _ => .pure _

end

end Contracts.Check
