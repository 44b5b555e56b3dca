import Contracts.Proofs.Grammar.Own
import Contracts.Proofs.Typing.Effect

/-! Every part of a check is local. Types of expressions are found without a look at the names
that the method has declared; only variables and parameters are declared under new names, and
each method starts without any. Where the descriptors are those of the registry, no fault is
noted. -/

namespace Contracts.Check

variable {faultless blind : Prop} {rules : Rules}

/-! ### Names and operators -/

theorem local_resolveType (name : Name) : Local faultless blind (resolveType rules name) := by
  unfold resolveType
  split
  · exact .pure _
  · exact .bind (.report _ _) fun _ => .pure _

theorem local_resolveTypes (names : List Name) :
    Local faultless blind (resolveTypes rules names) := by
  induction names with
  | nil => exact .pure _
  | cons name names ih =>
    exact .bind (local_resolveType name) fun _ => .bind ih fun _ => .pure _

theorem local_variableType (env : Env) (name : Name) :
    Local faultless blind (variableType rules env name) := by
  unfold variableType
  split
  · exact .pure _
  · exact .bind (.report _ _) fun _ => .pure _

theorem local_require (expected : Option Ty) (found : Ty) (span : Span) :
    Local faultless blind (require expected found span) := by
  unfold require
  split
  · exact .pure _
  · split
    · exact .pure _
    · exact .report _ _

theorem local_binaryType (op : BinaryOp) (left right : Ty) (span : Span) :
    Local faultless blind (binaryType op left right span) := by
  unfold binaryType
  split
  · exact .pure _
  · split
    · exact .pure _
    · exact .bind (.report _ _) fun _ => .pure _

theorem local_unaryType (op : UnaryOp) (operand : Ty) (span : Span) :
    Local faultless blind (unaryType op operand span) := by
  unfold unaryType
  split
  · exact .pure _
  · exact .bind (.report _ _) fun _ => .pure _

theorem local_fieldType (owner : Ty) (field : Name) :
    Local faultless blind (fieldType rules owner field) := by
  unfold fieldType
  split
  · exact .pure _
  · split
    · exact .pure _
    · exact .bind (.report _ _) fun _ => .pure _
  · exact .bind (.report _ _) fun _ => .pure _

theorem local_resultType (env : Env) (span : Span) :
    Local faultless blind (resultType env span) := by
  refine .bind .context fun context => ?_
  split
  · exact .bind (.report _ _) fun _ => .pure _
  · split
    · split
      · exact .pure _
      · exact .bind (.report _ _) fun _ => .pure _
    · exact .bind (.report _ _) fun _ => .pure _

theorem local_callSignature (owner : Ty) (method : Name) (args : List Expr) (span : Span) :
    Local faultless blind (callSignature rules owner method args span) := by
  unfold callSignature
  split
  · split
    · exact .bind (.report _ _) fun _ => .pure _
    · exact .bind (.pure _) fun _ => .pure _
  · split
    · exact .pure _
    · exact .bind (.report _ _) fun _ => .pure _

/-! ### Expressions -/

/-- The three parts of the mutual recursion, in its own cases. -/
theorem local_infer_all (rules : Rules) :
    (∀ scope e, (faultless → e.Own rules.registry) →
      Local faultless blind (infer rules scope e)) ∧
    (∀ scope typeArgs es, (faultless → Expr.Own.listOwn rules.registry es) →
      Local faultless blind (inferPayload rules scope typeArgs es)) ∧
    ∀ scope params es, (faultless → Expr.Own.listOwn rules.registry es) →
      Local faultless blind (inferArgs rules scope params es) := by
  refine infer.mutual_induct _ _ _ ?name ?int ?bool ?result ?binary ?unary ?field ?ownCall
    ?fieldCall ?otherCall ?state ?missing ?noPayload ?payload ?noArgs ?args
  case name => exact fun _ _ _ => .bind (local_variableType _ _) fun _ => .pure _
  case int => exact fun _ _ _ _ => .pure _
  case bool => exact fun _ _ _ _ => .pure _
  case result => exact fun _ _ _ => .bind (local_resultType _ _) fun _ => .pure _
  case binary =>
    exact fun _ _ _ _ _ left right h => .bind (left fun hf => (h hf).1) fun _ =>
      .bind (right fun hf => (h hf).2) fun _ => .bind (local_binaryType _ _ _ _) fun _ => .pure _
  case unary =>
    exact fun _ _ _ _ operand h => .bind (operand h) fun _ =>
      .bind (local_unaryType _ _ _) fun _ => .pure _
  case field =>
    exact fun _ _ _ _ base h => .bind (base h) fun _ => .bind (local_fieldType _ _) fun _ => .pure _
  case ownCall =>
    exact fun _ _ _ _ args h => .bind (local_callSignature _ _ _ _) fun signature =>
      .bind (args signature fun hf => (h hf).2) fun _ => .pure _
  case fieldCall =>
    exact fun _ _ _ _ _ _ base args h => .bind (base fun hf => (h hf).1) fun _ =>
      .bind (local_callSignature _ _ _ _) fun signature =>
        .bind (args signature fun hf => (h hf).2) fun _ => .pure _
  case otherCall =>
    intro scope callee args span notName notField hcallee hargs h
    rw [infer]
    · refine .bind (hcallee fun hf => (h hf).1) fun _ =>
        .bind (hargs fun hf => (h hf).2) fun _ => ?_
      dsimp only
      split
      · exact .bind (.report _ _) fun _ => .pure _
      · exact .pure _
    · exact notName
    · exact notField
  case state =>
    intro scope head args recorded payload h
    refine .bind (.isRegistered fun hf => (h hf).1) fun _ => ?_
    split
    · apply Local.reference head args scope
      intro inner
      cases inner with
      | none => exact .bind (.pure _) fun _ => .pure _
      | some inner => exact .bind (payload inner fun hf => (h hf).2) fun _ => .pure _
    · exact .pure _
  case missing => exact fun _ _ _ => .pure _
  case noPayload => exact fun _ _ _ => .pure _
  case payload =>
    exact fun _ _ _ _ e h => .bind (e fun hf => (h hf).1) fun _ =>
      .bind (local_resolveTypes _) fun _ => .pure _
  case noArgs => exact fun _ _ _ => .pure _
  case args =>
    exact fun _ _ _ _ e es h => .bind (e fun hf => (h hf).1) fun _ =>
      .bind (local_require _ _ _) fun _ => .bind (es fun hf => (h hf).2) fun _ => .pure _

theorem local_infer (scope : Scope) {e : Expr} (h : faultless → e.Own rules.registry) :
    Local faultless blind (infer rules scope e) := (local_infer_all rules).1 scope e h

theorem local_inferAs (scope : Scope) (expected : Option Ty) {e : Expr}
    (h : faultless → e.Own rules.registry) :
    Local faultless blind (inferAs rules scope expected e) :=
  .bind (local_infer scope h) fun _ => .bind (local_require _ _ _) fun _ => .pure _

theorem local_inferInit (scope : Scope) (expected : Ty) {init : Option Expr}
    (h : faultless → ∀ e ∈ init, e.Own rules.registry) :
    Local faultless blind (inferInit rules scope expected init) := by
  cases init with
  | none => exact .pure _
  | some e =>
    exact .bind (local_inferAs scope (some expected) fun hf => h hf e rfl) fun _ => .pure _

theorem local_inferClause (scope : Scope) (d : Descriptor) {e : Expr}
    (h : faultless → e.Own rules.registry) :
    Local faultless blind (inferClause rules scope d e) :=
  .bind (.within (some d) (local_inferAs scope _ h)) fun _ => .pure _

theorem local_checkSpecClause (scope : Scope) {c : SpecClause}
    (h : faultless → c.Own rules.registry) :
    Local faultless blind (checkSpecClause rules scope c) := by
  refine .bind (.isRegistered fun hf => (h hf).descriptor) fun registered => ?_
  split
  · exact .bind (local_inferClause _ _ fun hf => (h hf).expr) fun _ => .pure _
  · exact .pure _

/-! ### Statements -/

theorem local_declareLabel (scope : Scope) (label : Name) :
    Local faultless blind (declareLabel scope label) := by
  unfold declareLabel
  split
  · exact .bind (.report _ _) fun _ => .pure _
  · exact .pure _

theorem local_checkLeave (scope : Scope) {value : Option Expr} (span : Span)
    (h : faultless → ∀ e ∈ value, e.Own rules.registry) :
    Local faultless blind (checkLeave rules scope value span) := by
  unfold checkLeave
  cases value with
  | none =>
    dsimp only
    split
    · exact .bind (.report _ _) fun _ => .pure _
    · exact .pure _
  | some e =>
    have own (hf : faultless) : e.Own rules.registry := h hf e rfl
    dsimp only
    split
    · exact .bind (local_infer _ own) fun _ => .bind (.report _ _) fun _ => .pure _
    · exact .bind (local_inferAs _ _ own) fun _ => .pure _

theorem run_declare (scope : Scope) (name : Name) (type : Ty) (s : CheckState) :
    (declare scope name type).run s =
      if s.names.contains name.text then
        (scope, { s with errors := s.errors ++ [⟨.duplicate name.text, name.span⟩] })
      else (scope.addLocal name.text type, { s with names := name.text :: s.names }) := by
  unfold declare
  rw [run_bind]
  split
  · next h => exact (if_pos h).symm
  · next h => exact (if_neg h).symm

/-- A declaration looks at the names and adds to them. -/
theorem local_declare (scope : Scope) (name : Name) (type : Ty) :
    Local faultless False (declare scope name type) := by
  let out (_ : Context) (names : List String) : Effect Scope :=
    if names.contains name.text then
      { value := scope, errors := [⟨.duplicate name.text, name.span⟩], names }
    else { value := scope.addLocal name.text type, names := name.text :: names }
  refine .of_out out (fun s => ?_) (fun hf c ns => ?_) False.elim
  · rw [run_declare]
    dsimp only [out]
    split <;> simp [Effect.on, ContextStack.cycled]
  · dsimp only [out]
    split <;> rfl

theorem local_checkVariable (scope : Scope) {v : Variable}
    (h : faultless → v.Own rules.registry) :
    Local faultless False (checkVariable rules scope v) :=
  .bind (local_resolveType _) fun _ => .bind (local_inferInit scope _ h) fun _ =>
    .bind (local_declare _ _ _) fun _ => .pure _

mutual

theorem local_checkStatement (rules : Rules) (scope : Scope) :
    ∀ s : Statement, (faultless → s.Own rules.registry) →
      Local faultless False (checkStatement rules scope s)
  | .declare _, h => .bind (local_checkVariable scope h) fun _ => .pure _
  | .ghost d decl, h => by
    refine .bind (.isRegistered fun hf => (h hf).1) fun registered => ?_
    split
    · exact .bind (.within _ (local_checkVariable scope fun hf => (h hf).2)) fun _ => .pure _
    · exact .pure _
  | .assign _ _ _, h =>
    .bind (local_variableType _ _) fun _ => .bind (local_inferAs _ _ h) fun _ => .pure _
  | .labeled label body _, h =>
    .bind (local_declareLabel scope label) fun scope =>
      .bind (local_checkStatement rules scope body h) fun _ => .pure _
  | .clause _, h => .bind (local_checkSpecClause scope h) fun _ => .pure _
  | .leave _ span, h => .bind (local_checkLeave scope span h) fun _ => .pure _
  | .expr _, h => .bind (local_infer scope h) fun _ => .pure _
  | .block statements _, h =>
    .bind (local_checkStatements rules scope statements h) fun _ => .pure _
  | .missing _, _ => .pure _

theorem local_checkStatements (rules : Rules) (scope : Scope) :
    ∀ ss : List Statement, (faultless → Statement.Own.listOwn rules.registry ss) →
      Local faultless False (checkStatements rules scope ss)
  | [], _ => .pure _
  | s :: ss, h =>
    .bind (local_checkStatement rules scope s fun hf => (h hf).1) fun r =>
      .bind (local_checkStatements rules r.2 ss fun hf => (h hf).2) fun _ => .pure _

end

/-! ### Declarations -/

theorem local_declareClasses (table : ClassTable) (cs : List Class) :
    Local faultless blind (declareClasses table cs) := by
  induction cs generalizing table with
  | nil => exact .pure _
  | cons c cs ih =>
    unfold declareClasses
    split
    · exact .bind (.report _ _) fun _ => ih table
    · exact ih _

theorem local_declareMember {α : Type} (table : List (String × α)) (name : Name) (entry : α) :
    Local faultless blind (declareMember table name entry) := by
  unfold declareMember
  dsimp only
  split
  · exact .bind (.report _ _) fun _ => .pure _
  · exact .pure _

theorem local_collectFields (table : List (String × Ty)) (fs : List Field) :
    Local faultless blind (collectFields rules table fs) := by
  induction fs generalizing table with
  | nil => exact .pure _
  | cons f fs ih =>
    exact .bind (local_resolveType _) fun _ => .bind (local_declareMember _ _ _) fun _ => ih _

theorem local_collectMethods (table : List (String × Signature)) (ms : List Method) :
    Local faultless blind (collectMethods rules table ms) := by
  induction ms generalizing table with
  | nil => exact .pure _
  | cons m ms ih =>
    exact .bind (local_resolveTypes _) fun _ => .bind (local_resolveType _) fun _ =>
      .bind (local_declareMember _ _ _) fun _ => ih _

theorem local_collectClass (c : Class) : Local faultless blind (collectClass rules c) :=
  .bind (local_collectFields _ _) fun _ => .bind (local_collectMethods _ _) fun _ => .pure _

theorem local_collectClasses (table : ClassTable) (seen : List String) (cs : List Class) :
    Local faultless blind (collectClasses rules table seen cs) := by
  induction cs generalizing table seen with
  | nil => exact .pure _
  | cons c cs ih =>
    unfold collectClasses
    split
    · exact ih _ _
    · exact .bind (local_collectClass _) fun _ => ih _ _

theorem local_collect (unit : CompilationUnit) : Local faultless blind (collect rules unit) :=
  .bind (local_declareClasses _ _) fun _ => local_collectClasses _ _ _

/-! ### Members -/

theorem local_checkField (scope : Scope) {f : Field} (h : faultless → f.Own rules.registry) :
    Local faultless blind (checkField rules scope f) := by
  obtain ⟨type, name, init, ghost, span⟩ := f
  unfold checkField
  cases init with
  | none => exact .pure _
  | some e =>
    have own (hf : faultless) := (h hf).init
    cases ghost with
    | none => exact .bind (local_inferInit _ _ own) fun _ => .pure _
    | some d =>
      refine .bind (.isRegistered fun hf => (h hf).ghost d rfl) fun registered => ?_
      split
      · exact .bind (.within _ (local_inferInit _ _ own)) fun _ => .pure _
      · exact .pure _

theorem local_checkTypeClause (scope : Scope) {c : TypeClause}
    (h : faultless → c.Own rules.registry) :
    Local faultless blind (checkTypeClause rules scope c) := by
  refine .bind (.isRegistered fun hf => (h hf).descriptor) fun registered => ?_
  split
  · exact .bind (local_inferClause _ _ fun hf => (h hf).expr) fun _ =>
      .bind (.reportAll _) fun _ => .pure _
  · exact .pure _

theorem local_declareParams (scope : Scope) (ps : List Param) :
    Local faultless False (declareParams rules scope ps) := by
  induction ps generalizing scope with
  | nil => exact .pure _
  | cons p ps ih => exact .bind (local_declare _ _ _) fun _ => ih _

theorem local_checkSpecClauses (scope : Scope) {cs : List SpecClause}
    (h : faultless → ∀ c ∈ cs, c.Own rules.registry) :
    Local faultless blind (checkSpecClauses rules scope cs) := by
  induction cs with
  | nil => exact .pure _
  | cons c cs ih =>
    simp only [List.forall_mem_cons] at h
    exact .bind (local_checkSpecClause _ fun hf => (h hf).1) fun _ =>
      .bind (ih fun hf => (h hf).2) fun _ => .pure _

theorem local_checkCases (scope : Scope) {cs : List SpecCase}
    (h : faultless → ∀ c ∈ cs, ∀ s ∈ c.clauses, s.Own rules.registry) :
    Local faultless blind (checkCases rules scope cs) := by
  induction cs with
  | nil => exact .pure _
  | cons c cs ih =>
    simp only [List.forall_mem_cons] at h
    exact .bind (local_checkSpecClauses _ fun hf => (h hf).1) fun _ =>
      .bind (ih fun hf => (h hf).2) fun _ => .pure _

/-- A method starts without names. -/
theorem local_forgetNames :
    Local faultless False (modify fun s => { s with names := [] } : Check Unit) := by
  refine .of_out (fun _ _ => { value := (), names := [] }) (fun s => ?_) (fun _ _ _ => rfl)
    False.elim
  simp only [Effect.on, List.append_nil, Option.or_none]
  rfl

theorem local_checkMethod (className : String) {m : Method}
    (h : faultless → m.Own rules.registry) :
    Local faultless False (checkMethod rules className m) :=
  .bind local_forgetNames fun _ => .bind (local_declareParams _ _) fun _ =>
    .bind (local_checkCases _ fun hf => (h hf).cases) fun _ =>
      .bind (local_checkStatements _ _ _ fun hf => (h hf).body) fun _ => .pure _

theorem local_checkMember (className : String) {m : Member}
    (h : faultless → m.Own rules.registry) :
    Local faultless False (checkMember rules className m) := by
  cases m with
  | field f => exact .bind (local_checkField _ h) fun _ => .pure _
  | clause c => exact .bind (local_checkTypeClause _ h) fun _ => .pure _
  | method m => exact .bind (local_checkMethod _ h) fun _ => .pure _

theorem local_checkMembers (className : String) {ms : List Member}
    (h : faultless → ∀ m ∈ ms, m.Own rules.registry) :
    Local faultless False (checkMembers rules className ms) := by
  induction ms with
  | nil => exact .pure _
  | cons m ms ih =>
    simp only [List.forall_mem_cons] at h
    exact .bind (local_checkMember _ fun hf => (h hf).1) fun _ =>
      .bind (ih fun hf => (h hf).2) fun _ => .pure _

theorem local_checkClass {c : Class} (h : faultless → c.Own rules.registry) :
    Local faultless False (checkClass rules c) :=
  .bind (local_checkMembers _ h) fun _ => .pure _

end Contracts.Check
