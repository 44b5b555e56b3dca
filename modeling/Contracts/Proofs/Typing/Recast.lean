import Contracts.Proofs.Grammar.Recast
import Contracts.Proofs.Typing.Labels

/-! Checking a tree with other words and descriptors. Types are found without a look at the words
and the descriptors of references; these tell only what is wrong with a reference itself. So a
check goes along with a change under which the same references are wrong, each with an error of
its own (`Check.found_recast`), or under which references stay right, if nothing is wrong
anywhere (`Check.checkUnit_recast`). -/

namespace Contracts

/-- A change takes what a registry holds to what another one holds, and what is wrong with a
reference to the changed errors; if the check is known to be quiet, only references with nothing
wrong matter. -/
structure Recast.Keeps (k : Recast) (quiet : Prop) (error : TypeError → TypeError)
    (registry registry' : Registry) : Prop where
  state {d : Descriptor} : registry.Holds d → registry'.Holds (k.state d)
  clause {d : Descriptor} : registry.Holds d → registry'.Holds (k.clause d)
  kind (d : Descriptor) : (k.clause d).kind = d.kind
  isEntry (word : StateKeyword) : (k.word word).isEntry = word.isEntry
  errors {head : StateHead} (args : List Expr) (clause : Option Descriptor) (scope : Scope) :
    registry.Holds head.descriptor → (quiet → head.errors args clause scope = []) →
      (k.head head).errors args (clause.map k.clause) scope =
        (head.errors args clause scope).map error
  host (e : TypeError) : e.category = .host → error e = e

variable {k : Recast} {quiet : Prop} {error : TypeError → TypeError}

namespace Recast.Keeps

variable {registry registry' : Registry} (keeps : k.Keeps quiet error registry registry')

include keeps

/-- Errors that have nothing to do with references stay as they are. -/
theorem map_host {errors : List TypeError} (host : Check.Host errors) :
    errors.map error = errors :=
  (List.map_congr_left fun e he => keeps.host e (host e he)).trans (List.map_id _)

theorem map_kind (clause : Option Descriptor) :
    (clause.map k.clause).map (·.kind) = clause.map (·.kind) := by
  cases clause with
  | none => rfl
  | some d => exact congrArg some (keeps.kind d)

end Recast.Keeps

theorem StateHead.labelArgument?_recast (head : StateHead) (args : List Expr) :
    head.labelArgument? (args.map (Expr.recast k)) =
      (head.labelArgument? args).map (Expr.recast k) := by
  unfold labelArgument?
  match args with
  | [] | [_] | _ :: _ :: _ :: _ => rfl
  | [_, second] => exact (apply_ite (Option.map (Expr.recast k)) _ none (some second)).symm

/-! ### Settings -/

def Context.recast (k : Recast) (c : Context) : Context :=
  { c with clause := c.clause.map k.clause }

def Setting.recast (k : Recast) (p : Setting) : Setting := ⟨p.scope, p.context.recast k⟩

theorem Setting.inside_recast (p : Setting) (clause : Option Descriptor) :
    (p.inside clause).recast k = (p.recast k).inside (clause.map k.clause) := by
  cases clause <;> rfl

section

variable {registry registry' : Registry} (keeps : k.Keeps quiet error registry registry')

include keeps

theorem Scope.asOf_recast (scope : Scope) (clause : Option Descriptor) (label : StateLabel) :
    scope.asOf (clause.map k.clause) label = scope.asOf clause label := by
  rw [asOf, asOf, keeps.map_kind]

theorem StateHead.errors_recast {head : StateHead} (h : registry.Holds head.descriptor)
    (args : List Expr) (clause : Option Descriptor) (scope : Scope)
    (clean : quiet → head.errors args clause scope = []) :
    (k.head head).errors (args.map (Expr.recast k)) (clause.map k.clause) scope =
      (head.errors args clause scope).map error := by
  rw [← keeps.errors args clause scope h clean]
  apply errors_congr (List.length_map _)
  · simp only [labelArgument?_recast, Option.map_map, Function.comp_def, Expr.asName?_recast]
  · simp only [labelArgument?_recast, Option.map_map, Function.comp_def, Expr.span_recast]

theorem StateHead.label_recast (head : StateHead) (args : List Expr) (scope : Scope) :
    (k.head head).label (args.map (Expr.recast k)) scope = head.label args scope := by
  have same : (k.head head).labelArgument? args = head.labelArgument? args := by
    unfold labelArgument?
    simp only [Recast.head, keeps.isEntry]
  rw [label, label, labelArgument?_recast, same]
  cases head.labelArgument? args with
  | none => rfl
  | some e =>
    simp only [Option.map_some, Option.bind_some, Scope.label?, Expr.asName?_recast]

theorem Setting.earlier_recast (p : Setting) (head : StateHead) (args : List Expr) :
    (p.recast k).earlier (k.head head) (args.map (Expr.recast k)) =
      (p.earlier head args).recast k := by
  simp only [earlier, recast, Context.recast, StateHead.label_recast keeps,
    Scope.asOf_recast keeps]

end

namespace Check

variable {rules : Rules} {registry' : Registry}

/-! ### Expressions -/

/-- The rules with another registry. -/
abbrev withRegistry (rules : Rules) (registry : Registry) : Rules := { rules with registry }

/-- A registry has no part in the parameters of a method. -/
theorem paramErrors_withRegistry (q : Point) (ps : List Param) :
    q.paramErrors (withRegistry rules registry') ps = q.paramErrors rules ps := by
  induction ps generalizing q with
  | nil => rfl
  | cons p ps ih => exact congrArg (q.duplicates p.name ++ ·) (ih _)

def Found.recast (k : Recast) (error : TypeError → TypeError) (f : Found) : Found :=
  ⟨f.type, f.expr.recast k, f.errors.map error⟩

section

variable (keeps : k.Keeps quiet error rules.registry registry')

include keeps

/-- A small check that does not look at the context comes out as before. -/
theorem small_recast {α : Type} {m : Check α} (contextless : Contextless m) {c : Context}
    (host : Host (wrong m c)) :
    given m (c.recast k) = given m c ∧ wrong m (c.recast k) = (wrong m c).map error := by
  rw [keeps.map_host host]
  exact ⟨contextless.given_eq _ _, contextless.wrong_eq _ _⟩

/-- The kind of the clause, at which `\result` looks, is the same. -/
theorem result_recast (env : Env) (span : Span) (c : Context) :
    given (resultType env span) (c.recast k) = given (resultType env span) c ∧
      wrong (resultType env span) (c.recast k) = (wrong (resultType env span) c).map error := by
  rw [keeps.map_host (outcome_result env span c).host]
  exact result_congr env span rfl (keeps.map_kind c.clause)

omit keeps in
theorem fieldType_recast (registry' : Registry) (owner : Ty) (n : Name) :
    fieldType (withRegistry rules registry') owner n = fieldType rules owner n := rfl

omit keeps in
theorem signature_recast (registry' : Registry) (owner : Ty) (method : Name) (es : List Expr)
    (span : Span) :
    callSignature (withRegistry rules registry') owner method (es.map (Expr.recast k)) span =
      callSignature rules owner method es span := by
  simp only [callSignature, List.length_map]
  rfl

/-- The three parts of the mutual recursion, in its own cases. -/
theorem found_recast_all :
    (∀ scope e, ∀ c, e.Own rules.registry → (quiet → (found rules ⟨scope, c⟩ e).errors = []) →
      found (withRegistry rules registry') ⟨scope, c.recast k⟩ (e.recast k) =
        (found rules ⟨scope, c⟩ e).recast k error) ∧
    (∀ scope typeArgs es, ∀ c, Expr.Own.listOwn rules.registry es →
      (quiet → (foundPayload rules ⟨scope, c⟩ typeArgs es).2.2 = []) →
      foundPayload (withRegistry rules registry') ⟨scope, c.recast k⟩ typeArgs
          (es.map (Expr.recast k)) =
        let payload := foundPayload rules ⟨scope, c⟩ typeArgs es
        (payload.1, payload.2.1.map (Expr.recast k), payload.2.2.map error)) ∧
    ∀ scope params es, ∀ c, Expr.Own.listOwn rules.registry es →
      (quiet → (foundArgs rules ⟨scope, c⟩ params es).2 = []) →
      foundArgs (withRegistry rules registry') ⟨scope, c.recast k⟩ params (es.map (Expr.recast k)) =
        let args := foundArgs rules ⟨scope, c⟩ params es
        (args.1.map (Expr.recast k), args.2.map error) := by
  apply infer.mutual_induct _ _ _ ?name ?int ?bool ?result ?binary ?unary ?field ?ownCall
    ?fieldCall ?otherCall ?state ?missing ?noPayload ?payload ?noArgs ?args
  case name =>
    intro scope n c own clean
    have host : Host (symbolErrors rules scope.env n) := (outcome_symbol rules scope.env n).host
    show found _ _ (.name n) = _
    rw [found_name, found_name, Found.recast, keeps.map_host host]
    rfl
  case int =>
    intro scope value span c own clean
    show found _ _ (.int value span) = _
    rw [found_int, found_int]
    rfl
  case bool =>
    intro scope value span c own clean
    show found _ _ (.bool value span) = _
    rw [found_bool, found_bool]
    rfl
  case result =>
    intro scope span c own clean
    obtain ⟨type, errors⟩ := result_recast keeps scope.env span c
    show found _ _ (.result span) = _
    rw [found_result, found_result, type, errors]
    rfl
  case binary =>
    intro scope op l r span left right c own clean
    rw [found_binary] at clean ⊢
    simp only [List.append_eq_nil_iff] at clean
    have host := (outcome_binary op (found rules ⟨scope, c⟩ l).type
      (found rules ⟨scope, c⟩ r).type span c).host
    obtain ⟨type, errors⟩ := small_recast keeps (contextless_binary op _ _ span) host
    rw [Expr.recast_binary, found_binary, left c own.1 fun h => (clean h).1,
      right c own.2 fun h => (clean h).2.1]
    simp only [Found.recast, type, errors, List.map_append, Expr.recast_binary]
  case unary =>
    intro scope op e span operand c own clean
    rw [found_unary] at clean ⊢
    simp only [List.append_eq_nil_iff] at clean
    obtain ⟨type, errors⟩ := small_recast keeps (contextless_unary op _ span)
      (outcome_unary op (found rules ⟨scope, c⟩ e).type span c).host
    rw [Expr.recast_unary, found_unary, operand c own fun h => (clean h).1]
    simp only [Found.recast, type, errors, List.map_append, Expr.recast_unary]
  case field =>
    intro scope e n span base c own clean
    rw [found_field] at clean ⊢
    simp only [List.append_eq_nil_iff] at clean
    obtain ⟨type, errors⟩ := small_recast keeps (contextless_field rules _ n)
      (outcome_field rules (found rules ⟨scope, c⟩ e).type n c).host
    rw [Expr.recast_field, found_field, base c own fun h => (clean h).1]
    simp only [Found.recast, fieldType_recast, type, errors, List.map_append, Expr.recast_field]
  case ownCall =>
    intro scope method es span args c own clean
    rw [found_ownCall] at clean ⊢
    simp only [List.append_eq_nil_iff] at clean
    obtain ⟨signature, errors⟩ := small_recast keeps (contextless_signature rules _ method es span)
      (outcome_signature rules (.named scope.env.className) method es span c).host
    rw [Expr.recast_call, Expr.recast_name, found_ownCall]
    simp only [signature_recast, signature, errors]
    rw [args _ c own.2 fun h => (clean h).2]
    simp only [Found.recast, List.map_append, Expr.recast_call, Expr.recast_name]
  case fieldCall =>
    intro scope base method calleeSpan es span first args c own clean
    rw [found_fieldCall] at clean ⊢
    simp only [List.append_eq_nil_iff] at clean
    obtain ⟨signature, errors⟩ := small_recast keeps (contextless_signature rules _ method es span)
      (outcome_signature rules (found rules ⟨scope, c⟩ base).type method es span c).host
    rw [Expr.recast_call, Expr.recast_field, found_fieldCall,
      first c own.1 fun h => (clean h).1]
    simp only [Found.recast, signature_recast, signature, errors]
    rw [args _ c own.2 fun h => (clean h).2.2]
    simp only [List.map_append, Expr.recast_call, Expr.recast_field]
  case otherCall =>
    intro scope callee es span notName notField hcallee hargs c own clean
    have notName' : ∀ n, callee.recast k = .name n → False := fun n h =>
      notName n (Expr.eq_name_of_recast k h)
    have notField' : ∀ base n s, callee.recast k = .field base n s → False := by
      intro base n s h
      obtain ⟨base', same⟩ := Expr.exists_field_of_recast k h
      exact notField base' n s same
    rw [found_otherCall notName notField] at clean ⊢
    simp only [List.append_eq_nil_iff] at clean
    have host := host_callable (found rules ⟨scope, c⟩ callee).type span
    rw [Expr.recast_call, found_otherCall notName' notField',
      hcallee c own.1 fun h => (clean h).1, hargs c own.2 fun h => (clean h).2.1]
    simp only [Found.recast, List.map_append, keeps.map_host host, Expr.recast_call]
  case state =>
    intro scope head es recorded payload c own clean
    obtain ⟨registered, own⟩ := own
    rw [found_state registered] at clean ⊢
    simp only [List.append_eq_nil_iff] at clean
    have errors : Setting.stateErrors ⟨scope, c.recast k⟩ (k.head head) (es.map (Expr.recast k)) =
        (Setting.stateErrors ⟨scope, c⟩ head es).map error :=
      StateHead.errors_recast keeps registered es c.clause scope fun h => (clean h).1
    have earlier := Setting.earlier_recast keeps ⟨scope, c⟩ head es
    rw [Setting.recast] at earlier
    rw [Expr.recast_state, found_state (keeps.state registered)]
    simp only [errors, earlier, List.map_eq_nil_iff]
    by_cases right : Setting.stateErrors ⟨scope, c⟩ head es = []
    · simp only [right, if_true] at clean ⊢
      have read := payload (Setting.earlier ⟨scope, c⟩ head es).scope
        (Setting.earlier ⟨scope, c⟩ head es).context own fun h => (clean h).2
      have types : (k.head head).typeArgs = head.typeArgs := rfl
      rw [types, Setting.recast, read]
      simp only [Found.recast, Expr.recast_state, List.map_append, List.map_nil]
    · simp only [if_neg right, Found.recast, Expr.recast_state, List.map_append, List.map_nil]
  case missing =>
    intro scope span c own clean
    show found _ _ (.missing span) = _
    rw [found_missing, found_missing]
    rfl
  case noPayload =>
    intro scope typeArgs c own clean
    rfl
  case payload =>
    intro scope typeArgs e es first c own clean
    have clean : quiet → (found rules ⟨scope, c⟩ e).errors = [] := fun h =>
      (List.append_eq_nil_iff.1 (clean h)).1
    have host := host_types rules typeArgs
    rw [List.map_cons, foundPayload, foundPayload, first c own.1 clean]
    simp only [Found.recast, List.map_cons, List.map_append, keeps.map_host host]
    rfl
  case noArgs =>
    intro scope params c own clean
    rw [List.map_nil, foundArgs_nil, foundArgs_nil]
    rfl
  case args =>
    intro scope params e es first others c own clean
    rw [foundArgs_cons] at clean ⊢
    simp only [List.append_eq_nil_iff] at clean
    have host := host_mismatch params.head? (found rules ⟨scope, c⟩ e).type e.span
    rw [List.map_cons, foundArgs_cons, first c own.1 fun h => (clean h).1,
      others c own.2 fun h => (clean h).2.2]
    simp only [Found.recast, Expr.span_recast, List.map_cons, List.map_append,
      keeps.map_host host]

theorem found_recast (p : Setting) {e : Expr} (own : e.Own rules.registry)
    (clean : quiet → (found rules p e).errors = []) :
    found (withRegistry rules registry') (p.recast k) (e.recast k) =
      (found rules p e).recast k error :=
  (found_recast_all keeps).1 p.scope e p.context own clean

/-! ### Expressions in their places -/

theorem errorsAs_recast (p : Setting) (expected : Option Ty) {e : Expr} (own : e.Own rules.registry)
    (clean : quiet → errorsAs rules p expected e = []) :
    found (withRegistry rules registry') (p.recast k) (e.recast k) =
        (found rules p e).recast k error ∧
      errorsAs (withRegistry rules registry') (p.recast k) expected (e.recast k) =
        (errorsAs rules p expected e).map error := by
  simp only [errorsAs, List.append_eq_nil_iff] at clean
  have same := found_recast keeps p own fun h => (clean h).1
  have host := host_mismatch expected (found rules p e).type e.span
  refine ⟨same, ?_⟩
  simp only [errorsAs, same, Found.recast, Expr.span_recast, List.map_append, keeps.map_host host]

theorem init_recast (p : Setting) (expected : Ty) {init : Option Expr}
    (own : ∀ e ∈ init, e.Own rules.registry)
    (clean : quiet → initErrors rules p expected init = []) :
    ((init.map (Expr.recast k)).map fun e =>
        (found (withRegistry rules registry') (p.recast k) e).expr) =
      (init.map fun e => (found rules p e).expr).map (Expr.recast k) ∧
      initErrors (withRegistry rules registry') (p.recast k) expected (init.map (Expr.recast k)) =
        (initErrors rules p expected init).map error := by
  cases init with
  | none => exact ⟨rfl, rfl⟩
  | some e =>
    obtain ⟨same, errors⟩ := errorsAs_recast keeps p (some expected) (own e rfl) clean
    exact ⟨congrArg (fun f : Found => some f.expr) same, errors⟩

theorem clause_recast (p : Setting) (d : Descriptor) {e : Expr} (own : e.Own rules.registry)
    (clean : quiet → clauseErrors rules p d e = []) :
    found (withRegistry rules registry') ((p.recast k).inside (some (k.clause d))) (e.recast k) =
        (found rules (p.inside (some d)) e).recast k error ∧
      clauseErrors (withRegistry rules registry') (p.recast k) (k.clause d) (e.recast k) =
        (clauseErrors rules p d e).map error :=
  errorsAs_recast keeps (p.inside (some d)) (clauseType rules) own clean

theorem leave_recast (p : Setting) {value : Option Expr} (span : Span)
    (own : ∀ e ∈ value, e.Own rules.registry)
    (clean : quiet → leaveErrors rules p value span = []) :
    ((value.map (Expr.recast k)).map fun e =>
        (found (withRegistry rules registry') (p.recast k) e).expr) =
      (value.map fun e => (found rules p e).expr).map (Expr.recast k) ∧
      leaveErrors (withRegistry rules registry') (p.recast k) (value.map (Expr.recast k)) span =
        (leaveErrors rules p value span).map error := by
  cases value with
  | none =>
    refine ⟨rfl, (keeps.map_host ?_).symm⟩
    exact .ite (fun _ => .one span rfl) fun _ => .nil
  | some e =>
    have read (rules : Rules) (p : Setting) (e : Expr) : leaveErrors rules p (some e) span =
        if (p.scope.env.returnType.getD .void).isVoid then
          (found rules p e).errors ++ [⟨.valueInVoid, e.span⟩]
        else errorsAs rules p (some (p.scope.env.returnType.getD .void)) e := rfl
    have scope : (p.recast k).scope = p.scope := rfl
    rw [read] at clean
    rw [Option.map_some, Option.map_some, Option.map_some, Option.map_some, read, read, scope]
    split at clean
    · next void =>
      simp only [List.append_eq_nil_iff] at clean
      have same := found_recast keeps p (own e rfl) fun h => (clean h).1
      have host : Host [⟨.valueInVoid, e.span⟩] := .one e.span rfl
      rw [if_pos void, if_pos void, same, Expr.span_recast, List.map_append, keeps.map_host host]
      exact ⟨rfl, rfl⟩
    · next value =>
      obtain ⟨same, errors⟩ := errorsAs_recast keeps p _ (own e rfl) clean
      rw [if_neg value, if_neg value, same]
      exact ⟨rfl, errors⟩

theorem variable_recast (q : Point) (c : Context) {v : Variable} (own : v.Own rules.registry)
    (clean : quiet → variableErrors rules q c v = []) :
    readVariable (withRegistry rules registry') (q.setting (c.recast k)) (v.recast k) =
        (readVariable rules (q.setting c) v).recast k ∧
      variableErrors (withRegistry rules registry') q (c.recast k) (v.recast k) =
        (variableErrors rules q c v).map error := by
  simp only [variableErrors, List.append_eq_nil_iff] at clean
  obtain ⟨init, errors⟩ := init_recast keeps (q.setting c) (declaredType rules v.type) own
    fun h => (clean h).2.1
  have type : Host (typeErrors rules v.type) := (outcome_type rules v.type).host
  have name : Host (q.duplicates v.name) := .ite (fun _ => .one _ rfl) fun _ => .nil
  refine ⟨congrArg (fun init => { v with init }) init, ?_⟩
  rw [variableErrors, variableErrors, List.map_append, List.map_append, ← errors,
    keeps.map_host type, keeps.map_host name]
  rfl

end

/-! ### Statements -/

def Passed.recast (k : Recast) (error : TypeError → TypeError) (r : Passed) : Passed :=
  ⟨r.statement.recast k, r.errors.map error, r.behind⟩

def PassedAll.recast (k : Recast) (error : TypeError → TypeError) (r : PassedAll) : PassedAll :=
  ⟨r.statements.map (·.recast k), r.errors.map error, r.names⟩

variable {c : Context}

mutual

theorem passed_recast (keeps : k.Keeps quiet error rules.registry registry') (q : Point) :
    ∀ s : Statement, s.Own rules.registry → (quiet → (passed rules c q s).errors = []) →
      passed (withRegistry rules registry') (c.recast k) q (s.recast k) =
        (passed rules c q s).recast k error
  | .declare v, own, clean => by
    rw [passed_declare] at clean ⊢
    obtain ⟨read, errors⟩ := variable_recast keeps q c own clean
    rw [Statement.recast, passed_declare, read, errors]
    rfl
  | .ghost d v, own, clean => by
    rw [passed_ghost own.1] at clean ⊢
    obtain ⟨read, errors⟩ := variable_recast keeps q (Local.inside (some d) c) own.2 clean
    rw [Statement.recast, passed_ghost (keeps.clause own.1)]
    exact congrArg₂ (fun v' es => Passed.mk (.ghost (k.clause d) v') es (q.behind rules v)) read
      errors
  | .assign target e span, own, clean => by
    rw [passed_assign] at clean ⊢
    simp only [List.append_eq_nil_iff] at clean
    obtain ⟨same, errors⟩ := errorsAs_recast keeps (q.setting c)
      (some ((q.scope.env.typeOf? rules.classes target.text).getD .error)) own
      fun h => (clean h).2
    have host : Host (symbolErrors rules q.scope.env target) := (outcome_symbol rules _ target).host
    rw [Statement.recast, passed_assign]
    refine congrArg₂ (fun e' es => Passed.mk (.assign target e' span) es q)
      (congrArg Found.expr same) ?_
    rw [List.map_append, ← errors, keeps.map_host host]
    rfl
  | .labeled label s span, own, clean => by
    rw [passed_labeled] at clean ⊢
    simp only [List.append_eq_nil_iff] at clean
    have body := passed_recast keeps (q.label label) s own fun h => (clean h).2
    have host : Host (q.labelErrors label) := .ite (fun _ => .one _ rfl) fun _ => .nil
    rw [Statement.recast, passed_labeled, body]
    simp only [Passed.recast, List.map_append, keeps.map_host host, Statement.recast]
  | .clause ⟨d, e, span⟩, own, clean => by
    rw [passed_clause own.descriptor] at clean ⊢
    obtain ⟨same, errors⟩ := clause_recast keeps (q.setting c) d own.expr clean
    rw [Statement.recast, SpecClause.recast, passed_clause (keeps.clause own.descriptor)]
    exact congrArg₂ (fun e' es => Passed.mk (.clause ⟨k.clause d, e', span⟩) es q)
      (congrArg Found.expr same) errors
  | .leave value span, own, clean => by
    rw [passed_leave] at clean ⊢
    obtain ⟨read, errors⟩ := leave_recast keeps (q.setting c) span own clean
    rw [Statement.recast, passed_leave]
    exact congrArg₂ (fun value es => Passed.mk (.leave value span) es q) read errors
  | .expr e, own, clean => by
    rw [passed_expr] at clean ⊢
    have same := found_recast keeps (q.setting c) own clean
    rw [Statement.recast, passed_expr]
    exact congrArg (fun f => Passed.mk (.expr f.expr) f.errors q) same
  | .block ss span, own, clean => by
    rw [passed_block] at clean ⊢
    have inner := passedAll_recast keeps q ss own clean
    rw [Statement.recast_block, passed_block, inner]
    simp only [Passed.recast, PassedAll.recast, Statement.recast_block]
  | .missing span, own, clean => by
    rw [passed_missing, Statement.recast, passed_missing]
    rfl

theorem passedAll_recast (keeps : k.Keeps quiet error rules.registry registry') (q : Point) :
    ∀ ss : List Statement, Statement.Own.listOwn rules.registry ss →
    (quiet → (passedAll rules c q ss).errors = []) →
      passedAll (withRegistry rules registry') (c.recast k) q (ss.map (Statement.recast k)) =
        (passedAll rules c q ss).recast k error
  | [], own, clean => by
    rw [List.map_nil, passedAll_nil, passedAll_nil]
    rfl
  | s :: ss, own, clean => by
    rw [passedAll_cons] at clean ⊢
    simp only [List.append_eq_nil_iff] at clean
    have first := passed_recast keeps q s own.1 fun h => (clean h).1
    have others := passedAll_recast keeps (passed rules c q s).behind ss own.2 fun h => (clean h).2
    rw [List.map_cons, passedAll_cons, first]
    simp only [Passed.recast, others, PassedAll.recast, List.map_append, List.map_cons]

end

/-! ### Members and units -/

/-- What is read item by item. -/
theorem all_recast {ι : Type} {cast read read' : ι → ι} {errors errors' : ι → List TypeError}
    {is : List ι}
    (h : ∀ i ∈ is, (quiet → errors i = []) →
      read' (cast i) = cast (read i) ∧ errors' (cast i) = (errors i).map error)
    (clean : quiet → is.flatMap errors = []) :
    (is.map cast).map read' = (is.map read).map cast ∧
      (is.map cast).flatMap errors' = (is.flatMap errors).map error := by
  induction is with
  | nil => exact ⟨rfl, rfl⟩
  | cons i is ih =>
    simp only [List.flatMap_cons, List.append_eq_nil_iff] at clean
    rw [List.forall_mem_cons] at h
    obtain ⟨first, found⟩ := h.1 fun q => (clean q).1
    obtain ⟨others, rest⟩ := ih h.2 fun q => (clean q).2
    simp only [List.map_cons, List.flatMap_cons, List.map_append, first, found, others, rest,
      and_self]

section

variable (keeps : k.Keeps quiet error rules.registry registry')

include keeps

theorem clauses_recast (p : Setting) {ss : List SpecClause} (own : ∀ s ∈ ss, s.Own rules.registry)
    (clean : quiet → (ss.flatMap fun s => clauseErrors rules p s.descriptor s.expr) = []) :
    (ss.map (SpecClause.recast k)).map (readClause (withRegistry rules registry') (p.recast k)) =
        (ss.map (readClause rules p)).map (SpecClause.recast k) ∧
      ((ss.map (SpecClause.recast k)).flatMap fun s =>
        clauseErrors (withRegistry rules registry') (p.recast k) s.descriptor s.expr) =
        (ss.flatMap fun s => clauseErrors rules p s.descriptor s.expr).map error := by
  refine all_recast (fun s hs clean => ?_) clean
  obtain ⟨same, errors⟩ := clause_recast keeps p s.descriptor (own s hs).expr clean
  exact ⟨congrArg (fun f : Found => SpecClause.mk (k.clause s.descriptor) f.expr s.span) same,
    errors⟩

theorem cases_recast (p : Setting) {cases : List SpecCase}
    (own : ∀ c ∈ cases, ∀ s ∈ c.clauses, s.Own rules.registry)
    (clean : quiet →
      (cases.flatMap fun c => c.clauses.flatMap fun s => clauseErrors rules p s.descriptor s.expr) =
        []) :
    ((cases.map (SpecCase.recast k)).map fun c => { c with
        clauses := c.clauses.map (readClause (withRegistry rules registry') (p.recast k)) }) =
        (cases.map fun c => { c with clauses := c.clauses.map (readClause rules p) }).map
          (SpecCase.recast k) ∧
      ((cases.map (SpecCase.recast k)).flatMap fun c => c.clauses.flatMap fun s =>
        clauseErrors (withRegistry rules registry') (p.recast k) s.descriptor s.expr) =
        (cases.flatMap fun c => c.clauses.flatMap fun s =>
          clauseErrors rules p s.descriptor s.expr).map error := by
  refine all_recast (fun c hc clean => ?_) clean
  obtain ⟨read, errors⟩ := clauses_recast keeps p (own c hc) clean
  exact ⟨congrArg (fun clauses => SpecCase.mk clauses c.span) read, errors⟩

theorem member_recast (c : Context) (className : String) {m : Member} (own : m.Own rules.registry)
    (clean : quiet → foundIn rules c className m = []) :
    checkedMember (withRegistry rules registry') (c.recast k) className (m.recast k) =
        (checkedMember rules c className m).recast k ∧
      foundIn (withRegistry rules registry') (c.recast k) className (m.recast k) =
        (foundIn rules c className m).map error := by
  cases m with
  | field f =>
    have ghost : ∀ d ∈ (f.recast k).ghost, (withRegistry rules registry').registry.Holds d := by
      simp only [Field.recast, Option.mem_def, Option.map_eq_some_iff]
      rintro _ ⟨d, hd, rfl⟩
      exact keeps.clause (own.ghost d hd)
    obtain ⟨member, found⟩ := member_field own.ghost className c
    obtain ⟨member', found'⟩ := member_field ghost className (c.recast k)
    rw [found] at clean
    obtain ⟨read, errors⟩ := init_recast keeps ((outside className c).inside f.ghost)
      (declaredType rules f.type) own.init clean
    rw [Setting.inside_recast] at read errors
    rw [member, found]
    refine ⟨member'.trans ?_, found'.trans errors⟩
    exact congrArg (fun init => Member.field { f with init, ghost := f.ghost.map k.clause }) read
  | clause t =>
    have descriptor : (withRegistry rules registry').registry.Holds (t.recast k).descriptor :=
      keeps.clause own.descriptor
    obtain ⟨member, found⟩ := member_clause own.descriptor className c
    obtain ⟨member', found'⟩ := member_clause descriptor className (c.recast k)
    simp only [found, List.append_eq_nil_iff] at clean
    obtain ⟨same, errors⟩ := clause_recast keeps (outside className c) t.descriptor own.expr
      fun h => (clean h).1
    have host := host_unknownMethods rules className t.frame
    rw [member, found, List.map_append, ← errors, keeps.map_host host]
    refine ⟨member'.trans ?_, found'⟩
    exact congrArg (fun f : Found =>
      Member.clause { t with descriptor := k.clause t.descriptor, expr := f.expr }) same
  | method m =>
    let p := (m.entry rules className).setting c
    have descriptors := fun sc hsc s hs => (own.cases sc hsc s hs).descriptor
    have descriptors' : ∀ sc ∈ (m.recast k).cases, ∀ s ∈ sc.clauses,
        (withRegistry rules registry').registry.Holds s.descriptor := by
      simp only [Method.recast, SpecCase.recast, List.forall_mem_map]
      exact fun sc hsc s hs => keeps.clause (descriptors sc hsc s hs)
    obtain ⟨member, found⟩ := member_method descriptors className c
    obtain ⟨member', found'⟩ := member_method descriptors' className (c.recast k)
    simp only [found, List.append_eq_nil_iff] at clean
    obtain ⟨read, errors⟩ := cases_recast keeps p own.cases fun h => (clean h).2.1
    have body := passedAll_recast (c := c) keeps (m.entry rules className) m.body.statements
      own.body fun h => (clean h).2.2
    have params : Host ((m.start rules className).paramErrors rules m.params) := host_params _ _
    rw [member, found, List.map_append, List.map_append, keeps.map_host params, ← errors,
      ← paramErrors_withRegistry]
    refine ⟨member'.trans ?_, found'.trans ?_⟩
    · exact congrArg₂ (fun cases statements =>
        Member.method { m with cases, body := { m.body with statements } }) read
        (congrArg PassedAll.statements body)
    · exact congrArg (fun r : PassedAll => _ ++ (_ ++ r.errors)) body

end

theorem declarationErrors_recast (k : Recast) (registry registry' : Registry)
    (booleanClauses : Bool) (u : CompilationUnit) :
    (Checker.new registry' booleanClauses).declarationErrors (u.recast k) =
      (Checker.new registry booleanClauses).declarationErrors u :=
  (collected_congr (u.declared_recast k)).2

theorem unitRules_recast (k : Recast) (registry registry' : Registry) (booleanClauses : Bool)
    (u : CompilationUnit) :
    unitRules registry' booleanClauses (u.recast k) =
      withRegistry (unitRules registry booleanClauses u) registry' := by
  rw [unitRules, checkedRules, (collected_congr (u.declared_recast k)).1]
  rfl

/-- A unit is checked with a change as it is without: the same types are recorded, and what is
wrong goes along with the change. -/
theorem checkUnit_recast {registry registry' : Registry}
    (keeps : k.Keeps quiet error registry registry') {booleanClauses : Bool} {u : CompilationUnit}
    {errors : List TypeError} (own : u.Own registry) (own' : (u.recast k).Own registry')
    (checked : checkUnit registry booleanClauses u = .ok errors) (clean : quiet → errors = []) :
    checkUnit registry' booleanClauses (u.recast k) = .ok (errors.map error) ∧
      ((Checker.new registry' booleanClauses).check (u.recast k)).unit.stateTypes =
        ((Checker.new registry booleanClauses).check u).unit.stateTypes := by
  let rules := unitRules registry booleanClauses u
  obtain ⟨result, unit⟩ := checkUnit_own own booleanClauses
  obtain ⟨result', unit'⟩ := checkUnit_own own' booleanClauses
  obtain rfl := Except.ok.inj (result.symm.trans checked)
  simp only [List.append_eq_nil_iff] at clean
  have classes (c : Class) (hc : c ∈ u.classes)
      (clean : quiet → c.gather (foundIn rules {}) = []) :
      (c.recast k).mapMembers (checkedMember (withRegistry rules registry') {}) =
          (c.mapMembers (checkedMember rules {})).recast k ∧
        (c.recast k).gather (foundIn (withRegistry rules registry') {}) =
          (c.gather (foundIn rules {})).map error := by
    have members (m : Member) (hm : m ∈ c.members) :
        (quiet → foundIn rules {} c.name.text m = []) →
          checkedMember (withRegistry rules registry') {} c.name.text (m.recast k) =
              (checkedMember rules {} c.name.text m).recast k ∧
            foundIn (withRegistry rules registry') {} c.name.text (m.recast k) =
              (foundIn rules {} c.name.text m).map error :=
      member_recast keeps {} c.name.text (own c hc m hm)
    obtain ⟨read, found⟩ := all_recast members clean
    exact ⟨congrArg (fun members => Class.mk c.name members c.span) read, found⟩
  obtain ⟨read, found⟩ := all_recast classes fun h => (clean h).2
  rw [result', unit', unit, declarationErrors_recast k registry registry',
    unitRules_recast k registry registry', List.map_append,
    keeps.map_host (host_declarations _ _)]
  constructor
  · exact congrArg (fun es => Except.ok (_ ++ es)) found
  · rw [← CompilationUnit.stateTypes_recast k (u.mapMembers _)]
    exact congrArg (fun classes => (CompilationUnit.mk classes).stateTypes) read

end Check

end Contracts
