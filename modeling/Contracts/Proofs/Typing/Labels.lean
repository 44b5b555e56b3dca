import Contracts.Proofs.Typing.Faultless
import Contracts.Proofs.Typing.Outcomes
import Contracts.Proofs.Typing.Points

/-! Errors about labels. The second argument of a reference to a labelled state is never read as
an expression: it is a label in force, or an error says that it is none. No other expression
is blamed for not being a label (`label_errors`). A placeholder in this place is no label, so it is
reported although the syntax error that left it has been (`placeholder_blamed`). -/

namespace Contracts

/-! ### Labels in trees -/

namespace Expr

/-- The error of an expression that is not a label. -/
def notALabel (e : Expr) : TypeError :=
  ⟨.notALabel ((e.asName?.map (·.text)).getD "expression"), e.span⟩

/-- The expressions that stand where labels are asked for, that of a reference before those in
its arguments. -/
def labelArguments : Expr → List Expr
  | binary _ left right _ => left.labelArguments ++ right.labelArguments
  | unary _ operand _ => operand.labelArguments
  | field base _ _ => base.labelArguments
  | call callee args _ => callee.labelArguments ++ listArguments args
  | state head args _ => (head.labelArgument? args).toList ++ listArguments args
  | _ => []
where
  listArguments : List Expr → List Expr
    | [] => []
    | e :: es => e.labelArguments ++ listArguments es

/-- The span of a placeholder. -/
def blank? : Expr → Option Span
  | missing span => some span
  | _ => none

end Expr

def Variable.labelArguments (v : Variable) : List Expr := (v.init.map Expr.labelArguments).getD []

def Statement.labelArguments : Statement → List Expr
  | declare decl => decl.labelArguments
  | ghost _ decl => decl.labelArguments
  | assign _ value _ => value.labelArguments
  | labeled _ body _ => body.labelArguments
  | clause c => c.expr.labelArguments
  | leave value _ => (value.map Expr.labelArguments).getD []
  | expr e => e.labelArguments
  | block statements _ => listArguments statements
  | missing _ => []
where
  listArguments : List Statement → List Expr
    | [] => []
    | s :: ss => s.labelArguments ++ listArguments ss

def Member.labelArguments : Member → List Expr
  | field f => (f.init.map Expr.labelArguments).getD []
  | clause c => c.expr.labelArguments
  | method m =>
    (m.cases.flatMap fun k => k.clauses.flatMap (·.expr.labelArguments)) ++
      Statement.labelArguments.listArguments m.body.statements

def CompilationUnit.labelArguments (u : CompilationUnit) : List Expr :=
  u.classes.flatMap fun c => c.members.flatMap (·.labelArguments)

namespace Check

variable {rules : Rules} {p : Setting}

/-! ### Errors of labels -/

/-- Those of the errors that are about labels. -/
def labelErrors (errors : List TypeError) : List TypeError :=
  errors.filter (·.category = .labelResolution)

/-- The errors about labels are errors of these expressions, in their order. -/
def Blames (errors : List TypeError) (es : List Expr) : Prop :=
  (labelErrors errors).Sublist (es.map Expr.notALabel)

namespace Blames

variable {errors errors' : List TypeError} {es fs : List Expr}

theorem nil (es : List Expr) : Blames [] es := List.nil_sublist _

theorem other (h : ∀ e ∈ errors, e.category ≠ .labelResolution) (es : List Expr) :
    Blames errors es := by
  have none : labelErrors errors = [] :=
    List.filter_eq_nil_iff.2 fun e he => by simpa using h e he
  rw [Blames, none]
  exact List.nil_sublist _

theorem host (h : Host errors) (es : List Expr) : Blames errors es :=
  other (fun e he => by rw [h e he]; nofun) es

theorem append (h : Blames errors es) (k : Blames errors' fs) :
    Blames (errors ++ errors') (es ++ fs) := by
  rw [Blames, labelErrors, List.filter_append, List.map_append]
  exact List.Sublist.append h k

/-- Errors of other sorts make no difference. -/
theorem append_host (h : Blames errors es) (k : Host errors') : Blames (errors ++ errors') es := by
  have both := h.append (.host k [])
  rwa [List.append_nil] at both

theorem host_append (h : Host errors') (k : Blames errors es) : Blames (errors' ++ errors) es :=
  (Blames.host h []).append k

theorem trans (h : Blames errors es) (k : es.Sublist fs) : Blames errors fs :=
  List.Sublist.trans h (k.map _)

theorem flatMap {ι : Type} {f : ι → List TypeError} {g : ι → List Expr} {is : List ι}
    (h : ∀ i ∈ is, Blames (f i) (g i)) : Blames (is.flatMap f) (is.flatMap g) := by
  induction is with
  | nil => exact .nil _
  | cons i is ih =>
    rw [List.forall_mem_cons] at h
    rw [List.flatMap_cons, List.flatMap_cons]
    exact h.1.append (ih h.2)

end Blames

/-- Of what is wrong with a reference itself, at most one error is about its label. -/
theorem blames_reference (head : StateHead) (es : List Expr) (clause : Option Descriptor)
    (scope : Scope) : Blames (head.errors es clause scope) (head.labelArgument? es).toList := by
  have arity : ∀ e ∈ (head.arityError? es).toList, e.category ≠ .labelResolution := by
    unfold StateHead.arityError?
    dsimp only
    split_ifs <;> simp [TypeError.category, TypeFault.category]
  have place : ∀ e ∈ (head.placeError? es clause scope.env.inMethod).toList,
      e.category ≠ .labelResolution := by
    unfold StateHead.placeError?
    dsimp only
    split_ifs <;> simp [TypeError.category, TypeFault.category]
  have label : Blames (head.labelError? es scope).toList (head.labelArgument? es).toList := by
    unfold StateHead.labelError?
    cases head.labelArgument? es with
    | none => exact .nil _
    | some e =>
      dsimp only
      cases scope.label? e with
      | some label => exact .nil _
      | none => exact List.Sublist.refl _
  exact ((Blames.other arity []).append (.other place [])).append label

theorem blames_errorsAs {e : Expr} {es : List Expr} (h : Blames (found rules p e).errors es)
    (expected : Option Ty) : Blames (errorsAs rules p expected e) es :=
  h.append_host (host_mismatch _ _ _)

/-! ### Expressions -/

theorem host_types (rules : Rules) (names : List Name) : Host (names.flatMap (typeErrors rules)) :=
  .flatMap fun n => (outcome_type rules n).host

/-- The three parts of the mutual recursion, in its own cases. -/
theorem blames_found_all (rules : Rules) :
    (∀ scope e, ∀ c, Blames (found rules ⟨scope, c⟩ e).errors e.labelArguments) ∧
      (∀ scope typeArgs es, ∀ c, Blames (foundPayload rules ⟨scope, c⟩ typeArgs es).2.2
        (Expr.labelArguments.listArguments es)) ∧
      ∀ scope params es, ∀ c, Blames (foundArgs rules ⟨scope, c⟩ params es).2
        (Expr.labelArguments.listArguments es) := by
  refine infer.mutual_induct _ _ _ ?name ?int ?bool ?result ?binary ?unary ?field ?ownCall
    ?fieldCall ?otherCall ?state ?missing ?noPayload ?payload ?noArgs ?args
  case name =>
    intro scope n c
    rw [found_name]
    exact .host (outcome_symbol rules scope.env n).host _
  case int =>
    intro scope value span c
    rw [found_int]
    exact .nil _
  case bool =>
    intro scope value span c
    rw [found_bool]
    exact .nil _
  case result =>
    intro scope span c
    rw [found_result]
    exact .host (outcome_result scope.env span c).host _
  case binary =>
    intro scope op l r span left right c
    rw [found_binary]
    exact (left c).append ((right c).append_host (outcome_binary op _ _ span c).host)
  case unary =>
    intro scope op e span operand c
    rw [found_unary]
    exact (operand c).append_host (outcome_unary op _ span c).host
  case field =>
    intro scope e n span base c
    rw [found_field]
    exact (base c).append_host (outcome_field rules _ n c).host
  case ownCall =>
    intro scope method es span args c
    rw [found_ownCall]
    exact .host_append (outcome_signature rules _ method es span c).host (args _ c)
  case fieldCall =>
    intro scope base method calleeSpan es span first args c
    rw [found_fieldCall]
    exact (first c).append
      (.host_append (outcome_signature rules _ method es span c).host (args _ c))
  case otherCall =>
    intro scope callee es span notName notField hcallee hargs c
    rw [found_otherCall notName notField]
    exact (hcallee c).append ((hargs c).append_host (host_callable _ span))
  case state =>
    intro scope head es recorded payload c
    by_cases registered : rules.registry.Holds head.descriptor
    · rw [found_state registered]
      refine (blames_reference head es c.clause scope).append ?_
      split
      · exact payload _ _
      · exact .nil _
    · rw [found_state_foreign registered]
      exact .nil _
  case missing =>
    intro scope span c
    rw [found_missing]
    exact .nil _
  case noPayload =>
    intro scope typeArgs c
    exact .nil _
  case payload =>
    intro scope typeArgs e es first c
    exact ((first c).append_host (host_types rules typeArgs)).trans (List.sublist_append_left _ _)
  case noArgs =>
    intro scope params c
    rw [foundArgs_nil]
    exact .nil _
  case args =>
    intro scope params e es first others c
    rw [foundArgs_cons]
    exact (first c).append (.host_append (host_mismatch _ _ _) (others c))

theorem blames_found (rules : Rules) (p : Setting) (e : Expr) :
    Blames (found rules p e).errors e.labelArguments :=
  (blames_found_all rules).1 p.scope e p.context

/-! ### Statements -/

section

variable {c : Context} {q : Point}

theorem blames_init (p : Setting) (expected : Ty) (init : Option Expr) :
    Blames (initErrors rules p expected init) ((init.map Expr.labelArguments).getD []) := by
  cases init with
  | none => exact .nil _
  | some e => exact blames_errorsAs (blames_found rules p e) _

theorem blames_clause (p : Setting) (d : Descriptor) (e : Expr) :
    Blames (clauseErrors rules p d e) e.labelArguments :=
  blames_errorsAs (blames_found rules _ e) _

theorem blames_variable (v : Variable) :
    Blames (variableErrors rules q c v) v.labelArguments :=
  .host_append (outcome_type rules v.type).host ((blames_init _ _ v.init).append_host
    (.ite (fun _ => .one _ rfl) fun _ => .nil))

theorem blames_leave (p : Setting) (value : Option Expr) (span : Span) :
    Blames (leaveErrors rules p value span) ((value.map Expr.labelArguments).getD []) := by
  unfold leaveErrors
  cases value with
  | none => exact .host (.ite (fun _ => .one _ rfl) fun _ => .nil) _
  | some e =>
    dsimp only
    split
    · exact (blames_found rules p e).append_host (.one _ rfl)
    · exact blames_errorsAs (blames_found rules p e) _

mutual

theorem blames_passed (q : Point) : ∀ s : Statement,
    Blames (passed rules c q s).errors s.labelArguments
  | .declare v => by
    rw [passed_declare]
    exact blames_variable v
  | .ghost d v => by
    by_cases h : rules.registry.Holds d
    · rw [passed_ghost h]
      exact blames_variable v
    · rw [passed_ghost_foreign h]
      exact .nil _
  | .assign target e span => by
    rw [passed_assign]
    exact .host_append (outcome_symbol rules _ target).host
      (blames_errorsAs (blames_found rules _ e) _)
  | .labeled label s span => by
    rw [passed_labeled]
    exact .host_append (.ite (fun _ => .one _ rfl) fun _ => .nil) (blames_passed (q.label label) s)
  | .clause k => by
    by_cases h : rules.registry.Holds k.descriptor
    · rw [passed_clause h]
      exact blames_clause _ _ _
    · rw [passed_clause_foreign h]
      exact .nil _
  | .leave value span => by
    rw [passed_leave]
    exact blames_leave _ value span
  | .expr e => by
    rw [passed_expr]
    exact blames_found rules _ e
  | .block ss span => by
    rw [passed_block]
    exact blames_passedAll q ss
  | .missing span => by
    rw [passed_missing]
    exact .nil _

theorem blames_passedAll (q : Point) : ∀ ss : List Statement,
    Blames (passedAll rules c q ss).errors (Statement.labelArguments.listArguments ss)
  | [] => by
    rw [passedAll_nil]
    exact .nil _
  | s :: ss => by
    rw [passedAll_cons]
    exact (blames_passed q s).append (blames_passedAll _ ss)

end

/-! ### Members and units -/

theorem host_params (q : Point) (ps : List Param) : Host (q.paramErrors rules ps) := by
  induction ps generalizing q with
  | nil => exact .nil
  | cons p ps ih => exact .append (.ite (fun _ => .one _ rfl) fun _ => .nil) (ih _)

theorem host_unknownMethods (rules : Rules) (className : String) (frame : Option Frame) :
    Host (unknownMethods rules className frame) := by
  unfold unknownMethods
  split
  · exact fun e he => by
      obtain ⟨n, -, rfl⟩ := List.mem_map.1 he
      rfl
  · exact .nil

theorem blames_member {m : Member} (own : m.Own rules.registry) (className : String) :
    Blames (foundIn rules c className m) m.labelArguments := by
  cases m with
  | field f =>
    rw [(member_field own.ghost className c).2]
    exact blames_init _ _ f.init
  | clause k =>
    rw [(member_clause own.descriptor className c).2]
    exact (blames_clause _ _ _).append_host (host_unknownMethods rules className k.frame)
  | method m =>
    have descriptors := fun k hk s hs => (own.cases k hk s hs).descriptor
    rw [(member_method descriptors className c).2]
    refine .host_append (host_params _ _) (.append ?_ (blames_passedAll _ _))
    exact .flatMap fun k _ => .flatMap fun s _ => blames_clause _ _ _

end

theorem host_errorsOf {ι : Type} {name : ι → Name} {found : ι → List TypeError}
    (h : ∀ i, Host (found i)) (known : String → Bool) (is : List ι) :
    Host (errorsOf name found known is) := by
  induction is generalizing known with
  | nil => exact .nil
  | cons i is ih => exact .append (h i) (.append (.ite (fun _ => .one _ rfl) fun _ => .nil) (ih _))

/-- What is wrong in declarations has nothing to do with earlier states. -/
theorem host_declarations (k : Checker) (u : CompilationUnit) : Host (k.declarationErrors u) := by
  refine .append (fun e he => ?_) (.flatMap fun c => .append ?_ ?_)
  · obtain ⟨c, -, rfl⟩ := List.mem_map.1 he
    rfl
  · exact host_errorsOf (fun f : Field => (outcome_type _ f.type).host) _ _
  · refine host_errorsOf (fun m : Method => ?_) _ _
    exact .append (host_types _ _) (outcome_type _ m.returnType).host

theorem blames_unit {registry : Registry} {u : CompilationUnit} (own : u.Own registry)
    (booleanClauses : Bool) :
    ∃ errors, checkUnit registry booleanClauses u = .ok errors ∧
      Blames errors u.labelArguments := by
  refine ⟨_, (checkUnit_own own booleanClauses).1, ?_⟩
  refine .host_append (host_declarations _ _) (.flatMap fun c hc => .flatMap fun m hm => ?_)
  exact blames_member (own c hc m hm) c.name.text

end Check

/-- Whatever is wrong in a source: what a report says about labels, it says about expressions that
stand where a reference asks for a label, about each of them once at most and in their order. -/
theorem label_errors (registry : Registry) (path source : String) (options : Options) :
    ∃ report, checkSource registry path source options = .ok report ∧
      (report.typeErrors.filter (·.category = .labelResolution)).Sublist
        ((parseUnit registry source).unit.labelArguments.map Expr.notALabel) := by
  have own := (registered_parseUnit registry source).own
  obtain ⟨errors, checked, blames⟩ := Check.blames_unit own options.booleanClauses
  refine ⟨_, checkSource_of_checkUnit path checked, ?_⟩
  exact ((Report.sublist_limit options.maxErrors _).filter _).trans blames

/-- A placeholder is no label: wherever a reference with one in the place of its label stands, an
error says so. -/
theorem placeholder_blamed {rules : Rules} {head : StateHead}
    (registered : rules.registry.Holds head.descriptor) (labeled : head.keyword.isEntry = false)
    (p : Setting) (e : Expr) (span : Span) (recorded : Option Ty) :
    ⟨.notALabel "expression", span⟩ ∈
      (Check.found rules p (.state head [e, .missing span] recorded)).errors := by
  have label : head.labelArgument? [e, .missing span] = some (.missing span) := by
    rw [StateHead.labelArgument?, if_neg (by simp [labeled])]
  have none : p.scope.label? (.missing span) = none := by
    rw [Scope.label?]
    split <;> rfl
  have wrong : head.labelError? [e, .missing span] p.scope =
      some ⟨.notALabel "expression", span⟩ := by
    simp only [StateHead.labelError?, label, none]
    rfl
  rw [Check.found_state registered]
  refine List.mem_append_left _ (List.mem_append_right _ ?_)
  rw [wrong]
  exact List.mem_singleton_self _

/-- A keyword without arguments is reported and leaves a placeholder. In the place of a label it is
reported once more. -/
theorem placeholder_blamed_again :
    let source := "class C \x7b int x; void m() \x7b assert \\old(x, \\old) == x; \x7d \x7d"
    let place : Span := ⟨43, 47⟩
    checkSource .standard "input.spec" source {} =
        .ok ⟨"input.spec", [⟨.argumentsRequired "\\old", place⟩],
          [⟨.notALabel "expression", place⟩], 0⟩ ∧
      (parseUnit .standard source).unit.labelArguments.map Expr.blank? = [some place] := by
  intro source place
  exact ⟨by decide +kernel, by decide +kernel⟩

end Contracts
