import Contracts.Proofs.Layout.Spans
import Contracts.Proofs.Typing.Through

/-! Checks under a change of spans. A check hands spans on to the errors that it reports and to
the labels that it sets, and never looks at one; of the registry it asks only whether the
descriptors of the tree are in it. So the check of a tree with other spans, under rules that
hold the same descriptors and more, is the same with other spans
(`Checker.check_mapSpans`), whatever the change of spans is. -/

namespace Contracts

/-- The second rules hold the descriptors that the first ones hold, and are otherwise the
same. -/
structure Rules.Widens (r r' : Rules) : Prop where
  holds : ∀ d, r.registry.Holds d → r'.registry.Holds d
  booleanClauses : r.booleanClauses = r'.booleanClauses
  classes : r.classes = r'.classes

theorem Rules.Widens.refl (r : Rules) : r.Widens r := ⟨fun _ h => h, rfl, rfl⟩

/-! ### States -/

def StateLabel.mapSpans (f : Span → Span) : StateLabel → StateLabel
  | entry => entry
  | named label => named (label.mapSpans f)

def Context.mapSpans (f : Span → Span) (c : Context) : Context :=
  { c with label := c.label.map (·.mapSpans f) }

namespace ContextStack

variable (f : Span → Span)

def mapSpans (s : ContextStack) : ContextStack :=
  { s with base := s.base.mapSpans f, frames := s.frames.map (·.mapSpans f) }

theorem current_mapSpans (s : ContextStack) : (s.mapSpans f).current = s.current.mapSpans f := by
  obtain ⟨base, frames, pushes, pops⟩ := s
  cases frames <;> rfl

theorem push_mapSpans (s : ContextStack) : (s.mapSpans f).push = s.push.mapSpans f := by
  rw [push, current_mapSpans]
  rfl

theorem enter_mapSpans (clause : Option Descriptor) (s : ContextStack) :
    (s.mapSpans f).enter clause = (s.enter clause).mapSpans f := by
  cases clause with
  | none => exact push_mapSpans f s
  | some d =>
    simp only [enter, push_mapSpans]
    rfl

theorem pop_mapSpans (s : ContextStack) : (s.mapSpans f).pop = s.pop.mapSpans f := by
  obtain ⟨base, frames, pushes, pops⟩ := s
  cases frames <;> rfl

theorem setLabel_mapSpans (label : StateLabel) (s : ContextStack) :
    (s.mapSpans f).setLabel (label.mapSpans f) = (s.setLabel label).mapSpans f := by
  obtain ⟨base, frames, pushes, pops⟩ := s
  cases frames <;> rfl

theorem depth_mapSpans (s : ContextStack) : (s.mapSpans f).depth = s.depth :=
  List.length_map _

end ContextStack

def CheckState.mapSpans (f : Span → Span) (s : CheckState) : CheckState :=
  { s with contexts := s.contexts.mapSpans f, errors := s.errors.map (·.mapSpans f) }

/-! ### References to earlier states -/

theorem Expr.asName?_mapSpans (f : Span → Span) (e : Expr) :
    (e.mapSpans f).asName? = e.asName?.map (·.mapSpans f) := by
  cases e <;> rfl

theorem Scope.label?_mapSpans (f : Span → Span) (scope : Scope) (e : Expr) :
    scope.label? (e.mapSpans f) = (scope.label? e).map (·.mapSpans f) := by
  unfold label?
  split
  · rw [Expr.asName?_mapSpans, Option.filter_map]
    rfl
  · rfl

theorem Scope.asOf_mapSpans (f : Span → Span) (scope : Scope) (clause : Option Descriptor)
    (label : StateLabel) : scope.asOf clause (label.mapSpans f) = scope.asOf clause label := by
  cases label <;> rfl

namespace StateHead

variable (f : Span → Span) (head : StateHead) (args : List Expr) (scope : Scope)

theorem arityError?_mapSpans : (head.mapSpans f).arityError? (args.map (·.mapSpans f)) =
    (head.arityError? args).map (·.mapSpans f) := by
  simp only [arityError?, mapSpans, List.length_map]
  split
  · rfl
  · split <;> rfl

theorem placeError?_mapSpans (clause : Option Descriptor) (inMethod : Bool) :
    (head.mapSpans f).placeError? (args.map (·.mapSpans f)) clause inMethod =
      (head.placeError? args clause inMethod).map (·.mapSpans f) := by
  have form : (head.mapSpans f).form (args.map (·.mapSpans f)) = head.form args := by
    rw [StateHead.form, List.length_map]
    rfl
  unfold placeError?
  rw [form]
  dsimp only
  split <;> rfl

theorem labelArgument?_mapSpans : (head.mapSpans f).labelArgument? (args.map (·.mapSpans f)) =
    (head.labelArgument? args).map (·.mapSpans f) := by
  unfold labelArgument?
  rcases args with _ | ⟨_, _ | ⟨_, _ | _⟩⟩
  · rfl
  · rfl
  · change (if head.keyword.isEntry then none else some _) = Option.map _ (ite _ _ _)
    split <;> rfl
  · rfl

theorem labelError?_mapSpans : (head.mapSpans f).labelError? (args.map (·.mapSpans f)) scope =
    (head.labelError? args scope).map (·.mapSpans f) := by
  unfold labelError?
  rw [labelArgument?_mapSpans]
  cases head.labelArgument? args with
  | none => rfl
  | some e =>
    simp only [Option.map_some, Scope.label?_mapSpans]
    cases scope.label? e with
    | some _ => rfl
    | none =>
      simp only [Option.map_none, Option.map_some, Expr.asName?_mapSpans, Expr.span_mapSpans,
        Option.map_map, TypeError.mapSpans]
      rfl

theorem errors_mapSpans (clause : Option Descriptor) :
    (head.mapSpans f).errors (args.map (·.mapSpans f)) clause scope =
      (head.errors args clause scope).map (·.mapSpans f) := by
  simp only [errors, arityError?_mapSpans, placeError?_mapSpans, labelError?_mapSpans,
    List.map_append, Option.toList_map]

theorem label_mapSpans : (head.mapSpans f).label (args.map (·.mapSpans f)) scope =
    (head.label args scope).mapSpans f := by
  unfold label
  rw [labelArgument?_mapSpans]
  cases head.labelArgument? args with
  | none => rfl
  | some e =>
    simp only [Option.map_some, Option.bind_some, Scope.label?_mapSpans]
    cases scope.label? e <;> rfl

end StateHead

namespace Check

variable {α β : Type} {f : Span → Span} {g : α → α} {h : β → β}

/-- From a state with other spans, the second check gives what the first one gives, with
other spans. -/
def Mirrors (f : Span → Span) (g : α → α) (p q : Check α) : Prop :=
  ∀ s, q.run (s.mapSpans f) = (g (p.run s).1, (p.run s).2.mapSpans f)

/-! ### Rules -/

namespace Mirrors

variable {p q : Check α}

theorem pure {a b : α} (hab : g a = b) : Mirrors f g (Pure.pure a) (Pure.pure b) := fun _ => by
  rw [← hab]
  rfl

theorem bind {k k' : α → Check β} (hp : Mirrors f g p q)
    (hk : ∀ a, Mirrors f h (k a) (k' (g a))) : Mirrors f h (p >>= k) (q >>= k') := fun s => by
  rw [run_bind, run_bind, hp s]
  exact hk _ _

theorem reportAll {es es' : List TypeError} (hes : es.map (·.mapSpans f) = es') :
    Mirrors f (fun u => u) (reportAll es) (reportAll es') := fun s => by
  rw [run_reportAll, run_reportAll, ← hes]
  simp only [CheckState.mapSpans, List.map_append]

theorem report (fault : TypeFault) (span : Span) :
    Mirrors f (fun u => u) (report fault span) (report fault (f span)) := reportAll rfl

theorem context : Mirrors f (·.mapSpans f) context context := fun s => by
  rw [run_context, run_context]
  simp only [CheckState.mapSpans, ContextStack.current_mapSpans]

theorem setLabel (label : StateLabel) :
    Mirrors f (fun u => u) (setLabel label) (setLabel (label.mapSpans f)) := fun s => by
  rw [run_setLabel, run_setLabel]
  simp only [CheckState.mapSpans, ContextStack.setLabel_mapSpans]

theorem within (clause : Option Descriptor) (hp : Mirrors f g p q) :
    Mirrors f g (within clause p) (within clause q) := fun s => by
  have run := hp { s with contexts := s.contexts.enter clause }
  simp only [CheckState.mapSpans, ← ContextStack.enter_mapSpans] at run
  simp only [run_within, CheckState.mapSpans, run, ContextStack.pop_mapSpans]

/-- A descriptor that the first registry holds is in both. -/
theorem isRegistered {r r' : Rules} (wide : r.Widens r') {d : Descriptor}
    (held : r.registry.Holds d) : Mirrors f (fun b => b) (isRegistered r d) (isRegistered r' d) :=
  fun s => by
    have here : r.registry.get? d.keyword = some d := held
    have there : r'.registry.get? d.keyword = some d := wide.holds d held
    rw [run_isRegistered, run_isRegistered, if_pos here, if_pos there]

end Mirrors

/-! ### Names and operators -/

/-- A result with an expression, with other spans. -/
abbrev movedTyped (f : Span → Span) (r : Ty × Expr) : Ty × Expr := (r.1, r.2.mapSpans f)

section

variable {r r' : Rules} (wide : r.Widens r')

include wide

theorem mirrors_resolveType (name : Name) :
    Mirrors f (fun t => t) (resolveType r name) (resolveType r' (name.mapSpans f)) := by
  unfold resolveType
  rw [← wide.classes]
  dsimp only [Name.mapSpans]
  split
  · exact .pure rfl
  · exact (Mirrors.report _ _).bind fun _ => .pure rfl

theorem mirrors_resolveTypes (names : List Name) :
    Mirrors f (fun ts => ts) (resolveTypes r names)
      (resolveTypes r' (names.map (·.mapSpans f))) := by
  induction names with
  | nil => exact .pure rfl
  | cons name names ih =>
    exact (mirrors_resolveType wide name).bind fun _ => ih.bind fun _ => .pure rfl

theorem mirrors_variableType (env : Env) (name : Name) :
    Mirrors f (fun t => t) (variableType r env name) (variableType r' env (name.mapSpans f)) := by
  unfold variableType
  rw [← wide.classes]
  dsimp only [Name.mapSpans]
  split
  · exact .pure rfl
  · exact (Mirrors.report _ _).bind fun _ => .pure rfl

theorem mirrors_fieldType (owner : Ty) (field : Name) :
    Mirrors f (fun t => t) (fieldType r owner field) (fieldType r' owner (field.mapSpans f)) := by
  unfold fieldType
  rw [← wide.classes]
  dsimp only [Name.mapSpans]
  split
  · exact .pure rfl
  · split
    · exact .pure rfl
    · exact (Mirrors.report _ _).bind fun _ => .pure rfl
  · exact (Mirrors.report _ _).bind fun _ => .pure rfl

theorem mirrors_callSignature (owner : Ty) (method : Name) (args : List Expr) (span : Span) :
    Mirrors f (fun s => s) (callSignature r owner method args span)
      (callSignature r' owner (method.mapSpans f) (args.map (·.mapSpans f)) (f span)) := by
  unfold callSignature signature?
  rw [← wide.classes, List.length_map]
  dsimp only [Name.mapSpans]
  split
  · split
    · exact (Mirrors.report _ _).bind fun _ => .pure rfl
    · exact .bind (.pure (g := fun u => u) rfl) fun _ => .pure rfl
  · split
    · exact .pure rfl
    · exact (Mirrors.report _ _).bind fun _ => .pure rfl

end

theorem mirrors_require (expected : Option Ty) (found : Ty) (span : Span) :
    Mirrors f (fun u => u) (require expected found span) (require expected found (f span)) := by
  unfold require
  split
  · exact .pure rfl
  · split
    · exact .pure rfl
    · exact .report _ _

theorem mirrors_binaryType (op : BinaryOp) (left right : Ty) (span : Span) :
    Mirrors f (fun t => t) (binaryType op left right span) (binaryType op left right (f span)) := by
  unfold binaryType
  split
  · exact .pure rfl
  · split
    · exact .pure rfl
    · exact (Mirrors.report _ _).bind fun _ => .pure rfl

theorem mirrors_unaryType (op : UnaryOp) (operand : Ty) (span : Span) :
    Mirrors f (fun t => t) (unaryType op operand span) (unaryType op operand (f span)) := by
  unfold unaryType
  split
  · exact .pure rfl
  · exact (Mirrors.report _ _).bind fun _ => .pure rfl

theorem mirrors_resultType (env : Env) (span : Span) :
    Mirrors f (fun t => t) (resultType env span) (resultType env (f span)) := by
  refine Mirrors.context.bind fun context => ?_
  dsimp only [Context.mapSpans]
  rw [Option.isSome_map]
  split
  · exact (Mirrors.report _ _).bind fun _ => .pure rfl
  · split
    · split
      · exact .pure rfl
      · exact (Mirrors.report _ _).bind fun _ => .pure rfl
    · exact (Mirrors.report _ _).bind fun _ => .pure rfl

theorem mirrors_enterState (head : StateHead) (args : List Expr) (scope : Scope) :
    Mirrors f (fun s => s) (enterState head args scope)
      (enterState (head.mapSpans f) (args.map (·.mapSpans f)) scope) := by
  refine Mirrors.context.bind fun context => ?_
  dsimp only [Context.mapSpans]
  rw [StateHead.errors_mapSpans, StateHead.label_mapSpans, Scope.asOf_mapSpans, List.isEmpty_map]
  exact (Mirrors.reportAll rfl).bind fun _ => (Mirrors.setLabel _).bind fun _ => .pure rfl

theorem mirrors_declare (scope : Scope) (name : Name) (type : Ty) :
    Mirrors f (fun s => s) (declare scope name type) (declare scope (name.mapSpans f) type) := by
  intro s
  have names : (s.mapSpans f).names = s.names := rfl
  rw [run_declare, run_declare, names, Name.text_mapSpans]
  split
  · simp only [CheckState.mapSpans, List.map_append]
    rfl
  · rfl

theorem mirrors_declareLabel (scope : Scope) (label : Name) :
    Mirrors f (fun s => s) (declareLabel scope label) (declareLabel scope (label.mapSpans f)) := by
  unfold declareLabel
  rw [Name.text_mapSpans]
  split
  · exact (Mirrors.report _ _).bind fun _ => .pure rfl
  · exact .pure rfl

/-! ### Expressions -/

section

variable {r r' : Rules} (wide : r.Widens r')

include wide

/-- The three parts of the mutual recursion, in its own cases. -/
theorem mirrors_infer_all :
    (∀ scope e, e.Own r.registry →
      Mirrors f (movedTyped f) (infer r scope e) (infer r' scope (e.mapSpans f))) ∧
    (∀ scope typeArgs es, Expr.Own.listOwn r.registry es →
      Mirrors f (fun x => (x.1, x.2.map (·.mapSpans f))) (inferPayload r scope typeArgs es)
        (inferPayload r' scope (typeArgs.map (·.mapSpans f)) (es.map (·.mapSpans f)))) ∧
    ∀ scope params es, Expr.Own.listOwn r.registry es →
      Mirrors f (List.map (·.mapSpans f)) (inferArgs r scope params es)
        (inferArgs r' scope params (es.map (·.mapSpans f))) := by
  refine infer.mutual_induct _ _ _ ?name ?int ?bool ?result ?binary ?unary ?field ?ownCall
    ?fieldCall ?otherCall ?state ?missing ?noPayload ?payload ?noArgs ?args
  case name => exact fun _ _ _ => (mirrors_variableType wide _ _).bind fun _ => .pure rfl
  case int => exact fun _ _ _ _ => .pure rfl
  case bool => exact fun _ _ _ _ => .pure rfl
  case result => exact fun _ _ _ => (mirrors_resultType _ _).bind fun _ => .pure rfl
  case binary =>
    exact fun _ _ _ _ _ left right own => (left own.1).bind fun _ => (right own.2).bind fun _ =>
      (mirrors_binaryType _ _ _ _).bind fun _ => .pure rfl
  case unary =>
    exact fun _ _ _ _ operand own => (operand own).bind fun _ =>
      (mirrors_unaryType _ _ _).bind fun _ => .pure rfl
  case field =>
    exact fun _ _ _ _ base own => (base own).bind fun _ =>
      (mirrors_fieldType wide _ _).bind fun _ => .pure rfl
  case ownCall =>
    intro scope method args span hargs own
    rw [Expr.mapSpans, Expr.mapSpans_mapList]
    refine (mirrors_callSignature wide _ _ _ _).bind fun signature => ?_
    refine (hargs signature own.2).bind fun _ => .pure ?_
    rw [movedTyped, Expr.mapSpans, Expr.mapSpans_mapList]
    rfl
  case fieldCall =>
    intro scope base method calleeSpan args span hbase hargs own
    rw [Expr.mapSpans, Expr.mapSpans_mapList]
    refine (hbase own.1).bind fun _ => (mirrors_callSignature wide _ _ _ _).bind fun signature => ?_
    refine (hargs signature own.2).bind fun _ => .pure ?_
    rw [movedTyped, Expr.mapSpans, Expr.mapSpans_mapList]
    rfl
  case otherCall =>
    intro scope callee args span notName notField hcallee hargs own
    rw [Expr.mapSpans, Expr.mapSpans_mapList, infer, infer]
    · refine (hcallee own.1).bind fun t => (hargs own.2).bind fun es => ?_
      have moved (es : List Expr) : movedTyped f (.error, .call t.2 es span) =
          (.error, .call (t.2.mapSpans f) (es.map (·.mapSpans f)) (f span)) := by
        rw [movedTyped, Expr.mapSpans, Expr.mapSpans_mapList]
      dsimp only
      split
      · exact (Mirrors.report _ _).bind fun _ => .pure (moved es)
      · exact .pure (moved es)
    · intro method same
      cases callee with
      | name n => exact notName n rfl
      | _ => injection same
    · intro base method calleeSpan same
      cases callee with
      | field base method s => exact notField base method s rfl
      | _ => injection same
    · exact notName
    · exact notField
  case state =>
    intro scope head args recorded payload own
    have moved (recorded : Option Ty) (es : List Expr) (type : Ty) :
        movedTyped f (type, .state head es recorded) =
          (type, .state (head.mapSpans f) (es.map (·.mapSpans f)) recorded) := by
      rw [movedTyped, Expr.mapSpans, Expr.mapSpans_mapList]
    rw [Expr.mapSpans, Expr.mapSpans_mapList]
    refine (Mirrors.isRegistered wide own.1).bind fun registered => ?_
    split
    · refine Mirrors.within none ((mirrors_enterState head args scope).bind fun inner => ?_)
      cases inner with
      | none =>
        refine .bind (g := fun x => (x.1, x.2.map (·.mapSpans f))) (.pure rfl) fun x => ?_
        exact .pure (moved _ _ _)
      | some inner => exact (payload inner own.2).bind fun x => .pure (moved _ _ _)
    · exact .pure (moved _ _ _)
  case missing => exact fun _ _ _ => .pure rfl
  case noPayload => exact fun _ _ _ => .pure rfl
  case payload =>
    exact fun _ _ _ _ he own => (he own.1).bind fun _ =>
      (mirrors_resolveTypes wide _).bind fun _ => .pure rfl
  case noArgs => exact fun _ _ _ => .pure rfl
  case args =>
    intro scope params e es he hes own
    refine (he own.1).bind fun t => ?_
    rw [Expr.span_mapSpans]
    exact (mirrors_require _ _ _).bind fun _ => (hes own.2).bind fun _ => .pure rfl

theorem mirrors_infer (scope : Scope) {e : Expr} (own : e.Own r.registry) :
    Mirrors f (movedTyped f) (infer r scope e) (infer r' scope (e.mapSpans f)) :=
  (mirrors_infer_all wide).1 scope e own

theorem mirrors_inferAs (scope : Scope) (expected : Option Ty) {e : Expr}
    (own : e.Own r.registry) :
    Mirrors f (movedTyped f) (inferAs r scope expected e)
      (inferAs r' scope expected (e.mapSpans f)) := by
  refine (mirrors_infer wide scope own).bind fun t => ?_
  rw [Expr.span_mapSpans]
  exact (mirrors_require _ _ _).bind fun _ => .pure rfl

theorem mirrors_inferInit (scope : Scope) (expected : Ty) {init : Option Expr}
    (own : ∀ e ∈ init, e.Own r.registry) :
    Mirrors f (Option.map (·.mapSpans f)) (inferInit r scope expected init)
      (inferInit r' scope expected (init.map (·.mapSpans f))) := by
  cases init with
  | none => exact .pure rfl
  | some e =>
    exact (mirrors_inferAs wide scope (some expected) (own e rfl)).bind fun _ => .pure rfl

theorem mirrors_inferClause (scope : Scope) (d : Descriptor) {e : Expr}
    (own : e.Own r.registry) :
    Mirrors f (·.mapSpans f) (inferClause r scope d e) (inferClause r' scope d (e.mapSpans f)) := by
  unfold inferClause
  rw [← wide.booleanClauses]
  exact (Mirrors.within (some d) (mirrors_inferAs wide scope _ own)).bind fun _ => .pure rfl

/-! ### Statements -/

/-- A statement with the scope behind it, with other spans. -/
abbrev movedScoped {α : Type} (g : α → α) (x : α × Scope) : α × Scope := (g x.1, x.2)

theorem mirrors_checkVariable (scope : Scope) {v : Variable} (own : v.Own r.registry) :
    Mirrors f (movedScoped (·.mapSpans f)) (checkVariable r scope v)
      (checkVariable r' scope (v.mapSpans f)) :=
  (mirrors_resolveType wide _).bind fun type =>
    (mirrors_inferInit wide scope type own).bind fun _ =>
      (mirrors_declare scope _ type).bind fun _ => .pure rfl

theorem mirrors_checkSpecClause (scope : Scope) {c : SpecClause} (own : c.Own r.registry) :
    Mirrors f (·.mapSpans f) (checkSpecClause r scope c)
      (checkSpecClause r' scope (c.mapSpans f)) := by
  refine (Mirrors.isRegistered wide own.descriptor).bind fun registered => ?_
  split
  · exact (mirrors_inferClause wide scope _ own.expr).bind fun _ => .pure rfl
  · exact .pure rfl

theorem mirrors_checkLeave (scope : Scope) {value : Option Expr} (span : Span)
    (own : ∀ e ∈ value, e.Own r.registry) :
    Mirrors f (Option.map (·.mapSpans f)) (checkLeave r scope value span)
      (checkLeave r' scope (value.map (·.mapSpans f)) (f span)) := by
  unfold checkLeave
  cases value with
  | none =>
    dsimp only [Option.map_none]
    split
    · exact (Mirrors.report _ _).bind fun _ => .pure rfl
    · exact .pure rfl
  | some e =>
    dsimp only [Option.map_some]
    rw [Expr.span_mapSpans]
    split
    · exact (mirrors_infer wide scope (own e rfl)).bind fun _ =>
        (Mirrors.report _ _).bind fun _ => .pure rfl
    · exact (mirrors_inferAs wide scope _ (own e rfl)).bind fun _ => .pure rfl

end

mutual

theorem mirrors_checkStatement {r r' : Rules} (wide : r.Widens r') (scope : Scope) :
    ∀ s : Statement, s.Own r.registry →
      Mirrors f (movedScoped (·.mapSpans f)) (checkStatement r scope s)
        (checkStatement r' scope (s.mapSpans f))
  | .declare _, own => (mirrors_checkVariable wide scope own).bind fun _ => .pure rfl
  | .ghost d decl, own => by
    refine (Mirrors.isRegistered wide own.1).bind fun registered => ?_
    split
    · refine (Mirrors.within (some d) (mirrors_checkVariable wide scope own.2)).bind fun _ => ?_
      exact .pure rfl
    · exact .pure rfl
  | .assign _ _ _, own =>
    (mirrors_variableType wide _ _).bind fun _ =>
      (mirrors_inferAs wide scope _ own).bind fun _ => .pure rfl
  | .labeled label body _, own =>
    (mirrors_declareLabel scope label).bind fun scope =>
      (mirrors_checkStatement wide scope body own).bind fun _ => .pure rfl
  | .clause _, own => (mirrors_checkSpecClause wide scope own).bind fun _ => .pure rfl
  | .leave _ span, own => (mirrors_checkLeave wide scope span own).bind fun _ => .pure rfl
  | .expr _, own => (mirrors_infer wide scope own).bind fun _ => .pure rfl
  | .block statements _, own => by
    rw [Statement.mapSpans, Statement.mapSpans_mapList]
    refine (mirrors_checkStatements wide scope statements own).bind fun _ => .pure ?_
    rw [movedScoped, Statement.mapSpans, Statement.mapSpans_mapList]
  | .missing _, _ => .pure rfl

theorem mirrors_checkStatements {r r' : Rules} (wide : r.Widens r') (scope : Scope) :
    ∀ ss : List Statement, Statement.Own.listOwn r.registry ss →
      Mirrors f (List.map (·.mapSpans f)) (checkStatements r scope ss)
        (checkStatements r' scope (ss.map (·.mapSpans f)))
  | [], _ => .pure rfl
  | s :: ss, own =>
    (mirrors_checkStatement wide scope s own.1).bind fun x =>
      (mirrors_checkStatements wide x.2 ss own.2).bind fun _ => .pure rfl

end

/-! ### Declarations -/

section

variable {r r' : Rules} (wide : r.Widens r')

theorem mirrors_declareClasses (table : ClassTable) (cs : List Class) :
    Mirrors f (fun t => t) (declareClasses table cs)
      (declareClasses table (cs.map (·.mapSpans f))) := by
  induction cs generalizing table with
  | nil => exact .pure rfl
  | cons c cs ih =>
    have name : (c.mapSpans f).name.text = c.name.text := rfl
    rw [List.map_cons, declareClasses, declareClasses, name]
    split
    · exact (Mirrors.report _ _).bind fun _ => ih table
    · exact ih _

theorem mirrors_declareMember (table : List (String × α)) (name : Name) (entry : α) :
    Mirrors f (fun t => t) (declareMember table name entry)
      (declareMember table (name.mapSpans f) entry) := by
  unfold declareMember
  rw [Name.text_mapSpans]
  dsimp only
  split
  · exact (Mirrors.report _ _).bind fun _ => .pure rfl
  · exact .pure rfl

include wide

theorem mirrors_collectFields (table : List (String × Ty)) (fs : List Field) :
    Mirrors f (fun t => t) (collectFields r table fs)
      (collectFields r' table (fs.map (·.mapSpans f))) := by
  induction fs generalizing table with
  | nil => exact .pure rfl
  | cons x fs ih =>
    exact (mirrors_resolveType wide _).bind fun type =>
      (mirrors_declareMember table x.name type).bind fun table => ih table

theorem mirrors_collectMethods (table : List (String × Signature)) (ms : List Method) :
    Mirrors f (fun t => t) (collectMethods r table ms)
      (collectMethods r' table (ms.map (·.mapSpans f))) := by
  induction ms generalizing table with
  | nil => exact .pure rfl
  | cons x ms ih =>
    have types : (x.mapSpans f).params.map (·.type) =
        (x.params.map (·.type)).map (·.mapSpans f) := by
      simp only [Method.mapSpans, List.map_map]
      rfl
    rw [List.map_cons, collectMethods, collectMethods, types]
    exact (mirrors_resolveTypes wide _).bind fun params =>
      (mirrors_resolveType wide _).bind fun result =>
        (mirrors_declareMember table x.name ⟨params, result⟩).bind fun table => ih table

theorem mirrors_collectClass (c : Class) :
    Mirrors f (fun i => i) (collectClass r c) (collectClass r' (c.mapSpans f)) := by
  unfold collectClass
  rw [Class.fields_mapSpans, Class.methods_mapSpans]
  exact (mirrors_collectFields wide _ _).bind fun _ =>
    (mirrors_collectMethods wide _ _).bind fun _ => .pure rfl

theorem mirrors_collectClasses (table : ClassTable) (seen : List String) (cs : List Class) :
    Mirrors f (fun t => t) (collectClasses r table seen cs)
      (collectClasses r' table seen (cs.map (·.mapSpans f))) := by
  induction cs generalizing table seen with
  | nil => exact .pure rfl
  | cons c cs ih =>
    have name : (c.mapSpans f).name.text = c.name.text := rfl
    rw [List.map_cons, collectClasses, collectClasses, name]
    split
    · exact ih _ _
    · exact (mirrors_collectClass wide c).bind fun _ => ih _ _

theorem mirrors_collect (u : CompilationUnit) :
    Mirrors f (fun t => t) (collect r u) (collect r' (u.mapSpans f)) := by
  unfold collect
  rw [← wide.classes]
  refine (mirrors_declareClasses _ _).bind fun declared => ?_
  have wide' : Rules.Widens { r with classes := declared } { r' with classes := declared } :=
    ⟨wide.holds, wide.booleanClauses, rfl⟩
  exact mirrors_collectClasses wide' declared [] u.classes

/-! ### Members -/

theorem declaredType_mapSpans (name : Name) :
    declaredType r' (name.mapSpans f) = declaredType r name := by
  rw [declaredType, ← wide.classes]
  rfl

theorem mirrors_checkField (scope : Scope) {x : Field} (own : x.Own r.registry) :
    Mirrors f (·.mapSpans f) (checkField r scope x) (checkField r' scope (x.mapSpans f)) := by
  obtain ⟨type, name, init, ghost, span⟩ := x
  unfold checkField
  dsimp only [Field.mapSpans]
  rw [declaredType_mapSpans wide]
  cases init with
  | none => exact .pure rfl
  | some e =>
    have init := mirrors_inferInit (f := f) wide scope (declaredType r type) own.init
    cases ghost with
    | none => exact init.bind fun _ => .pure rfl
    | some d =>
      refine (Mirrors.isRegistered wide (own.ghost d rfl)).bind fun registered => ?_
      split
      · exact (Mirrors.within (some d) init).bind fun _ => .pure rfl
      · exact .pure rfl

theorem unknownMethods_mapSpans (className : String) (frame : Option Frame) :
    unknownMethods r' className (frame.map (·.mapSpans f)) =
      (unknownMethods r className frame).map (·.mapSpans f) := by
  unfold unknownMethods
  rw [← wide.classes]
  cases frame with
  | none => rfl
  | some frame =>
    cases frame with
    | everything s => rfl
    | methods names =>
      simp only [Option.map_some, Frame.mapSpans, List.filter_map, List.map_map]
      rfl

theorem mirrors_checkTypeClause (scope : Scope) {c : TypeClause} (own : c.Own r.registry) :
    Mirrors f (·.mapSpans f) (checkTypeClause r scope c)
      (checkTypeClause r' scope (c.mapSpans f)) := by
  refine (Mirrors.isRegistered wide own.descriptor).bind fun registered => ?_
  split
  · refine (mirrors_inferClause wide scope _ own.expr).bind fun _ => ?_
    refine (Mirrors.reportAll ?_).bind fun _ => .pure rfl
    exact (unknownMethods_mapSpans wide _ _).symm
  · exact .pure rfl

theorem mirrors_declareParams (scope : Scope) (ps : List Param) :
    Mirrors f (fun s => s) (declareParams r scope ps)
      (declareParams r' scope (ps.map (·.mapSpans f))) := by
  induction ps generalizing scope with
  | nil => exact .pure rfl
  | cons p ps ih =>
    rw [List.map_cons]
    unfold declareParams
    dsimp only [Param.mapSpans]
    rw [declaredType_mapSpans wide]
    exact (mirrors_declare _ _ _).bind fun scope => ih scope

theorem mirrors_checkSpecClauses (scope : Scope) {cs : List SpecClause}
    (own : ∀ c ∈ cs, c.Own r.registry) :
    Mirrors f (List.map (·.mapSpans f)) (checkSpecClauses r scope cs)
      (checkSpecClauses r' scope (cs.map (·.mapSpans f))) := by
  induction cs with
  | nil => exact .pure rfl
  | cons c cs ih =>
    rw [List.forall_mem_cons] at own
    exact (mirrors_checkSpecClause wide scope own.1).bind fun _ =>
      (ih own.2).bind fun _ => .pure rfl

theorem mirrors_checkCases (scope : Scope) {cs : List SpecCase}
    (own : ∀ c ∈ cs, ∀ s ∈ c.clauses, s.Own r.registry) :
    Mirrors f (List.map (·.mapSpans f)) (checkCases r scope cs)
      (checkCases r' scope (cs.map (·.mapSpans f))) := by
  induction cs with
  | nil => exact .pure rfl
  | cons c cs ih =>
    rw [List.forall_mem_cons] at own
    exact (mirrors_checkSpecClauses wide scope own.1).bind fun _ =>
      (ih own.2).bind fun _ => .pure rfl

theorem mirrors_checkMethod (className : String) {x : Method} (own : x.Own r.registry) :
    Mirrors f (·.mapSpans f) (checkMethod r className x)
      (checkMethod r' className (x.mapSpans f)) := by
  have forget : Mirrors f (fun u => u) (modify fun s : CheckState => { s with names := [] })
      (modify fun s : CheckState => { s with names := [] }) := fun _ => rfl
  unfold checkMethod
  dsimp only [Method.mapSpans, Block.mapSpans]
  rw [declaredType_mapSpans wide]
  refine forget.bind fun _ => (mirrors_declareParams wide _ _).bind fun scope => ?_
  refine (mirrors_checkCases wide _ own.cases).bind fun _ => ?_
  exact (mirrors_checkStatements wide _ _ own.body).bind fun _ => .pure rfl

theorem mirrors_checkMember (className : String) {x : Member} (own : x.Own r.registry) :
    Mirrors f (·.mapSpans f) (checkMember r className x)
      (checkMember r' className (x.mapSpans f)) := by
  cases x with
  | field x => exact (mirrors_checkField wide _ own).bind fun _ => .pure rfl
  | clause c => exact (mirrors_checkTypeClause wide _ own).bind fun _ => .pure rfl
  | method x => exact (mirrors_checkMethod wide _ own).bind fun _ => .pure rfl

theorem mirrors_checkMembers (className : String) {xs : List Member}
    (own : ∀ x ∈ xs, x.Own r.registry) :
    Mirrors f (List.map (·.mapSpans f)) (checkMembers r className xs)
      (checkMembers r' className (xs.map (·.mapSpans f))) := by
  induction xs with
  | nil => exact .pure rfl
  | cons x xs ih =>
    rw [List.forall_mem_cons] at own
    exact (mirrors_checkMember wide className own.1).bind fun _ =>
      (ih own.2).bind fun _ => .pure rfl

theorem mirrors_checkClass {c : Class} (own : c.Own r.registry) :
    Mirrors f (·.mapSpans f) (checkClass r c) (checkClass r' (c.mapSpans f)) :=
  (mirrors_checkMembers wide _ own).bind fun _ => .pure rfl

omit wide in
theorem mirrors_stopBehind (c : Class) :
    Mirrors f (fun stop => stop) (stopBehind c) (stopBehind (c.mapSpans f)) := fun s => by
  have depth : (s.mapSpans f).contexts.depth = s.contexts.depth :=
    s.contexts.depth_mapSpans f
  rw [run_stopBehind_eq, run_stopBehind_eq, depth]
  rfl

theorem mirrors_checkClasses {cs : List Class} (own : ∀ c ∈ cs, c.Own r.registry) :
    Mirrors f (fun x => (x.1, x.2.map (·.mapSpans f))) (checkClasses r cs)
      (checkClasses r' (cs.map (·.mapSpans f))) := by
  induction cs with
  | nil => exact .pure rfl
  | cons c cs ih =>
    rw [List.forall_mem_cons] at own
    refine (mirrors_checkClass wide own.1).bind fun checked => ?_
    refine (mirrors_stopBehind c).bind fun stop => ?_
    cases stop with
    | some e => exact .pure rfl
    | none => exact (ih own.2).bind fun _ => .pure rfl

end

end Check

/-! ### Checkers -/

namespace Checker

section

variable {f : Span → Span} {k k' : Checker} (wide : k.rules.Widens k'.rules)
  (contexts : k'.contexts = k.contexts.mapSpans f)
  (pending : k'.pending = k.pending.map (·.mapSpans f))

include wide contexts pending

theorem collected_mapSpans (u : CompilationUnit) :
    k'.collected (u.mapSpans f) = ((k.collected u).1, (k.collected u).2.mapSpans f) := by
  rw [collected, contexts, pending]
  exact Check.mirrors_collect wide u { contexts := k.contexts, errors := k.pending }

theorem checked_mapSpans {u : CompilationUnit} (own : u.Own k.rules.registry) :
    k'.checked (u.mapSpans f) =
      (((k.checked u).1.1, (k.checked u).1.2.map (·.mapSpans f)), (k.checked u).2.mapSpans f) := by
  have wide' : (k.rulesFor u).Widens (k'.rulesFor (u.mapSpans f)) := by
    refine ⟨wide.holds, wide.booleanClauses, ?_⟩
    rw [rulesFor, rulesFor, collected_mapSpans wide contexts pending]
  rw [checked, collected_mapSpans wide contexts pending]
  exact Check.mirrors_checkClasses wide' own _

/-- A check of a tree with other spans, on a checker that holds the same descriptors and more,
finds the same with other spans and records the same types. -/
theorem check_mapSpans {u : CompilationUnit} (own : u.Own k.rules.registry) :
    (k'.check (u.mapSpans f)).result = (k.check u).result.map (List.map (·.mapSpans f)) ∧
      (k'.check (u.mapSpans f)).unit = (k.check u).unit.mapSpans f := by
  rw [check_eq, check_eq, checked_mapSpans wide contexts pending own]
  cases (k.checked u).1.1 <;> exact ⟨rfl, rfl⟩

end

end Checker

end Contracts
