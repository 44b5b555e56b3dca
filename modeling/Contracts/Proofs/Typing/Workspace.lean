import Contracts.Proofs.Typing.Through
import Contracts.Typing.Workspace

/-! Work that is done in a workspace. The labels that are put down in it are those of the scope
that checking hands on, in the order in which they were set, and a block takes its own labels
back (`Work.run_statements`, `Work.run_inBlock`). So in a workspace with no labels and no entry put
down, members and classes are checked as without one (`Work.Follows`), and a unit is checked as by
the checker that is left when all else is forgotten (`Work.run_check`). -/

namespace Contracts

/-! ### Scopes behind statements -/

namespace Scope

/-- A scope behind declarations: variables were put in front of those of the scope before. -/
def Declares (s t : Scope) : Prop :=
  ∃ new, t = { s with env := { s.env with locals := new ++ s.env.locals } }

/-- A scope behind statements: variables and labels were put in front of those of the scope before,
and no label a second time. -/
structure Widens (s t : Scope) : Prop where
  entry : t.entry = s.entry
  env : ∃ new, t.env = { s.env with locals := new ++ s.env.locals }
  labels : ∃ new, t.labels = new ++ s.labels
  distinct : (s.labels.map Prod.fst).Nodup → (t.labels.map Prod.fst).Nodup

variable {s t u : Scope}

theorem Declares.refl (s : Scope) : s.Declares s := ⟨[], rfl⟩

theorem Declares.addLocal (s : Scope) (name : String) (type : Ty) :
    s.Declares (s.addLocal name type) := ⟨[(name, type)], rfl⟩

theorem Declares.trans (h : s.Declares t) (k : t.Declares u) : s.Declares u := by
  obtain ⟨new, rfl⟩ := h
  obtain ⟨new', rfl⟩ := k
  exact ⟨new' ++ new, by simp only [List.append_assoc]⟩

theorem Declares.widens (h : s.Declares t) : s.Widens t := by
  obtain ⟨new, rfl⟩ := h
  exact ⟨rfl, ⟨new, rfl⟩, ⟨[], rfl⟩, id⟩

theorem Widens.addLabel {label : String} (h : s.hasLabel label = false) :
    s.Widens (s.addLabel label) := by
  refine ⟨rfl, ⟨[], rfl⟩, ⟨[(label, s.env)], rfl⟩, fun distinct => ?_⟩
  refine List.nodup_cons.2 ⟨fun found => ?_, distinct⟩
  obtain ⟨entry, hentry, rfl⟩ := List.mem_map.1 found
  have known : (s.labels.lookup entry.1).isSome := List.lookup_isSome_iff.2 ⟨entry, hentry, by simp⟩
  exact Bool.false_ne_true (h.symm.trans known)

theorem Widens.trans (h : s.Widens t) (k : t.Widens u) : s.Widens u := by
  obtain ⟨new, hnew⟩ := h.env
  obtain ⟨new', hnew'⟩ := k.env
  obtain ⟨set, hset⟩ := h.labels
  obtain ⟨set', hset'⟩ := k.labels
  refine ⟨k.entry.trans h.entry, ⟨new' ++ new, ?_⟩, ⟨set' ++ set, ?_⟩, k.distinct ∘ h.distinct⟩
  · rw [hnew', hnew, List.append_assoc]
  · rw [hset', hset, List.append_assoc]

end Scope

namespace Check

variable {rules : Rules}

/-- Behind a check only what it can give has to be looked at. -/
theorem Returns.bind_congr {α β : Type} {P : α → Prop} {m : Check α} {f g : α → Check β}
    (hm : Returns P m) (h : ∀ a, P a → f a = g a) : m >>= f = m >>= g :=
  funext fun s => congrFun (h _ (hm s)) _

theorem declares_declare (scope : Scope) (name : Name) (type : Ty) :
    Returns scope.Declares (declare scope name type) := by
  intro s
  rw [run_declare]
  split
  · exact .refl scope
  · exact .addLocal scope _ _

theorem declares_declareParams (scope : Scope) (ps : List Param) :
    Returns scope.Declares (declareParams rules scope ps) := by
  induction ps generalizing scope with
  | nil => exact .pure (.refl scope)
  | cons p ps ih =>
    exact .bind (declares_declare scope _ _) fun _ first s => first.trans (ih _ s)

theorem declares_checkVariable (scope : Scope) (v : Variable) :
    Returns (fun r => scope.Declares r.2) (checkVariable rules scope v) :=
  .bind (.any _) fun _ _ => .bind (.any _) fun _ _ =>
    .bind (declares_declare scope _ _) fun _ h => .pure h

theorem widens_declareLabel (scope : Scope) (label : Name) :
    Returns (fun t => scope.Widens t ∧ t.env = scope.env) (declareLabel scope label) := by
  unfold declareLabel
  split
  · exact .bind (.any _) fun _ _ => .pure ⟨(Scope.Declares.refl scope).widens, rfl⟩
  · next h => exact .pure ⟨.addLabel (Bool.not_eq_true _ ▸ h), rfl⟩

/-- Only a label is handed on otherwise than as a variable. -/
theorem declares_checkStatement (scope : Scope) {s : Statement}
    (unlabeled : ∀ label body span, s ≠ .labeled label body span) :
    Returns (fun r => scope.Declares r.2) (checkStatement rules scope s) := by
  have same : scope.Declares scope := .refl scope
  cases s with
  | declare decl => exact .bind (declares_checkVariable scope decl) fun _ h => .pure h
  | ghost d decl =>
    refine .bind (.any _) fun registered _ => ?_
    split
    · exact .bind (.within _ (declares_checkVariable scope decl)) fun _ h => .pure h
    · exact .pure same
  | labeled label body span => exact absurd rfl (unlabeled label body span)
  | assign => exact .bind (.any _) fun _ _ => .bind (.any _) fun _ _ => .pure same
  | clause => exact .bind (.any _) fun _ _ => .pure same
  | leave => exact .bind (.any _) fun _ _ => .pure same
  | expr => exact .bind (.any _) fun _ _ => .pure same
  | block => exact .bind (.any _) fun _ _ => .pure same
  | missing => exact .pure same

theorem widens_checkStatement (scope : Scope) (s : Statement) :
    Returns (fun r => scope.Widens r.2) (checkStatement rules scope s) := by
  cases s with
  | labeled label body span =>
    exact .bind (widens_declareLabel scope label) fun inner first =>
      .bind (widens_checkStatement inner body) fun _ second => .pure (first.1.trans second)
  | _ =>
    refine fun s => (declares_checkStatement scope ?_ s).widens
    exact fun _ _ _ => nofun

end Check

/-! ### Workspaces -/

namespace Workspace

/-- The state of a check that is run in the workspace. -/
def state (w : Workspace) : CheckState :=
  { contexts := w.contexts, errors := w.errors, fault := w.fault, names := w.names }

def withState (w : Workspace) (s : CheckState) : Workspace :=
  { w with contexts := s.contexts, errors := s.errors, fault := s.fault, names := s.names }

/-- The scope at a program point. -/
def scope (w : Workspace) (env : Env) : Scope := { env, entry := w.entry, labels := w.labels }

def withLabels (w : Workspace) (labels : List (String × Env)) : Workspace :=
  { w with labels := labels, labelOrder := (labels.map Prod.fst).reverse }

/-- The labels are in force in the order in which they were set, none of them twice. -/
structure Ordered (w : Workspace) : Prop where
  order : w.labelOrder = (w.labels.map Prod.fst).reverse
  distinct : (w.labels.map Prod.fst).Nodup

/-- No label and no entry is put down. -/
structure Rested (w : Workspace) : Prop where
  entry : w.entry = none
  labels : w.labels = []
  labelOrder : w.labelOrder = []

/-- No method is at hand, and no fault is noted. -/
structure Idle (w : Workspace) : Prop extends Rested w where
  fault : w.fault = none

/-- The checker that is left of an idle workspace. -/
def checker (w : Workspace) : Checker :=
  { rules := w.rules, contexts := w.contexts, pending := w.errors }

def withChecker (w : Workspace) (k : Checker) : Workspace :=
  { w with rules := k.rules, contexts := k.contexts, errors := k.pending }

variable {w : Workspace}

theorem Rested.scope (h : w.Rested) (env : Env) : w.scope env = { env } := by
  rw [Workspace.scope, h.entry, h.labels]

theorem Ordered.withLabels (h : w.Ordered) (s : CheckState) :
    (w.withState s).withLabels w.labels = w.withState s := by
  simp only [Workspace.withLabels, ← h.order]
  rfl

/-- Behind statements the labels are those of the scope that is handed on. -/
theorem Ordered.behind (h : w.Ordered) {env : Env} {t : Scope} (wider : (w.scope env).Widens t)
    (s : CheckState) : ((w.withState s).withLabels t.labels).Ordered :=
  ⟨rfl, wider.distinct h.distinct⟩

/-- What statements behind a scope see is that scope. -/
theorem scope_behind {env : Env} {t : Scope} (wider : (w.scope env).Widens t) (s : CheckState) :
    ((w.withState s).withLabels t.labels).scope t.env = t := by
  obtain ⟨entry, -, -, -⟩ := wider
  cases t
  exact congrArg (Scope.mk _ · _) entry.symm

end Workspace

namespace Work

open Workspace

variable {α β : Type} {w : Workspace}

theorem run_bind (m : Work α) (f : α → Work β) (w : Workspace) :
    (m >>= f).run w = (f (m.run w).1).run (m.run w).2 := rfl

theorem run_get (f : Workspace → Work α) (w : Workspace) : (get >>= f).run w = (f w).run w := rfl

theorem run_inScope (env : Env) (check : Rules → Scope → Check α) (w : Workspace) :
    (inScope env check).run w =
      let r := (check w.rules (w.scope env)).run w.state
      (r.1, w.withState r.2) := rfl

/-! ### Statements -/

theorem run_declareLabel (h : w.Ordered) (env : Env) (label : Name) :
    (declareLabel env label).run w =
      let r := (Check.declareLabel (w.scope env) label).run w.state
      ((), (w.withState r.2).withLabels r.1.labels) := by
  have known : (w.scope env).hasLabel label.text = (w.labels.lookup label.text).isSome := rfl
  unfold declareLabel Check.declareLabel
  rw [run_bind, known]
  change StateT.run (ite ((w.labels.lookup label.text).isSome = true) (perform _) (modify _)) w = _
  split
  · exact congrArg (Prod.mk _) (h.withLabels _).symm
  · refine congrArg (Prod.mk _) ?_
    change { w with labels := _, labelOrder := w.labelOrder ++ [label.text] } = _
    rw [h.order, ← List.reverse_cons]
    rfl

/-- Labels that were set behind others are found by the order in which they were set. -/
theorem run_dropLabels (h : w.Ordered) {labels : List (String × Env)}
    (distinct : (labels.map Prod.fst).Nodup) (wider : ∃ new, labels = new ++ w.labels) :
    (dropLabels w.labelOrder.length).run (w.withLabels labels) = ((), w) := by
  obtain ⟨new, rfl⟩ := wider
  have order : ((new ++ w.labels).map Prod.fst).reverse =
      w.labelOrder ++ (new.map Prod.fst).reverse := by
    rw [h.order, List.map_append, List.reverse_append]
  have labels : (new ++ w.labels).filter
      (fun entry => !(new.map Prod.fst).reverse.contains entry.1) = w.labels := by
    rw [List.map_append, List.nodup_append] at distinct
    rw [List.filter_append, List.filter_eq_nil_iff.2, List.nil_append, List.filter_eq_self.2]
    · intro entry hentry
      have old : entry.1 ∉ new.map Prod.fst := fun hnew =>
        distinct.2.2 _ hnew _ (List.mem_map_of_mem hentry) rfl
      simpa using old
    · intro entry hentry
      have set : entry.1 ∈ new.map Prod.fst := List.mem_map_of_mem hentry
      simpa using set
  change ((), { w with labels := _, labelOrder := _ }) = _
  simp only [withLabels, order, List.drop_left, List.take_left, labels]

theorem truncate_of_grown {env env' : Env}
    (h : ∃ new, env' = { env with locals := new ++ env.locals }) :
    env'.truncate env.locals.length = env := by
  obtain ⟨new, rfl⟩ := h
  simp [Env.truncate]

/-- A block ends with the labels and variables that it was entered with. -/
theorem run_inBlock (h : w.Ordered) {env : Env} {body : Work (List Statement × Env)}
    {ss : List Statement} {s : CheckState} {inner : Scope} (wider : (w.scope env).Widens inner)
    (run : body.run w = ((ss, inner.env), (w.withState s).withLabels inner.labels)) :
    (inBlock env body).run w = ((ss, env), w.withState s) := by
  have truncated : inner.env.truncate env.locals.length = env := truncate_of_grown wider.env
  have dropped : (dropLabels w.labelOrder.length).run _ = ((), w.withState s) :=
    run_dropLabels (w := w.withState s) ⟨h.order, h.distinct⟩
      (wider.distinct h.distinct) wider.labels
  unfold inBlock
  rw [run_bind]
  change StateT.run (body >>= _) w = _
  rw [run_bind, run]
  dsimp only
  rw [run_bind]
  change StateT.run (pure (ss, _)) (StateT.run (dropLabels w.labelOrder.length) _).2 = _
  rw [dropped, truncated]
  rfl

/-- A statement that sets no label does its work at a program point. -/
theorem run_unlabeled (h : w.Ordered) (env : Env) {s : Statement}
    (unlabeled : ∀ label body span, s ≠ .labeled label body span)
    (block : ∀ body span, s ≠ .block body span) :
    (statement env s).run w =
      let r := (Check.checkStatement w.rules (w.scope env) s).run w.state
      ((r.1.1, r.1.2.env), (w.withState r.2).withLabels r.1.2.labels) := by
  have same : statement env s =
      inScope env (fun rules scope => Check.checkStatement rules scope s) >>= fun r =>
        pure (r.1, r.2.env) := by
    cases s with
    | labeled label body span => exact absurd rfl (unlabeled label body span)
    | block body span => exact absurd rfl (block body span)
    | _ => rfl
  obtain ⟨new, hnew⟩ :
      (w.scope env).Declares ((Check.checkStatement w.rules (w.scope env) s).run w.state).1.2 :=
    Check.declares_checkStatement (w.scope env) unlabeled w.state
  have labels :
      ((Check.checkStatement w.rules (w.scope env) s).run w.state).1.2.labels = w.labels := by
    rw [hnew]
    rfl
  rw [same, run_bind, run_inScope]
  dsimp only
  rw [labels, h.withLabels]
  rfl

mutual

/-- A statement is checked in the scope of the workspace, and the labels of the scope that it hands
on are put down. -/
theorem run_statement (env : Env) (s : Statement) {w : Workspace} (h : w.Ordered) :
    (statement env s).run w =
      let r := (Check.checkStatement w.rules (w.scope env) s).run w.state
      ((r.1.1, r.1.2.env), (w.withState r.2).withLabels r.1.2.labels) := by
  cases s with
  | labeled label body span =>
    let r := (Check.declareLabel (w.scope env) label).run w.state
    have wider : (w.scope env).Widens r.1 ∧ r.1.env = env :=
      Check.widens_declareLabel (w.scope env) label w.state
    have inner : ((w.withState r.2).withLabels r.1.labels).scope env = r.1 := by
      have behind := scope_behind wider.1 r.2
      rwa [wider.2] at behind
    rw [statement, run_bind, run_declareLabel h]
    dsimp only
    rw [run_bind, run_statement env body (h.behind wider.1 r.2), inner]
    rfl
  | block body span =>
    obtain ⟨inner, wider, run⟩ := run_statements env body h
    rw [statement, run_bind, run_inBlock h wider run]
    exact congrArg (Prod.mk _) (h.withLabels _).symm
  | _ => exact run_unlabeled h env (fun _ _ _ => nofun) fun _ _ => nofun

theorem run_statements (env : Env) (ss : List Statement) {w : Workspace} (h : w.Ordered) :
    ∃ inner, (w.scope env).Widens inner ∧
      (statements env ss).run w =
        let r := (Check.checkStatements w.rules (w.scope env) ss).run w.state
        ((r.1, inner.env), (w.withState r.2).withLabels inner.labels) := by
  cases ss with
  | nil =>
    refine ⟨w.scope env, (Scope.Declares.refl _).widens, ?_⟩
    exact congrArg (Prod.mk _) (h.withLabels w.state).symm
  | cons s ss =>
    let r := (Check.checkStatement w.rules (w.scope env) s).run w.state
    have wider : (w.scope env).Widens r.1.2 := Check.widens_checkStatement (w.scope env) s w.state
    obtain ⟨inner, later, run⟩ := run_statements r.1.2.env ss (h.behind wider r.2)
    rw [scope_behind wider] at later run
    refine ⟨inner, wider.trans later, ?_⟩
    rw [statements, run_bind, run_statement env s h]
    dsimp only
    rw [run_bind, run]
    rfl

end

/-! ### Members -/

/-- In a workspace where no label and no entry is put down, the work is that check. -/
def Follows (m : Work α) (check : Rules → Check α) : Prop :=
  ∀ w : Workspace, w.Rested →
    m.run w =
      let r := (check w.rules).run w.state
      (r.1, w.withState r.2)

theorem Follows.pure (a : α) : Follows (Pure.pure a) fun _ => Pure.pure a := fun _ _ => rfl

theorem Follows.bind {m : Work α} {f : α → Work β} {check : Rules → Check α}
    {next : α → Rules → Check β} (hm : Follows m check) (hf : ∀ a, Follows (f a) (next a)) :
    Follows (m >>= f) fun rules => check rules >>= fun a => next a rules := by
  intro w rested
  rw [run_bind, hm w rested]
  exact hf _ (w.withState _) ⟨rested.entry, rested.labels, rested.labelOrder⟩

theorem Follows.inScope (env : Env) (check : Rules → Scope → Check α) :
    Follows (inScope env check) fun rules => check rules { env } := by
  intro w rested
  rw [run_inScope, rested.scope]

theorem follows_methodBody (entry : Env) (m : Method) :
    Follows (methodBody entry m) fun rules => do
      let scope : Scope := { env := entry, entry := some entry }
      let cases ← Check.checkCases rules scope m.cases
      let statements ← Check.checkStatements rules scope m.body.statements
      return { m with cases := cases, body := { m.body with statements := statements } } := by
  rintro ⟨rules, contexts, errors, fault, _, _, _, names⟩ ⟨rfl, rfl, rfl⟩
  let w : Workspace := { rules, contexts, errors, fault, entry := some entry, names }
  let r := (Check.checkCases rules (w.scope entry) m.cases).run w.state
  have ordered : (w.withState r.2).Ordered := ⟨rfl, List.nodup_nil⟩
  obtain ⟨inner, wider, run⟩ := run_statements entry m.body.statements ordered
  unfold methodBody
  rw [run_bind, run_bind]
  change StateT.run (inBlock entry _ >>= _) (w.withState r.2) = _
  rw [run_bind, run_inBlock ordered wider run]
  rfl

theorem follows_forget :
    Follows (modify fun w => { w with labels := [], labelOrder := [], names := [] })
      fun _ => modify fun s => { s with names := [] } := by
  rintro ⟨rules, contexts, errors, fault, _, _, _, names⟩ ⟨rfl, rfl, rfl⟩
  rfl

/-- Behind the parameters of a method there is no label, and its entry is what is in scope. -/
theorem checkMethod_eq (rules : Rules) (className : String) (m : Method) :
    Check.checkMethod rules className m = do
      modify fun s => { s with names := [] }
      let returnType := Check.declaredType rules m.returnType
      let entered ← Check.declareParams rules { env := { className, returnType } } m.params
      let scope : Scope := { env := entered.env, entry := some entered.env }
      let cases ← Check.checkCases rules scope m.cases
      let statements ← Check.checkStatements rules scope m.body.statements
      return { m with cases := cases, body := { m.body with statements := statements } } := by
  unfold Check.checkMethod
  refine bind_congr fun _ => ?_
  refine (Check.declares_declareParams _ m.params).bind_congr fun entered declared => ?_
  obtain ⟨new, rfl⟩ := declared
  rfl

theorem follows_method (className : String) (m : Method) :
    Follows (method className m) fun rules => Check.checkMethod rules className m := by
  have params (start : Env) : Follows (declareParams start m.params) fun rules =>
      Check.declareParams rules { env := start } m.params >>= fun entered => pure entered.env :=
    .bind (.inScope _ _) fun _ => .pure _
  simp only [checkMethod_eq]
  -- The type that the method returns is read with the rules of the workspace.
  refine .bind follows_forget fun _ w rested => ?_
  let start : Env := { className, returnType := some (Check.declaredType w.rules m.returnType) }
  have run := (params start).bind (fun entry => follows_methodBody entry m) w rested
  simp only [bind_assoc, pure_bind] at run
  rw [run_get]
  exact run

theorem follows_member (className : String) (m : Member) :
    Follows (member className m) fun rules => Check.checkMember rules className m := by
  cases m with
  | field f => exact .bind (.inScope _ _) fun _ => .pure _
  | clause c => exact .bind (.inScope _ _) fun _ => .pure _
  | method m => exact .bind (follows_method className m) fun _ => .pure _

theorem follows_members (className : String) (ms : List Member) :
    Follows (members className ms) fun rules => Check.checkMembers rules className ms := by
  induction ms with
  | nil => exact .pure _
  | cons m ms ih => exact .bind (follows_member className m) fun _ => .bind ih fun _ => .pure _

/-! ### Units -/

theorem run_stopBehind (c : Class) (w : Workspace) (s : CheckState) :
    (stopBehind c).run (w.withState s) =
      (Check.stop? s.contexts.depth c s.fault, w.withState { s with fault := none }) := by
  obtain ⟨contexts, errors, fault, names⟩ := s
  cases fault <;> rfl

/-- Classes are checked as without a workspace, and no fault stays behind. -/
theorem run_classes (cs : List Class) {w : Workspace} (h : w.Idle) :
    (classes cs).run w =
      let r := (Check.checkClasses w.rules cs).run w.state
      (r.1, w.withState { r.2 with fault := none }) := by
  induction cs generalizing w with
  | nil =>
    obtain ⟨rules, contexts, errors, _, entry, labels, order, names⟩ := w
    obtain ⟨-, rfl⟩ := h
    rfl
  | cons c cs ih =>
    obtain ⟨ms, s, checked⟩ : ∃ ms s,
        (Check.checkMembers w.rules c.name.text c.members).run w.state = (ms, s) := ⟨_, _, rfl⟩
    have class_checked :
        (Check.checkClass w.rules c).run w.state = ({ c with members := ms }, s) := by
      rw [Check.checkClass, Check.run_bind, checked]
      rfl
    rw [classes, run_bind, follows_members c.name.text c.members w h.toRested, checked, run_bind,
      run_stopBehind, Check.checkClasses, Check.run_bind, class_checked, Check.run_bind,
      Check.run_stopBehind_eq]
    dsimp only
    cases stop : Check.stop? s.contexts.depth c s.fault with
    | some e => rfl
    | none =>
      obtain ⟨contexts, errors, fault, names⟩ := s
      obtain rfl : fault = none := (Option.or_eq_none_iff.1 stop).1
      let behind : CheckState := { contexts, errors, names }
      have idle : (w.withState behind).Idle := ⟨⟨h.entry, h.labels, h.labelOrder⟩, rfl⟩
      change StateT.run (classes cs >>= _) (w.withState behind) = _
      rw [run_bind, ih idle]
      rfl

end Work

namespace Checker

open Check

variable (k : Checker) (u : CompilationUnit) (names : List String)

/-! Names that a method has declared before the check make no difference to it. -/

theorem collected_names :
    (Check.collect k.rules u).run { contexts := k.contexts, errors := k.pending, names } =
      ((k.collected u).1, { (k.collected u).2 with names := names }) := by
  rw [reports_collect, collected_eq]
  rfl

theorem checked_names : ∃ left,
    (checkClasses (k.rulesFor u) u.classes).run { (k.collected u).2 with names := names } =
      ((k.checked u).1, { (k.checked u).2 with names := left }) := by
  have faultless : (k.collected u).2.fault = none := by rw [collected_eq]
  obtain ⟨left, run⟩ := run_checkClasses (k.rulesFor u) u.classes
    (s := { (k.collected u).2 with names := names }) faultless
  obtain ⟨left', checked⟩ := run_checkClasses (k.rulesFor u) u.classes faultless
  refine ⟨left, ?_⟩
  rw [run, Checker.checked, checked]
  rfl

end Checker

namespace Work

variable {w : Workspace}

/-- In an idle workspace a unit is checked as by the checker that is left of it, and the workspace
is left idle with the checker that comes out of the check. -/
theorem run_check (h : w.Idle) (unit : CompilationUnit) :
    ∃ names,
      (check unit).run w =
        let outcome := w.checker.check unit
        ((outcome.result, outcome.unit),
          { w.withChecker outcome.checker with names := names }) := by
  obtain ⟨rules, contexts, errors, _, _, _, _, names⟩ := w
  obtain ⟨⟨rfl, rfl, rfl⟩, rfl⟩ := h
  let k : Checker := ⟨rules, contexts, errors⟩
  let w : Workspace := { rules, contexts, errors, names }
  let start : CheckState := { (k.collected unit).2 with names := names }
  let told : Workspace := { w.withState start with rules := k.rulesFor unit }
  obtain ⟨left, checked⟩ := k.checked_names unit names
  have collected : (perform fun rules => Check.collect rules unit).run w =
      ((k.collected unit).1, w.withState start) :=
    congrArg (fun r : ClassTable × CheckState => (r.1, w.withState r.2))
      (k.collected_names unit names)
  have idle : told.Idle := ⟨⟨rfl, rfl, rfl⟩, congrArg (·.2.fault) (k.collected_eq unit)⟩
  have classes_checked : (classes unit.classes).run told =
      ((k.checked unit).1,
        told.withState { (k.checked unit).2 with fault := none, names := left }) := by
    rw [run_classes unit.classes idle]
    exact congrArg (fun r : (Option CheckError × List Class) × CheckState =>
      (r.1, told.withState { r.2 with fault := none })) checked
  refine ⟨left, ?_⟩
  unfold check
  rw [run_bind, collected, run_bind]
  change StateT.run (classes unit.classes >>= _) told = _
  rw [run_bind, classes_checked]
  change _ = let outcome := k.check unit
    ((outcome.result, outcome.unit), { w.withChecker outcome.checker with names := left })
  rw [Checker.check_eq]
  dsimp only
  cases (k.checked unit).1.1 with
  | some e => rfl
  | none => rfl

end Work

end Contracts
