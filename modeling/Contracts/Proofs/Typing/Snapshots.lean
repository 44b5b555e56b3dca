import Contracts.Proofs.Typing.Resolution
import Contracts.Proofs.Typing.Variables

/-! What holds throughout the check of a method body. The variables at hand have distinct names,
the labels that are put down are those of the statements whose block is still open, and the
environments that were fixed at the entry and at the labels are earlier stages of the one at hand;
a block ends with what it began with (`scope_invariant`). Outside bodies no label resolves. -/

namespace Contracts

/-! ### Labels that are open -/

/-- The labels of a statement that are still open behind it. -/
def Statement.ownLabels : Statement → List Name
  | labeled label body _ => label :: body.ownLabels
  | _ => []

/-- Of words that are repeated the first ones count, so one more counts if it is new. -/
theorem eraseDups_concat (words : List String) (word : String) :
    (words ++ [word]).eraseDups =
      if word ∈ words then words.eraseDups else words.eraseDups ++ [word] := by
  rw [List.eraseDups_append]
  split
  · next known => simp [List.removeAll, known]
  · next new => simp [List.removeAll, new, List.eraseDups_cons]

theorem Scope.hasLabel_iff (s : Scope) (label : String) :
    s.hasLabel label = true ↔ label ∈ s.labels.map Prod.fst := by
  simp [hasLabel, List.lookup_isSome_iff]

/-! ### Points -/

namespace Point

variable {rules : Rules} {c : Context} {opened : List Name} {p : Point}

/-- A point where these labels are open: those that are in force are the first of each text among
them, and the environment of the entry lies in those of the labels. -/
structure Sound (opened : List Name) (p : Point) : Prop where
  nested : p.Nested
  rooted : ∀ env ∈ p.scope.entry, ∀ label ∈ p.scope.labels, env.Before label.2
  order : (p.scope.labels.map Prod.fst).reverse = (opened.map (·.text)).eraseDups

theorem Sound.hasLabel_iff (h : p.Sound opened) (label : String) :
    p.scope.hasLabel label = true ↔ label ∈ opened.map (·.text) := by
  rw [Scope.hasLabel_iff, ← List.mem_reverse, h.order, List.mem_eraseDups]

theorem Sound.label (h : p.Sound opened) (name : Name) :
    (p.label name).Sound (opened ++ [name]) := by
  have nested := (leads_label p name).nested h.nested
  have words := eraseDups_concat (opened.map (·.text)) name.text
  unfold Point.label at nested ⊢
  split
  · next known =>
    rw [if_pos ((h.hasLabel_iff _).1 known)] at words
    refine ⟨h.nested, h.rooted, ?_⟩
    rw [List.map_append]
    exact h.order.trans words.symm
  · next new =>
    rw [if_neg fun known => new ((h.hasLabel_iff _).2 known), ← h.order] at words
    rw [if_neg new] at nested
    refine ⟨nested, fun env henv => ?_, ?_⟩
    · exact List.forall_mem_cons.2 ⟨h.nested.entry env henv, h.rooted env henv⟩
    · rw [List.map_append]
      exact List.reverse_cons.trans words.symm

/-- Without a label in front, a statement opens none. -/
theorem Sound.unlabeled (h : p.Sound opened) {s : Statement}
    (unlabeled : ∀ label body span, s ≠ .labeled label body span) :
    (Check.passed rules c p s).behind.Sound opened := by
  have nested : (Check.passed rules c p s).behind.Nested := (Check.leads_passed p s).nested h.nested
  obtain ⟨new, scope⟩ : p.scope.Declares (Check.passed rules c p s).behind.scope :=
    Check.declares_checkStatement p.scope unlabeled _
  refine ⟨nested, ?_, ?_⟩
  · rw [scope]
    exact h.rooted
  · rw [scope]
    exact h.order

theorem Sound.passed : ∀ (s : Statement) {opened : List Name} {p : Point}, p.Sound opened →
    (Check.passed rules c p s).behind.Sound (opened ++ s.ownLabels)
  | .labeled label body span, opened, p, h => by
    rw [Check.passed_labeled, Statement.ownLabels, List.append_cons]
    exact Sound.passed body (h.label label)
  | .declare _, _, _, h | .ghost _ _, _, _, h | .assign _ _ _, _, _, h | .clause _, _, _, h
  | .leave _ _, _, _, h | .expr _, _, _, h | .block _ _, _, _, h | .missing _, _, _, h => by
    rw [Statement.ownLabels.eq_def, List.append_nil]
    exact h.unlabeled nofun

/-! ### Parameters -/

/-- The point with another environment put down for the entry. -/
def withEntry (entry : Option Env) (p : Point) : Point := { p with scope.entry := entry }

theorem foldl_param_withEntry (entry : Option Env) (p : Point) (ps : List Param) :
    ps.foldl (param rules) (p.withEntry entry) = (ps.foldl (param rules) p).withEntry entry := by
  refine List.foldl_hom (withEntry entry) fun q r => ?_
  unfold param declare
  rw [apply_ite (withEntry entry)]
  rfl

theorem labels_foldl_param (p : Point) (ps : List Param) :
    (ps.foldl (param rules) p).scope.labels = p.scope.labels := by
  induction ps generalizing p with
  | nil => rfl
  | cons q ps ih =>
    rw [List.foldl_cons, ih]
    unfold param declare
    split <;> rfl

/-- Of parameters of one name the first counts. -/
theorem names_foldl_param {p : Point} {words : List String} (ps : List Param)
    (locals : p.scope.env.locals.map Prod.fst = p.names)
    (names : p.names.reverse = words.eraseDups) :
    let q := ps.foldl (param rules) p
    q.scope.env.locals.map Prod.fst = q.names ∧
      q.names.reverse = (words ++ ps.map (·.name.text)).eraseDups := by
  induction ps generalizing p words with
  | nil => exact ⟨locals, by rwa [List.map_nil, List.append_nil]⟩
  | cons q ps ih =>
    rw [List.foldl_cons, List.map_cons, List.append_cons]
    refine ih ?_ ?_
    · unfold param declare
      split
      · exact locals
      · exact congrArg (q.name.text :: ·) locals
    · have known : p.names.contains q.name.text = true ↔ q.name.text ∈ words := by
        rw [List.contains_iff_mem, ← List.mem_reverse, names, List.mem_eraseDups]
      rw [eraseDups_concat]
      unfold param declare
      split
      · next old => rw [if_pos (known.1 old), names]
      · next new => rw [if_neg fun old => new (known.2 old), ← names, List.reverse_cons]

end Point

/-- The parameters of a method are what is at hand at its entry. -/
theorem Method.names_entry (rules : Rules) (className : String) (m : Method) :
    (m.entry rules className).scope.env.locals.reverse.map Prod.fst =
      (m.params.map (·.name.text)).eraseDups := by
  let q := m.params.foldl (Point.param rules) (m.start rules className)
  obtain ⟨locals, names⟩ : q.scope.env.locals.map Prod.fst = q.names ∧
      q.names.reverse = (([] : List String) ++ m.params.map (·.name.text)).eraseDups :=
    Point.names_foldl_param m.params rfl rfl
  rw [List.map_reverse]
  exact (congrArg List.reverse locals).trans names

theorem Method.sound_entry (rules : Rules) (className : String) (m : Method) :
    (m.entry rules className).Sound [] := by
  have unlabeled : (m.entry rules className).scope.labels = [] :=
    Point.labels_foldl_param (m.start rules className) m.params
  refine ⟨m.nested_entry rules className, ?_, ?_⟩
  · rw [unlabeled]
    exact fun _ _ => List.forall_mem_nil _
  · rw [unlabeled]
    rfl

/-! ### Workspaces at points -/

namespace Workspace

variable {w : Workspace} {env : Env} {p : Point} {opened : List Name}

/-- In the workspace the check is at the point, with this environment at hand. -/
structure At (w : Workspace) (env : Env) (p : Point) : Prop where
  ordered : w.Ordered
  scope : w.scope env = p.scope
  names : w.names = p.names

theorem At.env_eq (h : w.At env p) : env = p.scope.env := congrArg Scope.env h.scope

theorem At.declareLabel (h : w.At env p) (label : Name) :
    ((Work.declareLabel env label).run w).2.At env (p.label label) := by
  have wider := Check.widens_declareLabel (w.scope env) label w.state
  obtain ⟨n, fault, found⟩ := Check.finds_declareLabel (c := w.contexts.current) p label w.state
    rfl h.names
  rw [← h.scope] at found
  rw [Work.run_declareLabel h.ordered]
  rw [found] at wider ⊢
  refine ⟨h.ordered.behind wider.1 _, ?_, (p.names_label label).symm⟩
  have behind := scope_behind wider.1
  rw [wider.2] at behind
  exact behind _

theorem At.statement (h : w.At env p) (s : Statement) :
    let r := (Work.statement env s).run w
    r.2.At r.1.2 (Check.passed w.rules w.contexts.current p s).behind := by
  have wider : (w.scope env).Widens
      ((Check.checkStatement w.rules (w.scope env) s).run w.state).1.2 :=
    Check.widens_checkStatement (w.scope env) s w.state
  obtain ⟨n, fault, found⟩ :=
    Check.finds_checkStatement w.rules w.contexts.current p s w.state rfl h.names
  rw [← h.scope] at found
  rw [Work.run_statement env s h.ordered]
  rw [found] at wider ⊢
  exact ⟨h.ordered.behind wider _, scope_behind wider _, rfl⟩

end Workspace

/-! ### Points of a run -/

namespace Work

/-- What the check of a method does in front of the body: it puts the entry down, and gives it with
the specification. -/
def toBody (className : String) (m : Method) : Work (Env × List SpecCase) := do
  modify fun w => { w with labels := [], labelOrder := [], names := [] }
  let returnType := Check.declaredType (← get).rules m.returnType
  let entry ← declareParams { className, returnType := some returnType } m.params
  modify fun w => { w with entry := some entry }
  let cases ← inScope entry fun rules scope => Check.checkCases rules scope m.cases
  return (entry, cases)

/-- The body is checked as a block behind that. -/
theorem method_eq (className : String) (m : Method) :
    method className m = (do
      let (entry, cases) ← toBody className m
      let (statements, _) ← inBlock entry (statements entry m.body.statements)
      modify fun w => { w with entry := none, labels := [] }
      return { m with cases := cases, body := { m.body with statements := statements } }) := rfl

/-- The points that the check of statements comes to, with the labels that were opened on the way:
in front of the statements, behind the first of them and on from there, inside a block, and behind
a label. -/
inductive Visits : Env → Workspace → List Statement → List Name → Env → Workspace → Prop
  | here {env : Env} {w : Workspace} {ss : List Statement} : Visits env w ss [] env w
  | next {env env' : Env} {w w' : Workspace} {s : Statement} {ss : List Statement}
    {opened : List Name}
    (later : Visits ((statement env s).run w).1.2 ((statement env s).run w).2 ss opened env' w') :
    Visits env w (s :: ss) (s.ownLabels ++ opened) env' w'
  | block {env env' : Env} {w w' : Workspace} {ss rest : List Statement} {span : Span}
    {opened : List Name} (inner : Visits env w ss opened env' w') :
    Visits env w (.block ss span :: rest) opened env' w'
  | labeled {env env' : Env} {w w' : Workspace} {label : Name} {s : Statement} {span : Span}
    {rest : List Statement} {opened : List Name}
    (inner : Visits env ((declareLabel env label).run w).2 [s] opened env' w') :
    Visits env w (.labeled label s span :: rest) (label :: opened) env' w'

/-- A label that is in force is a duplicate. -/
theorem errors_declareLabel (env : Env) (label : Name) (w : Workspace) :
    ((declareLabel env label).run w).2.errors =
      w.errors ++
        if (w.labels.lookup label.text).isSome then [⟨.duplicate label.text, label.span⟩]
        else [] := by
  unfold declareLabel
  rw [run_get]
  split
  · rfl
  · exact (List.append_nil _).symm

/-- In front of its body the check of a method is at the entry of the method. -/
theorem at_toBody (className : String) (m : Method) (w : Workspace) :
    let r := (toBody className m).run w
    r.2.At r.1.1 (m.entry w.rules className) := by
  let start : Workspace := { w with labels := [], labelOrder := [], names := [] }
  let first : Point := (m.start w.rules className).withEntry w.entry
  let q := m.params.foldl (Point.param w.rules) (m.start w.rules className)
  have run : (toBody className m).run w =
      let params := (Check.declareParams w.rules first.scope m.params).run start.state
      let known : Workspace := { start.withState params.2 with entry := some params.1.env }
      let cases := (Check.checkCases w.rules (known.scope params.1.env) m.cases).run known.state
      ((params.1.env, cases.1), known.withState cases.2) := rfl
  have declares : Check.Finds w.contexts.current first.names
      (Check.declareParams w.rules first.scope m.params) _ _ _ :=
    Check.finds_declareParams first m.params
  obtain ⟨n, fault, declared⟩ := declares start.state rfl rfl
  rw [Point.foldl_param_withEntry] at declared
  rw [declared] at run
  -- A specification declares nothing.
  have specified (scope : Scope) (s : CheckState) :
      ((Check.checkCases w.rules scope m.cases).run s).2.names = s.names := by
    have isLocal : Check.Local False True (Check.checkCases w.rules scope m.cases) :=
      Check.local_checkCases scope False.elim
    obtain ⟨n, fault, found⟩ := isLocal.finds_blind s.contexts.current s.names s rfl rfl
    rw [found]
  have unlabeled : q.scope.labels = [] := Point.labels_foldl_param _ m.params
  rw [run]
  exact ⟨⟨rfl, List.nodup_nil⟩, congrArg (Scope.mk _ _) unlabeled.symm, specified _ _⟩

theorem Visits.exists_at {env env' : Env} {w w' : Workspace} {ss : List Statement}
    {opened : List Name} (visits : Visits env w ss opened env' w') :
    ∀ {before : List Name} {p : Point}, w.At env p → p.Sound before →
      ∃ q, w'.At env' q ∧ q.Sound (before ++ opened) ∧ q.scope.entry = p.scope.entry := by
  induction visits with
  | here =>
    intro before p here sound
    exact ⟨p, here, by rwa [List.append_nil], rfl⟩
  | @next _ _ _ _ s _ _ _ ih =>
    intro before p here sound
    obtain ⟨q, there, hq, entry⟩ := ih (here.statement s) (sound.passed s)
    refine ⟨q, there, by rwa [← List.append_assoc], entry.trans ?_⟩
    exact (Point.widens_passed p s).entry
  | block _ ih => exact ih
  | @labeled _ _ _ _ label _ _ _ _ _ ih =>
    intro before p here sound
    obtain ⟨q, there, hq, entry⟩ := ih (here.declareLabel label) (sound.label label)
    refine ⟨q, there, by rwa [List.append_cons], entry.trans ?_⟩
    exact (Point.widens_label p label).entry

end Work

/-! ### The invariant -/

/-- How variables, labels and the environments fixed at them belong together in a workspace, at a
point of a method with this entry where these labels were opened. The latest variables stand in
front, so the first ones are at the end. -/
structure Workspace.Consistent (w : Workspace) (entry : Env) (opened : List Name) (env : Env) :
    Prop where
  distinct : (env.locals.map Prod.fst).Nodup
  declared : ∀ word ∈ env.locals.map Prod.fst, word ∈ w.names
  keys : w.labels.map Prod.fst = w.labelOrder.reverse
  order : w.labelOrder = (opened.map (·.text)).eraseDups
  unrepeated : w.labelOrder.Nodup
  atEntry : w.entry = some entry
  snapshots : ∀ label ∈ w.labels,
    label.2.locals <:+ env.locals ∧ entry.locals <:+ label.2.locals
  parameters : entry.locals <:+ env.locals

theorem Workspace.At.consistent {w : Workspace} {entry env : Env} {p : Point} {opened : List Name}
    (here : w.At env p) (sound : p.Sound opened) (known : p.scope.entry = some entry) :
    w.Consistent entry opened env := by
  obtain ⟨scope, names⟩ := p
  obtain ⟨ordered, rfl, rfl⟩ := here
  have order : w.labelOrder = (w.labels.map Prod.fst).reverse := ordered.order
  refine ⟨sound.nested.distinct, sound.nested.declared, ?_, ordered.order.trans sound.order, ?_,
    known, fun label hlabel => ⟨?_, ?_⟩, ?_⟩
  · rw [order, List.reverse_reverse]
  · rw [order]
    exact List.nodup_reverse.2 ordered.distinct
  · exact (sound.nested.labels label hlabel).locals
  · exact (sound.rooted entry known label hlabel).locals
  · exact (sound.nested.entry entry known).locals

/-- Inside an expression, the labels and the entry of a scope stay; the variables at hand are the
first of those of the scope, and with the parameters among them. -/
structure Scope.Inside (outer : Scope) (entry : Env) (inner : Scope) : Prop where
  labels : inner.labels = outer.labels
  atEntry : inner.entry = some entry
  parameters : entry.locals <:+ inner.env.locals
  earlier : inner.env.locals <:+ outer.env.locals

theorem Scope.Inside.asOf {outer inner : Scope} {entry : Env} (h : outer.Inside entry inner)
    (snapshots : ∀ label ∈ outer.labels,
      label.2.locals <:+ outer.env.locals ∧ entry.locals <:+ label.2.locals)
    (clause : Option Descriptor) (label : StateLabel) :
    outer.Inside entry (inner.asOf clause label) := by
  unfold Scope.asOf
  split
  · exact h
  · exact h
  · cases label with
    | entry =>
      rw [envAt_entry h.atEntry]
      exact ⟨h.labels, h.atEntry, List.suffix_refl _, h.parameters.trans h.earlier⟩
    | named name =>
      cases known : inner.labels.lookup name.text with
      | none =>
        have kept : inner.envAt (.named name) = inner.env := by
          rw [envAt, known, Option.getD_none]
        rw [kept]
        exact h
      | some env =>
        have mem := Check.mem_of_lookup known
        rw [h.labels] at mem
        obtain ⟨earlier, parameters⟩ := snapshots _ mem
        rw [envAt_label known]
        exact ⟨h.labels, h.atEntry, parameters, earlier⟩

/-- In every place inside an expression that is read at a point, the variables at hand are the
first of those of the point. -/
theorem Workspace.Consistent.inside {w : Workspace} {entry env : Env} {opened : List Name}
    (h : w.Consistent entry opened env) {p q : Setting} (here : p.scope = w.scope env)
    {layers : List Expr.Layer} {e : Expr}
    (read : Check.settingAt? w.rules p layers e = some q) :
    (w.scope env).Inside entry q.scope := by
  refine Check.scope_settingAt? (P := (w.scope env).Inside entry) ?_ read ?_
  · exact fun scope clause label inside => inside.asOf h.snapshots clause label
  · rw [here]
    exact ⟨rfl, h.atEntry, h.parameters, List.suffix_refl _⟩

/-- The place is in the body of a method. -/
def Member.Slot.InBody : Member.Slot → Prop
  | body .. => True
  | _ => False

theorem Scope.labels_asOf (scope : Scope) (clause : Option Descriptor) (label : StateLabel) :
    (scope.asOf clause label).labels = scope.labels := by
  unfold asOf
  split <;> rfl

/-- Outside bodies no label is in force. -/
theorem Member.Slot.labels_eq_nil (rules : Rules) (className : String) {slot : Member.Slot}
    (outside : ¬slot.InBody) : (slot.setting rules className).scope.labels = [] := by
  cases slot with
  | field f => rfl
  | clause k => rfl
  | spec m => exact Point.labels_foldl_param (m.start rules className) m.params
  | body => exact absurd trivial outside

/-- Variables, labels and snapshots move together. In front of its body, the check of a method has
put its parameters down as the entry. At every point that it comes to in the body, whatever is
wrong there, the names of the variables at hand are distinct and declared; the labels that are put
down are those of the labelled statements that it came by in blocks that are still open, each text
once, and a label is reported as a duplicate exactly if its text is among them; the variables that
were fixed at a label are the first of those at hand, and the parameters are the first of those;
inside an expression that is read there, the labels are the same and the variables at hand are the
first of these; and a block that begins there ends with the variables and labels that it began
with. In clauses of specifications and of classes and in the values of fields, no label
resolves. -/
theorem scope_invariant (className : String) (m : Method) (w : Workspace) :
    let r := (Work.toBody className m).run w
    Work.method className m = (do
      let (entry, cases) ← Work.toBody className m
      let (statements, _) ← Work.inBlock entry (Work.statements entry m.body.statements)
      modify fun w => { w with entry := none, labels := [] }
      return { m with cases := cases, body := { m.body with statements := statements } }) ∧
    r.1.1.locals.reverse.map Prod.fst = (m.params.map (·.name.text)).eraseDups ∧
    (∀ opened env v, Work.Visits r.1.1 r.2 m.body.statements opened env v →
      v.Consistent r.1.1 opened env ∧
      (∀ (p q : Setting) (layers : List Expr.Layer) (e : Expr), p.scope = v.scope env →
        Check.settingAt? v.rules p layers e = some q → (v.scope env).Inside r.1.1 q.scope) ∧
      (∀ label : Name, ((Work.declareLabel env label).run v).2.errors =
        v.errors ++
          if label.text ∈ v.labelOrder then [⟨.duplicate label.text, label.span⟩] else []) ∧
      ∀ ss, let behind := (Work.inBlock env (Work.statements env ss)).run v
        behind.1.2 = env ∧ behind.2.labels = v.labels ∧ behind.2.labelOrder = v.labelOrder) ∧
    ∀ (rules : Rules) (slot : Member.Slot) (layers : List Expr.Layer) (e : Expr) (p : Setting),
      ¬slot.InBody → Check.settingAt? rules (slot.setting rules className) layers e = some p →
        ∀ label, p.scope.label? label = none := by
  intro r
  have start : r.2.At r.1.1 (m.entry w.rules className) := Work.at_toBody className m w
  have entry : r.1.1 = (m.entry w.rules className).scope.env := start.env_eq
  refine ⟨Work.method_eq className m, ?_, fun opened env v visits => ?_, ?_⟩
  · rw [entry]
    exact m.names_entry w.rules className
  · obtain ⟨p, here, sound, known⟩ := visits.exists_at start (Method.sound_entry _ _ m)
    have consistent : v.Consistent r.1.1 opened env :=
      here.consistent sound (known.trans (congrArg some entry.symm))
    refine ⟨consistent, fun p q layers e scope read => consistent.inside scope read,
      fun label => ?_, fun ss => ?_⟩
    · have inForce : (v.labels.lookup label.text).isSome = true ↔ label.text ∈ v.labelOrder := by
        rw [← List.mem_reverse, ← consistent.keys]
        exact (v.scope env).hasLabel_iff label.text
      rw [Work.errors_declareLabel]
      simp only [inForce]
    · obtain ⟨inner, wider, run⟩ := Work.run_statements env ss here.ordered
      rw [Work.run_inBlock here.ordered wider run]
      exact ⟨rfl, rfl, rfl⟩
  · intro rules slot layers e p outside read label
    have unlabeled : p.scope.labels = [] :=
      Check.scope_settingAt? (P := fun scope => scope.labels = [])
        (fun scope clause label h => (scope.labels_asOf clause label).trans h) read
        (slot.labels_eq_nil rules className outside)
    cases known : p.scope.label? label with
    | none => rfl
    | some name =>
      obtain ⟨-, -, env, fixed⟩ := Scope.label?_iff_resolves.1 known
      rw [unlabeled] at fixed
      cases fixed

/-- In `void m(int a) { L: int b = a; { M: a = b; } }`, at the end of the inner block; and in the
value of a field. -/
theorem scope_invariant_inner :
    let o : Span := .origin
    let inner : List Statement := [.labeled ⟨"M", o⟩ (.assign ⟨"a", o⟩ (.name ⟨"b", o⟩) o) o]
    let body : List Statement :=
      [.labeled ⟨"L", o⟩ (.declare ⟨⟨"int", o⟩, ⟨"b", o⟩, some (.name ⟨"a", o⟩), o⟩) o,
        .block inner o]
    let m : Method :=
      ⟨⟨"void", o⟩, ⟨"m", o⟩, [⟨⟨"int", o⟩, ⟨"a", o⟩, o⟩], [], ⟨body, o⟩, o⟩
    let f : Member.Slot := .field ⟨⟨"int", o⟩, ⟨"x", o⟩, none, none, o⟩
    let w : Workspace := { rules := { registry := .standard } }
    let r := (Work.toBody "C" m).run w
    (∃ env v, Work.Visits r.1.1 r.2 m.body.statements [⟨"L", o⟩, ⟨"M", o⟩] env v ∧
      v.labelOrder = ["L", "M"] ∧ env.locals = [("b", .int), ("a", .int)] ∧
      ∀ label ∈ v.labels, label.2.locals <:+ env.locals ∧ r.1.1.locals <:+ label.2.locals) ∧
    ∀ label, (f.setting w.rules "C").scope.label? label = none := by
  intro o inner body m f w r
  obtain ⟨-, -, holds, outside⟩ := scope_invariant "C" m w
  obtain ⟨env, v, visits, locals⟩ :
      ∃ env v, Work.Visits r.1.1 r.2 m.body.statements [⟨"L", o⟩, ⟨"M", o⟩] env v ∧
        env.locals = [("b", .int), ("a", .int)] :=
    ⟨_, _, .next (.block (.next .here)), by decide +kernel⟩
  have consistent := (holds _ env v visits).1
  refine ⟨⟨env, v, visits, ?_, locals, consistent.snapshots⟩, ?_⟩
  · rw [consistent.order]
    decide
  · exact outside w.rules f [] (.missing o) _ id rfl

end Contracts
