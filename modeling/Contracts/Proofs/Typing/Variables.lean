import Contracts.Proofs.Typing.Declarations
import Contracts.Proofs.Typing.Points
import Contracts.Report

/-! What names mean at the points of a method. A method declares each name once, and the
environments that its entry and its labels fix hold the first of the variables at hand
(`Point.Nested`). So a local variable of an earlier state is the same variable now. A field is
the same, too, unless a local variable of its name has been declared since: that variable hides
the field now and does not hide it in the earlier state (`names_keep_meaning`). -/

namespace Contracts

/-! ### Meanings -/

/-- What a name stands for: the local variable that was declared behind so many others, or a
field of the class. -/
inductive Meaning
  | variable (older : Nat)
  | field
deriving DecidableEq

/-- The number of variables that were declared before the one that a name stands for. -/
def older? (word : String) : List (String × Ty) → Option Nat
  | [] => none
  | (key, _) :: older => if word == key then some older.length else older? word older

theorem isSome_older? (word : String) (vars : List (String × Ty)) :
    (older? word vars).isSome = (vars.lookup word).isSome := by
  induction vars with
  | nil => rfl
  | cons entry vars ih =>
    rw [older?, List.lookup_cons]
    cases word == entry.1
    · exact ih
    · rfl

theorem older?_append (word : String) (newer older : List (String × Ty)) :
    (newer.lookup word = none ∧ older? word (newer ++ older) = older? word older) ∨
      (newer.lookup word).isSome ∧
        ∃ n, older.length ≤ n ∧ older? word (newer ++ older) = some n := by
  induction newer with
  | nil => exact .inl ⟨rfl, rfl⟩
  | cons entry newer ih =>
    rw [List.lookup_cons, List.cons_append, older?]
    cases word == entry.1 with
    | false => exact ih
    | true => exact .inr ⟨rfl, (newer ++ older).length, by simp, rfl⟩

theorem mem_names {word : String} {vars : List (String × Ty)}
    (h : (vars.lookup word).isSome) : word ∈ vars.map Prod.fst := by
  obtain ⟨type, h⟩ := Option.isSome_iff_exists.1 h
  exact List.mem_map_of_mem (Check.mem_of_lookup h)

namespace Env

/-- What a name stands for at a program point, if it is a variable. -/
def meaning? (classes : ClassTable) (env : Env) (word : String) : Option Meaning :=
  match older? word env.locals with
  | some older => some (.variable older)
  | none => (classes.field? env.className word).map fun _ => .field

/-- The first environment belongs to the same method and has the variables that were declared
first. -/
structure Before (earlier now : Env) : Prop where
  className : earlier.className = now.className
  returnType : earlier.returnType = now.returnType
  locals : earlier.locals <:+ now.locals

theorem Before.refl (env : Env) : env.Before env := ⟨rfl, rfl, List.suffix_refl _⟩

theorem Before.trans {e f g : Env} (h : e.Before f) (k : f.Before g) : e.Before g :=
  ⟨h.className.trans k.className, h.returnType.trans k.returnType, h.locals.trans k.locals⟩

variable {classes : ClassTable} {earlier now : Env} {word : String}

/-- Names that have a meaning are those that have a type. -/
theorem isSome_meaning? (env : Env) :
    (env.meaning? classes word).isSome = (env.typeOf? classes word).isSome := by
  have locals := isSome_older? word env.locals
  rw [meaning?, typeOf?, Option.isSome_or, ← locals]
  cases older? word env.locals with
  | some older => rfl
  | none => exact Option.isSome_map

/-- Under distinct names a variable of an earlier environment is the same one now; a field is,
too, unless a variable of its name was declared since. -/
theorem Before.meaning (h : earlier.Before now) (distinct : (now.locals.map Prod.fst).Nodup)
    {m m' : Meaning} (hnow : now.meaning? classes word = some m)
    (hearlier : earlier.meaning? classes word = some m') :
    (m' = m ∧ earlier.typeOf? classes word = now.typeOf? classes word) ∨
      (m' = .field ∧ ∃ older, m = .variable older ∧ earlier.locals.length ≤ older) := by
  obtain ⟨newer, locals⟩ := h.locals
  rw [meaning?, ← locals] at hnow
  rw [meaning?, h.className] at hearlier
  rw [typeOf?, typeOf?, ← locals, h.className, List.lookup_append]
  rcases older?_append word newer earlier.locals with ⟨hidden, same⟩ | ⟨isNew, n, hn, new⟩
  · -- No variable of the name is new.
    rw [same, hearlier] at hnow
    rw [hidden, Option.none_or]
    exact .inl ⟨Option.some.inj hnow, rfl⟩
  · rw [new] at hnow
    obtain rfl := Option.some.inj hnow
    cases hold : older? word earlier.locals with
    | none =>
      rw [hold] at hearlier
      obtain ⟨_, -, rfl⟩ := Option.map_eq_some_iff.1 hearlier
      exact .inr ⟨rfl, n, rfl, hn⟩
    | some i =>
      -- The name would stand among the new variables and among the old ones.
      have isOld : (earlier.locals.lookup word).isSome := by rw [← isSome_older?, hold]; rfl
      rw [← locals, List.map_append, List.nodup_append] at distinct
      exact absurd rfl (distinct.2.2 word (mem_names isNew) word (mem_names isOld))

end Env

/-! ### Points -/

/-- The environment of an earlier state that can be referred to. -/
def Scope.InForce (scope : Scope) : StateLabel → Prop
  | .entry => scope.entry.isSome
  | .named label => scope.hasLabel label.text

instance (scope : Scope) (label : StateLabel) : Decidable (scope.InForce label) := by
  cases label <;> exact inferInstanceAs (Decidable (_ = true))

namespace Point

variable {rules : Rules} {c : Context} {p q r : Point}

/-- The variables at hand were declared under distinct names, and the environments of earlier
states hold the first of them. -/
structure Nested (p : Point) : Prop where
  distinct : (p.scope.env.locals.map Prod.fst).Nodup
  declared : ∀ word ∈ p.scope.env.locals.map Prod.fst, word ∈ p.names
  entry : ∀ env ∈ p.scope.entry, env.Before p.scope.env
  labels : ∀ entry ∈ p.scope.labels, entry.2.Before p.scope.env

/-- In force means looked up. -/
theorem Nested.before (h : p.Nested) {label : StateLabel} (inForce : p.scope.InForce label) :
    (p.scope.envAt label).Before p.scope.env := by
  cases label with
  | entry =>
    obtain ⟨env, henv⟩ := Option.isSome_iff_exists.1 inForce
    rw [Scope.envAt, henv]
    exact h.entry env henv
  | named label =>
    obtain ⟨env, henv⟩ := Option.isSome_iff_exists.1 inForce
    rw [Scope.envAt, henv]
    exact h.labels _ (Check.mem_of_lookup henv)

/-- One point leads to another: what holds of all points still holds, and no name is forgotten. -/
structure Leads (p q : Point) : Prop where
  nested : p.Nested → q.Nested
  names : p.names ⊆ q.names

theorem Leads.refl (p : Point) : p.Leads p := ⟨id, List.Subset.refl _⟩

theorem Leads.trans (h : p.Leads q) (k : q.Leads r) : p.Leads r :=
  ⟨k.nested ∘ h.nested, List.Subset.trans h.names k.names⟩

/-- Behind a block there are more names and the same variables. -/
theorem Leads.block (h : p.names ⊆ q.names) : p.Leads { p with names := q.names } :=
  ⟨fun nested => { nested with declared := fun word hword => h (nested.declared word hword) }, h⟩

theorem leads_declare (p : Point) (name : Name) (type : Ty) : p.Leads (p.declare name type) := by
  unfold declare
  split
  · exact .refl p
  · next hnew =>
    refine ⟨fun h => ?_, List.subset_cons_self _ _⟩
    have later : p.scope.env.Before (p.scope.addLocal name.text type).env :=
      ⟨rfl, rfl, List.suffix_cons _ _⟩
    refine ⟨?_, ?_, fun env henv => (h.entry env henv).trans later,
      fun entry hentry => (h.labels entry hentry).trans later⟩
    · rw [Scope.addLocal, List.map_cons, List.nodup_cons]
      exact ⟨fun hmem => hnew (by simpa using h.declared _ hmem), h.distinct⟩
    · rw [Scope.addLocal, List.map_cons, List.forall_mem_cons]
      exact ⟨List.mem_cons_self, fun word hword => List.mem_cons_of_mem _ (h.declared word hword)⟩

theorem leads_label (p : Point) (name : Name) : p.Leads (p.label name) := by
  unfold label
  split
  · exact .refl p
  · refine ⟨fun h => ⟨h.distinct, h.declared, h.entry, ?_⟩, List.Subset.refl _⟩
    exact List.forall_mem_cons.2 ⟨.refl _, h.labels⟩

end Point

namespace Check

open Point

variable {rules : Rules} {c : Context}

mutual

theorem leads_passed (p : Point) : ∀ s : Statement, p.Leads (passed rules c p s).behind
  | .declare v => by
    rw [passed_declare]
    exact leads_declare p _ _
  | .ghost d v => by
    by_cases h : rules.registry.Holds d
    · rw [passed_ghost h]
      exact leads_declare p _ _
    · rw [passed_ghost_foreign h]
      exact .refl p
  | .assign target e span => by
    rw [passed_assign]
    exact .refl p
  | .labeled label s span => by
    rw [passed_labeled]
    exact (leads_label p label).trans (leads_passed (p.label label) s)
  | .clause k => by
    by_cases h : rules.registry.Holds k.descriptor
    · rw [passed_clause h]
      exact .refl p
    · rw [passed_clause_foreign h]
      exact .refl p
  | .leave value span => by
    rw [passed_leave]
    exact .refl p
  | .expr e => by
    rw [passed_expr]
    exact .refl p
  | .block ss span => by
    rw [passed_block]
    exact .block (q := ⟨p.scope, _⟩) (subset_passedAll p ss)
  | .missing span => by
    rw [passed_missing]
    exact .refl p

/-- Statements that stand one behind the other forget no name. -/
theorem subset_passedAll (p : Point) :
    ∀ ss : List Statement, p.names ⊆ (passedAll rules c p ss).names
  | [] => by
    rw [passedAll_nil]
    exact List.Subset.refl _
  | s :: ss => by
    rw [passedAll_cons]
    exact List.Subset.trans (leads_passed p s).names (subset_passedAll _ ss)

end

theorem leads_behindAll (p : Point) (ss : List Statement) :
    p.Leads (behindAll rules c p ss) := by
  induction ss generalizing p with
  | nil => exact .refl p
  | cons s ss ih => exact (leads_passed p s).trans (ih _)

end Check

namespace Point

variable {rules : Rules} {c : Context}

theorem leads_enterAll (p : Point) (layers : List Statement.Layer) :
    p.Leads (p.enterAll rules c layers) := by
  induction layers generalizing p with
  | nil => exact .refl p
  | cons l layers ih =>
    have first : p.Leads (p.enter rules c l) := by
      cases l with
      | labeled label span => exact leads_label p label
      | block before after span => exact Check.leads_behindAll p before
    exact first.trans (ih _)

theorem leads_params (rules : Rules) (p : Point) (ps : List Param) :
    p.Leads (ps.foldl (param rules) p) := by
  induction ps generalizing p with
  | nil => exact .refl p
  | cons q ps ih => exact (leads_declare p _ _).trans (ih _)

end Point

/-- At the entry of a method its parameters are all there is. -/
theorem Method.nested_entry (rules : Rules) (className : String) (m : Method) :
    (m.entry rules className).Nested := by
  have start : (m.start rules className).Nested :=
    ⟨List.nodup_nil, List.forall_mem_nil _, nofun, List.forall_mem_nil _⟩
  have params := (Point.leads_params rules _ m.params).nested start
  refine ⟨params.distinct, params.declared, fun env henv => ?_, params.labels⟩
  obtain rfl := Option.some.inj henv
  exact .refl _

/-- The check of a unit comes to a statement of one of its methods at a point. -/
def Comes (registry : Registry) (booleanClauses : Bool) (u : CompilationUnit) (p : Point)
    (s : Statement) : Prop :=
  let rules := Check.unitRules registry booleanClauses u
  ∃ d ∈ u.classes, ∃ m, .method m ∈ d.members ∧
    ∃ layers, Statement.wrap layers s = .block m.body.statements m.body.span ∧
      (m.entry rules d.name.text).enterAll rules {} layers = p

theorem Comes.nested {registry : Registry} {booleanClauses : Bool} {u : CompilationUnit}
    {p : Point} {s : Statement} (h : Comes registry booleanClauses u p s) : p.Nested := by
  obtain ⟨d, -, m, -, layers, -, rfl⟩ := h
  let rules := Check.unitRules registry booleanClauses u
  have leads : (m.entry rules d.name.text).Leads
      ((m.entry rules d.name.text).enterAll rules {} layers) := Point.leads_enterAll _ layers
  exact leads.nested (m.nested_entry rules d.name.text)

/-- The check comes to each statement of a body, behind those in front of it. -/
theorem comes_statement (registry : Registry) (booleanClauses : Bool) {u : CompilationUnit}
    {d : Class} (hd : d ∈ u.classes) {m : Method} (hm : m ∈ d.methods)
    (i : Fin m.body.statements.length) {p : Point}
    (hp : Check.behindAll (Check.unitRules registry booleanClauses u) {}
      (m.entry (Check.unitRules registry booleanClauses u) d.name.text)
      (m.body.statements.take i) = p) :
    Comes registry booleanClauses u p (m.body.statements.get i) :=
  ⟨d, hd, m, Class.mem_methods.1 hm, _, Statement.wrap_get _ i _, hp⟩

/-- Whatever is wrong in a unit: a name that is a variable at a statement of a method and in an
earlier state that can be referred to from there is the same variable in both, of the same type,
but that a field may be hidden now by a local variable that was declared since. -/
theorem names_keep_meaning {registry : Registry} {booleanClauses : Bool} {u : CompilationUnit}
    {p : Point} {s : Statement} (comes : Comes registry booleanClauses u p s) {label : StateLabel}
    (inForce : p.scope.InForce label) {word : String} {now earlier : Meaning}
    (hnow : p.scope.env.meaning? (Check.unitRules registry booleanClauses u).classes word =
      some now)
    (hearlier : (p.scope.envAt label).meaning?
      (Check.unitRules registry booleanClauses u).classes word = some earlier) :
    (earlier = now ∧
        (p.scope.envAt label).typeOf? (Check.unitRules registry booleanClauses u).classes word =
          p.scope.env.typeOf? (Check.unitRules registry booleanClauses u).classes word) ∨
      (earlier = .field ∧ ∃ older, now = .variable older ∧
        (p.scope.envAt label).locals.length ≤ older) :=
  (comes.nested.before inForce).meaning comes.nested.distinct hnow hearlier

/-- A parameter and a variable, at a label behind which the variable is declared. -/
theorem names_keep_meaning_label :
    let source := "class C \x7b int f; void m(int a) \x7b L: a = f; int x = a; " ++
      "assert \\old(a, L) == x; \x7d \x7d"
    let u := (parseUnit .standard source).unit
    let classes := (Check.unitRules .standard true u).classes
    let label : StateLabel := .named ⟨"L", ⟨0, 0⟩⟩
    ∃ p s, Comes .standard true u p s ∧ p.scope.InForce label ∧
      p.scope.env.meaning? classes "a" = some (.variable 0) ∧
      (p.scope.envAt label).meaning? classes "a" = some (.variable 0) ∧
      (p.scope.envAt label).typeOf? classes "a" = p.scope.env.typeOf? classes "a" := by
  intro source u classes label
  let d := u.classes.get ⟨0, by decide +kernel⟩
  let m := d.methods.get ⟨0, by decide +kernel⟩
  obtain ⟨p, hp⟩ : ∃ p, Check.behindAll (Check.unitRules .standard true u) {}
      (m.entry (Check.unitRules .standard true u) d.name.text) (m.body.statements.take 2) = p :=
    ⟨_, rfl⟩
  have comes := comes_statement .standard true (List.get_mem u.classes _)
    (List.get_mem d.methods _) ⟨2, by decide +kernel⟩ hp
  have evaluated : p.scope.InForce label ∧ p.scope.env.meaning? classes "a" = some (.variable 0) ∧
      (p.scope.envAt label).meaning? classes "a" = some (.variable 0) := by
    rw [← hp]
    decide +kernel
  obtain ⟨inForce, now, earlier⟩ := evaluated
  have kept := names_keep_meaning comes inForce now earlier
  exact ⟨p, _, comes, inForce, now, earlier, (kept.resolve_right fun h => nomatch h.1).2⟩

/-- A variable hides a field in the middle of a method, and nothing is reported: at the statement
behind it the name is the variable, as of the entry of the method it is the field. -/
theorem shadowing_changes_meaning :
    let source := "class C \x7b boolean x; void m() \x7b int x = 1; assert \\old(x); \x7d \x7d"
    let u := (parseUnit .standard source).unit
    let classes := (Check.unitRules .standard true u).classes
    checkSource .standard "input.spec" source {} = .ok ⟨"input.spec", [], [], 0⟩ ∧
      ∃ p s, Comes .standard true u p s ∧ p.scope.InForce .entry ∧
        p.scope.env.meaning? classes "x" = some (.variable 0) ∧
        p.scope.env.typeOf? classes "x" = some .int ∧
        (p.scope.envAt .entry).meaning? classes "x" = some .field ∧
        (p.scope.envAt .entry).typeOf? classes "x" = some .boolean := by
  intro source u classes
  let d := u.classes.get ⟨0, by decide +kernel⟩
  let m := d.methods.get ⟨0, by decide +kernel⟩
  have comes := comes_statement .standard true (List.get_mem u.classes _ : d ∈ u.classes)
    (List.get_mem d.methods _ : m ∈ d.methods) ⟨1, by decide +kernel⟩ rfl
  refine ⟨by decide +kernel, _, _, comes, ?_⟩
  decide +kernel

end Contracts
