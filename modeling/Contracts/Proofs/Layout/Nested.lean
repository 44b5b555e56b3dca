import Contracts.Proofs.Layout.Spans

/-! Trees whose spans nest. The parts of a tree stand one behind another within the range of
the tree (`Laid`), and so do the parts of every part. Such a tree does not change when spans
that run backwards are made empty (`CompilationUnit.mapSpans_of_nested`), since it has none. -/

namespace Contracts

/-- The ranges stand one behind another between two offsets, and none runs backwards. -/
def Laid : Nat → List Span → Nat → Prop
  | lo, [], hi => lo ≤ hi
  | lo, s :: ss, hi => lo ≤ s.start ∧ s.start ≤ s.stop ∧ Laid s.stop ss hi

namespace Laid

variable {lo lo' mid hi hi' : Nat} {s t : Span} {ss ts : List Span}

theorem le (h : Laid lo ss hi) : lo ≤ hi := by
  induction ss generalizing lo with
  | nil => exact h
  | cons s ss ih => exact h.1.trans (h.2.1.trans (ih h.2.2))

/-- The bounds may be wider. -/
theorem mono (h : Laid lo ss hi) (hlo : lo' ≤ lo) (hhi : hi ≤ hi') : Laid lo' ss hi' := by
  induction ss generalizing lo lo' with
  | nil => exact hlo.trans (Nat.le_trans h hhi)
  | cons s ss ih => exact ⟨hlo.trans h.1, h.2.1, ih h.2.2 le_rfl⟩

theorem append (h : Laid lo ss mid) (k : Laid mid ts hi) : Laid lo (ss ++ ts) hi := by
  induction ss generalizing lo with
  | nil => exact k.mono h le_rfl
  | cons s ss ih => exact ⟨h.1, h.2.1, ih h.2.2⟩

theorem of_sublist (h : Laid lo ss hi) (sub : ts.Sublist ss) : Laid lo ts hi := by
  induction sub generalizing lo with
  | slnil => exact h
  | cons s _ ih => exact (ih h.2.2).mono (h.1.trans h.2.1) le_rfl
  | cons_cons s _ ih => exact ⟨h.1, h.2.1, ih h.2.2⟩

theorem mk {lo start stop hi : Nat} (first : lo ≤ start) (ordered : start ≤ stop)
    (last : stop ≤ hi) : Laid lo [⟨start, stop⟩] hi := ⟨first, ordered, last⟩

/-- The range from the first part to a later end holds all parts. -/
theorem cover {stop : Nat} (h : Laid lo (s :: ss) hi) (hstop : hi ≤ stop) :
    Laid lo [⟨s.start, stop⟩] stop ∧ Laid s.start (s :: ss) stop := by
  have inner : Laid s.start (s :: ss) stop := Laid.mono ⟨le_rfl, h.2⟩ le_rfl hstop
  exact ⟨⟨h.1, inner.le, le_rfl⟩, inner⟩

/-- The first part need not be one. -/
theorem cover_behind {stop : Nat} (h : Laid lo (s :: ss) hi) (hstop : hi ≤ stop) :
    Laid lo [⟨s.start, stop⟩] stop ∧ Laid s.start ss stop :=
  ⟨(h.cover hstop).1, (h.cover hstop).2.of_sublist (List.sublist_cons_self _ _)⟩

/-- Two ranges stand in their union. -/
theorem union (h : Laid lo [s, t] hi) :
    Laid lo [s.union t] hi ∧ Laid (s.union t).start [s, t] (s.union t).stop := by
  obtain ⟨hs, ss, st, tt, ht⟩ := h
  have start : min s.start t.start = s.start := min_eq_left (ss.trans st)
  have stop : max s.stop t.stop = t.stop := max_eq_right (st.trans tt)
  rw [Span.union, start, stop]
  exact ⟨⟨hs, ss.trans (st.trans tt), ht⟩, le_rfl, ss, st, tt, le_rfl⟩

/-- Every range stands between the bounds. -/
theorem within (h : Laid lo ss hi) :
    ∀ s ∈ ss, lo ≤ s.start ∧ s.start ≤ s.stop ∧ s.stop ≤ hi := by
  induction ss generalizing lo with
  | nil => exact fun _ hs => nomatch hs
  | cons s ss ih =>
    refine List.forall_mem_cons.2 ⟨⟨h.1, h.2.1, h.2.2.le⟩, fun t ht => ?_⟩
    obtain ⟨first, rest⟩ := ih h.2.2 t ht
    exact ⟨h.1.trans (h.2.1.trans first), rest⟩

/-- None of the ranges runs backwards. -/
theorem ordered (h : Laid lo ss hi) : ∀ s ∈ ss, s.start ≤ s.stop :=
  fun s hs => (h.within s hs).2.1

/-- Each range ends before those behind it start. -/
theorem pairwise (h : Laid lo ss hi) : ss.Pairwise fun s t => s.stop ≤ t.start := by
  induction ss generalizing lo with
  | nil => exact .nil
  | cons s ss ih => exact .cons (fun t ht => (h.2.2.within t ht).1) (ih h.2.2)

end Laid

/-! ### Expressions -/

namespace Expr

def Nested : Expr → Prop
  | name n => n.span.start ≤ n.span.stop
  | int _ s => s.start ≤ s.stop
  | bool _ s => s.start ≤ s.stop
  | result s => s.start ≤ s.stop
  | binary _ left right s =>
    Laid s.start [left.span, right.span] s.stop ∧ left.Nested ∧ right.Nested
  | unary _ operand s => Laid s.start [operand.span] s.stop ∧ operand.Nested
  | field base n s => Laid s.start [base.span, n.span] s.stop ∧ base.Nested
  | call callee args s =>
    Laid s.start (callee.span :: args.map span) s.stop ∧ callee.Nested ∧ listNested args
  | state head args _ =>
    Laid head.span.start (head.keywordSpan :: (head.typeArgs.map (·.span) ++ args.map span))
        head.span.stop ∧ listNested args
  | missing s => s.start ≤ s.stop
where
  listNested : List Expr → Prop
    | [] => True
    | e :: es => e.Nested ∧ listNested es

theorem listNested_of_forall {es : List Expr} (h : ∀ e ∈ es, e.Nested) : Nested.listNested es := by
  induction es with
  | nil => trivial
  | cons e es ih =>
    obtain ⟨head, tail⟩ := List.forall_mem_cons.1 h
    exact ⟨head, ih tail⟩

end Expr

/-- The ranges of a value behind `=`, if there is one. -/
def initSpans (init : Option Expr) : List Span := (init.map Expr.span).toList

/-! ### Statements -/

structure Variable.Nested (v : Variable) : Prop where
  parts : Laid v.span.start (v.type.span :: v.name.span :: initSpans v.init) v.span.stop
  init : ∀ e ∈ v.init, e.Nested

structure SpecClause.Nested (c : SpecClause) : Prop where
  parts : Laid c.span.start [c.expr.span] c.span.stop
  expr : c.expr.Nested

namespace Statement

def span : Statement → Span
  | declare decl => decl.span
  | ghost _ decl => decl.span
  | assign _ _ s => s
  | labeled _ _ s => s
  | clause c => c.span
  | leave _ s => s
  | expr e => e.span
  | block _ s => s
  | missing s => s

def Nested : Statement → Prop
  | declare decl => decl.Nested
  | ghost _ decl => decl.Nested
  | assign target value s => Laid s.start [target.span, value.span] s.stop ∧ value.Nested
  | labeled label body s => Laid s.start [label.span, body.span] s.stop ∧ body.Nested
  | clause c => c.Nested
  | leave value s => Laid s.start (initSpans value) s.stop ∧ ∀ e ∈ value, e.Nested
  | expr e => e.Nested
  | block statements s => Laid s.start (statements.map span) s.stop ∧ listNested statements
  | missing s => s.start ≤ s.stop
where
  listNested : List Statement → Prop
    | [] => True
    | s :: ss => s.Nested ∧ listNested ss

theorem listNested_of_forall {ss : List Statement} (h : ∀ s ∈ ss, s.Nested) :
    Nested.listNested ss := by
  induction ss with
  | nil => trivial
  | cons s ss ih =>
    obtain ⟨head, tail⟩ := List.forall_mem_cons.1 h
    exact ⟨head, ih tail⟩

end Statement

structure Block.Nested (b : Block) : Prop where
  parts : Laid b.span.start (b.statements.map (·.span)) b.span.stop
  statements : Statement.Nested.listNested b.statements

/-! ### Members -/

structure Field.Nested (x : Field) : Prop where
  parts : Laid x.span.start (x.type.span :: x.name.span :: initSpans x.init) x.span.stop
  init : ∀ e ∈ x.init, e.Nested

/-- The ranges of what a frame lists. -/
def Frame.spans : Frame → List Span
  | everything s => [s]
  | methods names => names.map (·.span)

/-- The ranges of a frame, if there is one. -/
def frameSpans (frame : Option Frame) : List Span := (frame.map Frame.spans).getD []

structure TypeClause.Nested (c : TypeClause) : Prop where
  parts : Laid c.span.start (c.expr.span :: frameSpans c.frame) c.span.stop
  expr : c.expr.Nested

def Param.Nested (p : Param) : Prop := Laid p.span.start [p.type.span, p.name.span] p.span.stop

structure SpecCase.Nested (c : SpecCase) : Prop where
  parts : Laid c.span.start (c.clauses.map (·.span)) c.span.stop
  clauses : ∀ s ∈ c.clauses, s.Nested

structure Method.Nested (m : Method) : Prop where
  parts : Laid m.span.start
    (m.cases.map (·.span) ++
      m.returnType.span :: m.name.span :: (m.params.map (·.span) ++ [m.body.span])) m.span.stop
  cases : ∀ c ∈ m.cases, c.Nested
  params : ∀ p ∈ m.params, p.Nested
  body : m.body.Nested

namespace Member

def span : Member → Span
  | field x => x.span
  | clause c => c.span
  | method m => m.span

def Nested : Member → Prop
  | field x => x.Nested
  | clause c => c.Nested
  | method m => m.Nested

end Member

/-! ### Units -/

structure Class.Nested (c : Class) : Prop where
  parts : Laid c.span.start (c.name.span :: c.members.map (·.span)) c.span.stop
  members : ∀ m ∈ c.members, m.Nested

structure CompilationUnit.Nested (u : CompilationUnit) : Prop where
  parts : ∃ hi, Laid 0 (u.classes.map (·.span)) hi
  classes : ∀ c ∈ u.classes, c.Nested

/-! ### Spans that do not run backwards -/

theorem map_fixed {α : Type} {g : α → α} {as : List α} (h : ∀ a ∈ as, g a = a) : as.map g = as :=
  (List.map_congr_left h).trans (List.map_id' as)

/-- The change of spans leaves those alone that do not run backwards. -/
def Span.Fixes (f : Span → Span) : Prop := ∀ s : Span, s.start ≤ s.stop → f s = s

section

variable {f : Span → Span} (fixed : Span.Fixes f)

include fixed

theorem Name.mapSpans_of_le {n : Name} (h : n.span.start ≤ n.span.stop) : n.mapSpans f = n := by
  rw [mapSpans, fixed _ h]

theorem Name.map_mapSpans_of_laid {names : List Name} {lo hi : Nat}
    (h : Laid lo (names.map (·.span)) hi) : names.map (·.mapSpans f) = names := by
  refine map_fixed fun n hn => Name.mapSpans_of_le fixed ?_
  exact h.ordered _ (List.mem_map_of_mem hn)

end

mutual

theorem Expr.mapSpans_of_nested {f : Span → Span} (fixed : Span.Fixes f) :
    ∀ e : Expr, e.Nested → e.mapSpans f = e
  | name _, h => by rw [mapSpans, Name.mapSpans_of_le fixed h]
  | int _ _, h => by rw [mapSpans, fixed _ h]
  | bool _ _, h => by rw [mapSpans, fixed _ h]
  | result _, h => by rw [mapSpans, fixed _ h]
  | binary _ left right _, ⟨parts, hleft, hright⟩ => by
    rw [mapSpans, mapSpans_of_nested fixed left hleft, mapSpans_of_nested fixed right hright,
      fixed _ parts.le]
  | unary _ operand _, ⟨parts, h⟩ => by
    rw [mapSpans, mapSpans_of_nested fixed operand h, fixed _ parts.le]
  | field base n _, ⟨parts, h⟩ => by
    rw [mapSpans, mapSpans_of_nested fixed base h, Name.mapSpans_of_le fixed parts.2.2.2.1,
      fixed _ parts.le]
  | call callee args _, ⟨parts, hcallee, hargs⟩ => by
    rw [mapSpans, mapSpans_of_nested fixed callee hcallee, mapSpans_mapList,
      map_mapSpans_of_nested fixed args hargs, fixed _ parts.le]
  | state head args _, ⟨parts, hargs⟩ => by
    have ordered := parts.ordered
    rw [List.forall_mem_cons, List.forall_mem_append] at ordered
    have names : head.typeArgs.map (·.mapSpans f) = head.typeArgs :=
      map_fixed fun n hn => Name.mapSpans_of_le fixed (ordered.2.1 _ (List.mem_map_of_mem hn))
    rw [mapSpans, mapSpans_mapList, map_mapSpans_of_nested fixed args hargs, StateHead.mapSpans,
      names, fixed _ parts.le, fixed _ ordered.1]
  | missing _, h => by rw [mapSpans, fixed _ h]

theorem Expr.map_mapSpans_of_nested {f : Span → Span} (fixed : Span.Fixes f) :
    ∀ es : List Expr, Nested.listNested es → es.map (Expr.mapSpans f) = es
  | [], _ => rfl
  | e :: es, h => by
    rw [List.map_cons, mapSpans_of_nested fixed e h.1, map_mapSpans_of_nested fixed es h.2]

end

section

variable {f : Span → Span} (fixed : Span.Fixes f)

include fixed

theorem Expr.option_mapSpans_of_nested {init : Option Expr} (h : ∀ e ∈ init, e.Nested) :
    init.map (Expr.mapSpans f) = init := by
  cases init with
  | none => rfl
  | some e => rw [Option.map_some, e.mapSpans_of_nested fixed (h e rfl)]

theorem Variable.mapSpans_of_nested {v : Variable} (h : v.Nested) : v.mapSpans f = v := by
  have ordered := h.parts.ordered
  rw [List.forall_mem_cons, List.forall_mem_cons] at ordered
  rw [mapSpans, Name.mapSpans_of_le fixed ordered.1, Name.mapSpans_of_le fixed ordered.2.1,
    Expr.option_mapSpans_of_nested fixed h.init, fixed _ h.parts.le]

theorem SpecClause.mapSpans_of_nested {c : SpecClause} (h : c.Nested) : c.mapSpans f = c := by
  rw [mapSpans, c.expr.mapSpans_of_nested fixed h.expr, fixed _ h.parts.le]

end

mutual

theorem Statement.mapSpans_of_nested {f : Span → Span} (fixed : Span.Fixes f) :
    ∀ s : Statement, s.Nested → s.mapSpans f = s
  | declare _, h => by rw [mapSpans, Variable.mapSpans_of_nested fixed h]
  | ghost _ _, h => by rw [mapSpans, Variable.mapSpans_of_nested fixed h]
  | assign _ value _, ⟨parts, h⟩ => by
    rw [mapSpans, Name.mapSpans_of_le fixed parts.2.1, value.mapSpans_of_nested fixed h,
      fixed _ parts.le]
  | labeled _ body _, ⟨parts, h⟩ => by
    rw [mapSpans, Name.mapSpans_of_le fixed parts.2.1, mapSpans_of_nested fixed body h,
      fixed _ parts.le]
  | clause _, h => by rw [mapSpans, SpecClause.mapSpans_of_nested fixed h]
  | leave _ _, ⟨parts, h⟩ => by
    rw [mapSpans, Expr.option_mapSpans_of_nested fixed h, fixed _ parts.le]
  | expr e, h => by rw [mapSpans, e.mapSpans_of_nested fixed h]
  | block statements _, ⟨parts, h⟩ => by
    rw [mapSpans, mapSpans_mapList, map_mapSpans_of_nested fixed statements h, fixed _ parts.le]
  | missing _, h => by rw [mapSpans, fixed _ h]

theorem Statement.map_mapSpans_of_nested {f : Span → Span} (fixed : Span.Fixes f) :
    ∀ ss : List Statement, Nested.listNested ss → ss.map (Statement.mapSpans f) = ss
  | [], _ => rfl
  | s :: ss, h => by
    rw [List.map_cons, mapSpans_of_nested fixed s h.1, map_mapSpans_of_nested fixed ss h.2]

end

section

variable {f : Span → Span} (fixed : Span.Fixes f)

include fixed

theorem Block.mapSpans_of_nested {b : Block} (h : b.Nested) : b.mapSpans f = b := by
  rw [mapSpans, Statement.map_mapSpans_of_nested fixed _ h.statements, fixed _ h.parts.le]

theorem Field.mapSpans_of_nested {x : Field} (h : x.Nested) : x.mapSpans f = x := by
  have ordered := h.parts.ordered
  rw [List.forall_mem_cons, List.forall_mem_cons] at ordered
  rw [mapSpans, Name.mapSpans_of_le fixed ordered.1, Name.mapSpans_of_le fixed ordered.2.1,
    Expr.option_mapSpans_of_nested fixed h.init, fixed _ h.parts.le]

theorem Frame.mapSpans_of_laid {frame : Option Frame} {lo hi : Nat}
    (h : Laid lo (frameSpans frame) hi) : frame.map (·.mapSpans f) = frame := by
  cases frame with
  | none => rfl
  | some frame =>
    cases frame with
    | everything s => rw [Option.map_some, mapSpans, fixed _ h.2.1]
    | methods names => rw [Option.map_some, mapSpans, Name.map_mapSpans_of_laid fixed h]

theorem TypeClause.mapSpans_of_nested {c : TypeClause} (h : c.Nested) : c.mapSpans f = c := by
  rw [mapSpans, c.expr.mapSpans_of_nested fixed h.expr,
    Frame.mapSpans_of_laid fixed h.parts.2.2, fixed _ h.parts.le]

theorem Param.mapSpans_of_nested {p : Param} (h : p.Nested) : p.mapSpans f = p := by
  rw [mapSpans, Name.mapSpans_of_le fixed h.2.1, Name.mapSpans_of_le fixed h.2.2.2.1,
    fixed _ h.le]

theorem SpecCase.mapSpans_of_nested {c : SpecCase} (h : c.Nested) : c.mapSpans f = c := by
  rw [mapSpans, map_fixed fun s hs => SpecClause.mapSpans_of_nested fixed (h.clauses s hs),
    fixed _ h.parts.le]

theorem Method.mapSpans_of_nested {m : Method} (h : m.Nested) : m.mapSpans f = m := by
  have ordered := h.parts.ordered
  rw [List.forall_mem_append, List.forall_mem_cons, List.forall_mem_cons] at ordered
  rw [mapSpans, Name.mapSpans_of_le fixed ordered.2.1, Name.mapSpans_of_le fixed ordered.2.2.1,
    map_fixed fun p hp => Param.mapSpans_of_nested fixed (h.params p hp),
    map_fixed fun c hc => SpecCase.mapSpans_of_nested fixed (h.cases c hc),
    Block.mapSpans_of_nested fixed h.body, fixed _ h.parts.le]

theorem Member.mapSpans_of_nested {m : Member} (h : m.Nested) : m.mapSpans f = m := by
  cases m with
  | field x => rw [mapSpans, Field.mapSpans_of_nested fixed h]
  | clause c => rw [mapSpans, TypeClause.mapSpans_of_nested fixed h]
  | method m => rw [mapSpans, Method.mapSpans_of_nested fixed h]

theorem Class.mapSpans_of_nested {c : Class} (h : c.Nested) : c.mapSpans f = c := by
  rw [mapSpans, Name.mapSpans_of_le fixed h.parts.2.1,
    map_fixed fun m hm => Member.mapSpans_of_nested fixed (h.members m hm), fixed _ h.parts.le]

/-- A change of spans that leaves those alone that do not run backwards leaves a nested tree
alone. -/
theorem CompilationUnit.mapSpans_of_nested {u : CompilationUnit} (h : u.Nested) :
    u.mapSpans f = u := by
  rw [mapSpans, map_fixed fun c hc => Class.mapSpans_of_nested fixed (h.classes c hc)]

end

end Contracts
