import Contracts.Proofs.Layout.Locations

/-! What is left of a tree when only its spans are kept: each node has a span and parts, down to
single names and written types. The outline of a unit that is read nests, whether or not there
were syntax errors (`outlines_parseUnit`): no span runs backwards, the parts of a node stand
within it, and each part ends before the next one starts. -/

namespace Contracts

/-- A span with the outlines of its parts, in the order of the tree. -/
inductive Outline
  | node (span : Span) (parts : List Outline)

namespace Outline

def span : Outline → Span
  | node s _ => s

def parts : Outline → List Outline
  | node _ ps => ps

/-- The outline of what has no parts. -/
def leaf (s : Span) : Outline := node s []

/-- The outline itself, its parts, their parts and so on. -/
def nodes : Outline → List Outline
  | node s ps => node s ps :: listNodes ps
where
  listNodes : List Outline → List Outline
    | [] => []
    | p :: ps => p.nodes ++ listNodes ps

@[simp] theorem span_node (s : Span) (ps : List Outline) : (node s ps).span = s := rfl

@[simp] theorem span_leaf (s : Span) : (leaf s).span = s := rfl

/-- The parts of a node stand one behind another within it, and so do those of each part. -/
inductive Nested : Outline → Prop
  | node {s : Span} {ps : List Outline} (laid : Laid s.start (ps.map span) s.stop)
    (parts : ∀ p ∈ ps, Nested p) : Nested (node s ps)

namespace Nested

theorem leaf {s : Span} (h : s.start ≤ s.stop) : (leaf s).Nested := .node h (List.forall_mem_nil _)

theorem laid {o : Outline} : o.Nested → Laid o.span.start (o.parts.map span) o.span.stop
  | .node h _ => h

mutual

theorem of_mem_nodes : ∀ o : Outline, o.Nested → ∀ n ∈ o.nodes, n.Nested
  | .node _ ps, .node laid parts => by
    rw [nodes]
    exact List.forall_mem_cons.2 ⟨.node laid parts, of_mem_listNodes ps parts⟩

theorem of_mem_listNodes :
    ∀ ps : List Outline, (∀ p ∈ ps, p.Nested) → ∀ n ∈ nodes.listNodes ps, n.Nested
  | [], _ => List.forall_mem_nil _
  | p :: ps, h => by
    obtain ⟨head, tail⟩ := List.forall_mem_cons.1 h
    rw [nodes.listNodes, List.forall_mem_append]
    exact ⟨of_mem_nodes p head, of_mem_listNodes ps tail⟩

end

end Nested

end Outline

/-- The outlines of words that stand in a row. -/
def Name.outlines (names : List Name) : List Outline := names.map fun n => .leaf n.span

theorem Name.map_span_outlines (names : List Name) :
    (outlines names).map (·.span) = names.map (·.span) := List.map_map

theorem Name.nested_outlines {names : List Name} {lo hi : Nat}
    (h : Laid lo (names.map (·.span)) hi) : ∀ o ∈ outlines names, o.Nested :=
  List.forall_mem_map.2 fun _ hn => .leaf (h.ordered _ (List.mem_map_of_mem hn))

/-! ### Expressions -/

namespace Expr

def outline : Expr → Outline
  | name n => .leaf n.span
  | int _ s => .leaf s
  | bool _ s => .leaf s
  | result s => .leaf s
  | binary _ left right s => .node s [left.outline, right.outline]
  | unary _ operand s => .node s [operand.outline]
  | field base n s => .node s [base.outline, .leaf n.span]
  | call callee args s => .node s (callee.outline :: outlines args)
  | state head args _ =>
    .node head.span (.leaf head.keywordSpan :: (Name.outlines head.typeArgs ++ outlines args))
  | missing s => .leaf s
where
  outlines : List Expr → List Outline
    | [] => []
    | e :: es => e.outline :: outlines es

@[simp] theorem span_outline (e : Expr) : e.outline.span = e.span := by cases e <;> rfl

@[simp] theorem map_span_outlines (es : List Expr) :
    (outline.outlines es).map (·.span) = es.map (·.span) := by
  induction es with
  | nil => rfl
  | cons e es ih => rw [outline.outlines, List.map_cons, ih, span_outline, List.map_cons]

mutual

theorem nested_outline : ∀ e : Expr, e.Nested → e.outline.Nested
  | name _, h => .leaf h
  | int _ _, h => .leaf h
  | bool _ _, h => .leaf h
  | result _, h => .leaf h
  | binary _ left right _, ⟨laid, hleft, hright⟩ => by
    refine .node (by simpa using laid) ?_
    simpa using ⟨nested_outline left hleft, nested_outline right hright⟩
  | unary _ operand _, ⟨laid, h⟩ => by
    refine .node (by simpa using laid) ?_
    simpa using nested_outline operand h
  | field base _ _, ⟨laid, h⟩ => by
    refine .node (by simpa using laid) ?_
    simpa using ⟨nested_outline base h, Outline.Nested.leaf laid.2.2.2.1⟩
  | call callee args _, ⟨laid, hcallee, hargs⟩ => by
    refine .node (by simpa using laid) ?_
    exact List.forall_mem_cons.2 ⟨nested_outline callee hcallee, nested_outlines args hargs⟩
  | state _ args _, ⟨laid, hargs⟩ => by
    refine .node (by simpa [Name.map_span_outlines] using laid) ?_
    rw [List.forall_mem_cons, List.forall_mem_append]
    refine ⟨.leaf laid.2.1, ?_, nested_outlines args hargs⟩
    exact Name.nested_outlines (laid.2.2.of_sublist (List.sublist_append_left _ _))
  | missing _, h => .leaf h

theorem nested_outlines :
    ∀ es : List Expr, Nested.listNested es → ∀ o ∈ outline.outlines es, o.Nested
  | [], _ => List.forall_mem_nil _
  | e :: es, h => List.forall_mem_cons.2 ⟨nested_outline e h.1, nested_outlines es h.2⟩

end

/-- The outline of a value behind `=`, if there is one. -/
def initOutlines (init : Option Expr) : List Outline := (init.map outline).toList

@[simp] theorem map_span_initOutlines (init : Option Expr) :
    (initOutlines init).map (·.span) = initSpans init := by
  cases init with
  | none => rfl
  | some e => exact congrArg (· :: []) e.span_outline

theorem nested_initOutlines {init : Option Expr} (h : ∀ e ∈ init, e.Nested) :
    ∀ o ∈ initOutlines init, o.Nested := by
  cases init with
  | none => exact List.forall_mem_nil _
  | some e => exact List.forall_mem_singleton.2 (e.nested_outline (h e rfl))

end Expr

/-! ### Statements -/

def Variable.outline (v : Variable) : Outline :=
  .node v.span (.leaf v.type.span :: .leaf v.name.span :: Expr.initOutlines v.init)

theorem Variable.nested_outline {v : Variable} (h : v.Nested) : v.outline.Nested := by
  refine .node (by simpa using h.parts) ?_
  rw [List.forall_mem_cons, List.forall_mem_cons]
  exact ⟨.leaf h.parts.2.1, .leaf h.parts.2.2.2.1, Expr.nested_initOutlines h.init⟩

def SpecClause.outline (c : SpecClause) : Outline := .node c.span [c.expr.outline]

theorem SpecClause.nested_outline {c : SpecClause} (h : c.Nested) : c.outline.Nested := by
  refine .node (by simpa using h.parts) ?_
  exact List.forall_mem_singleton.2 (c.expr.nested_outline h.expr)

namespace Statement

def outline : Statement → Outline
  | declare decl => decl.outline
  | ghost _ decl => decl.outline
  | assign target value s => .node s [.leaf target.span, value.outline]
  | labeled label body s => .node s [.leaf label.span, body.outline]
  | clause c => c.outline
  | leave value s => .node s (Expr.initOutlines value)
  | expr e => e.outline
  | block statements s => .node s (outlines statements)
  | missing s => .leaf s
where
  outlines : List Statement → List Outline
    | [] => []
    | s :: ss => s.outline :: outlines ss

@[simp] theorem span_outline (s : Statement) : s.outline.span = s.span := by
  cases s with
  | expr e => exact e.span_outline
  | _ => rfl

@[simp] theorem map_span_outlines (ss : List Statement) :
    (outline.outlines ss).map (·.span) = ss.map (·.span) := by
  induction ss with
  | nil => rfl
  | cons s ss ih => rw [outline.outlines, List.map_cons, ih, span_outline, List.map_cons]

mutual

theorem nested_outline : ∀ s : Statement, s.Nested → s.outline.Nested
  | declare _, h => Variable.nested_outline h
  | ghost _ _, h => Variable.nested_outline h
  | assign _ value _, ⟨laid, h⟩ => by
    refine .node (by simpa using laid) ?_
    simpa using ⟨Outline.Nested.leaf laid.2.1, value.nested_outline h⟩
  | labeled _ body _, ⟨laid, h⟩ => by
    refine .node (by simpa using laid) ?_
    simpa using ⟨Outline.Nested.leaf laid.2.1, nested_outline body h⟩
  | clause _, h => SpecClause.nested_outline h
  | leave _ _, ⟨laid, h⟩ => .node (by simpa using laid) (Expr.nested_initOutlines h)
  | expr e, h => e.nested_outline h
  | block statements _, ⟨laid, h⟩ => .node (by simpa using laid) (nested_outlines statements h)
  | missing _, h => .leaf h

theorem nested_outlines :
    ∀ ss : List Statement, Nested.listNested ss → ∀ o ∈ outline.outlines ss, o.Nested
  | [], _ => List.forall_mem_nil _
  | s :: ss, h => List.forall_mem_cons.2 ⟨nested_outline s h.1, nested_outlines ss h.2⟩

end

end Statement

def Block.outline (b : Block) : Outline :=
  .node b.span (Statement.outline.outlines b.statements)

theorem Block.nested_outline {b : Block} (h : b.Nested) : b.outline.Nested :=
  .node (by simpa using h.parts) (Statement.nested_outlines _ h.statements)

/-! ### Members -/

def Field.outline (x : Field) : Outline :=
  .node x.span (.leaf x.type.span :: .leaf x.name.span :: Expr.initOutlines x.init)

theorem Field.nested_outline {x : Field} (h : x.Nested) : x.outline.Nested := by
  refine .node (by simpa using h.parts) ?_
  rw [List.forall_mem_cons, List.forall_mem_cons]
  exact ⟨.leaf h.parts.2.1, .leaf h.parts.2.2.2.1, Expr.nested_initOutlines h.init⟩

/-- The outlines of what the frame of a constraint lists, if it has one. -/
def frameOutlines (frame : Option Frame) : List Outline := (frameSpans frame).map .leaf

def TypeClause.outline (c : TypeClause) : Outline :=
  .node c.span (c.expr.outline :: frameOutlines c.frame)

theorem TypeClause.nested_outline {c : TypeClause} (h : c.Nested) : c.outline.Nested := by
  refine .node (by simpa [frameOutlines, Function.comp_def] using h.parts) ?_
  refine List.forall_mem_cons.2 ⟨c.expr.nested_outline h.expr, List.forall_mem_map.2 ?_⟩
  exact fun s hs => .leaf (h.parts.2.2.ordered s hs)

def Param.outline (p : Param) : Outline := .node p.span [.leaf p.type.span, .leaf p.name.span]

theorem Param.nested_outline {p : Param} (h : p.Nested) : p.outline.Nested := by
  refine .node h ?_
  simpa using ⟨Outline.Nested.leaf h.2.1, Outline.Nested.leaf h.2.2.2.1⟩

def SpecCase.outline (c : SpecCase) : Outline :=
  .node c.span (c.clauses.map SpecClause.outline)

theorem SpecCase.nested_outline {c : SpecCase} (h : c.Nested) : c.outline.Nested := by
  refine .node (by simpa [Function.comp_def, SpecClause.outline] using h.parts) ?_
  exact List.forall_mem_map.2 fun s hs => SpecClause.nested_outline (h.clauses s hs)

def Method.outline (m : Method) : Outline :=
  .node m.span
    (m.cases.map SpecCase.outline ++ .leaf m.returnType.span :: .leaf m.name.span ::
      (m.params.map Param.outline ++ [m.body.outline]))

theorem Method.nested_outline {m : Method} (h : m.Nested) : m.outline.Nested := by
  refine .node ?_ ?_
  · simpa [Function.comp_def, SpecCase.outline, Param.outline, Block.outline] using h.parts
  · have ordered := h.parts.ordered
    rw [List.forall_mem_append, List.forall_mem_cons, List.forall_mem_cons] at ordered
    rw [List.forall_mem_append, List.forall_mem_cons, List.forall_mem_cons,
      List.forall_mem_append]
    refine ⟨List.forall_mem_map.2 fun c hc => SpecCase.nested_outline (h.cases c hc),
      .leaf ordered.2.1, .leaf ordered.2.2.1, ?_, ?_⟩
    · exact List.forall_mem_map.2 fun p hp => Param.nested_outline (h.params p hp)
    · exact List.forall_mem_singleton.2 (Block.nested_outline h.body)

namespace Member

def outline : Member → Outline
  | field x => x.outline
  | clause c => c.outline
  | method m => m.outline

@[simp] theorem span_outline (m : Member) : m.outline.span = m.span := by cases m <;> rfl

theorem nested_outline {m : Member} (h : m.Nested) : m.outline.Nested := by
  cases m with
  | field x => exact Field.nested_outline h
  | clause c => exact TypeClause.nested_outline h
  | method m => exact Method.nested_outline h

end Member

/-! ### Units -/

def Class.outline (c : Class) : Outline :=
  .node c.span (.leaf c.name.span :: c.members.map Member.outline)

theorem Class.nested_outline {c : Class} (h : c.Nested) : c.outline.Nested := by
  refine .node (by simpa [Function.comp_def] using h.parts) ?_
  refine List.forall_mem_cons.2 ⟨.leaf h.parts.2.1, List.forall_mem_map.2 ?_⟩
  exact fun m hm => Member.nested_outline (h.members m hm)

/-- The outlines of the classes of a unit; the unit itself has no span. -/
def CompilationUnit.outlines (u : CompilationUnit) : List Outline := u.classes.map Class.outline

/-- The spans of a unit that is read nest, for every text and every registry, also where the text
has syntax errors. The classes stand one behind another; and for every node of the tree, its span
does not run backwards, every part of it stands within it, and each part ends before the parts
behind it start. -/
theorem outlines_parseUnit (registry : Registry) (source : String) :
    ((parseUnit registry source).unit.outlines.Pairwise fun o p => o.span.stop ≤ p.span.start) ∧
      ∀ o ∈ (parseUnit registry source).unit.outlines.flatMap Outline.nodes,
        o.span.start ≤ o.span.stop ∧
          (∀ p ∈ o.parts, o.span.start ≤ p.span.start ∧ p.span.stop ≤ o.span.stop) ∧
          o.parts.Pairwise fun p q => p.span.stop ≤ q.span.start := by
  have nested := (located_parseUnit registry source).1
  obtain ⟨hi, laid⟩ := nested.parts
  constructor
  · refine List.pairwise_map.2 ?_
    exact List.pairwise_map.1 laid.pairwise
  · intro o ho
    obtain ⟨top, htop, ho⟩ := List.mem_flatMap.1 ho
    obtain ⟨c, hc, rfl⟩ := List.mem_map.1 htop
    have node := Outline.Nested.of_mem_nodes _ (Class.nested_outline (nested.classes c hc)) o ho
    refine ⟨node.laid.le, fun p hp => ?_, List.pairwise_map.1 node.laid.pairwise⟩
    obtain ⟨first, -, last⟩ := node.laid.within _ (List.mem_map_of_mem hp)
    exact ⟨first, last⟩

end Contracts
