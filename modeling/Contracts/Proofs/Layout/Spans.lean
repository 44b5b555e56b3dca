import Contracts.Report
import Contracts.Proofs.Printing.Unit
import Mathlib.Order.MinMax

/-! Trees, errors and reports with other spans. A change of spans goes to every place that a
tree keeps and to nothing else; the identity changes nothing (`CompilationUnit.mapSpans_id`),
and the change that sends every span to the origin forgets them
(`CompilationUnit.mapSpans_origin`). -/

namespace Contracts

variable (f : Span → Span)

namespace Span

/-- The range between the images of both ends. -/
def map (offset : Nat → Nat) (s : Span) : Span := ⟨offset s.start, offset s.stop⟩

/-- A change of offsets that keeps their order commutes with the union. -/
theorem map_union {offset : Nat → Nat} (mono : Monotone offset) (s t : Span) :
    (s.union t).map offset = (s.map offset).union (t.map offset) := by
  simp only [map, union, mono.map_min, mono.map_max]

end Span

/-! ### Expressions -/

def Name.mapSpans (n : Name) : Name := ⟨n.text, f n.span⟩

theorem Name.text_mapSpans (n : Name) : (n.mapSpans f).text = n.text := rfl

def StateHead.mapSpans (h : StateHead) : StateHead :=
  ⟨h.descriptor, h.keyword, h.typeArgs.map (·.mapSpans f), f h.keywordSpan, f h.span⟩

def Expr.mapSpans : Expr → Expr
  | name n => name (n.mapSpans f)
  | int value s => int value (f s)
  | bool value s => bool value (f s)
  | result s => result (f s)
  | binary op left right s => binary op left.mapSpans right.mapSpans (f s)
  | unary op operand s => unary op operand.mapSpans (f s)
  | field base n s => field base.mapSpans (n.mapSpans f) (f s)
  | call callee args s => call callee.mapSpans (mapList args) (f s)
  | state head args recorded => state (head.mapSpans f) (mapList args) recorded
  | missing s => missing (f s)
where
  mapList : List Expr → List Expr
    | [] => []
    | e :: es => e.mapSpans :: mapList es

@[simp] theorem Expr.mapSpans_mapList (es : List Expr) :
    mapSpans.mapList f es = es.map (mapSpans f) := by
  induction es with
  | nil => rfl
  | cons e es ih => rw [mapSpans.mapList, ih, List.map_cons]

theorem Expr.span_mapSpans (e : Expr) : (e.mapSpans f).span = f e.span := by
  cases e <;> rfl

/-! ### Statements -/

def Variable.mapSpans (v : Variable) : Variable :=
  ⟨v.type.mapSpans f, v.name.mapSpans f, v.init.map (·.mapSpans f), f v.span⟩

def SpecClause.mapSpans (c : SpecClause) : SpecClause :=
  ⟨c.descriptor, c.expr.mapSpans f, f c.span⟩

def Statement.mapSpans : Statement → Statement
  | declare decl => declare (decl.mapSpans f)
  | ghost d decl => ghost d (decl.mapSpans f)
  | assign target value s => assign (target.mapSpans f) (value.mapSpans f) (f s)
  | labeled label body s => labeled (label.mapSpans f) body.mapSpans (f s)
  | clause c => clause (c.mapSpans f)
  | leave value s => leave (value.map (·.mapSpans f)) (f s)
  | expr e => expr (e.mapSpans f)
  | block statements s => block (mapList statements) (f s)
  | missing s => missing (f s)
where
  mapList : List Statement → List Statement
    | [] => []
    | s :: ss => s.mapSpans :: mapList ss

@[simp] theorem Statement.mapSpans_mapList (ss : List Statement) :
    mapSpans.mapList f ss = ss.map (mapSpans f) := by
  induction ss with
  | nil => rfl
  | cons s ss ih => rw [mapSpans.mapList, ih, List.map_cons]

def Block.mapSpans (b : Block) : Block := ⟨b.statements.map (·.mapSpans f), f b.span⟩

/-! ### Members and units -/

def Field.mapSpans (x : Field) : Field :=
  ⟨x.type.mapSpans f, x.name.mapSpans f, x.init.map (·.mapSpans f), x.ghost, f x.span⟩

def Frame.mapSpans : Frame → Frame
  | everything s => everything (f s)
  | methods names => methods (names.map (·.mapSpans f))

def TypeClause.mapSpans (c : TypeClause) : TypeClause :=
  ⟨c.descriptor, c.expr.mapSpans f, c.frame.map (·.mapSpans f), f c.span⟩

def Param.mapSpans (p : Param) : Param := ⟨p.type.mapSpans f, p.name.mapSpans f, f p.span⟩

def SpecCase.mapSpans (c : SpecCase) : SpecCase := ⟨c.clauses.map (·.mapSpans f), f c.span⟩

def Method.mapSpans (m : Method) : Method :=
  ⟨m.returnType.mapSpans f, m.name.mapSpans f, m.params.map (·.mapSpans f),
    m.cases.map (·.mapSpans f), m.body.mapSpans f, f m.span⟩

def Member.mapSpans : Member → Member
  | field x => field (x.mapSpans f)
  | clause c => clause (c.mapSpans f)
  | method m => method (m.mapSpans f)

def Class.mapSpans (c : Class) : Class :=
  ⟨c.name.mapSpans f, c.members.map (·.mapSpans f), f c.span⟩

def CompilationUnit.mapSpans (u : CompilationUnit) : CompilationUnit :=
  ⟨u.classes.map (·.mapSpans f)⟩

/-! ### Errors and reports -/

def SyntaxError.mapSpans (e : SyntaxError) : SyntaxError := ⟨e.fault, f e.span⟩

def TypeError.mapSpans (e : TypeError) : TypeError := ⟨e.fault, f e.span⟩

def ParsedUnit.mapSpans (p : ParsedUnit) : ParsedUnit :=
  ⟨p.unit.mapSpans f, p.errors.map (·.mapSpans f)⟩

def Report.mapSpans (r : Report) : Report :=
  ⟨r.path, r.syntaxErrors.map (·.mapSpans f), r.typeErrors.map (·.mapSpans f), r.suppressed⟩

/-- A limit looks at no span. -/
theorem Report.limit_mapSpans (max : Option Nat) (r : Report) :
    (r.mapSpans f).limit max = (r.limit max).mapSpans f := by
  cases max with
  | none => rfl
  | some n => simp [limit, mapSpans, errorCount, List.map_take]

/-! ### No change -/

theorem Name.mapSpans_id (n : Name) : n.mapSpans id = n := rfl

theorem Name.map_mapSpans_id (names : List Name) : names.map (·.mapSpans id) = names :=
  List.map_id names

theorem StateHead.mapSpans_id (h : StateHead) : h.mapSpans id = h := by
  rw [mapSpans, Name.map_mapSpans_id]
  rfl

mutual

theorem Expr.mapSpans_id : ∀ e : Expr, e.mapSpans id = e
  | name _ => rfl
  | int _ _ => rfl
  | bool _ _ => rfl
  | result _ => rfl
  | binary _ left right _ => by rw [mapSpans, mapSpans_id left, mapSpans_id right, id]
  | unary _ operand _ => by rw [mapSpans, mapSpans_id operand, id]
  | field base _ _ => by rw [mapSpans, mapSpans_id base, Name.mapSpans_id, id]
  | call callee args _ => by
    rw [mapSpans, mapSpans_id callee, mapSpans_mapList, map_mapSpans_id args, id]
  | state head args _ => by
    rw [mapSpans, StateHead.mapSpans_id, mapSpans_mapList, map_mapSpans_id args]
  | missing _ => rfl

theorem Expr.map_mapSpans_id : ∀ es : List Expr, es.map (Expr.mapSpans id) = es
  | [] => rfl
  | e :: es => by rw [List.map_cons, mapSpans_id e, map_mapSpans_id es]

end

theorem Expr.option_mapSpans_id (init : Option Expr) : init.map (Expr.mapSpans id) = init := by
  rw [funext Expr.mapSpans_id]
  exact Option.map_id'

theorem Variable.mapSpans_id (v : Variable) : v.mapSpans id = v := by
  rw [mapSpans, Expr.option_mapSpans_id]
  rfl

theorem SpecClause.mapSpans_id (c : SpecClause) : c.mapSpans id = c := by
  rw [mapSpans, Expr.mapSpans_id, id]

mutual

theorem Statement.mapSpans_id : ∀ s : Statement, s.mapSpans id = s
  | declare _ => by rw [mapSpans, Variable.mapSpans_id]
  | ghost _ _ => by rw [mapSpans, Variable.mapSpans_id]
  | assign _ _ _ => by rw [mapSpans, Name.mapSpans_id, Expr.mapSpans_id, id]
  | labeled _ body _ => by rw [mapSpans, Name.mapSpans_id, mapSpans_id body, id]
  | clause _ => by rw [mapSpans, SpecClause.mapSpans_id]
  | leave _ _ => by rw [mapSpans, Expr.option_mapSpans_id, id]
  | expr _ => by rw [mapSpans, Expr.mapSpans_id]
  | block statements _ => by rw [mapSpans, mapSpans_mapList, map_mapSpans_id statements, id]
  | missing _ => rfl

theorem Statement.map_mapSpans_id : ∀ ss : List Statement, ss.map (Statement.mapSpans id) = ss
  | [] => rfl
  | s :: ss => by rw [List.map_cons, mapSpans_id s, map_mapSpans_id ss]

end

theorem Frame.mapSpans_id (x : Frame) : x.mapSpans id = x := by
  cases x with
  | everything _ => rfl
  | methods names => rw [mapSpans, Name.map_mapSpans_id]

theorem SpecCase.mapSpans_id (c : SpecCase) : c.mapSpans id = c := by
  rw [mapSpans, funext SpecClause.mapSpans_id, List.map_id', id]

theorem Member.mapSpans_id (m : Member) : m.mapSpans id = m := by
  cases m with
  | field x => rw [mapSpans, Field.mapSpans, Expr.option_mapSpans_id]; rfl
  | clause c =>
    rw [mapSpans, TypeClause.mapSpans, Expr.mapSpans_id, funext Frame.mapSpans_id, Option.map_id']
    rfl
  | method m =>
    rw [mapSpans, Method.mapSpans, Block.mapSpans, Statement.map_mapSpans_id,
      funext SpecCase.mapSpans_id, List.map_id']
    exact congrArg (fun params => method { m with params := params }) (List.map_id m.params)

theorem Class.mapSpans_id (c : Class) : c.mapSpans id = c := by
  rw [mapSpans, funext Member.mapSpans_id, List.map_id']
  rfl

theorem CompilationUnit.mapSpans_id (u : CompilationUnit) : u.mapSpans id = u := by
  rw [mapSpans, funext Class.mapSpans_id, List.map_id']

/-! ### No spans -/

mutual

theorem Expr.mapSpans_origin : ∀ e : Expr, e.mapSpans (fun _ => .origin) = e.unspanned
  | name _ => rfl
  | int _ _ => rfl
  | bool _ _ => rfl
  | result _ => rfl
  | binary _ left right _ => by
    rw [mapSpans, unspanned, mapSpans_origin left, mapSpans_origin right]
  | unary _ operand _ => by rw [mapSpans, unspanned, mapSpans_origin operand]
  | field base _ _ => by rw [mapSpans, unspanned, mapSpans_origin base]; rfl
  | call callee args _ => by
    rw [mapSpans, unspanned, mapSpans_origin callee, mapSpans_mapList, map_mapSpans_origin args]
  | state head args _ => by
    rw [mapSpans, unspanned, mapSpans_mapList, map_mapSpans_origin args]
    rfl
  | missing _ => rfl

theorem Expr.map_mapSpans_origin : ∀ es : List Expr,
    es.map (Expr.mapSpans fun _ => .origin) = unspanned.unspannedList es
  | [] => rfl
  | e :: es => by
    rw [List.map_cons, mapSpans_origin e, map_mapSpans_origin es, unspanned.unspannedList]

end

theorem Variable.mapSpans_origin (v : Variable) : v.mapSpans (fun _ => .origin) = v.unspanned := by
  rw [mapSpans, funext Expr.mapSpans_origin]
  rfl

theorem SpecClause.mapSpans_origin (c : SpecClause) :
    c.mapSpans (fun _ => .origin) = c.unspanned := by
  rw [mapSpans, Expr.mapSpans_origin, unspanned]

mutual

theorem Statement.mapSpans_origin : ∀ s : Statement, s.mapSpans (fun _ => .origin) = s.unspanned
  | declare _ => by rw [mapSpans, unspanned, Variable.mapSpans_origin]
  | ghost _ _ => by rw [mapSpans, unspanned, Variable.mapSpans_origin]
  | assign _ _ _ => by rw [mapSpans, unspanned, Expr.mapSpans_origin]; rfl
  | labeled _ body _ => by rw [mapSpans, unspanned, mapSpans_origin body]; rfl
  | clause _ => by rw [mapSpans, unspanned, SpecClause.mapSpans_origin]
  | leave _ _ => by rw [mapSpans, unspanned, funext Expr.mapSpans_origin]
  | expr _ => by rw [mapSpans, unspanned, Expr.mapSpans_origin]
  | block statements _ => by
    rw [mapSpans, unspanned, mapSpans_mapList, map_mapSpans_origin statements]
  | missing _ => rfl

theorem Statement.map_mapSpans_origin : ∀ ss : List Statement,
    ss.map (Statement.mapSpans fun _ => .origin) = unspanned.listUnspanned ss
  | [] => rfl
  | s :: ss => by
    rw [List.map_cons, mapSpans_origin s, map_mapSpans_origin ss, unspanned.listUnspanned]

end

theorem SpecCase.mapSpans_origin (c : SpecCase) : c.mapSpans (fun _ => .origin) = c.unspanned := by
  rw [mapSpans, funext SpecClause.mapSpans_origin, unspanned]

theorem Block.mapSpans_origin (b : Block) : b.mapSpans (fun _ => .origin) = b.unspanned := by
  rw [mapSpans, funext Statement.mapSpans_origin, unspanned]

theorem TypeClause.mapSpans_origin (c : TypeClause) :
    c.mapSpans (fun _ => .origin) = c.unspanned := by
  have frames (x : Frame) : x.mapSpans (fun _ => .origin) = x.unspanned := by cases x <;> rfl
  rw [mapSpans, Expr.mapSpans_origin, funext frames, unspanned]

theorem Member.mapSpans_origin (m : Member) : m.mapSpans (fun _ => .origin) = m.unspanned := by
  cases m with
  | field x =>
    rw [mapSpans, Field.mapSpans, funext Expr.mapSpans_origin]
    rfl
  | clause c => rw [mapSpans, unspanned, TypeClause.mapSpans_origin]
  | method m =>
    rw [mapSpans, Method.mapSpans, Block.mapSpans_origin, funext SpecCase.mapSpans_origin]
    rfl

theorem Class.mapSpans_origin (c : Class) : c.mapSpans (fun _ => .origin) = c.unspanned := by
  rw [mapSpans, funext Member.mapSpans_origin]
  rfl

theorem CompilationUnit.mapSpans_origin (u : CompilationUnit) :
    u.mapSpans (fun _ => .origin) = u.unspanned := by
  rw [mapSpans, funext Class.mapSpans_origin, unspanned]

/-! ### The parts of a class -/

theorem Class.fields_mapSpans (c : Class) :
    (c.mapSpans f).fields = c.fields.map (·.mapSpans f) := by
  simp only [fields, mapSpans, List.filterMap_map, List.map_filterMap]
  congr 1
  funext m
  cases m <;> rfl

theorem Class.methods_mapSpans (c : Class) :
    (c.mapSpans f).methods = c.methods.map (·.mapSpans f) := by
  simp only [methods, mapSpans, List.filterMap_map, List.map_filterMap]
  congr 1
  funext m
  cases m <;> rfl

end Contracts
