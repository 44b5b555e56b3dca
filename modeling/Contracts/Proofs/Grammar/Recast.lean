import Contracts.Proofs.Grammar.Own
import Contracts.Proofs.Typing.Collected

/-! Trees with other words and descriptors. A change goes to the word and the descriptor of every
reference to an earlier state, and to the descriptor of every clause; spans, recorded types and
what is declared stay (`CompilationUnit.stateTypes_recast`, `CompilationUnit.declared_recast`). -/

namespace Contracts

/-- A change of the words and descriptors of references, and of the descriptors of clauses. -/
structure Recast where
  word : StateKeyword → StateKeyword := id
  state : Descriptor → Descriptor
  clause : Descriptor → Descriptor := id

def Recast.head (k : Recast) (h : StateHead) : StateHead :=
  { h with descriptor := k.state h.descriptor, keyword := k.word h.keyword }

variable (k : Recast)

/-! ### Expressions -/

namespace Expr

def recast (e : Expr) : Expr := e.mapHeads k.head

theorem mapHeads_mapList (es : List Expr) : mapHeads.mapList k.head es = es.map (recast k) := by
  induction es with
  | nil => rfl
  | cons e es ih => rw [mapHeads.mapList, ih, List.map_cons, recast]

/-! One equation for each form. -/

theorem recast_name (n : Name) : (name n).recast k = name n := rfl

theorem recast_binary (op : BinaryOp) (l r : Expr) (s : Span) :
    (binary op l r s).recast k = binary op (l.recast k) (r.recast k) s := rfl

theorem recast_unary (op : UnaryOp) (e : Expr) (s : Span) :
    (unary op e s).recast k = unary op (e.recast k) s := rfl

theorem recast_field (base : Expr) (n : Name) (s : Span) :
    (field base n s).recast k = field (base.recast k) n s := rfl

theorem recast_call (callee : Expr) (es : List Expr) (s : Span) :
    (call callee es s).recast k = call (callee.recast k) (es.map (recast k)) s := by
  rw [← mapHeads_mapList]
  rfl

theorem recast_state (head : StateHead) (es : List Expr) (recorded : Option Ty) :
    (state head es recorded).recast k = state (k.head head) (es.map (recast k)) recorded := by
  rw [← mapHeads_mapList]
  rfl

theorem span_recast (e : Expr) : (e.recast k).span = e.span := by
  cases e <;> rfl

theorem asName?_recast (e : Expr) : (e.recast k).asName? = e.asName? := by
  cases e <;> rfl

theorem eq_name_of_recast {e : Expr} {n : Name} (h : e.recast k = name n) : e = name n := by
  cases e <;> simp_all [recast, mapHeads]

theorem exists_field_of_recast {e base : Expr} {n : Name} {s : Span}
    (h : e.recast k = field base n s) : ∃ base', e = field base' n s := by
  cases e <;> simp_all [recast, mapHeads]

mutual

theorem stateTypes_recast : ∀ e : Expr, (e.recast k).stateTypes = e.stateTypes
  | name _ => rfl
  | int _ _ => rfl
  | bool _ _ => rfl
  | result _ => rfl
  | binary _ l r _ => by
    rw [recast_binary, stateTypes, stateTypes_recast l, stateTypes_recast r, stateTypes]
  | unary _ e _ => by rw [recast_unary, stateTypes, stateTypes_recast e, stateTypes]
  | field e _ _ => by rw [recast_field, stateTypes, stateTypes_recast e, stateTypes]
  | call e es _ => by
    rw [recast_call, stateTypes, stateTypes_recast e, listTypes_recast es, stateTypes]
  | state _ es _ => by rw [recast_state, stateTypes, listTypes_recast es, stateTypes]
  | missing _ => rfl

theorem listTypes_recast : ∀ es : List Expr,
    stateTypes.listTypes (es.map (recast k)) = stateTypes.listTypes es
  | [] => rfl
  | e :: es => by
    rw [List.map_cons, stateTypes.listTypes, stateTypes_recast e, listTypes_recast es,
      stateTypes.listTypes]

end

end Expr

/-! ### Statements -/

def Variable.recast (v : Variable) : Variable := { v with init := v.init.map (·.recast k) }

def SpecClause.recast (c : SpecClause) : SpecClause :=
  ⟨k.clause c.descriptor, c.expr.recast k, c.span⟩

def Statement.recast : Statement → Statement
  | declare decl => declare (decl.recast k)
  | ghost d decl => ghost (k.clause d) (decl.recast k)
  | assign target value s => assign target (value.recast k) s
  | labeled label body s => labeled label body.recast s
  | clause c => clause (c.recast k)
  | leave value s => leave (value.map (·.recast k)) s
  | expr e => expr (e.recast k)
  | block statements s => block (recastList statements) s
  | missing s => missing s
where
  recastList : List Statement → List Statement
    | [] => []
    | s :: ss => s.recast :: recastList ss

theorem Statement.recastList_eq (ss : List Statement) :
    recast.recastList k ss = ss.map (recast k) := by
  induction ss with
  | nil => rfl
  | cons s ss ih => rw [recast.recastList, ih, List.map_cons]

theorem Statement.recast_block (ss : List Statement) (s : Span) :
    (block ss s).recast k = block (ss.map (recast k)) s := by
  rw [recast, recastList_eq]

def Block.recast (b : Block) : Block := ⟨b.statements.map (·.recast k), b.span⟩

theorem initTypes_recast (init : Option Expr) :
    ((init.map (·.recast k)).map Expr.stateTypes).getD [] = (init.map Expr.stateTypes).getD [] := by
  cases init with
  | none => rfl
  | some e => exact e.stateTypes_recast k

mutual

theorem Statement.stateTypes_recast : ∀ s : Statement, (s.recast k).stateTypes = s.stateTypes
  | declare v => initTypes_recast k v.init
  | ghost _ v => initTypes_recast k v.init
  | assign _ e _ => e.stateTypes_recast k
  | labeled _ s _ => Statement.stateTypes_recast s
  | clause c => c.expr.stateTypes_recast k
  | leave value _ => initTypes_recast k value
  | expr e => e.stateTypes_recast k
  | block ss _ => by rw [recast_block, stateTypes, Statement.listTypes_recast ss, stateTypes]
  | missing _ => rfl

theorem Statement.listTypes_recast : ∀ ss : List Statement,
    stateTypes.listTypes (ss.map (recast k)) = stateTypes.listTypes ss
  | [] => rfl
  | s :: ss => by
    rw [List.map_cons, stateTypes.listTypes, Statement.stateTypes_recast s,
      Statement.listTypes_recast ss, stateTypes.listTypes]

end

/-! ### Members and units -/

def Field.recast (f : Field) : Field :=
  { f with init := f.init.map (·.recast k), ghost := f.ghost.map k.clause }

def TypeClause.recast (c : TypeClause) : TypeClause :=
  { c with descriptor := k.clause c.descriptor, expr := c.expr.recast k }

def SpecCase.recast (c : SpecCase) : SpecCase := ⟨c.clauses.map (·.recast k), c.span⟩

def Method.recast (m : Method) : Method :=
  { m with cases := m.cases.map (·.recast k), body := m.body.recast k }

def Member.recast : Member → Member
  | field f => field (f.recast k)
  | clause c => clause (c.recast k)
  | method m => method (m.recast k)

def Class.recast (c : Class) : Class := { c with members := c.members.map (·.recast k) }

def CompilationUnit.recast (u : CompilationUnit) : CompilationUnit :=
  ⟨u.classes.map (·.recast k)⟩

theorem Member.stateTypes_recast (m : Member) : (m.recast k).stateTypes = m.stateTypes := by
  cases m with
  | field f => exact initTypes_recast k f.init
  | clause c => exact c.expr.stateTypes_recast k
  | method m =>
    simp only [recast, stateTypes, Method.recast, Method.specClauses, SpecCase.recast, Block.recast,
      List.flatMap_map, List.flatMap_assoc, SpecClause.recast, Expr.stateTypes_recast,
      Statement.stateTypes_recast]

theorem CompilationUnit.stateTypes_recast (u : CompilationUnit) :
    (u.recast k).stateTypes = u.stateTypes := by
  simp only [stateTypes, recast, Class.recast, List.flatMap_map, Member.stateTypes_recast]

theorem Class.declared_recast (c : Class) : (c.recast k).declared = c.declared := by
  have fields : (c.recast k).fields = c.fields.map (·.recast k) := by
    simp only [Class.fields, recast, List.filterMap_map, List.map_filterMap]
    exact List.filterMap_congr fun m _ => by cases m <;> rfl
  have methods : (c.recast k).methods = c.methods.map (·.recast k) := by
    simp only [Class.methods, recast, List.filterMap_map, List.map_filterMap]
    exact List.filterMap_congr fun m _ => by cases m <;> rfl
  simp only [declared, fields, methods, List.map_map]
  rfl

/-- What is declared is what was declared. -/
theorem CompilationUnit.declared_recast (u : CompilationUnit) :
    (u.recast k).classes.map Class.declared = u.classes.map Class.declared := by
  rw [recast, List.map_map]
  exact List.map_congr_left fun c _ => c.declared_recast k

/-! ### Descriptors of a registry -/

variable {k} {registry registry' : Registry}

mutual

theorem Expr.own_recast (state : ∀ d, registry'.Holds (k.state d) ↔ registry.Holds d) :
    ∀ e : Expr, (e.recast k).Own registry' ↔ e.Own registry
  | .name _ => Iff.rfl
  | .int _ _ => Iff.rfl
  | .bool _ _ => Iff.rfl
  | .result _ => Iff.rfl
  | .binary _ l r _ => and_congr (l.own_recast state) (r.own_recast state)
  | .unary _ e _ => e.own_recast state
  | .field e _ _ => e.own_recast state
  | .call e es _ => by
    rw [recast_call]
    exact and_congr (e.own_recast state) (Expr.listOwn_recast state es)
  | .state head es _ => by
    rw [recast_state]
    exact and_congr (state head.descriptor) (Expr.listOwn_recast state es)
  | .missing _ => Iff.rfl

theorem Expr.listOwn_recast (state : ∀ d, registry'.Holds (k.state d) ↔ registry.Holds d) :
    ∀ es : List Expr, Own.listOwn registry' (es.map (recast k)) ↔ Own.listOwn registry es
  | [] => Iff.rfl
  | e :: es => and_congr (e.own_recast state) (Expr.listOwn_recast state es)

end

section

variable (state : ∀ d, registry'.Holds (k.state d) ↔ registry.Holds d)

include state

theorem own_recast_option (init : Option Expr) :
    (∀ e ∈ init.map (Expr.recast k), e.Own registry') ↔ ∀ e ∈ init, e.Own registry := by
  cases init with
  | none => simp
  | some e => simpa using e.own_recast state

theorem SpecClause.own_recast (clause : ∀ d, registry'.Holds (k.clause d) ↔ registry.Holds d)
    (c : SpecClause) : (c.recast k).Own registry' ↔ c.Own registry := by
  constructor
  · exact fun h => ⟨(clause _).1 h.descriptor, (c.expr.own_recast state).1 h.expr⟩
  · exact fun h => ⟨(clause _).2 h.descriptor, (c.expr.own_recast state).2 h.expr⟩

end

mutual

theorem Statement.own_recast (state : ∀ d, registry'.Holds (k.state d) ↔ registry.Holds d)
    (clause : ∀ d, registry'.Holds (k.clause d) ↔ registry.Holds d) :
    ∀ s : Statement, (s.recast k).Own registry' ↔ s.Own registry
  | .declare v => own_recast_option state v.init
  | .ghost d v => and_congr (clause d) (own_recast_option state v.init)
  | .assign _ e _ => e.own_recast state
  | .labeled _ s _ => s.own_recast state clause
  | .clause c => c.own_recast state clause
  | .leave value _ => own_recast_option state value
  | .expr e => e.own_recast state
  | .block ss _ => by
    rw [recast_block]
    exact Statement.listOwn_recast state clause ss
  | .missing _ => Iff.rfl

theorem Statement.listOwn_recast (state : ∀ d, registry'.Holds (k.state d) ↔ registry.Holds d)
    (clause : ∀ d, registry'.Holds (k.clause d) ↔ registry.Holds d) :
    ∀ ss : List Statement, Own.listOwn registry' (ss.map (recast k)) ↔ Own.listOwn registry ss
  | [] => Iff.rfl
  | s :: ss => and_congr (s.own_recast state clause) (Statement.listOwn_recast state clause ss)

end

/-- The changed tree belongs to a registry when the tree belongs to the other one. -/
theorem CompilationUnit.own_recast (state : ∀ d, registry'.Holds (k.state d) ↔ registry.Holds d)
    (clause : ∀ d, registry'.Holds (k.clause d) ↔ registry.Holds d) (u : CompilationUnit) :
    (u.recast k).Own registry' ↔ u.Own registry := by
  have member (m : Member) : (m.recast k).Own registry' ↔ m.Own registry := by
    cases m with
    | field f =>
      have ghost : (∀ d ∈ f.ghost.map k.clause, registry'.Holds d) ↔
          ∀ d ∈ f.ghost, registry.Holds d := by
        cases f.ghost with
        | none => simp
        | some d => simpa using clause d
      have init := own_recast_option state f.init
      exact ⟨fun h => ⟨ghost.1 h.ghost, init.1 h.init⟩, fun h => ⟨ghost.2 h.ghost, init.2 h.init⟩⟩
    | clause c =>
      have expr := c.expr.own_recast state
      constructor
      · exact fun h => ⟨(clause _).1 h.descriptor, expr.1 h.expr⟩
      · exact fun h => ⟨(clause _).2 h.descriptor, expr.2 h.expr⟩
    | method m =>
      have body := Statement.listOwn_recast state clause m.body.statements
      have cases : (∀ c ∈ m.cases.map (·.recast k), ∀ s ∈ c.clauses, s.Own registry') ↔
          ∀ c ∈ m.cases, ∀ s ∈ c.clauses, s.Own registry := by
        simp only [SpecCase.recast, List.forall_mem_map, SpecClause.own_recast state clause]
      exact ⟨fun h => ⟨cases.1 h.cases, body.1 h.body⟩, fun h => ⟨cases.2 h.cases, body.2 h.body⟩⟩
  simp only [Own, Class.Own, recast, Class.recast, List.forall_mem_map, member]

end Contracts
