import Contracts.Tree.Expr

/-! Statements and blocks. -/

namespace Contracts

/-- A variable with its type and, where given, its initial value. -/
structure Variable where
  type : Name
  name : Name
  init : Option Expr
  span : Span

/-- A keyword with a single expression: a clause of a method's specification or
a clause among statements. -/
structure SpecClause where
  descriptor : Descriptor
  expr : Expr
  span : Span

inductive Statement
  | declare (decl : Variable)
  | ghost (descriptor : Descriptor) (decl : Variable)
  | assign (target : Name) (value : Expr) (span : Span)
  | labeled (label : Name) (body : Statement) (span : Span)
  | clause (clause : SpecClause)
  | leave (value : Option Expr) (span : Span)
  | expr (expr : Expr)
  | block (statements : List Statement) (span : Span)
  /-- Stands where a statement could not be read. -/
  | missing (span : Span)

structure Block where
  statements : List Statement
  span : Span

namespace Variable

def stateTypes (v : Variable) : List (Option Ty) := (v.init.map Expr.stateTypes).getD []

def mapHeads (f : StateHead → StateHead) (v : Variable) : Variable :=
  { v with init := v.init.map (·.mapHeads f) }

end Variable

namespace SpecClause

def mapHeads (f : StateHead → StateHead) (c : SpecClause) : SpecClause :=
  { c with expr := c.expr.mapHeads f }

end SpecClause

namespace Statement

def stateTypes : Statement → List (Option Ty)
  | declare decl => decl.stateTypes
  | ghost _ decl => decl.stateTypes
  | assign _ value _ => value.stateTypes
  | labeled _ body _ => body.stateTypes
  | clause c => c.expr.stateTypes
  | leave value _ => (value.map Expr.stateTypes).getD []
  | expr e => e.stateTypes
  | block statements _ => listTypes statements
  | missing _ => []
where
  listTypes : List Statement → List (Option Ty)
    | [] => []
    | s :: ss => s.stateTypes ++ listTypes ss

def mapHeads (f : StateHead → StateHead) : Statement → Statement
  | declare decl => declare (decl.mapHeads f)
  | ghost d decl => ghost d (decl.mapHeads f)
  | assign target value s => assign target (value.mapHeads f) s
  | labeled label body s => labeled label (body.mapHeads f) s
  | clause c => clause (c.mapHeads f)
  | leave value s => leave (value.map (·.mapHeads f)) s
  | expr e => expr (e.mapHeads f)
  | block statements s => block (mapList f statements) s
  | missing s => missing s
where
  mapList (f : StateHead → StateHead) : List Statement → List Statement
    | [] => []
    | s :: ss => s.mapHeads f :: mapList f ss

end Statement

end Contracts
