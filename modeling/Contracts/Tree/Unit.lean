import Contracts.Tree.Statement

/-! Classes and their members: fields, clauses of the class, and methods with
their specification cases. A compilation unit is a list of classes. -/

namespace Contracts

structure Field where
  type : Name
  name : Name
  init : Option Expr
  /-- The descriptor of the keyword of a ghost field. -/
  ghost : Option Descriptor
  span : Span

/-- The methods that a constraint speaks about. -/
inductive Frame
  | everything (span : Span)
  | methods (names : List Name)
deriving DecidableEq

structure TypeClause where
  descriptor : Descriptor
  expr : Expr
  frame : Option Frame
  span : Span

structure Param where
  type : Name
  name : Name
  span : Span
deriving DecidableEq

/-- A group of specification clauses. -/
structure SpecCase where
  clauses : List SpecClause
  span : Span

structure Method where
  returnType : Name
  name : Name
  params : List Param
  cases : List SpecCase
  body : Block
  span : Span

inductive Member
  | field (field : Field)
  | clause (clause : TypeClause)
  | method (method : Method)

structure Class where
  name : Name
  members : List Member
  span : Span

structure CompilationUnit where
  classes : List Class := []

namespace Class

def fields (c : Class) : List Field :=
  c.members.filterMap fun
    | .field f => some f
    | _ => none

def clauses (c : Class) : List TypeClause :=
  c.members.filterMap fun
    | .clause t => some t
    | _ => none

def methods (c : Class) : List Method :=
  c.members.filterMap fun
    | .method m => some m
    | _ => none

end Class

/-! ### References to earlier states -/

namespace Method

/-- Every clause of the specification, case by case. -/
def specClauses (m : Method) : List SpecClause := m.cases.flatMap (·.clauses)

end Method

namespace Member

/-- Recorded types in source order, those of a method's specification before
those of its body. -/
def stateTypes : Member → List (Option Ty)
  | field f => (f.init.map Expr.stateTypes).getD []
  | clause c => c.expr.stateTypes
  | method m =>
    m.specClauses.flatMap (·.expr.stateTypes) ++ m.body.statements.flatMap (·.stateTypes)

def mapHeads (f : StateHead → StateHead) : Member → Member
  | field x => field { x with init := x.init.map (·.mapHeads f) }
  | clause c => clause { c with expr := c.expr.mapHeads f }
  | method m =>
    method { m with
      cases := m.cases.map fun c => { c with clauses := c.clauses.map (·.mapHeads f) }
      body := { m.body with statements := m.body.statements.map (·.mapHeads f) } }

end Member

namespace CompilationUnit

def stateTypes (u : CompilationUnit) : List (Option Ty) :=
  u.classes.flatMap fun c => c.members.flatMap (·.stateTypes)

def mapHeads (f : StateHead → StateHead) (u : CompilationUnit) : CompilationUnit :=
  ⟨u.classes.map fun c => { c with members := c.members.map (·.mapHeads f) }⟩

end CompilationUnit

end Contracts
