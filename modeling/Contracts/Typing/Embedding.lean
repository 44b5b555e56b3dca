import Contracts.Clause.Kind

/-! Where an expression sits relative to methods. -/

namespace Contracts

inductive Embedding
  /-- Field initialisers and the clauses of a class. -/
  | topLevel
  /-- A clause of a method's specification. -/
  | specClause
  | methodBody
deriving DecidableEq

namespace Embedding

/-- The place given by whether a method encloses it, and by the enclosing clause
if there is one. -/
def classify (inMethod : Bool) (clause : Option ClauseKind) : Embedding :=
  if !inMethod then topLevel
  else if clause.any (·.isMethodSpec) then specClause
  else methodBody

def describe : Embedding → String
  | topLevel => "TopLevel"
  | specClause => "SpecClause"
  | methodBody => "MethodBody"

end Embedding

end Contracts
