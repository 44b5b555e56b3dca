/-! Types of the contract language. -/

namespace Contracts

inductive Ty
  | int
  | boolean
  | void
  | named (name : String)
  /-- Stands where a mistake has been reported already; checks that see it stay
  quiet. -/
  | error
deriving DecidableEq

namespace Ty

def isError : Ty → Bool
  | error => true
  | _ => false

def isVoid : Ty → Bool
  | void => true
  | _ => false

def describe : Ty → String
  | int => "int"
  | boolean => "boolean"
  | void => "void"
  | named name => name
  | error => "<error>"

/-- The type that a word names in every program. -/
def primitive? : String → Option Ty
  | "int" => some int
  | "boolean" => some boolean
  | "void" => some void
  | _ => none

end Ty

end Contracts
