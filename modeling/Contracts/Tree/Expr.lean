import Contracts.Clause.Descriptor
import Contracts.Span
import Contracts.Typing.Ty

/-! Expressions. A reference to an earlier state keeps its arguments as written
and has room for the type that checking finds for it. -/

namespace Contracts

/-- A word of the source: an identifier or a written type. -/
structure Name where
  text : String
  span : Span
deriving DecidableEq

inductive BinaryOp
  | add
  | sub
  | mul
  | div
  | rem
  | equal
  | notEqual
  | less
  | atMost
  | greater
  | atLeast
  | and
  | or
  | implies
deriving DecidableEq

namespace BinaryOp

def symbol : BinaryOp → String
  | add => "+"
  | sub => "-"
  | mul => "*"
  | div => "/"
  | rem => "%"
  | equal => "=="
  | notEqual => "!="
  | less => "<"
  | atMost => "<="
  | greater => ">"
  | atLeast => ">="
  | and => "&&"
  | or => "||"
  | implies => "==>"

end BinaryOp

inductive UnaryOp
  | neg
  | not
deriving DecidableEq

namespace UnaryOp

def symbol : UnaryOp → String
  | neg => "-"
  | not => "!"

end UnaryOp

/-- What a reference to an earlier state consists of besides its arguments. -/
structure StateHead where
  descriptor : Descriptor
  keyword : StateKeyword
  typeArgs : List Name
  keywordSpan : Span
  span : Span
deriving DecidableEq

inductive Expr
  | name (name : Name)
  | int (value : Nat) (span : Span)
  | bool (value : Bool) (span : Span)
  /-- The value that a method returns. -/
  | result (span : Span)
  | binary (op : BinaryOp) (left right : Expr) (span : Span)
  | unary (op : UnaryOp) (operand : Expr) (span : Span)
  | field (base : Expr) (field : Name) (span : Span)
  | call (callee : Expr) (args : List Expr) (span : Span)
  /-- A reference to an earlier state, with its type once that is known. -/
  | state (head : StateHead) (args : List Expr) (recorded : Option Ty)
  /-- Stands where a syntax error has been reported. -/
  | missing (span : Span)

namespace Expr

def span : Expr → Span
  | name n => n.span
  | int _ s => s
  | bool _ s => s
  | result s => s
  | binary _ _ _ s => s
  | unary _ _ s => s
  | field _ _ s => s
  | call _ _ s => s
  | state head _ _ => head.span
  | missing s => s

def asName? : Expr → Option Name
  | name n => some n
  | _ => none

/-- The recorded types of the references to earlier states, in source order,
each before those in its arguments. -/
def stateTypes : Expr → List (Option Ty)
  | binary _ left right _ => left.stateTypes ++ right.stateTypes
  | unary _ operand _ => operand.stateTypes
  | field base _ _ => base.stateTypes
  | call callee args _ => callee.stateTypes ++ listTypes args
  | state _ args recorded => recorded :: listTypes args
  | _ => []
where
  listTypes : List Expr → List (Option Ty)
    | [] => []
    | e :: es => e.stateTypes ++ listTypes es

/-- Applies a change to the head of every reference to an earlier state. -/
def mapHeads (f : StateHead → StateHead) : Expr → Expr
  | binary op left right s => binary op (left.mapHeads f) (right.mapHeads f) s
  | unary op operand s => unary op (operand.mapHeads f) s
  | field base n s => field (base.mapHeads f) n s
  | call callee args s => call (callee.mapHeads f) (mapList f args) s
  | state head args recorded => state (f head) (mapList f args) recorded
  | e => e
where
  mapList (f : StateHead → StateHead) : List Expr → List Expr
    | [] => []
    | e :: es => e.mapHeads f :: mapList f es

end Expr

end Contracts
