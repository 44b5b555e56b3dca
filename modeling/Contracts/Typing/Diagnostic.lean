import Contracts.Tree.Expr

/-! Type errors: what is wrong and where, with the wording, the message key, the
category and the help that each cause has. -/

namespace Contracts

/-- The shape of a reference to an earlier state, as far as its place matters. -/
inductive StateForm
  | entry
  | unlabeled
  | labeled
deriving DecidableEq

namespace StateForm

/-- The form of a keyword with a number of arguments. -/
def ofArguments (keyword : StateKeyword) (count : Nat) : StateForm :=
  if keyword.isEntry then entry
  else if 2 ≤ count then labeled
  else unlabeled

def describe (keyword : StateKeyword) : StateForm → String
  | entry => "\\pre token"
  | unlabeled => if keyword = .past then "\\past token with no label" else "\\old token with no label"
  | labeled => if keyword = .past then "\\past token with a label" else "\\old token with a label"

def help : StateForm → String
  | entry => "\\pre refers to method entry and needs a clause that allows it"
  | unlabeled => "this clause is evaluated in the pre-state already"
  | labeled => "labels can only be referenced from inside a method body"

end StateForm

inductive Category
  | arity
  | contextLegality
  | labelResolution
  /-- Typing that has nothing to do with earlier states. -/
  | host
deriving DecidableEq

namespace Category

def describe : Category → String
  | arity => "Arity"
  | contextLegality => "ContextLegality"
  | labelResolution => "LabelResolution"
  | host => "Host"

end Category

inductive TypeFault
  | oneArgument (keyword : String) (found : Nat)
  | wrongArgumentCount (keyword : String) (expected : Arity) (found : Nat)
  /-- A reference of this form in a clause that forbids it, or outside all
  clauses. -/
  | misplacedState (form : StateForm) (keyword : StateKeyword) (clause : Option String)
  | notALabel (text : String)
  | unknownSymbol (name : String)
  | unknownType (name : String)
  | incompatibleTypes (expected found : Ty)
  | badOperands (op : BinaryOp) (left right : Ty)
  | badOperand (op : UnaryOp) (operand : Ty)
  | unknownField (owner : Ty) (field : String)
  | unknownMethod (owner : Ty) (method : String)
  | callArity (method : String) (expected found : Nat)
  | notCallable
  | duplicate (name : String)
  | misplacedResult
  | resultInState
  | unknownFrameMethod (method : String)
  | valueInVoid
  | missingValue
deriving DecidableEq

namespace TypeFault

/-- Where a reference to an earlier state was found. -/
def place : Option String → String
  | some keyword => s!"a `{keyword}` clause"
  | none => "this position"

def message : TypeFault → String
  | oneArgument keyword found => s!"{keyword} expects one argument, found {found}"
  | wrongArgumentCount keyword expected found =>
    s!"{keyword} expects {expected.describe}, found {found}"
  | misplacedState form keyword clause =>
    s!"{form.describe keyword} is not allowed in {place clause}"
  | notALabel text => s!"`{text}` is not a label of the enclosing method"
  | unknownSymbol name => s!"cannot find symbol `{name}`"
  | unknownType name => s!"cannot find type `{name}`"
  | incompatibleTypes expected found =>
    s!"incompatible types: required {expected.describe}, found {found.describe}"
  | badOperands op left right =>
    s!"operator `{op.symbol}` cannot be applied to {left.describe} and {right.describe}"
  | badOperand op operand => s!"operator `{op.symbol}` cannot be applied to {operand.describe}"
  | unknownField owner field => s!"{owner.describe} has no field `{field}`"
  | unknownMethod owner method => s!"{owner.describe} has no method `{method}`"
  | callArity method expected found =>
    s!"method `{method}` expects {expected} argument(s), found {found}"
  | notCallable => "expression is not callable"
  | duplicate name => s!"`{name}` is already defined in this scope"
  | misplacedResult => "\\result is only allowed in an ensures clause of a non-void method"
  | resultInState => "\\result cannot be used inside a state expression"
  | unknownFrameMethod method => s!"constraint frame names unknown method `{method}`"
  | valueInVoid => "void method cannot return a value"
  | missingValue => "missing return value"

/-- The stable key of the message. -/
def code : TypeFault → String
  | oneArgument .. => "spec.one.arg"
  | wrongArgumentCount .. => "spec.wrong.number.args"
  | misplacedState .. => "spec.misplaced.old"
  | notALabel _ => "spec.bad.label"
  | unknownSymbol _ => "host.unknown.symbol"
  | unknownType _ => "host.unknown.type"
  | incompatibleTypes .. => "host.incompatible.types"
  | badOperands .. => "host.bad.operands"
  | badOperand .. => "host.bad.operands"
  | unknownField .. => "host.unknown.field"
  | unknownMethod .. => "host.unknown.method"
  | callArity .. => "host.call.arity"
  | notCallable => "host.not.callable"
  | duplicate _ => "host.duplicate"
  | misplacedResult => "spec.misplaced.result"
  | resultInState => "spec.misplaced.result"
  | unknownFrameMethod _ => "spec.constraint.frame"
  | valueInVoid => "host.return"
  | missingValue => "host.return"

def category : TypeFault → Category
  | oneArgument .. => .arity
  | wrongArgumentCount .. => .arity
  | misplacedState .. => .contextLegality
  | notALabel _ => .labelResolution
  | _ => .host

def help? : TypeFault → Option String
  | misplacedState form .. => some form.help
  | _ => none

end TypeFault

structure TypeError where
  fault : TypeFault
  span : Span
deriving DecidableEq

namespace TypeError

def message (e : TypeError) : String := e.fault.message

def help? (e : TypeError) : Option String := e.fault.help?

def code (e : TypeError) : String := e.fault.code

def category (e : TypeError) : Category := e.fault.category

end TypeError

/-- Why a check was given up: not a mistake in the unit that is checked. -/
inductive CheckError
  /-- Frames were open after a declaration had been checked. -/
  | unbalancedContext (declaration : String) (depth : Nat)
  /-- A descriptor in the tree is not the one that the registry has. -/
  | foreignDescriptor (keyword : String)
deriving DecidableEq

namespace CheckError

def message : CheckError → String
  | unbalancedContext declaration depth =>
    s!"attribution context not balanced after `{declaration}`: {depth} frame(s) left"
  | foreignDescriptor keyword =>
    s!"node for `{keyword}` carries a descriptor that differs from the registry"

end CheckError

end Contracts
