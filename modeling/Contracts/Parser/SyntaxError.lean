import Contracts.Token.Lex

/-! Syntax errors: what went wrong and where, with the wording, the help and the
message key that each cause has. -/

namespace Contracts

/-- The part that a missing name would have played. -/
inductive NameRole
  | className
  | memberName
  | ghostFieldName
  | specifiedMethodName
  | parameterName
  | variableName
  | labelName
  | assignmentTarget
  | selectedField
deriving DecidableEq

namespace NameRole

def describe : NameRole → String
  | className => "class name"
  | memberName => "member name"
  | ghostFieldName => "ghost field name"
  | specifiedMethodName => "method name after specification"
  | parameterName => "parameter name"
  | variableName => "variable name"
  | labelName => "label"
  | assignmentTarget => "assignment target"
  | selectedField => "field name after `.`"

end NameRole

inductive SyntaxFault
  | lexical (fault : LexFault)
  | expectedToken (wanted found : TokenKind)
  | expectedName (role : NameRole)
  | expectedExpression (found : TokenKind)
  | expectedType (found : TokenKind)
  | expectedClass (found : TokenKind)
  | expectedFrameMethod (found : TokenKind)
  | notInClassBody (keyword : String)
  | notInMethodBody (keyword : String)
  /-- `also` without a specification case before it. -/
  | strayAlso
  | expectedSpecClause
  /-- Specification cases that no method follows. -/
  | specWithoutMethod
  /-- A clause keyword in the place of a name. -/
  | reservedName (keyword : String)
  | unknownSpecWord (word : String)
  | argumentsRequired (keyword : String)
  /-- A clause of a class that is not one expression and a terminator. -/
  | badConstruct (keyword : String)
  /-- Reading would go on without having consumed anything. -/
  | noProgress
  /-- A mistake that an embedder reports in its own words. -/
  | custom (message : String)
deriving DecidableEq

namespace SyntaxFault

def message : SyntaxFault → String
  | lexical fault => fault.message
  | expectedToken wanted found => s!"expected {wanted.describe}, found {found.describe}"
  | expectedName role => s!"expected {role.describe}"
  | expectedExpression found => s!"expected expression, found {found.describe}"
  | expectedType found => s!"expected type, found {found.describe}"
  | expectedClass found => s!"expected class declaration, found {found.describe}"
  | expectedFrameMethod found =>
    s!"expected a method name in constraint frame, found {found.describe}"
  | notInClassBody keyword => s!"`{keyword}` is not allowed in a class body"
  | notInMethodBody keyword => s!"`{keyword}` is not allowed in a method body"
  | strayAlso => "`also` must follow a specification case"
  | expectedSpecClause => "expected `requires` or `ensures`"
  | specWithoutMethod => "specification cases must be followed by a method"
  | reservedName keyword => s!"`{keyword}` is a clause keyword here"
  | unknownSpecWord word => s!"unknown specification keyword `{word}`"
  | argumentsRequired keyword => s!"{keyword} requires an argument list"
  | badConstruct keyword => s!"bad construct: `{keyword}` declaration"
  | noProgress => "nothing was read"
  | custom message => message

def help? : SyntaxFault → Option String
  | reservedName _ => some "clause keywords can be used as names only inside clause bodies"
  | argumentsRequired keyword => some s!"write `{keyword}(expression)`"
  | badConstruct keyword => some s!"a `{keyword}` clause is one expression terminated by `;`"
  | _ => none

/-- The stable key of the message, where it has one. -/
def code? : SyntaxFault → Option String
  | unknownSpecWord _ => some "spec.unknown.keyword"
  | argumentsRequired _ => some "spec.args.required"
  | badConstruct _ => some "spec.bad.construct"
  | _ => none

end SyntaxFault

structure SyntaxError where
  fault : SyntaxFault
  span : Span
deriving DecidableEq

namespace SyntaxError

def message (e : SyntaxError) : String := e.fault.message

def help? (e : SyntaxError) : Option String := e.fault.help?

def code? (e : SyntaxError) : Option String := e.fault.code?

def ofLexError (e : LexError) : SyntaxError := ⟨.lexical e.fault, e.span⟩

/-- One line for all errors of a unit: their number and the first message. -/
def summary (errors : List SyntaxError) : String :=
  let first := (errors.head?.map message).getD ""
  s!"{errors.length} syntax error(s), first: {first}"

end SyntaxError

end Contracts
