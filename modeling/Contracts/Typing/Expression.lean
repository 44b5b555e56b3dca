import Contracts.Typing.Check
import Contracts.Typing.StateReference

/-! Types of expressions. `infer` finds the type of an expression, reports what is
wrong in it, and records the types of its references to earlier states. A type
that is recorded already stays. -/

namespace Contracts

namespace BinaryOp

/-- The type of both operands where it is fixed, and the type of the result. -/
def typing : BinaryOp → Option Ty × Ty
  | add => (some .int, .int)
  | sub => (some .int, .int)
  | mul => (some .int, .int)
  | div => (some .int, .int)
  | rem => (some .int, .int)
  | less => (some .int, .boolean)
  | atMost => (some .int, .boolean)
  | greater => (some .int, .boolean)
  | atLeast => (some .int, .boolean)
  | and => (some .boolean, .boolean)
  | or => (some .boolean, .boolean)
  | implies => (some .boolean, .boolean)
  | equal => (none, .boolean)
  | notEqual => (none, .boolean)

/-- The type of the result; the operands have to be of one type. -/
def result? (op : BinaryOp) (left right : Ty) : Option Ty :=
  if left = op.typing.1.getD left ∧ left = right then some op.typing.2 else none

end BinaryOp

namespace UnaryOp

/-- The type of the operand and of the result. -/
def typing : UnaryOp → Ty
  | neg => .int
  | not => .boolean

end UnaryOp

namespace Check

def binaryType (op : BinaryOp) (left right : Ty) (span : Span) : Check Ty := do
  if left.isError || right.isError then
    return .error
  else
    match op.result? left right with
    | some type => return type
    | none =>
      report (.badOperands op left right) span
      return .error

def unaryType (op : UnaryOp) (operand : Ty) (span : Span) : Check Ty := do
  if operand.isError || operand == op.typing then
    return operand
  else
    report (.badOperand op operand) span
    return .error

def fieldType (rules : Rules) (owner : Ty) (field : Name) : Check Ty := do
  match owner with
  | .error => return .error
  | .named name =>
    match rules.classes.field? name field.text with
    | some type => return type
    | none =>
      report (.unknownField owner field.text) field.span
      return .error
  | _ =>
    report (.unknownField owner field.text) field.span
    return .error

/-- The type of the value that the enclosing method returns, which only its
postconditions may speak about, and not as of an earlier state. -/
def resultType (env : Env) (span : Span) : Check Ty := do
  let context ← context
  if context.label.isSome then
    report .resultInState span
    return .error
  else
    match env.returnType with
    | some type =>
      if context.clause.map (·.kind) = some (.methodSpec .ensures) ∧ ¬type.isVoid then
        return type
      else
        report .misplacedResult span
        return .error
    | none =>
      report .misplacedResult span
      return .error

/-! ### Calls -/

def signature? (rules : Rules) (owner : Ty) (method : String) : Option Signature :=
  match owner with
  | .named name => rules.classes.method? name method
  | _ => none

/-- The signature of a called method, unless the call does not fit it. -/
def callSignature (rules : Rules) (owner : Ty) (method : Name) (args : List Expr) (span : Span) :
    Check (Option Signature) := do
  match signature? rules owner method.text with
  | none =>
    if !owner.isError then
      report (.unknownMethod owner method.text) method.span
    return none
  | some signature =>
    if signature.params.length = args.length then
      return some signature
    else
      report (.callArity method.text signature.params.length args.length) span
      return none

/-- The types that the arguments of a call are asked for. -/
def paramsOf (signature : Option Signature) : List Ty := (signature.map (·.params)).getD []

def resultOf (signature : Option Signature) : Ty := (signature.map (·.result)).getD .error

/-! ### References to earlier states -/

/-- Reports what is wrong with a reference, notes the state that it means, and
gives the scope of its first argument if nothing is wrong. -/
def enterState (head : StateHead) (args : List Expr) (scope : Scope) : Check (Option Scope) := do
  let clause := (← context).clause
  let errors := head.errors args clause scope
  reportAll errors
  let label := head.label args scope
  setLabel label
  return if errors.isEmpty then some (scope.asOf clause label) else none

/-! ### Expressions -/

mutual

/-- The type of an expression, and the expression with its types recorded. -/
def infer (rules : Rules) (scope : Scope) : Expr → Check (Ty × Expr)
  | .name n => do
    return (← variableType rules scope.env n, .name n)
  | .int value span => return (.int, .int value span)
  | .bool value span => return (.boolean, .bool value span)
  | .result span => do
    return (← resultType scope.env span, .result span)
  | .binary op left right span => do
    let (leftType, left) ← infer rules scope left
    let (rightType, right) ← infer rules scope right
    return (← binaryType op leftType rightType span, .binary op left right span)
  | .unary op operand span => do
    let (operandType, operand) ← infer rules scope operand
    return (← unaryType op operandType span, .unary op operand span)
  | .field base field span => do
    let (owner, base) ← infer rules scope base
    return (← fieldType rules owner field, .field base field span)
  | .call (.name method) args span => do
    let owner := .named scope.env.className
    let signature ← callSignature rules owner method args span
    let args ← inferArgs rules scope (paramsOf signature) args
    return (resultOf signature, .call (.name method) args span)
  | .call (.field base method calleeSpan) args span => do
    let (owner, base) ← infer rules scope base
    let signature ← callSignature rules owner method args span
    let args ← inferArgs rules scope (paramsOf signature) args
    return (resultOf signature, .call (.field base method calleeSpan) args span)
  | .call callee args span => do
    let (calleeType, callee) ← infer rules scope callee
    let args ← inferArgs rules scope [] args
    if !calleeType.isError then
      report .notCallable span
    return (.error, .call callee args span)
  | .state head args recorded => do
    if ← isRegistered rules head.descriptor then
      within none do
        let (type, args) ← match ← enterState head args scope with
          | some inner => inferPayload rules inner head.typeArgs args
          | none => pure (.error, args)
        let kept := recorded.getD type
        return (kept, .state head args (some kept))
    else
      return (.error, .state head args recorded)
  | .missing span => return (.error, .missing span)

/-- Infers arguments in order, each against its parameter if there is one. -/
def inferArgs (rules : Rules) (scope : Scope) : List Ty → List Expr → Check (List Expr)
  | _, [] => return []
  | params, e :: es => do
    let (type, e') ← infer rules scope e
    require params.head? type e.span
    return e' :: (← inferArgs rules scope params.tail es)

/-- Infers the argument that a reference gives the value of, and no other. -/
def inferPayload (rules : Rules) (scope : Scope) (typeArgs : List Name) :
    List Expr → Check (Ty × List Expr)
  | [] => return (.error, [])
  | e :: es => do
    let (type, e') ← infer rules scope e
    let _ ← resolveTypes rules typeArgs
    return (type, e' :: es)

end

/-- Infers an expression in a place that may ask for a type. -/
def inferAs (rules : Rules) (scope : Scope) (expected : Option Ty) (e : Expr) :
    Check (Ty × Expr) := do
  let (type, e') ← infer rules scope e
  require expected type e.span
  return (type, e')

/-- Infers an expression, if there is one, in a place that asks for a type. -/
def inferInit (rules : Rules) (scope : Scope) (expected : Ty) :
    Option Expr → Check (Option Expr)
  | none => return none
  | some e => do
    let (_, e') ← inferAs rules scope (some expected) e
    return some e'

/-- Infers the body of a clause inside its frame. -/
def inferClause (rules : Rules) (scope : Scope) (d : Descriptor) (e : Expr) : Check Expr := do
  let expected := if rules.booleanClauses then some .boolean else none
  let (_, e') ← within (some d) (inferAs rules scope expected e)
  return e'

end Check

end Contracts
