import Contracts.Parser.Expression

/-! Statements and blocks. A statement that cannot be read is reported, skipped
through its terminator, and left in its block as a placeholder. -/

namespace Contracts.Parser

/-- A value behind `=`, if there is one. -/
def initialiser (registry : Registry) : Parser (Option Expr) := do
  if ← accept .assign then
    return some (← expression registry)
  else
    return none

/-- A keyword, an expression in which clause keywords are ordinary names, and a
terminator. -/
def specClause (registry : Registry) (d : Descriptor) : Parser SpecClause := do
  let start := (← advance).span.start
  let expr ← withReserving false (expression registry)
  let _ ← expectSymbol .semicolon
  return ⟨d, expr, ⟨start, ← previousEnd⟩⟩

def variableDeclaration (registry : Registry) : Parser Variable := do
  let type ← typeName
  let name ← expectName .variableName
  let init ← initialiser registry
  let _ ← expectSymbol .semicolon
  return ⟨type, name, init, ⟨type.span.start, ← previousEnd⟩⟩

def assignment (registry : Registry) : Parser Statement := do
  let target ← expectName .assignmentTarget
  let _ ← expectSymbol .assign
  let value ← expression registry
  let _ ← expectSymbol .semicolon
  return .assign target value ⟨target.span.start, ← previousEnd⟩

def leaveStatement (registry : Registry) : Parser Statement := do
  let start := (← advance).span.start
  let value ← if (← kind) = .symbol .semicolon then pure none else some <$> expression registry
  let _ ← expectSymbol .semicolon
  return .leave value ⟨start, ← previousEnd⟩

def expressionStatement (registry : Registry) : Parser Statement := do
  let e ← expression registry
  let _ ← expectSymbol .semicolon
  return .expr e

/-- A statement that starts with a registered keyword. -/
def clauseStatement (registry : Registry) (d : Descriptor) : Parser Statement := do
  match d.kind with
  | .statement _ => return .clause (← specClause registry d)
  | .declaration =>
    let _ ← advance
    return .ghost d (← variableDeclaration registry)
  | _ => failHere (.notInMethodBody d.keyword)

/-! ### Blocks -/

/-- One statement, or a placeholder for what was skipped in its place. -/
def statementOrPlaceholder (statement : Parser Statement) : Parser Statement := do
  let start := (← span).start
  match ← outcome statement with
  | .ok s => return s
  | .error e =>
    report e
    skipThroughTerminator
    return .missing ⟨start, max (← previousEnd) start⟩

/-- The statements up to a closing brace or the end of the text; terminators
between them are skipped. -/
def statementsOf (statement : Parser Statement) : Parser (List Statement) :=
  recur (fun again _ => step again) ()
where
  step (again : Unit → Parser (List Statement)) : Parser (List Statement) := do
    match ← kind with
    | .symbol .rightBrace => return []
    | .endOfText => return []
    | .symbol .semicolon =>
      let _ ← advance
      again ()
    | _ =>
      let s ← statementOrPlaceholder statement
      return s :: (← again ())

def blockOf (statement : Parser Statement) : Parser Block := do
  let start := (← expectSymbol .leftBrace).span.start
  let statements ← statementsOf statement
  let stop := (← expectSymbol .rightBrace).span.stop
  return ⟨statements, ⟨start, stop⟩⟩

/-! ### Statements -/

def labeledStatement (statement : Parser Statement) : Parser Statement := do
  let label ← expectName .labelName
  let _ ← expectSymbol .colon
  let body ← statement
  return .labeled label body ⟨label.span.start, ← previousEnd⟩

/-- A statement that starts with neither a brace, `return` nor a reserved clause
keyword: the token behind a name tells the form. -/
def plainStatement (registry : Registry) (statement : Parser Statement) : Parser Statement := do
  match ← kind, ← secondKind with
  | .identifier _, .symbol .colon => labeledStatement statement
  | .identifier _, .identifier _ => return .declare (← variableDeclaration registry)
  | .identifier _, .symbol .assign => assignment registry
  | _, _ => expressionStatement registry

/-- A statement whose parts that are statements are read by the second argument. -/
def statementOf (registry : Registry) (statement : Parser Statement) : Parser Statement := do
  match ← kind with
  | .symbol .leftBrace =>
    let b ← blockOf statement
    return .block b.statements b.span
  | .reserved .returnWord => leaveStatement registry
  | _ =>
    match ← clauseKeyword? registry with
    | some d => clauseStatement registry d
    | none => plainStatement registry statement

def statement (registry : Registry) : Parser Statement :=
  recur (fun again _ => statementOf registry (again ())) ()

def block (registry : Registry) : Parser Block := blockOf (statement registry)

end Contracts.Parser
