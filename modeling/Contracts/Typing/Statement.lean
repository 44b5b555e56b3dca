import Contracts.Typing.Expression

/-! Checking statements. A statement may add a variable and labels to the scope of
the statements behind it; a block gives back the scope that it was entered with. -/

namespace Contracts.Check

def checkVariable (rules : Rules) (scope : Scope) (v : Variable) : Check (Variable × Scope) := do
  let type ← resolveType rules v.type
  let init ← inferInit rules scope type v.init
  let scope ← declare scope v.name type
  return ({ v with init := init }, scope)

def checkSpecClause (rules : Rules) (scope : Scope) (c : SpecClause) : Check SpecClause := do
  if ← isRegistered rules c.descriptor then
    let e ← inferClause rules scope c.descriptor c.expr
    return { c with expr := e }
  else
    return c

/-- Fixes the scope under a label that is not in force yet. -/
def declareLabel (scope : Scope) (label : Name) : Check Scope := do
  if scope.hasLabel label.text then
    report (.duplicate label.text) label.span
    return scope
  else
    return scope.addLabel label.text

/-- Checks what a method gives back, which has to be of the type that it returns. -/
def checkLeave (rules : Rules) (scope : Scope) (value : Option Expr) (span : Span) :
    Check (Option Expr) := do
  let type := scope.env.returnType.getD .void
  match value with
  | some e =>
    if type.isVoid then
      let (_, e') ← infer rules scope e
      report .valueInVoid e.span
      return some e'
    else
      let (_, e') ← inferAs rules scope (some type) e
      return some e'
  | none =>
    if !type.isVoid && !type.isError then
      report .missingValue span
    return none

mutual

/-- Checks a statement; gives it with its types recorded, and the scope behind
it. -/
def checkStatement (rules : Rules) (scope : Scope) : Statement → Check (Statement × Scope)
  | .declare decl => do
    let (decl, scope) ← checkVariable rules scope decl
    return (.declare decl, scope)
  | .ghost d decl => do
    if ← isRegistered rules d then
      let (decl, scope) ← within (some d) (checkVariable rules scope decl)
      return (.ghost d decl, scope)
    else
      return (.ghost d decl, scope)
  | .assign target value span => do
    let type ← variableType rules scope.env target
    let (_, value) ← inferAs rules scope (some type) value
    return (.assign target value span, scope)
  | .labeled label body span => do
    let scope ← declareLabel scope label
    let (body, scope) ← checkStatement rules scope body
    return (.labeled label body span, scope)
  | .clause c => do
    return (.clause (← checkSpecClause rules scope c), scope)
  | .leave value span => do
    return (.leave (← checkLeave rules scope value span) span, scope)
  | .expr e => do
    let (_, e) ← infer rules scope e
    return (.expr e, scope)
  | .block statements span => do
    let statements ← checkStatements rules scope statements
    return (.block statements span, scope)
  | .missing span => return (.missing span, scope)

def checkStatements (rules : Rules) (scope : Scope) : List Statement → Check (List Statement)
  | [] => return []
  | s :: ss => do
    let (s, scope) ← checkStatement rules scope s
    return s :: (← checkStatements rules scope ss)

end

end Contracts.Check
