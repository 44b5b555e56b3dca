import Contracts.Parser.Statement
import Contracts.Parser.TypeClause

/-! Classes, their members, and whole units. A member that cannot be read is
reported and skipped to the end of the member; what stands between classes is
reported and skipped to the next class. -/

namespace Contracts.Parser

/-! ### Members -/

def fieldBehind (registry : Registry) (type name : Name) : Parser Field := do
  let init ← initialiser registry
  let _ ← expectSymbol .semicolon
  return ⟨type, name, init, none, ⟨type.span.start, ← previousEnd⟩⟩

/-- A field with a ghost keyword before it. -/
def ghostField (registry : Registry) (d : Descriptor) : Parser Field := do
  let start := (← advance).span.start
  let type ← typeName
  let name ← expectName .ghostFieldName
  let field ← fieldBehind registry type name
  return { field with ghost := some d, span := ⟨start, field.span.stop⟩ }

def param : Parser Param := do
  let type ← typeName
  let name ← expectName .parameterName
  return ⟨type, name, type.span.union name.span⟩

/-- A method from its parameter list on. -/
def methodBehind (registry : Registry) (cases : List SpecCase) (type name : Name) :
    Parser Method := do
  let start := ((cases.head?.map (·.span)).getD type.span).start
  let params ← parenthesized param
  let body ← block registry
  return ⟨type, name, params, cases, body, ⟨start, ← previousEnd⟩⟩

/-! ### Specification cases -/

/-- The word between specification cases. -/
def alsoWord : String := "also"

/-- The clauses of one specification case; there may be none. -/
def specClauses (registry : Registry) : Parser (List SpecClause) :=
  recur (fun again _ => step again) ()
where
  step (again : Unit → Parser (List SpecClause)) : Parser (List SpecClause) := do
    match (← clauseKeyword? registry).filter (·.kind.isMethodSpec) with
    | some d =>
      let c ← specClause registry d
      return c :: (← again ())
    | none => return []

def specCase (registry : Registry) : Parser SpecCase := do
  let start := (← span).start
  let clauses ← specClauses registry
  if clauses.isEmpty then
    failHere .expectedSpecClause
  else
    return ⟨clauses, ⟨start, ← previousEnd⟩⟩

/-- One specification case or more. -/
def specCases (registry : Registry) : Parser (List SpecCase) :=
  recur (fun again _ => step again) ()
where
  step (again : Unit → Parser (List SpecCase)) : Parser (List SpecCase) := do
    let c ← specCase registry
    if (← kind) = .identifier alsoWord then
      let _ ← advance
      return c :: (← again ())
    else
      return [c]

/-- A method with its specification before it. -/
def specifiedMethod (registry : Registry) : Parser Method := do
  let cases ← specCases registry
  let type ← typeName
  let name ← expectName .specifiedMethodName
  if (← kind) = .symbol .leftParen then
    methodBehind registry cases type name
  else
    failHere .specWithoutMethod

/-- A member that starts with a registered keyword. -/
def clauseMember (registry : Registry) (d : Descriptor) : Parser Member := do
  match d.kind with
  | .typeClause _ => return .clause (← typeClause registry d)
  | .methodSpec _ => return .method (← specifiedMethod registry)
  | .declaration => return .field (← ghostField registry d)
  | _ => failHere (.notInClassBody d.keyword)

/-- A field or a method without a specification. -/
def plainMember (registry : Registry) : Parser Member := do
  let type ← typeName
  let name ← expectName .memberName
  if (← kind) = .symbol .leftParen then
    return .method (← methodBehind registry [] type name)
  else
    return .field (← fieldBehind registry type name)

def member (registry : Registry) : Parser Member := do
  match ← clauseKeyword? registry with
  | some d => clauseMember registry d
  | none =>
    if (← reserving) ∧ (← kind) = .identifier alsoWord then
      failHere .strayAlso
    else
      plainMember registry

/-! ### Classes -/

/-- One member, or nothing where it had to be skipped. -/
def memberOrSkip (registry : Registry) : Parser (Option Member) := do
  match ← outcome (member registry) with
  | .ok m => return some m
  | .error e =>
    report e
    skipMember
    return none

/-- The members up to a closing brace or the end of the text; terminators between
them are skipped. -/
def members (registry : Registry) : Parser (List Member) :=
  recur (fun again _ => step again) ()
where
  step (again : Unit → Parser (List Member)) : Parser (List Member) := do
    match ← kind with
    | .symbol .rightBrace => return []
    | .endOfText => return []
    | .symbol .semicolon =>
      let _ ← advance
      again ()
    | _ =>
      let m ← memberOrSkip registry
      return m.toList ++ (← again ())

/-- A class from its keyword on. A missing closing brace is reported, and the
class is kept. -/
def classDeclaration (registry : Registry) : Parser Class := do
  let start := (← advance).span.start
  let name ← expectName .className
  let _ ← expectSymbol .leftBrace
  let members ← members registry
  match ← outcome (expectSymbol .rightBrace) with
  | .ok _ => pure ()
  | .error e => report e
  return ⟨name, members, ⟨start, ← previousEnd⟩⟩

/-- One class, or nothing where it had to be skipped. -/
def classOrSkip (registry : Registry) : Parser (Option Class) := do
  match ← outcome (classDeclaration registry) with
  | .ok c => return some c
  | .error e =>
    report e
    skipToClass
    return none

/-- The classes up to the end of the text. -/
def classes (registry : Registry) : Parser (List Class) :=
  recur (fun again _ => step again) ()
where
  step (again : Unit → Parser (List Class)) : Parser (List Class) := do
    match ← kind with
    | .endOfText => return []
    | .reserved .classWord =>
      let c ← classOrSkip registry
      return c.toList ++ (← again ())
    | found =>
      report ⟨.expectedClass found, ← span⟩
      let _ ← advance
      skipToClass
      again ()

end Contracts.Parser
