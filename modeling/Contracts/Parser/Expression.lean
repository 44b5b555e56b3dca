import Contracts.Parser.Basic

/-! Expressions. From the loosest binding: `==>`, which groups to the right; the
operators of `ladder`, level by level, which group to the left; prefix `-` and
`!`; selections `.f` and `(args)`. Parsers of the parts take the parser of whole
expressions as an argument; `expression` ties the knot. -/

namespace Contracts.Parser

/-! ### Operators -/

/-- Binary operators that group to the left, loosest level first. -/
def ladder : List (List (Symbol × BinaryOp)) :=
  [[(.either, .or)],
   [(.both, .and)],
   [(.equal, .equal), (.notEqual, .notEqual)],
   [(.less, .less), (.atMost, .atMost), (.greater, .greater), (.atLeast, .atLeast)],
   [(.plus, .add), (.minus, .sub)],
   [(.star, .mul), (.slash, .div), (.percent, .rem)]]

def operator? (level : List (Symbol × BinaryOp)) : TokenKind → Option BinaryOp
  | .symbol s => level.lookup s
  | _ => none

/-- Joins two operands; the result covers both. -/
def joined (op : BinaryOp) (left right : Expr) : Expr :=
  .binary op left right (left.span.union right.span)

/-- Operands joined by the operators of one level, grouped to the left. -/
def chain (level : List (Symbol × BinaryOp)) (operand : Parser Expr) : Parser Expr := do
  recur step (← operand)
where
  step (again : Expr → Parser Expr) (left : Expr) : Parser Expr := do
    match operator? level (← kind) with
    | none => return left
    | some op =>
      let _ ← advance
      let right ← operand
      again (joined op left right)

def prefixOperator? : TokenKind → Option UnaryOp
  | .symbol .minus => some .neg
  | .symbol .bang => some .not
  | _ => none

/-- Prefix operators before an operand. -/
def prefixed (operand : Parser Expr) : Parser Expr :=
  recur (fun again _ => step again) ()
where
  step (again : Unit → Parser Expr) : Parser Expr := do
    match prefixOperator? (← kind) with
    | none => operand
    | some op =>
      let start := (← advance).span.start
      let e ← again ()
      return .unary op e ⟨start, e.span.stop⟩

/-! ### Arguments and selections -/

/-- One expression or more, separated by commas. -/
def commaSeparated (item : Parser α) : Parser (List α) :=
  recur (fun again _ => step again) ()
where
  step (again : Unit → Parser (List α)) : Parser (List α) := do
    let first ← item
    if ← accept .comma then
      return first :: (← again ())
    else
      return [first]

/-- Items in parentheses, separated by commas; there may be none. -/
def parenthesized (item : Parser α) : Parser (List α) := do
  let _ ← expectSymbol .leftParen
  let items ← if (← kind) = .symbol .rightParen then pure [] else commaSeparated item
  let _ ← expectSymbol .rightParen
  return items

/-- Selections behind an expression. -/
def selections (expr : Parser Expr) : Expr → Parser Expr :=
  recur step
where
  step (again : Expr → Parser Expr) (e : Expr) : Parser Expr := do
    match ← kind with
    | .symbol .leftParen =>
      let args ← parenthesized expr
      again (.call e args ⟨e.span.start, ← previousEnd⟩)
    | .symbol .dot =>
      let _ ← advance
      let field ← expectName .selectedField
      again (.field e field (e.span.union field.span))
    | _ => return e

/-! ### References to earlier states -/

/-- A state keyword with its arguments, in any number, and the selections behind
them. -/
def stateReferenceOf (expr : Parser Expr) (d : Descriptor) (keyword : StateKeyword) :
    Parser Expr := do
  let word := (← advance).span
  if (← kind) = .symbol .leftParen then
    let args ← parenthesized expr
    let head := ⟨d, keyword, [], word, ⟨word.start, ← previousEnd⟩⟩
    selections expr (.state head args none)
  else
    placeholder ⟨.argumentsRequired d.keyword, word⟩

/-- The word for the value that a method returns. -/
def resultWord : String := "\\result"

/-- An expression that starts with a backslash word. -/
def specWord (registry : Registry) (expr : Parser Expr) (word : String) : Parser Expr := do
  if word = resultWord then
    return .result (← advance).span
  else
    match (registry.get? word).bind fun d => d.stateKeyword?.map (d, ·) with
    | some (d, keyword) => stateReferenceOf expr d keyword
    | none => placeholder ⟨.unknownSpecWord word, (← advance).span⟩

/-! ### Whole expressions -/

def primary (registry : Registry) (expr : Parser Expr) : Parser Expr := do
  match ← kind with
  | .identifier word =>
    let keyword ← clauseKeyword? registry
    let place := (← advance).span
    match keyword with
    | some d => placeholder ⟨.reservedName d.keyword, place⟩
    | none => return .name ⟨word, place⟩
  | .integer value => return .int value (← advance).span
  | .reserved .trueWord => return .bool true (← advance).span
  | .reserved .falseWord => return .bool false (← advance).span
  | .symbol .leftParen =>
    let _ ← advance
    let e ← expr
    let _ ← expectSymbol .rightParen
    return e
  | .specWord word => specWord registry expr word
  | found => failHere (.expectedExpression found)

/-- An operand without prefix operators, with the selections behind it. -/
def selected (registry : Registry) (expr : Parser Expr) : Parser Expr := do
  selections expr (← primary registry expr)

/-- An expression without `==>` outside parentheses. -/
def disjunction (registry : Registry) (expr : Parser Expr) : Parser Expr :=
  ladder.foldr chain (prefixed (selected registry expr))

def implication (registry : Registry) (expr : Parser Expr) : Parser Expr := do
  let left ← disjunction registry expr
  if ← accept .implies then
    let right ← expr
    return joined .implies left right
  else
    return left

def expression (registry : Registry) : Parser Expr :=
  recur (fun again _ => implication registry (again ())) ()

def arguments (registry : Registry) : Parser (List Expr) := parenthesized (expression registry)

/-- Continues an expression with the selections behind it. -/
def trailers (registry : Registry) (e : Expr) : Parser Expr := selections (expression registry) e

def stateReference (registry : Registry) (d : Descriptor) (keyword : StateKeyword) :
    Parser Expr :=
  stateReferenceOf (expression registry) d keyword

end Contracts.Parser
