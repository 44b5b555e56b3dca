import Contracts.Parser.Expression

/-! Clauses of a class: a keyword, an expression, for a constraint perhaps a
frame, and a terminator. Inside a clause its keywords are ordinary names. A clause
that is not of this form is reported once, and reading goes on behind the next
terminator. -/

namespace Contracts.Parser

/-- The word that opens a frame. -/
def frameWord : String := "for"

/-- The frame that holds every method. -/
def everythingWord : String := "\\everything"

def frameMethod : Parser Name := nameOr .expectedFrameMethod

/-- The frame of a constraint, if one is written. -/
def frame : Parser (Option Frame) := do
  if (← kind) = .identifier frameWord then
    let _ ← advance
    if (← kind) = .specWord everythingWord then
      return some (.everything (← advance).span)
    else
      return some (.methods (← commaSeparated frameMethod))
  else
    return none

/-- What stands between the keyword and the terminator. -/
def typeClauseBody (registry : Registry) (d : Descriptor) : Parser (Expr × Option Frame) := do
  let expr ← expression registry
  if d.kind = .typeClause .constraint then
    return (expr, ← frame)
  else
    return (expr, none)

/-- Reports a clause that went wrong at `place`, skips the rest of it and leaves a
placeholder. -/
def brokenTypeClause (d : Descriptor) (start : Nat) (place : Span) : Parser TypeClause := do
  report ⟨.badConstruct d.keyword, place⟩
  skipThroughTerminator
  let covered := ⟨start, max (← previousEnd) start⟩
  return ⟨d, .missing covered, none, covered⟩

/-- A clause of a class, from its keyword on. -/
def typeClause (registry : Registry) (d : Descriptor) : Parser TypeClause := do
  let start := (← advance).span.start
  match ← outcome (withReserving false (typeClauseBody registry d)) with
  | .error e => brokenTypeClause d start e.span
  | .ok (expr, frame) =>
    if ← accept .semicolon then
      return ⟨d, expr, frame, ⟨start, ← previousEnd⟩⟩
    else
      brokenTypeClause d start (← span)

end Contracts.Parser
