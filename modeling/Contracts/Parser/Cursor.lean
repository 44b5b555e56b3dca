import Contracts.Parser.SyntaxError

/-! Cursors. A cursor stands before the tokens still to be read and keeps the errors
reported on the way. The token that ends the text is looked at and never
consumed, so a cursor that moves has fewer tokens left (`rest_advance`). -/

namespace Contracts

structure Cursor where
  rest : List Token
  /-- The place of the token consumed last. -/
  previous : Span := .origin
  errors : List SyntaxError := []
  /-- While set, registered clause keywords are reserved words. -/
  reserving : Bool := true

namespace Cursor

def kind (c : Cursor) : TokenKind :=
  match c.rest with
  | [] => .endOfText
  | t :: _ => t.kind

/-- The kind of the token behind the next one. -/
def secondKind (c : Cursor) : TokenKind :=
  match c.rest with
  | _ :: t :: _ => t.kind
  | _ => .endOfText

/-- The place of the next token; where there is none, of the last one. -/
def span (c : Cursor) : Span :=
  match c.rest with
  | [] => c.previous
  | t :: _ => t.span

def current (c : Cursor) : Token := ⟨c.kind, c.span⟩

/-- Moves over the next token, unless the text ends here. -/
def advance (c : Cursor) : Cursor :=
  match c.rest with
  | [] => c
  | t :: ts => if t.kind = .endOfText then c else { c with rest := ts, previous := t.span }

def skip : Nat → Cursor → Cursor
  | 0, c => c
  | n + 1, c => skip n c.advance

def report (e : SyntaxError) (c : Cursor) : Cursor := { c with errors := c.errors ++ [e] }

@[simp] theorem advance_errors (c : Cursor) : c.advance.errors = c.errors := by
  unfold advance
  repeat' split
  all_goals rfl

@[simp] theorem advance_reserving (c : Cursor) : c.advance.reserving = c.reserving := by
  unfold advance
  repeat' split
  all_goals rfl

/-- Away from the end of the text, moving consumes one token. -/
theorem rest_advance {c : Cursor} (h : c.kind ≠ .endOfText) :
    c.rest = c.current :: c.advance.rest := by
  obtain ⟨rest, previous, errors, reserving⟩ := c
  cases rest with
  | nil => exact absurd rfl h
  | cons t ts =>
    have ht : ¬t.kind = .endOfText := h
    simp [current, kind, span, advance, ht]

theorem advance_of_end {c : Cursor} (h : c.kind = .endOfText) : c.advance = c := by
  obtain ⟨rest, previous, errors, reserving⟩ := c
  cases rest with
  | nil => rfl
  | cons t ts =>
    have ht : t.kind = .endOfText := h
    simp [advance, ht]

/-! ### Distances for recovery -/

/-- The number of tokens up to the next terminator, with it; a closing brace and
the end of the text stop the count and are left out. -/
def terminatorDistance : List Token → Nat
  | [] => 0
  | t :: ts =>
    match t.kind with
    | .endOfText => 0
    | .symbol .rightBrace => 0
    | .symbol .semicolon => 1
    | _ => terminatorDistance ts + 1

/-- The number of tokens of the rest of a member, `depth` braces deep: through a
terminator outside braces or through the brace that closes the outermost one. A
closing brace outside braces is left out. -/
def memberDistance : Nat → List Token → Nat
  | _, [] => 0
  | depth, t :: ts =>
    match t.kind, depth with
    | .endOfText, _ => 0
    | .symbol .semicolon, 0 => 1
    | .symbol .leftBrace, depth => memberDistance (depth + 1) ts + 1
    | .symbol .rightBrace, 0 => 0
    | .symbol .rightBrace, 1 => 1
    | .symbol .rightBrace, depth + 2 => memberDistance (depth + 1) ts + 1
    | _, depth => memberDistance depth ts + 1

/-- The number of tokens before the next class. -/
def classDistance : List Token → Nat
  | [] => 0
  | t :: ts =>
    match t.kind with
    | .endOfText => 0
    | .reserved .classWord => 0
    | _ => classDistance ts + 1

end Cursor

end Contracts
