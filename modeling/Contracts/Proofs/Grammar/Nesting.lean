import Contracts.Proofs.Parsing.Sound

/-! Braces in a class body. Brace counting finds the brace that closes one (`matched`). The
words that stand between braces say more: where a member or a statement may start, where
behind a member's parentheses its body may start, and where an opening brace can only be a
mistake (`Spot`). A class body is orderly when its braces match and none of them opens in a
clause of the class or, in a body, inside a statement (`orderly`). -/

namespace Contracts

/-! ### Counting -/

/-- The number of open braces behind a token; the end of the text closes none. -/
def TokenKind.depthBehind : Nat → TokenKind → Option Nat
  | _, endOfText => none
  | depth, symbol .leftBrace => some (depth + 1)
  | 0, symbol .rightBrace => none
  | depth + 1, symbol .rightBrace => some depth
  | depth, _ => some depth

/-- Every brace that these tokens open is closed by one of them, and so are `depth` others. -/
def matched : Nat → List Token → Bool
  | depth, [] => depth == 0
  | depth, t :: ts =>
    match t.kind.depthBehind depth with
    | some depth => matched depth ts
    | none => false

/-! ### Spots -/

/-- Where in a class body a token stands. -/
inductive Spot
  /-- Where a member may start. -/
  | memberStart
  /-- In a clause of the class. -/
  | clause
  /-- Behind a closing parenthesis of a member, where its body may start. -/
  | header
  /-- Elsewhere in a member. -/
  | member
  /-- Where a statement may start, in a body and `depth` blocks of it. -/
  | statementStart (depth : Nat)
  /-- Behind a word that may be the label of a statement. -/
  | label (depth : Nat)
  /-- Elsewhere in a statement. -/
  | statement (depth : Nat)
  /-- In braces of a member that are no body. -/
  | skipped (depth : Nat)
deriving DecidableEq

def ClauseKind.isTypeClause : ClauseKind → Bool
  | typeClause _ => true
  | _ => false

namespace TokenKind

/-- A registered word that starts a clause of a class. -/
def startsClause (registry : Registry) (on : Bool) (k : TokenKind) : Bool :=
  (k.keyword? registry on).any (·.kind.isTypeClause)

/-- A word that is no registered one, so a colon makes it a label. -/
def startsLabel (registry : Registry) (on : Bool) : TokenKind → Bool
  | identifier word => ((identifier word).keyword? registry on).isNone
  | _ => false

end TokenKind

namespace Spot

/-- The number of braces open around the spot. -/
def depth : Spot → Nat
  | statementStart n => n + 1
  | label n => n + 1
  | statement n => n + 1
  | skipped n => n + 1
  | _ => 0

/-- Behind an opening brace, if one may stand here. -/
def opened : Spot → Option Spot
  | memberStart => some (skipped 0)
  | clause => none
  | header => some (statementStart 0)
  | member => some (skipped 0)
  | statementStart n => some (statementStart (n + 1))
  | label _ => none
  | statement _ => none
  | skipped n => some (skipped (n + 1))

/-- Behind the closing brace of a block of a body. -/
def outer : Nat → Spot
  | 0 => memberStart
  | n + 1 => statementStart n

/-- Behind a closing brace, if one is open. -/
def closed : Spot → Option Spot
  | statementStart n => some (outer n)
  | label n => some (outer n)
  | statement n => some (outer n)
  | skipped 0 => some memberStart
  | skipped (n + 1) => some (skipped n)
  | _ => none

/-- Behind a terminator. -/
def terminated : Spot → Spot
  | statementStart n => statementStart n
  | label n => statementStart n
  | statement n => statementStart n
  | skipped n => skipped n
  | _ => memberStart

/-- Behind any other token. -/
def across (registry : Registry) (on : Bool) (k : TokenKind) : Spot → Spot
  | memberStart => if k.startsClause registry on then clause else member
  | clause => clause
  | header => if k = .symbol .rightParen then header else member
  | member => if k = .symbol .rightParen then header else member
  | statementStart n => if k.startsLabel registry on then label n else statement n
  | label n => if k = .symbol .colon then statementStart n else statement n
  | statement n => statement n
  | skipped n => skipped n

/-- Behind a token, if it may stand here. -/
def step (registry : Registry) (on : Bool) (s : Spot) : TokenKind → Option Spot
  | .symbol .leftBrace => s.opened
  | .symbol .rightBrace => s.closed
  | .symbol .semicolon => some s.terminated
  | .endOfText => none
  | k => some (s.across registry on k)

end Spot

/-- Read from this spot on, the tokens lead back out of all braces. -/
def orderly (registry : Registry) (on : Bool) : Spot → List Token → Bool
  | s, [] => s.depth == 0
  | s, t :: ts =>
    match s.step registry on t.kind with
    | some s => orderly registry on s ts
    | none => false

variable {registry : Registry} {on : Bool}

/-! ### Both together -/

theorem depth_across (k : TokenKind) (s : Spot) : (s.across registry on k).depth = s.depth := by
  cases s <;> simp only [Spot.across]
  all_goals try split
  all_goals rfl

theorem depth_outer (n : Nat) : (Spot.outer n).depth = n := by
  cases n <;> rfl

/-- The spot behind a token is as deep as counting says. -/
theorem depthBehind_of_step {s s' : Spot} {k : TokenKind} (h : s.step registry on k = some s') :
    k.depthBehind s.depth = some s'.depth := by
  unfold Spot.step at h
  split at h
  · cases s <;> cases h <;> rfl
  · cases s with
    | statementStart n | label n | statement n =>
      cases h
      rw [depth_outer]
      rfl
    | skipped n => cases n <;> cases h <;> rfl
    | memberStart | clause | header | member => nomatch h
  · cases h
    cases s <;> rfl
  · nomatch h
  · next opening closing _ ending =>
    cases h
    rw [depth_across]
    unfold TokenKind.depthBehind
    split
    · exact absurd rfl ending
    · exact absurd rfl opening
    · exact absurd rfl closing
    · exact absurd rfl closing
    · rfl

theorem matched_of_orderly {s : Spot} {ts : List Token} (h : orderly registry on s ts = true) :
    matched s.depth ts = true := by
  induction ts generalizing s with
  | nil => exact h
  | cons t ts ih =>
    unfold orderly at h
    split at h
    · next s' hs =>
      rw [matched, depthBehind_of_step hs]
      exact ih h
    · nomatch h

end Contracts
