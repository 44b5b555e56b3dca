import Contracts.Clause.Registry
import Contracts.Parser.Cursor
import Contracts.Tree.Unit

/-! Parsers. A parser reads from a cursor and may fail, which leaves the cursor where
the failure was. What the basic ones do to a cursor is stated once for each
(`expect_apply` and so on). Repetition goes through `recur`, whose body is entered
again only after a token has been consumed (`recur_eq`), so every parser ends. -/

namespace Contracts

/-- A reader of tokens; a failure keeps the cursor and is not reported yet. -/
abbrev Parser := EStateM SyntaxError Cursor

namespace Parser

variable {α β : Type}

theorem pure_apply (a : α) (c : Cursor) : (pure a : Parser α) c = .ok a c := rfl

theorem bind_apply (p : Parser α) (f : α → Parser β) (c : Cursor) :
    (p >>= f) c =
      match p c with
      | .ok a c' => f a c'
      | .error e c' => .error e c' := by
  change EStateM.bind p f c = _
  unfold EStateM.bind
  cases p c <;> rfl

/-! ### The cursor -/

def kind : Parser TokenKind := fun c => .ok c.kind c

def secondKind : Parser TokenKind := fun c => .ok c.secondKind c

def span : Parser Span := fun c => .ok c.span c

/-- The offset behind the token consumed last. -/
def previousEnd : Parser Nat := fun c => .ok c.previous.stop c

/-- Whether registered clause keywords are reserved words here. -/
def reserving : Parser Bool := fun c => .ok c.reserving c

/-- Consumes the next token and returns it. -/
def advance : Parser Token := fun c => .ok c.current c.advance

def report (e : SyntaxError) : Parser Unit := fun c => .ok () (c.report e)

/-- Fails at the next token. -/
def failHere (fault : SyntaxFault) : Parser α := fun c => .error ⟨fault, c.span⟩ c

def skipThroughTerminator : Parser Unit := fun c =>
  .ok () (c.skip (Cursor.terminatorDistance c.rest))

def skipMember : Parser Unit := fun c => .ok () (c.skip (Cursor.memberDistance 0 c.rest))

def skipToClass : Parser Unit := fun c => .ok () (c.skip (Cursor.classDistance c.rest))

/-- Reports an error and leaves a placeholder in its place. -/
def placeholder (e : SyntaxError) : Parser Expr := do
  report e
  return .missing e.span

/-! ### Single tokens -/

def expect (wanted : TokenKind) : Parser Token := do
  let found ← kind
  if found = wanted then advance else failHere (.expectedToken wanted found)

theorem expect_apply (wanted : TokenKind) (c : Cursor) :
    expect wanted c =
      if c.kind = wanted then .ok c.current c.advance
      else .error ⟨.expectedToken wanted c.kind, c.span⟩ c := by
  simp only [expect, bind_apply, kind]
  split <;> rfl

def expectSymbol (s : Symbol) : Parser Token := expect (.symbol s)

/-- Consumes the symbol if it is next. -/
def accept (s : Symbol) : Parser Bool := do
  if (← kind) = .symbol s then
    let _ ← advance
    return true
  else
    return false

theorem accept_apply (s : Symbol) (c : Cursor) :
    accept s c = if c.kind = .symbol s then .ok true c.advance else .ok false c := by
  simp only [accept, bind_apply, kind]
  split <;> rfl

/-- A name, or the given fault in its place. -/
def nameOr (fault : TokenKind → SyntaxFault) : Parser Name := do
  match ← kind with
  | .identifier word => return ⟨word, (← advance).span⟩
  | found => failHere (fault found)

theorem nameOr_apply (fault : TokenKind → SyntaxFault) (c : Cursor) :
    nameOr fault c =
      match c.kind with
      | .identifier word => .ok ⟨word, c.span⟩ c.advance
      | found => .error ⟨fault found, c.span⟩ c := by
  simp only [nameOr, bind_apply, kind]
  generalize c.kind = found
  cases found <;> rfl

def expectName (role : NameRole) : Parser Name := nameOr fun _ => .expectedName role

def typeName : Parser Name := nameOr .expectedType

/-- The descriptor of the next token, if that is a registered word and such words
are reserved here. -/
def clauseKeyword? (registry : Registry) : Parser (Option Descriptor) := do
  match ← reserving, ← kind with
  | true, .identifier word => return registry.get? word
  | _, _ => return none

/-! ### Failure and mode -/

/-- Turns a failure into a result. -/
def outcome (p : Parser α) : Parser (Except SyntaxError α) := fun c =>
  match p c with
  | .ok a c' => .ok (.ok a) c'
  | .error e c' => .ok (.error e) c'

/-- Runs a parser with clause keywords reserved or not, and restores the mode
that was in force, also after a failure. -/
def withReserving (on : Bool) (p : Parser α) : Parser α := fun c =>
  match p { c with reserving := on } with
  | .ok a c' => .ok a { c' with reserving := c.reserving }
  | .error e c' => .error e { c' with reserving := c.reserving }

/-! ### Repetition -/

/-- The parser `p`, entered only where fewer tokens are left than at `c`. -/
def beyond (c : Cursor) (p : α → Parser β) : α → Parser β := fun a c' =>
  if c'.rest.length < c.rest.length then p a c' else failHere .noProgress c'

/-- At most `n` nested entries of `step`. -/
def recurUpTo (step : (α → Parser β) → α → Parser β) : Nat → α → Parser β
  | 0, _ => failHere .noProgress
  | n + 1, a => fun c => step (beyond c (recurUpTo step n)) a c

/-- The parser `step` that has itself as its first argument. -/
def recur (step : (α → Parser β) → α → Parser β) (a : α) : Parser β := fun c =>
  recurUpTo step (c.rest.length + 1) a c

theorem recurUpTo_eq (step : (α → Parser β) → α → Parser β) {n : Nat} {a : α} {c : Cursor}
    (h : c.rest.length < n) : recurUpTo step n a c = recur step a c := by
  suffices ∀ n m : Nat, ∀ a c, c.rest.length < n → c.rest.length < m →
      recurUpTo step n a c = recurUpTo step m a c from this n _ a c h (Nat.lt_succ_self _)
  intro n
  induction n with
  | zero => intro m a c hn; omega
  | succ n ih =>
    intro m a c hn hm
    obtain ⟨m, rfl⟩ : ∃ k, m = k + 1 := ⟨m - 1, by omega⟩
    have same : beyond c (recurUpTo step n) = beyond c (recurUpTo step m) := by
      funext b d
      unfold beyond
      split
      · exact ih m b d (by omega) (by omega)
      · rfl
    simp only [recurUpTo, same]

/-- A repetition unfolds, with itself guarded against entry without progress. -/
theorem recur_eq (step : (α → Parser β) → α → Parser β) (a : α) (c : Cursor) :
    recur step a c = step (beyond c (recur step)) a c := by
  have same : beyond c (recurUpTo step c.rest.length) = beyond c (recur step) := by
    funext b d
    unfold beyond
    split
    · next h => exact recurUpTo_eq step h
    · rfl
  rw [← same]
  rfl

end Parser

end Contracts
