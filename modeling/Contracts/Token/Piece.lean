import Contracts.Text.CharClass
import Contracts.Token.Kind

/-! A source text is cut into consecutive non-empty pieces: runs of white space,
comments, tokens, and faults. `head` takes the first piece of a text and `cut`
takes them all; the texts of the pieces, in order, are the whole text
(`flatMap_text_cut`). -/

namespace Contracts

open Text

/-- Why a stretch of text is no token. -/
inductive LexFault
  | unclosedComment
  | integerTooLarge
  | loneBackslash
  | unexpected (c : Char)
deriving DecidableEq

namespace LexFault

def message : LexFault → String
  | unclosedComment => "unterminated block comment"
  | integerTooLarge => "integer literal out of range"
  | loneBackslash => "expected a keyword after `\\`"
  | unexpected c => s!"unexpected character `{c}`"

end LexFault

inductive PieceKind
  | blank
  | comment
  | token (kind : TokenKind)
  | fault (fault : LexFault)
deriving DecidableEq

/-- A piece that starts with the character `first`. -/
structure Piece where
  kind : PieceKind
  first : Char
  others : List Char
deriving DecidableEq

namespace Piece

def text (p : Piece) : List Char := p.first :: p.others

/-! ### Comments -/

def endsLine (c : Char) : Bool := c == '\n' || c == '\r'

/-- What a line comment covers of the text after its two slashes: all up to the
first line end. A carriage return that no line feed follows is not a line end,
and makes the slashes no comment. -/
def lineComment? (cs : List Char) : Option (List Char) :=
  match cs.dropWhile (!endsLine ·) with
  | '\r' :: '\n' :: _ => some (cs.takeWhile (!endsLine ·))
  | '\r' :: _ => none
  | _ => some (cs.takeWhile (!endsLine ·))

/-- What a block comment covers of the text after its opening: all through the
first closing. -/
def blockComment? : List Char → Option (List Char)
  | [] => none
  | '*' :: '/' :: _ => some ['*', '/']
  | c :: cs => (blockComment? cs).map (c :: ·)

/-! ### Literals, words and symbols -/

/-- The value of a run of decimal digits. -/
def decimalValue (digits : List Char) : Nat :=
  digits.foldl (fun value d => 10 * value + (d.toNat - '0'.toNat)) 0

/-- The largest integer that can be written, one less than the 63rd power of two. -/
def largestInteger : Nat := 9223372036854775807

def ofDigits (digits : List Char) : PieceKind :=
  let value := decimalValue digits
  if value ≤ largestInteger then .token (.integer value) else .fault .integerTooLarge

/-- The first symbol of the table whose spelling starts the text. -/
def symbol? (cs : List Char) : Option Symbol :=
  Symbol.all.find? (·.spelling.toList.isPrefixOf cs)

/-- A piece that is not white space and not a comment. -/
def lexeme (c : Char) (cs : List Char) : Piece :=
  if isWordStart c then
    let others := cs.takeWhile isWordChar
    ⟨.token (.ofWord (.ofList (c :: others))), c, others⟩
  else if c.isDigit then
    let others := cs.takeWhile Char.isDigit
    ⟨ofDigits (c :: others), c, others⟩
  else if c = '\\' then
    match cs.takeWhile isWordChar with
    | [] => ⟨.fault .loneBackslash, c, []⟩
    | others => ⟨.token (.specWord (.ofList (c :: others))), c, others⟩
  else
    match symbol? (c :: cs) with
    | some symbol => ⟨.token (.symbol symbol), c, symbol.spelling.toList.tail⟩
    | none => ⟨.fault (.unexpected c), c, []⟩

/-- The first piece of the text `c :: cs`. -/
def head (c : Char) (cs : List Char) : Piece :=
  if isBlank c then ⟨.blank, c, cs.takeWhile isBlank⟩
  else if c = '/' then
    match cs with
    | '/' :: rest =>
      match lineComment? rest with
      | some body => ⟨.comment, c, '/' :: body⟩
      | none => lexeme c cs
    | '*' :: rest =>
      match blockComment? rest with
      | some body => ⟨.comment, c, '*' :: body⟩
      | none => ⟨.fault .unclosedComment, c, cs⟩
    | _ => lexeme c cs
  else lexeme c cs

/-! ### All pieces -/

/-- The pieces of a text whose first `skip` characters belong to the piece
before it. -/
def cutAfter : Nat → List Char → List Piece
  | _, [] => []
  | skip + 1, _ :: cs => cutAfter skip cs
  | 0, c :: cs => head c cs :: cutAfter (head c cs).others.length cs

/-- The pieces of a text, in order. -/
def cut (cs : List Char) : List Piece := cutAfter 0 cs

@[simp] theorem cut_nil : cut [] = [] := rfl

theorem cutAfter_eq_cut_drop (skip : Nat) (cs : List Char) :
    cutAfter skip cs = cut (cs.drop skip) := by
  induction cs generalizing skip with
  | nil => simp [cutAfter]
  | cons c cs ih =>
    cases skip with
    | zero => rfl
    | succ skip => simp [cutAfter, ih]

theorem cut_cons (c : Char) (cs : List Char) :
    cut (c :: cs) = head c cs :: cut (cs.drop (head c cs).others.length) := by
  rw [← cutAfter_eq_cut_drop]
  rfl

/-! ### The first piece starts the text -/

theorem lineComment?_isPrefix {cs body : List Char} (h : lineComment? cs = some body) :
    body <+: cs := by
  have key : cs.takeWhile (!endsLine ·) <+: cs := List.takeWhile_prefix _
  unfold lineComment? at h
  split at h <;> simp_all

theorem blockComment?_isPrefix {cs body : List Char} (h : blockComment? cs = some body) :
    body <+: cs := by
  fun_induction blockComment? cs generalizing body with
  | case1 => simp at h
  | case2 =>
    obtain rfl := Option.some.inj h
    exact ⟨_, rfl⟩
  | case3 c cs _ ih =>
    obtain ⟨tail, htail, rfl⟩ := Option.map_eq_some_iff.1 h
    exact (List.prefix_cons_inj c).2 (ih htail)

@[simp] theorem lexeme_first (c : Char) (cs : List Char) : (lexeme c cs).first = c := by
  unfold lexeme
  repeat' split
  all_goals rfl

@[simp] theorem head_first (c : Char) (cs : List Char) : (head c cs).first = c := by
  unfold head
  repeat' split
  all_goals simp

theorem symbol?_tail_isPrefix {c : Char} {cs : List Char} {s : Symbol}
    (h : symbol? (c :: cs) = some s) : s.spelling.toList.tail <+: cs := by
  have hs : s.spelling.toList <+: c :: cs := by
    simpa using List.find?_some h
  generalize s.spelling.toList = spelling at hs
  cases spelling with
  | nil => exact List.nil_prefix
  | cons d ds => exact (List.cons_prefix_cons.1 hs).2

theorem lexeme_others_isPrefix (c : Char) (cs : List Char) : (lexeme c cs).others <+: cs := by
  have words : cs.takeWhile isWordChar <+: cs := List.takeWhile_prefix _
  have digits : cs.takeWhile Char.isDigit <+: cs := List.takeWhile_prefix _
  unfold lexeme
  split
  · exact words
  split
  · exact digits
  split
  · split
    · exact List.nil_prefix
    · exact words
  · split
    · next h => exact symbol?_tail_isPrefix h
    · exact List.nil_prefix

theorem head_others_isPrefix (c : Char) (cs : List Char) : (head c cs).others <+: cs := by
  have blanks : cs.takeWhile isBlank <+: cs := List.takeWhile_prefix _
  unfold head
  split
  · exact blanks
  split
  · split
    · split
      · next h => exact (List.prefix_cons_inj _).2 (lineComment?_isPrefix h)
      · exact lexeme_others_isPrefix _ _
    · split
      · next h => exact (List.prefix_cons_inj _).2 (blockComment?_isPrefix h)
      · exact List.prefix_refl _
    · exact lexeme_others_isPrefix _ _
  · exact lexeme_others_isPrefix _ _

/-- The pieces cover the text: nothing is lost and nothing is covered twice. -/
theorem flatMap_text_cut (cs : List Char) : (cut cs).flatMap text = cs := by
  suffices h : ∀ skip, (cutAfter skip cs).flatMap text = cs.drop skip from h 0
  induction cs with
  | nil => simp [cutAfter]
  | cons c cs ih =>
    intro skip
    cases skip with
    | zero =>
      have split := List.prefix_iff_eq_append.1 (head_others_isPrefix c cs)
      simp [cutAfter, ih, text, split]
    | succ skip => simp [cutAfter, ih]

end Piece

end Contracts
