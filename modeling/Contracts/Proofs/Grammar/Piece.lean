import Contracts.Token.Lex
import Mathlib.Algebra.Group.Nat.Defs

/-! What a piece of a source text may be, said without the cutter: white space, a complete
comment, a token or a fault. A token is the longest text of its class that starts where it
starts, and its kind is read off its text. A division is a whole text as consecutive pieces
with their byte ranges. -/

namespace Contracts

open Text

/-! ### Classes of texts -/

/-- The classes of the texts of tokens. -/
inductive TokenClass
  | word
  | number
  | specWord
  | symbol

namespace TokenClass

def Has : TokenClass → List Char → Prop
  | word, text => ∃ c cs, text = c :: cs ∧ isWordStart c = true ∧ ∀ d ∈ cs, isWordChar d = true
  | number, text => text ≠ [] ∧ ∀ d ∈ text, d.isDigit = true
  | specWord, text => ∃ c cs, text = '\\' :: c :: cs ∧ ∀ d ∈ c :: cs, isWordChar d = true
  | symbol, text => ∃ s : Symbol, text = s.spelling.toList

end TokenClass

/-- A run of white space. -/
def IsBlankRun (text : List Char) : Prop := text ≠ [] ∧ ∀ c ∈ text, isBlank c = true

/-- The text has the property, and no longer text that starts in the same place has it. -/
structure Longest (P : List Char → Prop) (text rest : List Char) : Prop where
  holds : P text
  maximal : ∀ longer, longer <+: text ++ rest → P longer → longer.length ≤ text.length

/-- The kind of a token with a text of the class. -/
inductive TokenClass.Gives : TokenClass → List Char → TokenKind → Prop
  | reserved (w : Reserved) : Gives .word w.spelling.toList (.reserved w)
  | identifier (text : List Char) (free : ∀ w : Reserved, text ≠ w.spelling.toList) :
    Gives .word text (.identifier (.ofList text))
  | integer (text : List Char) (small : Nat.ofDigitChars 10 text 0 < 2 ^ 63) :
    Gives .number text (.integer (Nat.ofDigitChars 10 text 0))
  | specWord (text : List Char) : Gives .specWord text (.specWord (.ofList text))
  | symbol (s : Symbol) : Gives .symbol s.spelling.toList (.symbol s)

/-- No text of a token stands in front. -/
def NoToken (cs : List Char) : Prop := ∀ (K : TokenClass) text, text <+: cs → ¬K.Has text

/-! ### Comments -/

/-- The end of a line or of the whole text. A carriage return ends a line only before a line
feed. -/
inductive LineEnd : List Char → Prop
  | textEnd : LineEnd []
  | feed (cs : List Char) : LineEnd ('\n' :: cs)
  | returnFeed (cs : List Char) : LineEnd ('\r' :: '\n' :: cs)

/-- What closes a block comment. -/
def closing : List Char := ['*', '/']

/-- A complete comment, with what follows it. -/
inductive IsComment : List Char → List Char → Prop
  | line {body rest : List Char} (inside : ∀ c ∈ body, Piece.endsLine c = false)
    (ends : LineEnd rest) : IsComment ('/' :: '/' :: body) rest
  | block {body rest : List Char} (first : ¬closing <:+: body ++ ['*']) :
    IsComment ('/' :: '*' :: (body ++ closing)) rest

/-- A block comment that nothing closes. -/
def IsUnclosed (text : List Char) : Prop := ∃ body, text = '/' :: '*' :: body ∧ ¬closing <:+: body

/-- A comment stands in front, complete or not. -/
def OpensComment (cs : List Char) : Prop :=
  (∃ text rest, cs = text ++ rest ∧ IsComment text rest) ∨ IsUnclosed cs

/-! ### Pieces -/

/-- The text with what follows it is a piece of the kind. -/
inductive IsPiece : PieceKind → List Char → List Char → Prop
  | blank {text rest : List Char} (run : Longest IsBlankRun text rest) : IsPiece .blank text rest
  | comment {text rest : List Char} (comment : IsComment text rest) : IsPiece .comment text rest
  | unclosed {text : List Char} (unclosed : IsUnclosed text) :
    IsPiece (.fault .unclosedComment) text []
  | token {text rest : List Char} {K : TokenClass} {k : TokenKind}
    (plain : ¬OpensComment (text ++ rest)) (longest : Longest K.Has text rest)
    (kind : K.Gives text k) : IsPiece (.token k) text rest
  | tooLarge {text rest : List Char} (longest : Longest TokenClass.number.Has text rest)
    (large : 2 ^ 63 ≤ Nat.ofDigitChars 10 text 0) : IsPiece (.fault .integerTooLarge) text rest
  | loneBackslash {rest : List Char} (none : NoToken ('\\' :: rest)) :
    IsPiece (.fault .loneBackslash) ['\\'] rest
  | unexpected {c : Char} {rest : List Char} (ink : isBlank c = false) (other : c ≠ '\\')
    (none : NoToken (c :: rest)) : IsPiece (.fault (.unexpected c)) [c] rest

/-! ### Divisions -/

/-- A piece of a source text with its byte range. -/
structure Part where
  kind : PieceKind
  text : List Char
  span : Span

namespace Part

def token? (p : Part) : Option Token := p.kind.token?.map (⟨·, p.span⟩)

def fault? (p : Part) : Option LexError := p.kind.fault?.map (⟨·, p.span⟩)

end Part

/-- A text, from a start offset on, as consecutive pieces none of which is empty. -/
inductive Divided : Nat → List Char → List Part → Prop
  | nil (start : Nat) : Divided start [] []
  | cons {start : Nat} {k : PieceKind} {text rest : List Char} {parts : List Part}
    (nonempty : text ≠ []) (piece : IsPiece k text rest)
    (others : Divided (start + byteLength text) rest parts) :
    Divided start (text ++ rest) (⟨k, text, ⟨start, start + byteLength text⟩⟩ :: parts)

end Contracts
