import Contracts.Span

/-! Tokens of the contract language: words, literals, punctuation and the end of
the text. Every reserved word and symbol has one spelling; the table of symbols
lists longer spellings before their beginnings. -/

namespace Contracts

/-- Words that are never names. -/
inductive Reserved
  | classWord
  | returnWord
  | trueWord
  | falseWord
deriving DecidableEq

namespace Reserved

def spelling : Reserved → String
  | classWord => "class"
  | returnWord => "return"
  | trueWord => "true"
  | falseWord => "false"

def all : List Reserved := [classWord, returnWord, trueWord, falseWord]

def ofWord? (word : String) : Option Reserved := all.find? (·.spelling == word)

end Reserved

/-- Operators and punctuation. -/
inductive Symbol
  | implies
  | equal
  | notEqual
  | atMost
  | atLeast
  | both
  | either
  | assign
  | bang
  | less
  | greater
  | plus
  | minus
  | star
  | slash
  | percent
  | dot
  | comma
  | colon
  | semicolon
  | leftParen
  | rightParen
  | leftBrace
  | rightBrace
deriving DecidableEq

namespace Symbol

def spelling : Symbol → String
  | implies => "==>"
  | equal => "=="
  | notEqual => "!="
  | atMost => "<="
  | atLeast => ">="
  | both => "&&"
  | either => "||"
  | assign => "="
  | bang => "!"
  | less => "<"
  | greater => ">"
  | plus => "+"
  | minus => "-"
  | star => "*"
  | slash => "/"
  | percent => "%"
  | dot => "."
  | comma => ","
  | colon => ":"
  | semicolon => ";"
  | leftParen => "("
  | rightParen => ")"
  | leftBrace => "\x7b"
  | rightBrace => "\x7d"

/-- Every symbol, a longer spelling before each of its beginnings. -/
def all : List Symbol :=
  [implies, equal, notEqual, atMost, atLeast, both, either, assign, bang, less, greater, plus,
   minus, star, slash, percent, dot, comma, colon, semicolon, leftParen, rightParen, leftBrace,
   rightBrace]

end Symbol

inductive TokenKind
  | identifier (name : String)
  | integer (value : Nat)
  /-- A backslash and at least one word character, kept with its backslash. -/
  | specWord (word : String)
  | reserved (word : Reserved)
  | symbol (symbol : Symbol)
  | endOfText
deriving DecidableEq

namespace TokenKind

/-- The kind as error messages name it. -/
def describe : TokenKind → String
  | identifier name => s!"identifier `{name}`"
  | integer value => s!"integer `{value}`"
  | specWord word => s!"`{word}`"
  | reserved w => s!"`{w.spelling}`"
  | symbol s => s!"`{s.spelling}`"
  | endOfText => "end of file"

/-- A word is reserved or an identifier. -/
def ofWord (word : String) : TokenKind :=
  match Reserved.ofWord? word with
  | some w => .reserved w
  | none => .identifier word

end TokenKind

structure Token where
  kind : TokenKind
  span : Span
deriving DecidableEq

end Contracts
