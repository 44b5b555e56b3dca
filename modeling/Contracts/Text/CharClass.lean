/-! Classes of characters: white space, which is the 25 characters with the Unicode
property `White_Space`, and the characters of words, which are of ASCII. -/

namespace Contracts.Text

/-- The code points of white space, as inclusive ranges in ascending order. -/
def blankRanges : List (Nat × Nat) :=
  [(0x9, 0xd), (0x20, 0x20), (0x85, 0x85), (0xa0, 0xa0), (0x1680, 0x1680), (0x2000, 0x200a),
   (0x2028, 0x2029), (0x202f, 0x202f), (0x205f, 0x205f), (0x3000, 0x3000)]

def isBlank (c : Char) : Bool :=
  blankRanges.any fun range => range.1 ≤ c.toNat && c.toNat ≤ range.2

/-- The ranges hold 25 code points. -/
example : (blankRanges.map fun range => range.2 + 1 - range.1).sum = 25 := by decide

/-- Letters, digits and the underscore, all of ASCII. -/
def isWordChar (c : Char) : Bool := c.isAlphanum || c == '_'

/-- A word starts with a letter or an underscore. -/
def isWordStart (c : Char) : Bool := c.isAlpha || c == '_'

theorem isWordChar_of_isWordStart {c : Char} (h : isWordStart c = true) : isWordChar c = true := by
  simp only [isWordStart, isWordChar, Char.isAlphanum, Bool.or_eq_true] at h ⊢
  rcases h with h | h
  · exact .inl (.inl h)
  · exact .inr h

end Contracts.Text
