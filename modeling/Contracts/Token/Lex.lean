import Contracts.Token.Piece

/-! Tokens of a source text, read off its pieces. A text with a faulty piece has
no tokens, only faults; offsets count bytes of UTF-8. -/

namespace Contracts

/-- A faulty stretch of a source text. -/
structure LexError where
  fault : LexFault
  span : Span
deriving DecidableEq

/-- The number of bytes of a text in UTF-8. -/
def byteLength : List Char → Nat
  | [] => 0
  | c :: cs => c.utf8Size + byteLength cs

theorem byteLength_append (cs ds : List Char) :
    byteLength (cs ++ ds) = byteLength cs + byteLength ds := by
  induction cs with
  | nil => simp [byteLength]
  | cons c cs ih => simp [byteLength, ih, Nat.add_assoc]

namespace Piece

def byteLength (p : Piece) : Nat := Contracts.byteLength p.text

/-- Pieces with their byte ranges, from a start offset on. -/
def locate : Nat → List Piece → List (PieceKind × Span)
  | _, [] => []
  | start, p :: ps => (p.kind, ⟨start, start + p.byteLength⟩) :: locate (start + p.byteLength) ps

end Piece

def PieceKind.token? : PieceKind → Option TokenKind
  | .token kind => some kind
  | _ => none

def PieceKind.fault? : PieceKind → Option LexFault
  | .fault f => some f
  | _ => none

/-- The token pieces, then the end of the text as a token of no bytes; or every
faulty piece if there is one. -/
def lex (source : String) : Except (List LexError) (List Token) :=
  let pieces := Piece.locate 0 (Piece.cut source.toList)
  match pieces.filterMap fun piece => piece.1.fault?.map (⟨·, piece.2⟩) with
  | [] =>
    let size := byteLength source.toList
    .ok (pieces.filterMap (fun piece => piece.1.token?.map (⟨·, piece.2⟩)) ++
      [⟨.endOfText, ⟨size, size⟩⟩])
  | errors => .error errors

end Contracts
