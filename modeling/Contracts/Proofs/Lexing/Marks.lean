import Contracts.Proofs.Lexing.Division

/-! What a text says apart from its white space. The marks of a text are its pieces other than
white space, with their ranges; lexing reads tokens and faults off them (`lex_marks`). White
space in front of a text moves its marks and changes nothing else (`marks_append_of_blank`),
so marks, unlike pieces, are met one after the other wherever white space is divided. -/

namespace Contracts

open Text

/-- The range so many bytes further on. -/
def Span.shift (n : Nat) (s : Span) : Span := ⟨s.start + n, s.stop + n⟩

def Token.shift (n : Nat) (t : Token) : Token := ⟨t.kind, t.span.shift n⟩

def LexError.shift (n : Nat) (e : LexError) : LexError := ⟨e.fault, e.span.shift n⟩

/-- The pieces of a text other than white space, with their ranges, when it starts at `start`. -/
def marks (start : Nat) (cs : List Char) : List (PieceKind × Span) :=
  (Piece.locate start (Piece.cut cs)).filter (·.1 ≠ .blank)

def markedTokens (ms : List (PieceKind × Span)) : List Token :=
  ms.filterMap fun m => m.1.token?.map (⟨·, m.2⟩)

def markedFaults (ms : List (PieceKind × Span)) : List LexError :=
  ms.filterMap fun m => m.1.fault?.map (⟨·, m.2⟩)

variable {start : Nat} {c : Char} {cs ds : List Char} {ms ns : List (PieceKind × Span)}

/-! ### Marks and lexing -/

theorem markedTokens_append : markedTokens (ms ++ ns) = markedTokens ms ++ markedTokens ns :=
  List.filterMap_append

theorem markedFaults_append : markedFaults (ms ++ ns) = markedFaults ms ++ markedFaults ns :=
  List.filterMap_append

/-- The tokens of a text are those of its marks, and so are its faults. -/
theorem lex_marks (source : String) :
    lex source =
      match markedFaults (marks 0 source.toList) with
      | [] =>
        .ok (markedTokens (marks 0 source.toList) ++
          [⟨.endOfText, ⟨source.utf8ByteSize, source.utf8ByteSize⟩⟩])
      | errors => .error errors := by
  have unmarked {α : Type} (pick : PieceKind × Span → Option α)
      (hpick : ∀ m, m.1 = .blank → pick m = none) :
      (Piece.locate 0 (Piece.cut source.toList)).filterMap pick =
        (marks 0 source.toList).filterMap pick := by
    rw [marks, List.filterMap_filter]
    congr 1
    funext m
    by_cases h : m.1 = .blank <;> simp [h, hpick]
  have faults := unmarked (fun m => m.1.fault?.map (⟨·, m.2⟩ : LexFault → LexError))
    fun m hm => by rw [hm]; rfl
  have tokens := unmarked (fun m => m.1.token?.map (⟨·, m.2⟩ : TokenKind → Token))
    fun m hm => by rw [hm]; rfl
  simp only [lex, faults, tokens, byteLength_toList]
  rfl

/-! ### The first mark -/

/-- A piece other than white space is the first mark. -/
theorem marks_eq_cons {tail : List Char} (hc : isBlank c = false)
    (htail : (Piece.head c cs).others ++ tail = cs) :
    marks start (c :: cs) =
      ((Piece.head c cs).kind, ⟨start, start + (Piece.head c cs).byteLength⟩) ::
        marks (start + (Piece.head c cs).byteLength) tail := by
  have hkind : (Piece.head c cs).kind ≠ .blank := by
    unfold Piece.head Piece.lexeme Piece.ofDigits
    simp only [hc]
    repeat' split
    all_goals simp_all
  have hdrop : cs.drop (Piece.head c cs).others.length = tail :=
    (congrArg (List.drop _) htail.symm).trans List.drop_left
  rw [marks, Piece.cut_cons, Piece.locate, List.filter_cons_of_pos (by simpa using hkind), hdrop]
  rfl

/-- A run of white space in front of a text has no mark. -/
theorem marks_takeWhile (start : Nat) (c : Char) (cs : List Char) (hc : isBlank c = true) :
    marks start (c :: cs) =
      marks (start + byteLength (c :: cs.takeWhile isBlank)) (cs.dropWhile isBlank) := by
  rw [marks, Piece.cut_blank hc, Piece.locate, List.filter_cons_of_neg (by simp)]
  rfl

theorem marks_cons_of_blank (hc : isBlank c = true) :
    marks start (c :: cs) = marks (start + c.utf8Size) cs := by
  rw [marks_takeWhile start c cs hc]
  cases cs with
  | nil => rfl
  | cons d ds =>
    by_cases hd : isBlank d = true
    · rw [marks_takeWhile _ d ds hd, List.takeWhile_cons_of_pos hd, List.dropWhile_cons_of_pos hd,
        byteLength, ← Nat.add_assoc]
    · rw [List.takeWhile_cons_of_neg hd, List.dropWhile_cons_of_neg hd]
      rfl

theorem marks_append_of_blank (hcs : ∀ c ∈ cs, isBlank c = true) :
    marks start (cs ++ ds) = marks (start + byteLength cs) ds := by
  induction cs generalizing start with
  | nil => rfl
  | cons c cs ih =>
    have ⟨hc, hrest⟩ := List.forall_mem_cons.1 hcs
    rw [List.cons_append, marks_cons_of_blank hc, ih hrest, byteLength, Nat.add_assoc]

/-! ### Marks further on -/

/-- A text that starts later has its marks so much later. -/
theorem marks_add (n : Nat) :
    marks (start + n) cs = (marks start cs).map fun m => (m.1, m.2.shift n) := by
  have located (ps : List Piece) (start : Nat) :
      Piece.locate (start + n) ps = (Piece.locate start ps).map fun m => (m.1, m.2.shift n) := by
    induction ps generalizing start with
    | nil => rfl
    | cons p ps ih =>
      rw [Piece.locate, Nat.add_right_comm, ih]
      rfl
  rw [marks, located, List.filter_map]
  rfl

theorem markedTokens_map_shift (n : Nat) :
    markedTokens (ms.map fun m => (m.1, m.2.shift n)) = (markedTokens ms).map (·.shift n) := by
  rw [markedTokens, markedTokens, List.filterMap_map, List.map_filterMap]
  congr 1
  funext m
  rw [Function.comp_apply]
  cases m.1.token? <;> rfl

theorem markedFaults_map_shift (n : Nat) :
    markedFaults (ms.map fun m => (m.1, m.2.shift n)) = (markedFaults ms).map (·.shift n) := by
  rw [markedFaults, markedFaults, List.filterMap_map, List.map_filterMap]
  congr 1
  funext m
  rw [Function.comp_apply]
  cases m.1.fault? <;> rfl

end Contracts
