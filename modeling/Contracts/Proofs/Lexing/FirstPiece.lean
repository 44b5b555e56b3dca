import Contracts.Proofs.Lexing.Recogniser

/-! The first piece of a text. The cutter finds a piece in front of every text that is not
empty (`isPiece_head`), and no other piece stands there (`head_of_isPiece`). -/

namespace Contracts.Piece

open Text

variable {c : Char} {cs text rest : List Char}

/-! ### Lexemes -/

theorem longest_word (hc : isWordStart c = true) :
    Longest TokenClass.word.Has (c :: cs.takeWhile isWordChar) (cs.dropWhile isWordChar) := by
  refine longest_takeWhile [c] ⟨c, _, rfl, hc, fun d hd => List.mem_takeWhile_imp hd⟩ ?_
  rintro _ ⟨d, ds, rfl, -, hds⟩ hpre
  obtain ⟨rfl, -⟩ := List.cons_prefix_cons.1 hpre
  exact ⟨ds, rfl, hds⟩

theorem longest_number (hc : c.isDigit = true) :
    Longest TokenClass.number.Has (c :: cs.takeWhile Char.isDigit) (cs.dropWhile Char.isDigit) := by
  refine longest_takeWhile [c] ⟨by simp, ?_⟩ ?_
  · exact List.forall_mem_cons.2 ⟨hc, fun d hd => List.mem_takeWhile_imp hd⟩
  · rintro text ⟨hne, hall⟩ hpre
    obtain ⟨d, ds, rfl⟩ := List.exists_cons_of_ne_nil hne
    obtain ⟨rfl, -⟩ := List.cons_prefix_cons.1 hpre
    exact ⟨ds, rfl, (List.forall_mem_cons.1 hall).2⟩

theorem longest_specWord {d : Char} {ds : List Char} (h : cs.takeWhile isWordChar = d :: ds) :
    Longest TokenClass.specWord.Has ('\\' :: d :: ds) (cs.dropWhile isWordChar) := by
  have holds : TokenClass.specWord.Has (['\\'] ++ cs.takeWhile isWordChar) := by
    refine ⟨d, ds, by rw [h]; rfl, fun e he => ?_⟩
    exact List.mem_takeWhile_imp (h ▸ he)
  have := longest_takeWhile (p := isWordChar) _ holds (by
    rintro _ ⟨e, es, rfl, hes⟩ -
    exact ⟨e :: es, rfl, hes⟩)
  rwa [h] at this

theorem noToken_iff :
    NoToken (c :: cs) ↔ isWordStart c = false ∧ c.isDigit = false ∧
      (c = '\\' → cs.takeWhile isWordChar = []) ∧ symbol? (c :: cs) = none := by
  constructor
  · intro h
    refine ⟨?_, ?_, ?_, ?_⟩
    · rw [Bool.eq_false_iff]
      exact fun hc => h .word [c] ⟨cs, rfl⟩ ⟨c, [], rfl, hc, fun d hd => nomatch hd⟩
    · rw [Bool.eq_false_iff]
      exact fun hc => h .number [c] ⟨cs, rfl⟩ ⟨by simp, by simpa using hc⟩
    · rintro rfl
      cases hrun : cs.takeWhile isWordChar with
      | nil => rfl
      | cons d ds =>
        refine absurd (longest_specWord hrun).holds (h .specWord _ ?_)
        rw [List.prefix_cons_inj, ← hrun]
        exact List.takeWhile_prefix _
    · exact symbol?_eq_none_iff.2 fun s hs => h .symbol _ hs ⟨s, rfl⟩
  · rintro ⟨hstart, hdigit, hbackslash, hsymbol⟩ K text hpre hK
    cases K with
    | word =>
      obtain ⟨d, ds, rfl, hd, -⟩ := hK
      obtain ⟨rfl, -⟩ := List.cons_prefix_cons.1 hpre
      rw [hstart] at hd
      nomatch hd
    | number =>
      obtain ⟨d, ds, rfl⟩ := List.exists_cons_of_ne_nil hK.1
      obtain ⟨rfl, -⟩ := List.cons_prefix_cons.1 hpre
      have hd := hK.2 d List.mem_cons_self
      rw [hdigit] at hd
      nomatch hd
    | specWord =>
      obtain ⟨d, ds, rfl, hds⟩ := hK
      obtain ⟨rfl, htail⟩ := List.cons_prefix_cons.1 hpre
      have hlength := length_le_takeWhile htail hds
      rw [hbackslash rfl] at hlength
      nomatch hlength
    | symbol =>
      obtain ⟨s, rfl⟩ := hK
      exact symbol?_eq_none_iff.1 hsymbol s hpre

/-- What is neither white space nor a comment is cut to a token or a fault. -/
theorem isPiece_lexeme (ink : isBlank c = false) (plain : ¬OpensComment (c :: cs)) :
    ∃ rest, c :: cs = (lexeme c cs).text ++ rest ∧
      IsPiece (lexeme c cs).kind (lexeme c cs).text rest := by
  have run (p : Char → Bool) : c :: cs = c :: cs.takeWhile p ++ cs.dropWhile p := by
    rw [List.cons_append, List.takeWhile_append_dropWhile]
  unfold lexeme
  split
  · next hc =>
    refine ⟨_, run isWordChar, ?_⟩
    exact .token (run isWordChar ▸ plain) (longest_word hc) (gives_word_iff.2 rfl)
  · next hstart =>
    rw [Bool.not_eq_true] at hstart
    split
    · next hc =>
      refine ⟨_, run Char.isDigit, ?_⟩
      dsimp only [text]
      rw [ofDigits_eq]
      split
      · next small => exact .token (run Char.isDigit ▸ plain) (longest_number hc) (.integer _ small)
      · next large => exact .tooLarge (longest_number hc) (by omega)
    · next hdigit =>
      rw [Bool.not_eq_true] at hdigit
      split
      · next hc =>
        subst hc
        split
        · next hrun =>
          refine ⟨cs, rfl, .loneBackslash (noToken_iff.2 ⟨hstart, hdigit, fun _ => hrun, ?_⟩)⟩
          refine symbol?_eq_none_iff.2 fun s hs => ?_
          cases s <;> exact absurd (List.cons_prefix_cons.1 hs).1 (by decide)
        · next others hne =>
          obtain ⟨d, ds, hrun⟩ := List.exists_cons_of_ne_nil hne
          refine ⟨_, run isWordChar, ?_⟩
          dsimp only [text]
          rw [hrun]
          exact .token (hrun ▸ run isWordChar ▸ plain) (longest_specWord hrun) (.specWord _)
      · next hbackslash =>
        split
        · next s hs =>
          obtain ⟨rest, hrest, longest⟩ := symbol?_eq_some_iff.1 hs
          have htext : c :: s.spelling.toList.tail = s.spelling.toList := by
            cases hspelling : s.spelling.toList with
            | nil => cases s <;> nomatch hspelling
            | cons d ds =>
              rw [hspelling] at hrest
              rw [(List.cons.inj hrest).1, List.tail_cons]
          refine ⟨rest, ?_, ?_⟩
          · dsimp only [text]
            rw [htext, hrest]
          · dsimp only [text]
            rw [htext]
            exact .token (hrest ▸ plain) longest (.symbol s)
        · next hs =>
          refine ⟨cs, rfl, .unexpected ink hbackslash (noToken_iff.2 ⟨hstart, hdigit, ?_, hs⟩)⟩
          exact fun hc => absurd hc hbackslash

theorem lexeme_longest_number (longest : Longest TokenClass.number.Has text rest)
    (same : c :: cs = text ++ rest) :
    (lexeme c cs).kind = ofDigits text ∧ (lexeme c cs).text = text := by
  obtain ⟨d, ds, rfl⟩ := List.exists_cons_of_ne_nil longest.holds.1
  rw [List.cons_append, List.cons.injEq] at same
  obtain ⟨rfl, rfl⟩ := same
  have hall := List.forall_mem_cons.1 longest.holds.2
  have hrun := longest.takeWhile [c] hall.2 fun e he => by
    refine ⟨by simp, List.forall_mem_append.2 ⟨longest.holds.2, by simpa using he⟩⟩
  simp only [lexeme, isWordStart_of_isDigit hall.1, hall.1, hrun, Bool.false_eq_true, if_false,
    if_true, Piece.text, and_self]

/-- The token that stands in front is the longest text of its class. -/
theorem lexeme_of_token {K : TokenClass} {k : TokenKind} (longest : Longest K.Has text rest)
    (kind : K.Gives text k) (same : c :: cs = text ++ rest) :
    (lexeme c cs).kind = .token k ∧ (lexeme c cs).text = text := by
  cases K with
  | word =>
    obtain ⟨d, ds, rfl, hd, hds⟩ := longest.holds
    rw [List.cons_append, List.cons.injEq] at same
    obtain ⟨rfl, rfl⟩ := same
    have hrun := longest.takeWhile [c] hds fun e he =>
      ⟨c, ds ++ [e], rfl, hd, List.forall_mem_append.2 ⟨hds, by simpa using he⟩⟩
    rw [gives_word_iff.1 kind]
    simp only [lexeme, hd, hrun, if_true, Piece.text, and_self]
  | number =>
    cases kind with
    | integer _ small =>
      have := lexeme_longest_number longest same
      rwa [ofDigits_eq, if_pos small] at this
  | specWord =>
    cases kind with
    | specWord _ =>
      obtain ⟨d, ds, rfl, hds⟩ := longest.holds
      rw [List.cons_append, List.cons.injEq] at same
      obtain ⟨rfl, rfl⟩ := same
      have hrun := longest.takeWhile ['\\'] hds fun e he =>
        ⟨d, ds ++ [e], rfl, List.forall_mem_append.2 ⟨hds, by simpa using he⟩⟩
      have hstart : isWordStart '\\' = false := by decide
      have hdigit : Char.isDigit '\\' = false := by decide
      simp only [lexeme, hstart, hdigit, hrun, Bool.false_eq_true, if_false, if_true, Piece.text,
        and_self]
  | symbol =>
    cases kind with
    | symbol s =>
      have hfound : symbol? (c :: cs) = some s := symbol?_eq_some_iff.2 ⟨rest, same, longest⟩
      obtain ⟨d, ds, hspelling⟩ : ∃ d ds, s.spelling.toList = d :: ds := by
        cases s <;> exact ⟨_, _, rfl⟩
      have hd : isWordStart d = false ∧ d.isDigit = false ∧ d ≠ '\\' := by
        cases s <;> cases hspelling <;> decide
      rw [hspelling, List.cons_append, List.cons.injEq] at same
      obtain ⟨rfl, rfl⟩ := same
      simp only [lexeme, hd.1, hd.2.1, if_neg hd.2.2, hfound, hspelling, Bool.false_eq_true,
        if_false, Piece.text, List.tail_cons, and_self]

/-! ### First pieces -/

/-- Tokens do not start with white space. -/
theorem isBlank_of_has {K : TokenClass} (hK : K.Has text) (same : c :: cs = text ++ rest) :
    isBlank c = false := by
  cases K with
  | word =>
    obtain ⟨d, ds, rfl, hd, -⟩ := hK
    obtain ⟨rfl, -⟩ := List.cons.inj same
    exact isBlank_of_isWordChar (isWordChar_of_isWordStart hd)
  | number =>
    obtain ⟨d, ds, rfl⟩ := List.exists_cons_of_ne_nil hK.1
    obtain ⟨rfl, -⟩ := List.cons.inj same
    exact isBlank_of_isWordChar (isWordChar_of_isDigit (hK.2 c List.mem_cons_self))
  | specWord =>
    obtain ⟨d, ds, rfl, -⟩ := hK
    obtain ⟨rfl, -⟩ := List.cons.inj same
    decide
  | symbol =>
    obtain ⟨s, rfl⟩ := hK
    cases s <;> obtain ⟨rfl, -⟩ := List.cons.inj same <;> decide

theorem not_opensComment (hc : c ≠ '/') : ¬OpensComment (c :: cs) := by
  rintro (⟨text, rest, same, comment⟩ | ⟨body, same, -⟩)
  · cases comment <;> exact hc (List.cons.inj same).1
  · exact hc (List.cons.inj same).1

theorem head_of_plain (ink : isBlank c = false) (plain : ¬OpensComment (c :: cs)) :
    head c cs = lexeme c cs := by
  unfold head
  rw [ink, if_neg Bool.false_ne_true]
  split
  · next hc =>
    subst hc
    split
    · split
      · next body hbody =>
        obtain ⟨rest, rfl, inside, ends⟩ := lineComment?_eq_some_iff.1 hbody
        exact absurd (.inl ⟨_, rest, rfl, .line inside ends⟩) plain
      · rfl
    · split
      · next body hbody =>
        obtain ⟨body, rest, rfl, rfl, first⟩ := blockComment?_eq_some_iff.1 hbody
        refine absurd (.inl ⟨_, rest, ?_, .block first⟩) plain
        simp
      · next hbody => exact absurd (.inr ⟨_, rfl, blockComment?_eq_none_iff.1 hbody⟩) plain
    · rfl
  · rfl

theorem head_of_comment (comment : IsComment text rest) (same : c :: cs = text ++ rest) :
    (head c cs).kind = .comment ∧ (head c cs).text = text := by
  have ink : isBlank '/' = false := by decide
  cases comment with
  | line inside ends =>
    rw [List.cons_append, List.cons_append, List.cons.injEq] at same
    obtain ⟨rfl, rfl⟩ := same
    have hbody := lineComment?_eq_some_iff.2 ⟨rest, rfl, inside, ends⟩
    simp only [head, ink, hbody, Bool.false_eq_true, if_false, if_true, Piece.text, and_self]
  | @block body _ first =>
    rw [List.cons_append, List.cons_append, List.cons.injEq] at same
    obtain ⟨rfl, rfl⟩ := same
    have hbody : blockComment? (body ++ closing ++ rest) = some (body ++ closing) :=
      blockComment?_eq_some_iff.2 ⟨body, rest, rfl, rfl, first⟩
    simp only [head, ink, hbody, Bool.false_eq_true, if_false, if_true, Piece.text, and_self]

theorem head_of_unclosed (unclosed : IsUnclosed (c :: cs)) :
    (head c cs).kind = .fault .unclosedComment ∧ (head c cs).text = c :: cs := by
  have ink : isBlank '/' = false := by decide
  obtain ⟨body, same, never⟩ := unclosed
  obtain ⟨rfl, rfl⟩ := List.cons.inj same
  have hbody := blockComment?_eq_none_iff.2 never
  simp only [head, ink, hbody, Bool.false_eq_true, if_false, if_true, Piece.text, and_self]

/-- A piece stands in front of every text. -/
theorem isPiece_head (c : Char) (cs : List Char) :
    ∃ rest, c :: cs = (head c cs).text ++ rest ∧
      IsPiece (head c cs).kind (head c cs).text rest := by
  by_cases hblank : isBlank c = true
  · have hhead : head c cs = ⟨.blank, c, cs.takeWhile isBlank⟩ := by
      simp only [head, hblank, if_true]
    have run : Longest IsBlankRun (c :: cs.takeWhile isBlank) (cs.dropWhile isBlank) := by
      refine longest_takeWhile [c] ⟨by simp, ?_⟩ ?_
      · exact List.forall_mem_cons.2 ⟨hblank, fun d hd => List.mem_takeWhile_imp hd⟩
      · rintro text ⟨hne, hall⟩ hpre
        obtain ⟨d, ds, rfl⟩ := List.exists_cons_of_ne_nil hne
        obtain ⟨rfl, -⟩ := List.cons_prefix_cons.1 hpre
        exact ⟨ds, rfl, (List.forall_mem_cons.1 hall).2⟩
    rw [hhead]
    refine ⟨cs.dropWhile isBlank, ?_, .blank run⟩
    rw [text, List.cons_append, List.takeWhile_append_dropWhile]
  · have ink : isBlank c = false := Bool.eq_false_iff.2 hblank
    by_cases opens : OpensComment (c :: cs)
    · rcases opens with ⟨text, rest, same, comment⟩ | unclosed
      · obtain ⟨hkind, htext⟩ := head_of_comment comment same
        exact ⟨rest, htext ▸ same, by rw [hkind, htext]; exact .comment comment⟩
      · obtain ⟨hkind, htext⟩ := head_of_unclosed unclosed
        exact ⟨[], by simp [htext], by rw [hkind, htext]; exact .unclosed unclosed⟩
    · rw [head_of_plain ink opens]
      exact isPiece_lexeme ink opens

/-- No other piece stands there. -/
theorem head_of_isPiece {k : PieceKind} (piece : IsPiece k text rest)
    (same : c :: cs = text ++ rest) : (head c cs).kind = k ∧ (head c cs).text = text := by
  cases piece with
  | blank run =>
    obtain ⟨d, ds, rfl⟩ := List.exists_cons_of_ne_nil run.holds.1
    rw [List.cons_append, List.cons.injEq] at same
    obtain ⟨rfl, rfl⟩ := same
    have hall := List.forall_mem_cons.1 run.holds.2
    have hrun := run.takeWhile [c] hall.2 fun e he => by
      refine ⟨by simp, List.forall_mem_append.2 ⟨run.holds.2, by simpa using he⟩⟩
    simp only [head, hall.1, hrun, if_true, Piece.text, and_self]
  | comment comment => exact head_of_comment comment same
  | unclosed unclosed =>
    rw [List.append_nil] at same
    subst same
    exact head_of_unclosed unclosed
  | token plain longest kind =>
    rw [head_of_plain (isBlank_of_has longest.holds same) (same ▸ plain)]
    exact lexeme_of_token longest kind same
  | tooLarge longest large =>
    obtain ⟨hkind, htext⟩ := lexeme_longest_number longest same
    have hslash : c ≠ '/' := by
      obtain ⟨d, ds, rfl⟩ := List.exists_cons_of_ne_nil longest.holds.1
      obtain ⟨rfl, -⟩ := List.cons.inj same
      rintro rfl
      exact absurd (longest.holds.2 '/' List.mem_cons_self) (by decide)
    rw [head_of_plain (isBlank_of_has longest.holds same) (not_opensComment hslash), hkind, htext,
      ofDigits_eq, if_neg (by omega)]
    exact ⟨rfl, rfl⟩
  | loneBackslash none =>
    obtain ⟨rfl, rfl⟩ := List.cons.inj same
    obtain ⟨hstart, hdigit, hrun, -⟩ := noToken_iff.1 none
    rw [head_of_plain (by decide) (not_opensComment (by decide))]
    simp only [lexeme, hstart, hdigit, hrun rfl, Bool.false_eq_true, if_false, if_true, Piece.text,
      and_self]
  | unexpected ink other none =>
    obtain ⟨rfl, rfl⟩ := List.cons.inj same
    obtain ⟨hstart, hdigit, -, hsymbol⟩ := noToken_iff.1 none
    have hslash : c ≠ '/' := by
      rintro rfl
      exact none .symbol _ ⟨_, rfl⟩ ⟨.slash, rfl⟩
    rw [head_of_plain ink (not_opensComment hslash)]
    simp only [lexeme, hstart, hdigit, if_neg other, hsymbol, Bool.false_eq_true, if_false,
      Piece.text, and_self]

end Contracts.Piece
