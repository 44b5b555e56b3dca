import Contracts.Token.Lex

/-! Spelling tokens and cutting them again. A text that spells tokens, with white space
behind each of them, is cut into these tokens (`lex_of_spells`): a word or a number ends at
white space, no symbol is longer than its spelling there, and a slash before white space
opens no comment. -/

namespace Contracts

open Text

/-! ### Characters -/

theorem toNat_of_isAlpha {c : Char} (h : c.isAlpha = true) :
    65 ≤ c.toNat ∧ c.toNat ≤ 90 ∨ 97 ≤ c.toNat ∧ c.toNat ≤ 122 := by
  have cases : c.isUpper = true ∨ c.isLower = true := (Bool.or_eq_true _ _).mp h
  rcases cases with h | h
  · exact .inl (of_decide_eq_true h)
  · have bounds := (Bool.and_eq_true _ _).mp h
    exact .inr ⟨of_decide_eq_true bounds.1, of_decide_eq_true bounds.2⟩

theorem toNat_of_isDigit {c : Char} (h : c.isDigit = true) : 48 ≤ c.toNat ∧ c.toNat ≤ 57 :=
  Char.isDigit_iff_toNat.1 h

theorem toNat_of_isWordChar {c : Char} (h : isWordChar c = true) :
    0x20 < c.toNat ∧ c.toNat < 0x85 := by
  simp only [isWordChar, Char.isAlphanum, Bool.or_eq_true, beq_iff_eq] at h
  rcases h with (h | h) | rfl
  · have := toNat_of_isAlpha h
    omega
  · have := toNat_of_isDigit h
    omega
  · decide

theorem isBlank_of_isWordChar {c : Char} (h : isWordChar c = true) : isBlank c = false := by
  have := toNat_of_isWordChar h
  simp [isBlank, blankRanges]
  omega

theorem isWordChar_of_isDigit {c : Char} (h : c.isDigit = true) : isWordChar c = true := by
  simp [isWordChar, Char.isAlphanum, h]

theorem isWordStart_of_isDigit {c : Char} (h : c.isDigit = true) : isWordStart c = false := by
  have digit := toNat_of_isDigit h
  rw [Bool.eq_false_iff]
  intro hstart
  simp only [isWordStart, Bool.or_eq_true, beq_iff_eq] at hstart
  rcases hstart with halpha | rfl
  · have := toNat_of_isAlpha halpha
    omega
  · exact absurd h (by decide)

/-- The text is over or goes on with white space. -/
def Ends (cs : List Char) : Prop := ∀ c ds, cs = c :: ds → isBlank c = true

theorem ends_cons {c : Char} {cs : List Char} (h : isBlank c = true) : Ends (c :: cs) := by
  rintro _ _ ⟨rfl, rfl⟩
  exact h

/-- A run of characters other than white space ends where a text does. -/
theorem takeWhile_append_of_ends {p : Char → Bool} {cs ds : List Char}
    (hp : ∀ c, p c = true → isBlank c = false) (hcs : ∀ c ∈ cs, p c = true) (hds : Ends ds) :
    (cs ++ ds).takeWhile p = cs := by
  rw [List.takeWhile_append_of_pos hcs]
  cases ds with
  | nil => simp
  | cons d ds =>
    have hd : p d = false := by
      rw [Bool.eq_false_iff]
      intro h
      have hblank := hp d h
      rw [hds d ds rfl] at hblank
      nomatch hblank
    simp [hd]

/-! ### Spellings -/

/-- Words that are identifiers or reserved. -/
structure IsWord (word : String) : Prop where
  start : ∃ c cs, word.toList = c :: cs ∧ isWordStart c = true
  all : ∀ c ∈ word.toList, isWordChar c = true

instance (word : String) : Decidable (IsWord word) :=
  match h : word.toList with
  | [] => isFalse fun hw => by
    obtain ⟨c, cs, hcs, -⟩ := hw.start
    rw [h] at hcs
    nomatch hcs
  | c :: cs =>
    decidable_of_iff (isWordStart c = true ∧ (c :: cs).all isWordChar = true) <| by
      rw [List.all_eq_true]
      constructor
      · exact fun ⟨hc, hall⟩ => ⟨⟨c, cs, h, hc⟩, h ▸ hall⟩
      · rintro ⟨⟨d, ds, hds, hd⟩, hall⟩
        obtain ⟨rfl, rfl⟩ := List.cons.inj (h.symm.trans hds)
        exact ⟨hd, h ▸ hall⟩

namespace TokenKind

def spelling : TokenKind → List Char
  | identifier name => name.toList
  | integer value => Nat.toDigits 10 value
  | specWord word => word.toList
  | reserved word => word.spelling.toList
  | symbol s => s.spelling.toList
  | endOfText => []

/-- Tokens that can be written. -/
def Spellable : TokenKind → Prop
  | identifier name => IsWord name ∧ Reserved.ofWord? name = none
  | integer value => value ≤ Piece.largestInteger
  | specWord word => ∃ c cs, word.toList = '\\' :: c :: cs ∧ ∀ d ∈ c :: cs, isWordChar d = true
  | reserved _ => True
  | symbol _ => True
  | endOfText => False

instance (word : String) :
    Decidable (∃ c cs, word.toList = '\\' :: c :: cs ∧ ∀ d ∈ c :: cs, isWordChar d = true) :=
  match h : word.toList with
  | b :: c :: cs =>
    decidable_of_iff (b = '\\' ∧ (c :: cs).all isWordChar = true) <| by
      rw [List.all_eq_true]
      constructor
      · rintro ⟨rfl, hall⟩
        exact ⟨c, cs, rfl, hall⟩
      · rintro ⟨d, ds, hds, hall⟩
        obtain ⟨rfl, hrest⟩ := List.cons.inj hds
        exact ⟨rfl, hrest ▸ hall⟩
  | [] => isFalse fun ⟨_, _, hds, _⟩ => nomatch hds
  | [_] => isFalse fun ⟨_, _, hds, _⟩ => nomatch hds

instance : DecidablePred Spellable
  | identifier _ => inferInstanceAs (Decidable (_ ∧ _))
  | integer _ => inferInstanceAs (Decidable (_ ≤ _))
  | specWord _ => inferInstanceAs (Decidable (∃ _ _, _))
  | reserved _ => isTrue trivial
  | symbol _ => isTrue trivial
  | endOfText => isFalse id

end TokenKind

/-- A text of white space and of spelled tokens, each with white space or the end behind it. -/
inductive Spells : List TokenKind → List Char → Prop
  | nil : Spells [] []
  | blank {kinds : List TokenKind} {c : Char} {cs : List Char} (hc : isBlank c = true)
      (rest : Spells kinds cs) : Spells kinds (c :: cs)
  | cons {k : TokenKind} {kinds : List TokenKind} {cs : List Char} (hk : k.Spellable)
      (hcs : Ends cs) (rest : Spells kinds cs) : Spells (k :: kinds) (k.spelling ++ cs)

/-! ### First pieces -/

namespace Piece

variable {c : Char} {cs ds : List Char}

theorem lexeme_word (hc : isWordStart c = true) (hcs : ∀ d ∈ cs, isWordChar d = true)
    (hds : Ends ds) : lexeme c (cs ++ ds) = ⟨.token (.ofWord (.ofList (c :: cs))), c, cs⟩ := by
  have hrun := takeWhile_append_of_ends (fun _ => isBlank_of_isWordChar) hcs hds
  simp only [lexeme, hc, hrun, if_true]

theorem decimalValue_toDigits (n : Nat) : decimalValue (Nat.toDigits 10 n) = n := by
  have := @Nat.ofDigitChars_ten_toDigits n
  rwa [Nat.ofDigitChars_eq_foldl] at this

theorem lexeme_integer {n : Nat} (hn : n ≤ largestInteger) (hdigits : Nat.toDigits 10 n = c :: cs)
    (hds : Ends ds) : lexeme c (cs ++ ds) = ⟨.token (.integer n), c, cs⟩ := by
  have hall : ∀ d ∈ c :: cs, d.isDigit = true := by
    rw [← hdigits]
    exact fun d hd => Nat.isDigit_of_mem_toDigits (by decide) (by decide) hd
  have hc := hall c List.mem_cons_self
  have hrun := takeWhile_append_of_ends
    (fun _ hd => isBlank_of_isWordChar (isWordChar_of_isDigit hd))
    (fun d hd => hall d (List.mem_cons_of_mem _ hd)) hds
  have hvalue : decimalValue (c :: cs) = n := by rw [← hdigits, decimalValue_toDigits]
  simp only [lexeme, isWordStart_of_isDigit hc, hc, hrun, ofDigits, hvalue, hn, if_true]
  rfl

theorem lexeme_specWord {d : Char} (hcs : ∀ e ∈ d :: cs, isWordChar e = true) (hds : Ends ds) :
    lexeme '\\' (d :: cs ++ ds) = ⟨.token (.specWord (.ofList ('\\' :: d :: cs))), '\\', d :: cs⟩ := by
  have hrun := takeWhile_append_of_ends (fun _ => isBlank_of_isWordChar) hcs hds
  have hstart : isWordStart '\\' = false := by decide
  have hdigit : Char.isDigit '\\' = false := by decide
  simp only [lexeme, hstart, hdigit, hrun, if_true]
  rfl

/-- Before white space no longer symbol than the spelled one is found. -/
theorem symbol?_spelling (s : Symbol) (hds : Ends ds) : symbol? (s.spelling.toList ++ ds) = some s := by
  cases ds with
  | nil => cases s <;> decide
  | cons d ds =>
    have hno (e : Char) (es : List Char) (he : isBlank e = false) :
        (e :: es).isPrefixOf (d :: ds) = false := by
      have hne : e ≠ d := by
        rintro rfl
        rw [hds e ds rfl] at he
        nomatch he
      rw [List.isPrefixOf, beq_eq_false_iff_ne.2 hne, Bool.false_and]
    have hequal := hno '=' [] (by decide)
    have himplies := hno '=' ['>'] (by decide)
    have hgreater := hno '>' [] (by decide)
    cases s <;> simp [symbol?, Symbol.all, Symbol.spelling, hequal, himplies, hgreater]

theorem lexeme_symbol {s : Symbol} (hs : s.spelling.toList = c :: cs) (hds : Ends ds) :
    lexeme c (cs ++ ds) = ⟨.token (.symbol s), c, cs⟩ := by
  have hfound : symbol? (c :: (cs ++ ds)) = some s := by
    rw [← List.cons_append, ← hs]
    exact symbol?_spelling s hds
  have hstart : isWordStart c = false := by
    cases s <;> cases hs <;> decide
  have hdigit : c.isDigit = false := by
    cases s <;> cases hs <;> decide
  have hslash : c ≠ '\\' := by
    cases s <;> cases hs <;> decide
  simp only [lexeme, hstart, hdigit, if_neg hslash, hfound, hs, List.tail_cons]
  rfl

/-- A character that starts neither white space nor a comment starts a lexeme. -/
theorem head_eq_lexeme (hblank : isBlank c = false) (hslash : c ≠ '/') : head c cs = lexeme c cs := by
  simp only [head, hblank, if_neg hslash, Bool.false_eq_true, if_false]

theorem head_word {word : String} (h : IsWord word) (hds : Ends ds) :
    ∃ c cs, word.toList = c :: cs ∧ head c (cs ++ ds) = ⟨.token (.ofWord word), c, cs⟩ := by
  obtain ⟨⟨c, cs, hword, hc⟩, hall⟩ := h
  rw [hword] at hall
  have hchar := hall c List.mem_cons_self
  have hslash : c ≠ '/' := by
    rintro rfl
    exact absurd hchar (by decide)
  refine ⟨c, cs, hword, ?_⟩
  rw [head_eq_lexeme (isBlank_of_isWordChar hchar) hslash,
    lexeme_word hc (fun d hd => hall d (List.mem_cons_of_mem _ hd)) hds, ← hword,
    String.ofList_toList]

theorem head_symbol (s : Symbol) (hds : Ends ds) :
    ∃ c cs, s.spelling.toList = c :: cs ∧ head c (cs ++ ds) = ⟨.token (.symbol s), c, cs⟩ := by
  obtain ⟨c, cs, hs⟩ : ∃ c cs, s.spelling.toList = c :: cs := by
    cases s <;> exact ⟨_, _, rfl⟩
  refine ⟨c, cs, hs, ?_⟩
  rw [← lexeme_symbol hs hds]
  by_cases hslash : c = '/'
  · subst hslash
    obtain rfl : cs = [] := by
      cases s <;> cases hs
      rfl
    cases ds with
    | nil => rfl
    | cons d ds =>
      have hd := hds d ds rfl
      have hslash : d ≠ '/' := by
        rintro rfl
        exact absurd hd (by decide)
      have hstar : d ≠ '*' := by
        rintro rfl
        exact absurd hd (by decide)
      have hblank : isBlank '/' = false := by decide
      simp only [head, hblank, Bool.false_eq_true, if_false, if_true, List.nil_append]
      split
      · next heq => exact absurd (List.cons.inj heq).1 hslash
      · next heq => exact absurd (List.cons.inj heq).1 hstar
      · rfl
  · have hblank : isBlank c = false := by
      cases s <;> cases hs <;> decide
    exact head_eq_lexeme hblank hslash

/-- The first piece of a text that starts with a spelled token is that token. -/
theorem head_spelling {k : TokenKind} (hk : k.Spellable) (hds : Ends ds) :
    ∃ c cs, k.spelling = c :: cs ∧ head c (cs ++ ds) = ⟨.token k, c, cs⟩ := by
  cases k with
  | identifier name =>
    obtain ⟨c, cs, hname, hhead⟩ := head_word hk.1 hds
    exact ⟨c, cs, hname, by rw [hhead, TokenKind.ofWord, hk.2]⟩
  | integer n =>
    obtain ⟨c, cs, hdigits⟩ := List.exists_cons_of_ne_nil (@Nat.toDigits_ne_nil n 10)
    have hdigit : c.isDigit = true :=
      Nat.isDigit_of_mem_toDigits (by decide) (by decide) (hdigits ▸ List.mem_cons_self)
    have hslash : c ≠ '/' := by
      rintro rfl
      exact absurd hdigit (by decide)
    refine ⟨c, cs, hdigits, ?_⟩
    rw [head_eq_lexeme (isBlank_of_isWordChar (isWordChar_of_isDigit hdigit)) hslash,
      lexeme_integer hk hdigits hds]
  | specWord word =>
    obtain ⟨d, cs, hword, hall⟩ := hk
    refine ⟨'\\', d :: cs, hword, ?_⟩
    rw [head_eq_lexeme (by decide) (by decide), lexeme_specWord hall hds, ← hword,
      String.ofList_toList]
  | reserved word =>
    have hword : IsWord word.spelling := by
      cases word <;> decide
    have hreserved : Reserved.ofWord? word.spelling = some word := by
      cases word <;> decide
    obtain ⟨c, cs, hname, hhead⟩ := head_word hword hds
    exact ⟨c, cs, hname, by rw [hhead, TokenKind.ofWord, hreserved]⟩
  | symbol s => exact head_symbol s hds
  | endOfText => exact absurd hk id

/-! ### All pieces -/

/-- The text is cut into these tokens, white space and comments, with no fault. -/
def Cuts (cs : List Char) (kinds : List TokenKind) : Prop :=
  (cut cs).filterMap (·.kind.token?) = kinds ∧ ∀ p ∈ cut cs, p.kind.fault? = none

theorem drop_length_takeWhile (p : Char → Bool) (cs : List Char) :
    cs.drop (cs.takeWhile p).length = cs.dropWhile p := by
  induction cs with
  | nil => rfl
  | cons c cs ih => by_cases h : p c <;> simp [h, ih]

theorem cut_blank (hc : isBlank c = true) :
    cut (c :: cs) = ⟨.blank, c, cs.takeWhile isBlank⟩ :: cut (cs.dropWhile isBlank) := by
  have hhead : head c cs = ⟨.blank, c, cs.takeWhile isBlank⟩ := by
    simp only [head, hc, if_true]
  rw [cut_cons, hhead, drop_length_takeWhile]

theorem cuts_blank {kinds : List TokenKind} (hc : isBlank c = true) :
    Cuts (c :: cs) kinds ↔ Cuts (cs.dropWhile isBlank) kinds := by
  rw [Cuts, Cuts, cut_blank hc]
  simp [PieceKind.token?, PieceKind.fault?]

/-- White space before a text is of no account. -/
theorem cuts_cons_of_blank {kinds : List TokenKind} (hc : isBlank c = true) :
    Cuts (c :: cs) kinds ↔ Cuts cs kinds := by
  rw [cuts_blank hc]
  cases cs with
  | nil => rfl
  | cons d ds =>
    by_cases hd : isBlank d = true
    · rw [cuts_blank hd, List.dropWhile_cons_of_pos hd]
    · rw [List.dropWhile_cons_of_neg hd]

theorem cuts_spelling {k : TokenKind} {kinds : List TokenKind} (hk : k.Spellable) (hcs : Ends cs)
    (h : Cuts cs kinds) : Cuts (k.spelling ++ cs) (k :: kinds) := by
  obtain ⟨c, others, hspelling, hhead⟩ := head_spelling hk hcs
  have hcut : cut (k.spelling ++ cs) = ⟨.token k, c, others⟩ :: cut cs := by
    rw [hspelling, List.cons_append, cut_cons, hhead, List.drop_left]
  rw [Cuts, hcut]
  refine ⟨?_, by simpa [PieceKind.fault?] using h.2⟩
  rw [← h.1]
  rfl

theorem map_locate (start : Nat) (ps : List Piece) :
    (locate start ps).map (·.1) = ps.map (·.kind) := by
  induction ps generalizing start with
  | nil => rfl
  | cons p ps ih => rw [locate, List.map_cons, List.map_cons, ih]

end Piece

theorem cuts_of_spells {kinds : List TokenKind} {cs : List Char} (h : Spells kinds cs) :
    Piece.Cuts cs kinds := by
  induction h with
  | nil => exact ⟨rfl, by simp⟩
  | blank hc _ ih => exact (Piece.cuts_cons_of_blank hc).2 ih
  | cons hk hcs _ ih => exact Piece.cuts_spelling hk hcs ih

/-- A text that spells tokens is lexed to them. -/
theorem lex_of_spells {kinds : List TokenKind} {source : String} (h : Spells kinds source.toList) :
    ∃ tokens, lex source = .ok tokens ∧ tokens.map (·.kind) = kinds ++ [.endOfText] := by
  obtain ⟨hkinds, hfaults⟩ := cuts_of_spells h
  have hnone : (Piece.locate 0 (Piece.cut source.toList)).filterMap
      (fun piece => piece.1.fault?.map (fun f => (⟨f, piece.2⟩ : LexError))) = [] := by
    rw [List.filterMap_eq_nil_iff]
    intro piece hpiece
    have hmem : piece.1 ∈ (Piece.cut source.toList).map (·.kind) := by
      rw [← Piece.map_locate 0]
      exact List.mem_map_of_mem hpiece
    obtain ⟨p, hp, heq⟩ := List.mem_map.1 hmem
    rw [← heq, hfaults p hp]
    rfl
  simp only [lex, hnone]
  refine ⟨_, rfl, ?_⟩
  rw [List.map_append, List.map_filterMap]
  congr 1
  rw [← hkinds]
  have hsame : ∀ pieces : List (PieceKind × Span),
      pieces.filterMap (fun piece => (piece.1.token?.map fun k => (⟨k, piece.2⟩ : Token)).map
        (·.kind)) = (pieces.map (·.1)).filterMap (·.token?) := by
    intro pieces
    rw [List.filterMap_map]
    congr 1
    funext piece
    rw [Function.comp_apply]
    cases piece.1.token? <;> rfl
  rw [hsame, Piece.map_locate, List.filterMap_map]
  rfl

/-! ### Writing tokens -/

/-- The tokens with a blank behind each of them. -/
def spaced (kinds : List TokenKind) : List Char := kinds.flatMap fun k => k.spelling ++ [' ']

theorem spells_spaced {kinds : List TokenKind} (h : ∀ k ∈ kinds, k.Spellable) :
    Spells kinds (spaced kinds) := by
  induction kinds with
  | nil => exact .nil
  | cons k ks ih =>
    rw [spaced, List.flatMap_cons, List.append_assoc]
    refine .cons (h k List.mem_cons_self) (ends_cons (by decide)) (.blank (by decide) ?_)
    exact ih fun k' hk' => h k' (List.mem_cons_of_mem _ hk')

end Contracts
