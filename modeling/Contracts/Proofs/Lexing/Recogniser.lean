import Contracts.Proofs.Grammar.Piece
import Contracts.Proofs.Lexing.Spelling
import Mathlib.Data.List.TakeWhile

/-! What the recognisers of the cutter find. A run is the longest text of a class that is
closed under one more character of the run; a line comment ends where its line ends and a
block comment at its first closing; of the symbols that stand in front the longest one is
found, since no symbol of the table is the beginning of a later one. -/

namespace Contracts

open Text

/-! ### Runs -/

theorem length_le_takeWhile {p : Char → Bool} {ds cs : List Char} (h : ds <+: cs)
    (hp : ∀ d ∈ ds, p d = true) : ds.length ≤ (cs.takeWhile p).length := by
  obtain ⟨tail, rfl⟩ := h
  rw [List.takeWhile_append_of_pos hp, List.length_append]
  omega

section

variable {P : List Char → Prop} {p : Char → Bool} {ds cs rest : List Char}

/-- A run behind a fixed start is the longest text of its class. -/
theorem longest_takeWhile (start : List Char) (holds : P (start ++ cs.takeWhile p))
    (shape : ∀ text, P text → text <+: start ++ cs →
      ∃ ds, text = start ++ ds ∧ ∀ d ∈ ds, p d = true) :
    Longest P (start ++ cs.takeWhile p) (cs.dropWhile p) := by
  refine ⟨holds, fun longer hlonger hP => ?_⟩
  rw [List.append_assoc, List.takeWhile_append_dropWhile] at hlonger
  obtain ⟨ds, rfl, hds⟩ := shape longer hP hlonger
  have hpre : ds <+: cs := (List.prefix_append_right_inj start).1 hlonger
  have := length_le_takeWhile hpre hds
  simp only [List.length_append]
  omega

/-- The longest text of a class is a run if one more character of the run stays in the class. -/
theorem Longest.takeWhile (start : List Char) (h : Longest P (start ++ ds) rest)
    (inside : ∀ d ∈ ds, p d = true) (grow : ∀ e, p e = true → P (start ++ ds ++ [e])) :
    (ds ++ rest).takeWhile p = ds := by
  rw [List.takeWhile_append_of_pos inside]
  cases rest with
  | nil => simp
  | cons e es =>
    have hstop : p e = false := by
      rw [Bool.eq_false_iff]
      intro he
      have := h.maximal (start ++ ds ++ [e]) ⟨es, by simp⟩ (grow e he)
      simp only [List.length_append, List.length_singleton] at this
      omega
    simp [hstop]

/-- Of the texts that start in one place only one is the longest of its class. -/
theorem Longest.unique {text other rest' : List Char} (h : Longest P text rest)
    (k : Longest P other rest') (same : text ++ rest = other ++ rest') : text = other := by
  have first : text <+: other ++ rest' := same ▸ List.prefix_append text rest
  have second : other <+: text ++ rest := same.symm ▸ List.prefix_append other rest'
  have hle := k.maximal _ first h.holds
  have hge := h.maximal _ second k.holds
  have hpre : text <+: other :=
    List.prefix_of_prefix_length_le first (List.prefix_append other rest') hle
  exact hpre.eq_of_length (by omega)

end

/-! ### The table of symbols -/

namespace Symbol

/-- No symbol of the table is the beginning of a later one. -/
theorem pairwise_spelling : all.Pairwise fun s t => ¬s.spelling.toList <+: t.spelling.toList := by
  decide

theorem spelling_injective {s t : Symbol} (h : s.spelling.toList = t.spelling.toList) : s = t := by
  revert h
  cases s <;> cases t <;> decide

theorem mem_all (s : Symbol) : s ∈ all := by
  cases s <;> decide

end Symbol

namespace Piece

variable {c : Char} {cs text rest : List Char}

/-! ### Comments -/

theorem lineComment?_eq_some_iff {body : List Char} :
    lineComment? cs = some body ↔
      ∃ rest, cs = body ++ rest ∧ (∀ d ∈ body, endsLine d = false) ∧ LineEnd rest := by
  have split : cs = cs.takeWhile (!endsLine ·) ++ cs.dropWhile (!endsLine ·) :=
    List.takeWhile_append_dropWhile.symm
  have inside : ∀ d ∈ cs.takeWhile (!endsLine ·), endsLine d = false := fun d hd => by
    simpa using List.mem_takeWhile_imp hd
  constructor
  · intro h
    unfold lineComment? at h
    split at h
    · next heq =>
      obtain rfl := Option.some.inj h
      exact ⟨_, split, inside, heq ▸ .returnFeed _⟩
    · nomatch h
    · next hfeed hreturn =>
      obtain rfl := Option.some.inj h
      refine ⟨_, split, inside, ?_⟩
      cases hrest : cs.dropWhile (!endsLine ·) with
      | nil => exact .textEnd
      | cons d ds =>
        have hd : endsLine d = true := by
          have := List.head?_dropWhile_not (!endsLine ·) cs
          simpa [hrest] using this
        simp only [endsLine, Bool.or_eq_true, beq_iff_eq] at hd
        rcases hd with rfl | rfl
        · exact .feed ds
        · exact absurd hrest (hreturn ds)
  · rintro ⟨rest, rfl, hbody, hrest⟩
    have hinside : ∀ d ∈ body, (!endsLine d) = true := fun d hd => by simp [hbody d hd]
    have hfirst : rest.takeWhile (!endsLine ·) = [] ∧ rest.dropWhile (!endsLine ·) = rest := by
      cases hrest <;> simp [endsLine]
    unfold lineComment?
    rw [List.dropWhile_append_of_pos hinside, List.takeWhile_append_of_pos hinside, hfirst.1,
      hfirst.2, List.append_nil]
    cases hrest <;> simp

theorem closing_infix_cons :
    closing <:+: c :: cs ↔ (c = '*' ∧ ∃ ds, cs = '/' :: ds) ∨ closing <:+: cs := by
  rw [List.infix_cons_iff]
  refine or_congr_left ⟨fun h => ?_, ?_⟩
  · obtain ⟨rfl, hslash⟩ := List.cons_prefix_cons.1 h
    obtain ⟨ds, rfl⟩ := hslash
    exact ⟨rfl, ds, rfl⟩
  · rintro ⟨rfl, ds, rfl⟩
    exact ⟨ds, rfl⟩

theorem blockComment?_cons (other : ¬(c = '*' ∧ ∃ ds, cs = '/' :: ds)) :
    blockComment? (c :: cs) = (blockComment? cs).map (c :: ·) := by
  rw [blockComment?]
  rintro ds rfl rfl
  exact other ⟨rfl, ds, rfl⟩

theorem blockComment?_eq_none_iff : blockComment? cs = none ↔ ¬closing <:+: cs := by
  induction cs with
  | nil => simp [blockComment?, closing]
  | cons c cs ih =>
    rw [closing_infix_cons]
    by_cases h : c = '*' ∧ ∃ ds, cs = '/' :: ds
    · obtain ⟨rfl, ds, rfl⟩ := h
      simp [blockComment?]
    · rw [blockComment?_cons h, Option.map_eq_none_iff, ih]
      simp [h]

/-- The first closing ends a block comment. -/
theorem blockComment?_eq_some_iff :
    blockComment? cs = some text ↔
      ∃ body rest, text = body ++ closing ∧ cs = text ++ rest ∧ ¬closing <:+: body ++ ['*'] := by
  induction cs generalizing text with
  | nil =>
    refine iff_of_false (fun h => nomatch h) ?_
    rintro ⟨body, rest, rfl, heq, -⟩
    simp [closing] at heq
  | cons c cs ih =>
    by_cases h : c = '*' ∧ ∃ ds, cs = '/' :: ds
    · obtain ⟨rfl, ds, rfl⟩ := h
      rw [blockComment?, Option.some.injEq]
      constructor
      · rintro rfl
        exact ⟨[], ds, rfl, rfl, by decide⟩
      · rintro ⟨body, rest, rfl, heq, hfirst⟩
        cases body with
        | nil => rfl
        | cons b body =>
          exfalso
          obtain ⟨hstar, hbody⟩ := List.cons.inj heq
          cases body with
          | nil => exact absurd (List.cons.inj hbody).1 (by decide)
          | cons d body =>
            obtain ⟨hslash, -⟩ := List.cons.inj hbody
            subst hstar hslash
            exact hfirst (closing_infix_cons.2 (.inl ⟨rfl, _, rfl⟩))
    · rw [blockComment?_cons h, Option.map_eq_some_iff]
      constructor
      · rintro ⟨tail, htail, rfl⟩
        obtain ⟨body, rest, rfl, rfl, hfirst⟩ := ih.1 htail
        refine ⟨c :: body, rest, rfl, rfl, ?_⟩
        rw [List.cons_append, closing_infix_cons]
        rintro (⟨rfl, ds, hds⟩ | hinside)
        · cases body with
          | nil => exact absurd (List.cons.inj hds).1 (by decide)
          | cons d body =>
            obtain ⟨rfl, -⟩ := List.cons.inj hds
            exact h ⟨rfl, _, rfl⟩
        · exact hfirst hinside
      · rintro ⟨body, rest, rfl, heq, hfirst⟩
        cases body with
        | nil =>
          obtain ⟨rfl, rfl⟩ := List.cons.inj heq
          exact absurd ⟨rfl, _, rfl⟩ h
        | cons b body =>
          obtain ⟨rfl, rfl⟩ := List.cons.inj heq
          refine ⟨body ++ closing, ih.2 ⟨body, rest, rfl, rfl, ?_⟩, rfl⟩
          exact fun hinside => hfirst (closing_infix_cons.2 (.inr hinside))

/-! ### Symbols -/

theorem symbol?_eq_none_iff : symbol? cs = none ↔ ∀ s : Symbol, ¬s.spelling.toList <+: cs := by
  simp [symbol?, Symbol.mem_all]

/-- The symbol that is found is the longest one. -/
theorem symbol?_eq_some_iff {s : Symbol} :
    symbol? cs = some s ↔
      ∃ rest, cs = s.spelling.toList ++ rest ∧
        Longest TokenClass.symbol.Has s.spelling.toList rest := by
  have found {s : Symbol} (h : symbol? cs = some s) : ∃ rest, cs = s.spelling.toList ++ rest ∧
      Longest TokenClass.symbol.Has s.spelling.toList rest := by
    obtain ⟨hpre, before, behind, htable, hbefore⟩ := List.find?_eq_some_iff_append.1 h
    rw [List.isPrefixOf_iff_prefix] at hpre
    obtain ⟨rest, hrest⟩ := hpre
    refine ⟨rest, hrest.symm, ⟨s, rfl⟩, ?_⟩
    rintro _ hlonger ⟨t, rfl⟩
    rw [hrest] at hlonger
    have hmem : t ∈ before ++ s :: behind := htable ▸ Symbol.mem_all t
    rw [List.mem_append, List.mem_cons] at hmem
    rcases hmem with hbefore' | rfl | hbehind
    -- An earlier symbol does not stand in front; the found one is not the beginning of a later.
    · have hno := hbefore t hbefore'
      rw [Bool.not_eq_true', ← Bool.not_eq_true, List.isPrefixOf_iff_prefix] at hno
      exact absurd hlonger hno
    · exact Nat.le_refl _
    · by_contra hlt
      have hpairs := Symbol.pairwise_spelling
      rw [htable] at hpairs
      have later := (List.pairwise_cons.1 (List.pairwise_append.1 hpairs).2.1).1 t hbehind
      exact later (List.prefix_of_prefix_length_le ⟨rest, hrest⟩ hlonger (by omega))
  refine ⟨found, ?_⟩
  rintro ⟨rest, hcs, hlongest⟩
  cases hsymbol : symbol? cs with
  | none => exact absurd ⟨rest, hcs.symm⟩ (symbol?_eq_none_iff.1 hsymbol s)
  | some t =>
    obtain ⟨rest', hcs', hlongest'⟩ := found hsymbol
    rw [Symbol.spelling_injective (hlongest.unique hlongest' (hcs ▸ hcs'))]

/-! ### Kinds -/

theorem gives_word_iff {k : TokenKind} :
    TokenClass.word.Gives text k ↔ k = .ofWord (.ofList text) := by
  have found (w : Reserved) : Reserved.ofWord? w.spelling = some w := by
    cases w <;> decide
  constructor
  · intro h
    cases h with
    | reserved w => rw [String.ofList_toList, TokenKind.ofWord, found]
    | identifier _ free =>
      have hnone : Reserved.ofWord? (.ofList text) = none := by
        rw [Reserved.ofWord?, List.find?_eq_none]
        intro w _ hw
        exact free w (by rw [eq_of_beq hw, String.toList_ofList])
      rw [TokenKind.ofWord, hnone]
  · rintro rfl
    rw [TokenKind.ofWord]
    cases hword : Reserved.ofWord? (.ofList text) with
    | none =>
      refine .identifier text fun w hw => ?_
      rw [hw, String.ofList_toList, found] at hword
      exact absurd hword (Option.some_ne_none w)
    | some w =>
      have hspelling : w.spelling = String.ofList text := by
        simpa using List.find?_some hword
      have htext : text = w.spelling.toList := by rw [hspelling, String.toList_ofList]
      rw [htext]
      exact .reserved w

theorem ofDigits_eq (digits : List Char) :
    ofDigits digits =
      if Nat.ofDigitChars 10 digits 0 < 2 ^ 63 then
        .token (.integer (Nat.ofDigitChars 10 digits 0))
      else .fault .integerTooLarge := by
  have hvalue : decimalValue digits = Nat.ofDigitChars 10 digits 0 := by
    rw [Nat.ofDigitChars_eq_foldl]
    rfl
  have hbound (n : Nat) : n ≤ largestInteger ↔ n < 2 ^ 63 := Nat.lt_succ_iff.symm
  simp only [ofDigits, hvalue, hbound]

end Piece

end Contracts
