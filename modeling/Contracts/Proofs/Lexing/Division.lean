import Contracts.Proofs.Lexing.FirstPiece

/-! Divisions of a source text. Since exactly one piece stands in front of every text, a text
is divided in exactly one way, and lexing reads its tokens or its faults off that division
(`lex_division`). -/

namespace Contracts

/-- Every text can be divided, and cutting finds the division. -/
theorem exists_divided (start : Nat) (cs : List Char) :
    ∃ parts, Divided start cs parts ∧
      Piece.locate start (Piece.cut cs) = parts.map fun p => (p.kind, p.span) := by
  induction hn : cs.length using Nat.strong_induction_on generalizing start cs with
  | _ n ih =>
    cases cs with
    | nil => exact ⟨[], .nil start, rfl⟩
    | cons c cs =>
      obtain ⟨rest, same, piece⟩ := Piece.isPiece_head c cs
      have hcs : cs = (Piece.head c cs).others ++ rest := (List.cons.inj same).2
      have hlength := congrArg List.length hcs
      rw [List.length_append] at hlength
      rw [List.length_cons] at hn
      obtain ⟨parts, divided, located⟩ :=
        ih rest.length (by omega) (start + byteLength (Piece.head c cs).text) rest rfl
      have hdrop : cs.drop (Piece.head c cs).others.length = rest :=
        (congrArg (List.drop _) hcs).trans List.drop_left
      have nonempty : (Piece.head c cs).text ≠ [] := List.cons_ne_nil _ _
      have whole := Divided.cons nonempty piece divided
      rw [← same] at whole
      refine ⟨_, whole, ?_⟩
      rw [Piece.cut_cons, hdrop, Piece.locate, List.map_cons]
      exact congrArg _ located

/-- No text can be divided in two ways. -/
theorem Divided.unique {start : Nat} {cs : List Char} {parts others : List Part}
    (h : Divided start cs parts) (k : Divided start cs others) : others = parts := by
  induction h generalizing others with
  | nil start =>
    generalize hcs : ([] : List Char) = cs at k
    cases k with
    | nil => rfl
    | cons nonempty _ _ => exact absurd (List.append_eq_nil_iff.1 hcs.symm).1 nonempty
  | @cons start kind text rest parts nonempty piece _ ih =>
    generalize hcs : text ++ rest = cs at k
    cases k with
    | nil => exact absurd (List.append_eq_nil_iff.1 hcs).1 nonempty
    | @cons _ kind' text' rest' parts' nonempty' piece' divided =>
      obtain ⟨c, ds, rfl⟩ := List.exists_cons_of_ne_nil nonempty
      obtain ⟨hkind, htext⟩ := Piece.head_of_isPiece piece (List.cons_append ..).symm
      obtain ⟨hkind', htext'⟩ :=
        Piece.head_of_isPiece piece' ((List.cons_append ..).symm.trans hcs)
      obtain rfl : text' = c :: ds := htext'.symm.trans htext
      obtain rfl : kind' = kind := hkind'.symm.trans hkind
      obtain rfl : rest = rest' := List.append_cancel_left hcs
      rw [ih divided]

/-- The range of a part is that of its text. -/
theorem Divided.span_of_mem {start : Nat} {cs : List Char} {parts : List Part}
    (h : Divided start cs parts) {p : Part} (hp : p ∈ parts) :
    ∃ before behind, cs = before ++ p.text ++ behind ∧
      p.span = ⟨start + byteLength before, start + byteLength (before ++ p.text)⟩ := by
  induction h with
  | nil => nomatch hp
  | @cons start kind text rest parts _ _ _ ih =>
    rcases List.mem_cons.1 hp with rfl | hp
    · exact ⟨[], rest, rfl, by simp [byteLength]⟩
    · obtain ⟨before, behind, rfl, hspan⟩ := ih hp
      refine ⟨text ++ before, behind, by simp, ?_⟩
      simp only [hspan, byteLength_append, Nat.add_assoc]

theorem utf8ByteSize_ofList (cs : List Char) : (String.ofList cs).utf8ByteSize = byteLength cs := by
  induction cs with
  | nil => rfl
  | cons c cs ih =>
    rw [String.ofList_cons, String.utf8ByteSize_append, String.utf8ByteSize_singleton, ih,
      byteLength]

theorem byteLength_toList (source : String) : byteLength source.toList = source.utf8ByteSize := by
  rw [← utf8ByteSize_ofList, String.ofList_toList]

/-- Every source text is divided in exactly one way into pieces, each of which stands on
character boundaries. Without a faulty piece the tokens are the token pieces with their
ranges, and then the end of the text; otherwise the faults are the faulty pieces. -/
theorem lex_division (source : String) :
    ∃ parts, Divided 0 source.toList parts ∧
      (∀ others, Divided 0 source.toList others → others = parts) ∧
      (∀ p ∈ parts, ∃ before behind : String, source = before ++ .ofList p.text ++ behind ∧
        p.span = ⟨before.utf8ByteSize, (before ++ .ofList p.text).utf8ByteSize⟩) ∧
      lex source =
        match parts.filterMap Part.fault? with
        | [] =>
          .ok (parts.filterMap Part.token? ++
            [⟨.endOfText, ⟨source.utf8ByteSize, source.utf8ByteSize⟩⟩])
        | faults => .error faults := by
  obtain ⟨parts, divided, located⟩ := exists_divided 0 source.toList
  refine ⟨parts, divided, fun others h => divided.unique h, fun p hp => ?_, ?_⟩
  · obtain ⟨before, behind, hsource, hspan⟩ := divided.span_of_mem hp
    refine ⟨.ofList before, .ofList behind, ?_, ?_⟩
    · rw [← String.ofList_append, ← String.ofList_append, ← hsource, String.ofList_toList]
    · rw [hspan, ← String.ofList_append, utf8ByteSize_ofList, utf8ByteSize_ofList, Nat.zero_add,
        Nat.zero_add]
  · have size := byteLength_toList source
    have faults : ((parts.map fun p => (p.kind, p.span)).filterMap fun piece =>
        piece.1.fault?.map (⟨·, piece.2⟩ : LexFault → LexError)) = parts.filterMap Part.fault? := by
      rw [List.filterMap_map]
      rfl
    have tokens : ((parts.map fun p => (p.kind, p.span)).filterMap fun piece =>
        piece.1.token?.map (⟨·, piece.2⟩ : TokenKind → Token)) = parts.filterMap Part.token? := by
      rw [List.filterMap_map]
      rfl
    cases found : parts.filterMap Part.fault? <;>
      simp only [lex, located, faults, tokens, size, found]

/-- A carriage return that no line feed follows makes two slashes no comment. -/
example : lex "//\r" =
    .ok [⟨.symbol .slash, ⟨0, 1⟩⟩, ⟨.symbol .slash, ⟨1, 2⟩⟩, ⟨.endOfText, ⟨3, 3⟩⟩] := by
  decide +kernel

end Contracts
