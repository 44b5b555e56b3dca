import Contracts.Proofs.Lexing.Marks

/-! Tokens written with any white space between them. Whatever the tokens and however long the
white space behind each of them, lexing gives them back, each with the range of its spelling
(`lex_written`); only behind the final token there may be no white space. -/

namespace Contracts

open Text

/-- A token to be written, with the white space behind it. -/
structure Written where
  kind : TokenKind
  gap : List Char

namespace Written

def text (w : Written) : List Char := w.kind.spelling ++ w.gap

/-- The tokens that are written from an offset on. -/
def placed : Nat → List Written → List Token
  | _, [] => []
  | start, w :: ws =>
    ⟨w.kind, ⟨start, start + byteLength w.kind.spelling⟩⟩ :: placed (start + byteLength w.text) ws

/-- Each token can be written, and all but the last have white space behind them. -/
structure Apart (ws : List Written) : Prop where
  spellable : ∀ w ∈ ws, w.kind.Spellable
  blank : ∀ w ∈ ws, ∀ c ∈ w.gap, isBlank c = true
  between : ∀ w ∈ ws.dropLast, w.gap ≠ []

instance (ws : List Written) : Decidable (Apart ws) :=
  decidable_of_iff ((∀ w ∈ ws, w.kind.Spellable) ∧ (∀ w ∈ ws, w.gap.all isBlank = true) ∧
      ∀ w ∈ ws.dropLast, w.gap ≠ [])
    ⟨fun ⟨s, b, g⟩ => ⟨s, fun w hw => List.all_eq_true.1 (b w hw), g⟩,
      fun ⟨s, b, g⟩ => ⟨s, fun w hw => List.all_eq_true.2 (b w hw), g⟩⟩

variable {start : Nat} {w : Written} {ws : List Written}

theorem Apart.tail (h : Apart (w :: ws)) : Apart ws := by
  refine ⟨fun v hv => h.spellable v (List.mem_cons_of_mem _ hv),
    fun v hv => h.blank v (List.mem_cons_of_mem _ hv), fun v hv => h.between v ?_⟩
  have hne : ws ≠ [] := by
    rintro rfl
    nomatch hv
  rw [List.dropLast_cons_of_ne_nil hne]
  exact List.mem_cons_of_mem _ hv

/-- What follows a written token starts with white space or is nothing. -/
theorem Apart.ends (h : Apart (w :: ws)) : Ends (w.gap ++ ws.flatMap text) := by
  cases hgap : w.gap with
  | cons c cs => exact ends_cons (h.blank w List.mem_cons_self c (hgap ▸ List.mem_cons_self))
  | nil =>
    cases ws with
    | nil => exact fun _ _ heq => nomatch heq
    | cons v vs => exact absurd hgap (h.between w List.mem_cons_self)

end Written

open Written

theorem Piece.isBlank_of_head_token {k : TokenKind} {c : Char} {cs ds : List Char}
    (hhead : head c ds = ⟨.token k, c, cs⟩) : isBlank c = false := by
  rw [Bool.eq_false_iff]
  intro hc
  simp only [head, hc, if_true] at hhead
  exact absurd (congrArg kind hhead) (by simp)

/-- A spelled token in front of white space is the first mark. -/
theorem marks_spelling {k : TokenKind} {start : Nat} {ds : List Char} (hk : k.Spellable)
    (hds : Ends ds) :
    marks start (k.spelling ++ ds) =
      (.token k, ⟨start, start + byteLength k.spelling⟩) ::
        marks (start + byteLength k.spelling) ds := by
  obtain ⟨c, cs, hspelling, hhead⟩ := Piece.head_spelling hk hds
  have htail : (Piece.head c (cs ++ ds)).others ++ ds = cs ++ ds := by rw [hhead]
  rw [hspelling, List.cons_append, marks_eq_cons (Piece.isBlank_of_head_token hhead) htail, hhead]
  rfl

/-- The marks of written tokens are these tokens. -/
theorem marks_written {start : Nat} {ws : List Written} (h : Apart ws) :
    marks start (ws.flatMap text) =
      (placed start ws).map fun t => (.token t.kind, t.span) := by
  induction ws generalizing start with
  | nil => rfl
  | cons w ws ih =>
    have hgap := h.blank w List.mem_cons_self
    rw [List.flatMap_cons, text, List.append_assoc,
      marks_spelling (h.spellable w List.mem_cons_self) h.ends, marks_append_of_blank hgap,
      ih h.tail, placed, text, byteLength_append, ← Nat.add_assoc]
    rfl

theorem map_kind_placed (start : Nat) (ws : List Written) :
    (placed start ws).map (·.kind) = ws.map (·.kind) := by
  induction ws generalizing start with
  | nil => rfl
  | cons w ws ih => rw [placed, List.map_cons, List.map_cons, ih]

theorem placed_append (start : Nat) (ws vs : List Written) :
    placed start (ws ++ vs) =
      placed start ws ++ placed (start + byteLength (ws.flatMap text)) vs := by
  induction ws generalizing start with
  | nil => rfl
  | cons w ws ih =>
    rw [List.cons_append, placed, placed, ih, List.flatMap_cons, byteLength_append,
      ← Nat.add_assoc, List.cons_append]

theorem length_placed (start : Nat) (ws : List Written) : (placed start ws).length = ws.length := by
  have := congrArg List.length (map_kind_placed start ws)
  rwa [List.length_map, List.length_map] at this

/-- A written token has the range of its spelling. -/
theorem placed_span (lead : List Char) (before : List Written) (w : Written)
    (behind : List Written) :
    (placed (byteLength lead) (before ++ w :: behind))[before.length]?.map (·.span) =
      some ⟨byteLength (lead ++ before.flatMap text),
        byteLength (lead ++ before.flatMap text ++ w.kind.spelling)⟩ := by
  have hbehind : (placed (byteLength lead) before).length ≤ before.length :=
    (length_placed _ before).le
  rw [placed_append, List.getElem?_append_right hbehind, length_placed, Nat.sub_self, placed,
    List.getElem?_cons_zero, Option.map_some]
  simp only [byteLength_append]

/-- Lexing undoes writing: a text of tokens that can be written, with any white space in front
of them, behind them and, without being empty, between them, has exactly these tokens, each
with the range of its spelling, and then its end. -/
theorem lex_written (lead : List Char) (ws : List Written) (source : String)
    (hlead : ∀ c ∈ lead, isBlank c = true) (apart : Apart ws)
    (hsource : source.toList = lead ++ ws.flatMap text) :
    ∃ tokens,
      lex source =
        .ok (tokens ++ [⟨.endOfText, ⟨source.utf8ByteSize, source.utf8ByteSize⟩⟩]) ∧
      tokens.map (·.kind) = ws.map (·.kind) ∧
      ∀ before w behind, ws = before ++ w :: behind →
        tokens[before.length]?.map (·.span) =
          some ⟨byteLength (lead ++ before.flatMap text),
            byteLength (lead ++ before.flatMap text ++ w.kind.spelling)⟩ := by
  have hmarks : marks 0 source.toList =
      (placed (byteLength lead) ws).map fun t => (.token t.kind, t.span) := by
    rw [hsource, marks_append_of_blank hlead, Nat.zero_add, marks_written apart]
  have hfaults : markedFaults (marks 0 source.toList) = [] := by
    rw [hmarks, markedFaults, List.filterMap_map, List.filterMap_eq_nil_iff]
    exact fun _ _ => rfl
  have htokens : markedTokens (marks 0 source.toList) = placed (byteLength lead) ws := by
    rw [hmarks, markedTokens, List.filterMap_map]
    exact List.filterMap_some
  refine ⟨placed (byteLength lead) ws, ?_, map_kind_placed _ ws, ?_⟩
  · rw [lex_marks, hfaults, htokens]
  · rintro before w behind rfl
    exact placed_span lead before w behind

/-- A number, an operator that starts two longer ones, and a word, with an ideographic space
in front and a line end between them. -/
theorem lex_written_three :
    (∀ c ∈ ['\u3000'], isBlank c = true) ∧
      Apart [⟨.integer 7, ['\n']⟩, ⟨.symbol .assign, [' ', '\t']⟩, ⟨.identifier "x", []⟩] ∧
      ∃ tokens,
        lex "\u30007\n= \tx" = .ok (tokens ++ [⟨.endOfText, ⟨9, 9⟩⟩]) ∧
        tokens.map (·.kind) = [.integer 7, .symbol .assign, .identifier "x"] ∧
        tokens[1]?.map (·.span) = some ⟨5, 6⟩ := by
  have hlead : ∀ c ∈ ['\u3000'], isBlank c = true := List.forall_mem_singleton.2 rfl
  have apart :
      Apart [⟨.integer 7, ['\n']⟩, ⟨.symbol .assign, [' ', '\t']⟩, ⟨.identifier "x", []⟩] := by
    decide
  obtain ⟨tokens, hlex, hkinds, hspans⟩ :=
    lex_written ['\u3000'] _ "\u30007\n= \tx" hlead apart (by decide)
  exact ⟨hlead, apart, tokens, hlex, hkinds, hspans [⟨.integer 7, ['\n']⟩] _ _ rfl⟩

end Contracts
