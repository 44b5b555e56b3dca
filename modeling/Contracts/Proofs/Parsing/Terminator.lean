import Contracts.Proofs.Parsing.Progress

/-! Reading up to a terminator. In a segment of the text (`Parser.Segment`) a parser either ends
right behind the terminator or fails before it (`Parser.Stops`): what takes steps over inner
tokens only cannot pass it. Such a segment is any place from which only inner tokens stand
before a given terminator, and from there every recovery skips to the same place. -/

namespace Contracts

namespace Cursor

variable {t : Token} {S : List Token} {c d : Cursor}

/-- Only inner tokens stand before `t`, and `S` stands behind it. -/
def Ahead (t : Token) (S : List Token) (c : Cursor) : Prop :=
  ∃ w : List Token, (∀ u ∈ w, u.kind.isInner = true) ∧ c.rest = w ++ t :: S

/-- Everything through `t` has been read. -/
def Behind (t : Token) (S : List Token) (c : Cursor) : Prop := c.rest = S ∧ c.previous = t.span

theorem Ahead.congr (h : Ahead t S c) (same : d.rest = c.rest) : Ahead t S d := by
  obtain ⟨w, inner, rest⟩ := h
  exact ⟨w, inner, same.trans rest⟩

theorem kind_of_rest {ts : List Token} (h : c.rest = t :: ts) : c.kind = t.kind := by
  rw [Cursor.kind, h]

theorem behind_advance {ts : List Token} (h : c.rest = t :: ts) (more : t.kind ≠ .endOfText) :
    Behind t ts c.advance := by
  obtain ⟨rest, previous, errors, reserving⟩ := c
  dsimp only at h
  subst h
  simp [Behind, Cursor.advance, more]

theorem Ahead.kind (h : Ahead t S c) : c.kind.isInner = true ∨ c.kind = t.kind := by
  obtain ⟨w, inner, rest⟩ := h
  cases w with
  | nil => exact .inr (kind_of_rest rest)
  | cons u us => exact .inl (kind_of_rest rest ▸ inner u (List.mem_cons_self ..))

theorem ne_endOfText_of_isInner {k : TokenKind} (h : k.isInner = true) : k ≠ .endOfText := by
  rintro rfl
  nomatch h

theorem terminatorDistance_cons {u : Token} (h : u.kind.isInner = true) (ts : List Token) :
    terminatorDistance (u :: ts) = terminatorDistance ts + 1 := by
  obtain ⟨kind, span⟩ := u
  cases kind with
  | symbol s => cases s <;> first | rfl | nomatch h
  | endOfText => nomatch h
  | _ => rfl

theorem memberDistance_cons {u : Token} (h : u.kind.isInner = true) (depth : Nat)
    (ts : List Token) : memberDistance depth (u :: ts) = memberDistance depth ts + 1 := by
  obtain ⟨kind, span⟩ := u
  cases kind with
  | symbol s => cases s <;> first | rfl | nomatch h
  | endOfText => nomatch h
  | _ => rfl

section

variable (ends : t.kind = .symbol .semicolon)

include ends

theorem Ahead.ne_leftBrace (h : Ahead t S c) : c.kind ≠ .symbol .leftBrace := by
  rcases h.kind with inner | last
  · intro hk
    rw [hk] at inner
    nomatch inner
  · simp [last, ends]

/-- Over an inner token, the terminator stays ahead. -/
theorem Ahead.advance (h : Ahead t S c) (here : c.kind.isInner = true) :
    Ahead t S c.advance := by
  have consumed := rest_advance (ne_endOfText_of_isInner here)
  obtain ⟨w, inner, rest⟩ := h
  cases w with
  | nil =>
    rw [kind_of_rest rest, ends] at here
    nomatch here
  | cons u us =>
    rw [consumed, List.cons_append, List.cons.injEq] at rest
    exact ⟨us, fun v hv => inner v (List.mem_cons_of_mem u hv), rest.2⟩

/-- The terminator is the next token, and it is consumed. -/
theorem Ahead.behind_advance (h : Ahead t S c) (here : c.kind = .symbol .semicolon) :
    Behind t S c.advance := by
  obtain ⟨w, inner, rest⟩ := h
  cases w with
  | nil => exact Cursor.behind_advance rest (by simp [ends])
  | cons u us =>
    have first : u.kind = .symbol .semicolon := (kind_of_rest rest).symm.trans here
    have := inner u (List.mem_cons_self ..)
    rw [first] at this
    exact absurd this Bool.false_ne_true

/-! ### Recovery -/

/-- From wherever before the terminator, a recovery that counts the inner tokens and then the
terminator skips through the terminator. -/
theorem Ahead.behind_skip {f : List Token → Nat} (last : f (t :: S) = 1)
    (more : ∀ u ts, u.kind.isInner = true → f (u :: ts) = f ts + 1) (h : Ahead t S c) :
    Behind t S (c.skip (f c.rest)) := by
  obtain ⟨w, inner, rest⟩ := h
  induction w generalizing c with
  | nil =>
    have rest : c.rest = t :: S := rest
    rw [rest, last]
    exact Ahead.behind_advance ends ⟨[], inner, rest⟩ ((kind_of_rest rest).trans ends)
  | cons u us ih =>
    obtain ⟨first, others⟩ := List.forall_mem_cons.1 inner
    have consumed := rest_advance (kind_of_rest rest ▸ ne_endOfText_of_isInner first)
    rw [rest, List.cons_append, List.cons.injEq] at consumed
    have behind := ih others consumed.2.symm
    rw [← consumed.2] at behind
    rw [rest, List.cons_append, more u _ first]
    exact behind

theorem Ahead.behind_terminator (h : Ahead t S c) :
    Behind t S (c.skip (terminatorDistance c.rest)) :=
  h.behind_skip ends (by simp [terminatorDistance, ends]) fun _ ts hu =>
    terminatorDistance_cons hu ts

theorem Ahead.behind_member (h : Ahead t S c) : Behind t S (c.skip (memberDistance 0 c.rest)) :=
  h.behind_skip ends (by simp [memberDistance, ends]) fun _ ts hu => memberDistance_cons hu 0 ts

end

/-- Behind the terminator only the errors are left of what stood before it. -/
theorem Behind.eq_behind {d : Cursor} {on : Bool} (h : Behind t S d) (passes : c.Passes d)
    (mode : c.reserving = on) :
    ∃ es, d = ({ rest := S, previous := t.span, reserving := on } : Cursor).behind
      (c.errors ++ es) := by
  obtain ⟨es, hes⟩ := passes.errors
  have mode := passes.reserving.trans mode
  obtain ⟨rest, previous, errors, reserving⟩ := d
  obtain ⟨hrest, hprevious⟩ := h
  dsimp only at hrest hprevious hes mode
  refine ⟨es, ?_⟩
  rw [hrest, hprevious, mode, ← hes, Cursor.behind, List.append_nil]

end Cursor

namespace Parser

open Cursor

variable {α β γ : Type} {registry : Registry} {t : Token} {S : List Token} {c : Cursor}

theorem isInner_of_keyword? {on : Bool} {k : TokenKind} {d : Descriptor}
    (h : k.keyword? registry on = some d) : k.isInner = true := by
  unfold TokenKind.keyword? at h
  split at h
  · rfl
  · nomatch h

/-- Where `A` holds, a terminator is still ahead: it holds again behind an inner token and behind
a report. Right behind the terminator, `B` holds. -/
structure Segment (A B : Cursor → Prop) : Prop where
  advance {c : Cursor} : A c → c.kind.isInner = true → A c.advance
  report {c : Cursor} (e : SyntaxError) : A c → A (c.report e)
  close {c : Cursor} : A c → c.kind = .symbol .semicolon → B c.advance

theorem segment_ahead (ends : t.kind = .symbol .semicolon) :
    Segment (Ahead t S) (Behind t S) where
  advance ahead here := ahead.advance ends here
  report _ ahead := ahead.congr rfl
  close ahead here := ahead.behind_advance ends here

variable {A B : Cursor → Prop}

theorem Segment.walks (h : Segment A B) {d : Cursor} (hw : c.Walks TokenKind.isInner d) :
    A c → A d := by
  refine hw.lift (R := fun c d => A c → A d) (fun _ => id) (fun first second => second ∘ first)
    fun step => ?_
  cases step with
  | advance here _ => exact fun before => h.advance before here
  | report e => exact h.report e

/-- From this cursor, success ends right behind the terminator and failure before it. -/
structure StopsAt (A B : Cursor → Prop) (c : Cursor) (p : Parser α) : Prop where
  ok : ∀ a d, p c = .ok a d → B d
  error : ∀ e d, p c = .error e d → A d

/-- So it is from every cursor before the terminator. -/
def Stops (A B : Cursor → Prop) (p : Parser α) : Prop := ∀ c, A c → StopsAt A B c p

/-! ### Rules -/

theorem StopsAt.congr {d : Cursor} {p q : Parser α} (same : p c = q d) (h : StopsAt A B d q) :
    StopsAt A B c p :=
  ⟨fun a d' hok => h.ok a d' (same ▸ hok), fun e d' he => h.error e d' (same ▸ he)⟩

theorem StopsAt.done {p : Parser α} {a : α} {d : Cursor} (hp : p c = .ok a d)
    (h : B d) : StopsAt A B c p := by
  constructor
  · intro b e hok
    rw [hp] at hok
    injection hok with _ he
    exact he ▸ h
  · intro e d' he
    rw [hp] at he
    nomatch he

theorem StopsAt.fail {p : Parser α} {e : SyntaxError} {d : Cursor} (hp : p c = .error e d)
    (h : A d) : StopsAt A B c p := by
  constructor
  · intro a d' hok
    rw [hp] at hok
    nomatch hok
  · intro e' d' he
    rw [hp] at he
    injection he with _ hd
    exact hd ▸ h

theorem StopsAt.run {p : Parser β} {f : β → Parser α} {b : β} {d : Cursor} (hp : p c = .ok b d)
    (h : StopsAt A B d (f b)) : StopsAt A B c (p >>= f) := .congr (by rw [bind_apply, hp]) h

/-- What comes first ends where the rest goes on. -/
theorem StopsAt.seq {M : Cursor → Prop} {p : Parser β} {f : β → Parser α} (hp : StopsAt A M c p)
    (hf : ∀ b d, M d → StopsAt A B d (f b)) : StopsAt A B c (p >>= f) := by
  cases h : p c with
  | ok b d => exact .run h (hf b d (hp.ok b d h))
  | error e d => exact .fail (by rw [bind_apply, h]) (hp.error e d h)

theorem StopsAt.mono {A' B' : Cursor → Prop} {p : Parser α} (h : StopsAt A B c p)
    (hA : ∀ d, A d → A' d) (hB : ∀ d, B d → B' d) : StopsAt A' B' c p :=
  ⟨fun a d hok => hB d (h.ok a d hok), fun e d he => hA d (h.error e d he)⟩

/-- Behind the terminator, it is only looked at what has been read. -/
theorem StopsAt.close {p : Parser β} {f : β → Parser α} (h : StopsAt A B c p)
    (hf : ∀ b d, ∃ a, f b d = .ok a d) : StopsAt A B c (p >>= f) := by
  cases hp : p c with
  | ok b d =>
    obtain ⟨a, ha⟩ := hf b d
    exact .done (by rw [bind_apply, hp]; exact ha) (h.ok b d hp)
  | error e d => exact .fail (by rw [bind_apply, hp]) (h.error e d hp)

theorem Stops.close {p : Parser β} {f : β → Parser α} (h : Stops A B p)
    (hf : ∀ b d, ∃ a, f b d = .ok a d) : Stops A B (p >>= f) := fun c hc => (h c hc).close hf

theorem Stops.failHere (fault : SyntaxFault) : Stops A B (failHere fault : Parser α) :=
  fun _ before => .fail rfl before

theorem expectSymbol_of_kind {s : Symbol} (h : c.kind = .symbol s) :
    expectSymbol s c = .ok c.current c.advance := by
  rw [expectSymbol, expect_apply, if_pos h]

theorem StopsAt.expectSymbol {s : Symbol} {f : Token → Parser α} (before : A c)
    (found : c.kind = .symbol s → StopsAt A B c.advance (f c.current)) :
    StopsAt A B c (expectSymbol s >>= f) := by
  by_cases hk : c.kind = .symbol s
  · exact .run (expectSymbol_of_kind hk) (found hk)
  · refine .fail (e := ⟨.expectedToken (.symbol s) c.kind, c.span⟩) ?_ before
    rw [bind_apply, Parser.expectSymbol, expect_apply, if_neg hk]

/-- Where a repetition is entered again, fewer tokens stand before the terminator. -/
theorem Stops.recur {step : (γ → Parser α) → γ → Parser α}
    (h : ∀ again, (∀ b, Stops A B (again b)) → ∀ b, Stops A B (step again b)) (b : γ) :
    Stops A B (recur step b) :=
  recur_induction (M := fun _ c p => A c → StopsAt A B c p)
    (fun hpq hq hc => .congr hpq (hq hc)) (fun _ _ hc => .fail rfl hc) h b

section

variable {M : Cursor → Prop} (segment : Segment A M)

include segment

/-- What is read over inner tokens only leaves the terminator ahead. -/
theorem StopsAt.bind {P : β → Prop} {p : Parser β} {f : β → Parser α}
    (hp : SteadyAt c TokenKind.isInner P p) (before : A c) (hf : ∀ b, Stops A B (f b)) :
    StopsAt A B c (p >>= f) := by
  have after := segment.walks hp.walks before
  cases h : p c with
  | ok b d =>
    rw [after_of_ok h] at after
    exact .congr (by rw [bind_apply, h]) (hf b d after)
  | error e d =>
    rw [after_of_error h] at after
    exact .fail (by rw [bind_apply, h]) after

theorem Stops.bind {P : β → Prop} {p : Parser β} {f : β → Parser α}
    (hp : Steady TokenKind.isInner P p) (hf : ∀ b, Stops A B (f b)) : Stops A B (p >>= f) :=
  fun c before => .bind segment (hp c) before hf

/-- A keyword is one of the inner tokens. -/
theorem StopsAt.advance {f : Token → Parser α} (here : c.kind.isInner = true) (before : A c)
    (hf : ∀ u, Stops A B (f u)) : StopsAt A B c (advance >>= f) :=
  .bind segment (steadyAt_advance fun _ => here) before hf

theorem stops_terminator : Stops A M (expectSymbol .semicolon) := by
  intro c before
  refine .run (b := c.kind) rfl ?_
  split
  · next hk => exact .done rfl (segment.close before hk)
  · exact .fail rfl before

end

end Parser

end Contracts
