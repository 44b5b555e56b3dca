import Contracts.Proofs.Layout.Nested
import Contracts.Proofs.Parsing.Consumption

/-! Where parsers put what they read. The tokens that are left stand one behind another, behind
the token that was consumed last (`Cursor.Tidy`), and reading goes onward through them
(`Cursor.Onward`). A parser places its results (`Parser.PlacesAt`) when it keeps the cursor
tidy, goes onward, reports only errors whose spans do not run backwards, and gives results that
stand in a relation to the end of the token consumed last. Each way to compose parsers has a
rule. -/

namespace Contracts

namespace Cursor

/-- The tokens that are left stand one behind another, and no span runs backwards. -/
structure Tidy (c : Cursor) : Prop where
  previous : c.previous.start ≤ c.previous.stop
  rest : ∃ hi, Laid c.previous.stop (c.rest.map (·.span)) hi
  errors : ∀ e ∈ c.errors, e.span.start ≤ e.span.stop

/-- Nothing was consumed between the cursors, or the token at the first one was. -/
structure Onward (c d : Cursor) : Prop where
  stop : c.previous.stop ≤ d.previous.stop
  first : d.rest = c.rest ∨ c.span.stop ≤ d.previous.stop

variable {c d e : Cursor}

theorem Tidy.span_le (h : c.Tidy) : c.span.start ≤ c.span.stop := by
  obtain ⟨rest, previous, errors, reserving⟩ := c
  cases rest with
  | nil => exact h.previous
  | cons t ts =>
    obtain ⟨hi, laid⟩ := h.rest
    exact laid.2.1

theorem Tidy.stop_le (h : c.Tidy) (more : c.kind ≠ .endOfText) :
    c.previous.stop ≤ c.span.start := by
  obtain ⟨rest, previous, errors, reserving⟩ := c
  cases rest with
  | nil => exact absurd rfl more
  | cons t ts =>
    obtain ⟨hi, laid⟩ := h.rest
    exact laid.1

theorem Tidy.inMode (h : c.Tidy) (on : Bool) : (c.inMode on).Tidy := ⟨h.previous, h.rest, h.errors⟩

theorem Tidy.report (h : c.Tidy) {e : SyntaxError} (he : e.span.start ≤ e.span.stop) :
    (c.report e).Tidy :=
  ⟨h.previous, h.rest, List.forall_mem_append.2 ⟨h.errors, List.forall_mem_singleton.2 he⟩⟩

theorem previous_advance (more : c.kind ≠ .endOfText) : c.advance.previous = c.span := by
  obtain ⟨rest, previous, errors, reserving⟩ := c
  cases rest with
  | nil => exact absurd rfl more
  | cons t ts => exact congrArg Cursor.previous (if_neg more)

theorem Tidy.advance (h : c.Tidy) : c.advance.Tidy := by
  by_cases hend : c.kind = .endOfText
  · rwa [advance_of_end hend]
  · refine ⟨?_, ?_, by rw [advance_errors]; exact h.errors⟩
    · rw [previous_advance hend]
      exact h.span_le
    · obtain ⟨hi, laid⟩ := h.rest
      rw [rest_advance hend] at laid
      rw [previous_advance hend]
      exact ⟨hi, laid.2.2⟩

theorem Onward.refl (c : Cursor) : c.Onward c := ⟨le_rfl, .inl rfl⟩

theorem Onward.trans (h : c.Onward d) (k : d.Onward e) : c.Onward e := by
  refine ⟨h.stop.trans k.stop, ?_⟩
  rcases h.first with same | consumed
  · rcases k.first with same' | consumed
    · exact .inl (same'.trans same)
    · refine .inr ?_
      have hstop := h.stop
      have kstop := k.stop
      rw [span] at consumed ⊢
      rw [same] at consumed
      split at consumed <;> omega
  · exact .inr (consumed.trans k.stop)

theorem Tidy.onward_advance (h : c.Tidy) : c.Onward c.advance := by
  by_cases hend : c.kind = .endOfText
  · rw [advance_of_end hend]
    exact .refl c
  · have place := h.stop_le hend
    have ordered := h.span_le
    refine ⟨?_, .inr ?_⟩ <;> rw [previous_advance hend]
    exact place.trans ordered

/-- Behind what consumed nothing, or behind what is skipped there, the first token has been
passed. -/
theorem Onward.reached {stop : Nat} (h : c.Onward d) (goes : ¬c.kind.Closes)
    (le : d.previous.stop ≤ stop) (skipped : ¬d.kind.Closes → d.span.stop ≤ stop) :
    c.span.stop ≤ stop := by
  rcases h.first with same | consumed
  · have spans : d.span = c.span := by
      obtain ⟨rest, previous, errors, reserving⟩ := c
      cases rest with
      | nil => exact absurd (.inr rfl) goes
      | cons t ts => rw [span, same, span]
    rw [← spans]
    exact skipped (kind_congr same ▸ goes)
  · exact consumed.trans le

theorem Tidy.skip (h : c.Tidy) (n : Nat) : (c.skip n).Tidy ∧ c.Onward (c.skip n) := by
  induction n generalizing c with
  | zero => exact ⟨h, .refl c⟩
  | succ n ih =>
    obtain ⟨tidy, onward⟩ := ih h.advance
    exact ⟨tidy, h.onward_advance.trans onward⟩

end Cursor

namespace Parser

open Cursor

variable {α β γ : Type}

/-- From this cursor the parser keeps the cursor tidy and goes onward, fails only where a span
does not run backwards, and gives only results that stand in the relation to the end of the
token consumed last. -/
structure PlacesAt (c : Cursor) (R : Nat → α → Prop) (p : Parser α) : Prop where
  tidy : (p.after c).Tidy
  onward : c.Onward (p.after c)
  failure : ∀ e d, p c = .error e d → e.span.start ≤ e.span.stop
  result : ∀ a d, p c = .ok a d → R d.previous.stop a

/-- Between the tokens consumed last before and behind the parser stand the ranges of its
result. -/
def Places (spans : α → List Span) (good : α → Prop) (p : Parser α) : Prop :=
  ∀ c, c.Tidy → PlacesAt c (fun stop a => Laid c.previous.stop (spans a) stop ∧ good a) p

namespace PlacesAt

variable {c d : Cursor} {R : Nat → α → Prop} {S : Nat → β → Prop} {p : Parser α}

/-! ### Rules -/

theorem of_ok {a : α} (hp : p c = .ok a d) (tidy : d.Tidy) (onward : c.Onward d)
    (ha : R d.previous.stop a) : PlacesAt c R p := by
  refine ⟨?_, ?_, fun e d' h => ?_, fun b d' h => ?_⟩
  · rwa [after_of_ok hp]
  · rwa [after_of_ok hp]
  · rw [hp] at h
    nomatch h
  · rw [hp] at h
    injection h with hb hd
    exact hb ▸ hd ▸ ha

theorem of_error {e : SyntaxError} (hp : p c = .error e d) (tidy : d.Tidy) (onward : c.Onward d)
    (he : e.span.start ≤ e.span.stop) : PlacesAt c R p := by
  refine ⟨?_, ?_, fun e' d' h => ?_, fun b d' h => ?_⟩
  · rwa [after_of_error hp]
  · rwa [after_of_error hp]
  · rw [hp] at h
    injection h with h _
    exact h ▸ he
  · rw [hp] at h
    nomatch h

theorem congr {q : Parser α} (hpq : p c = q c) (h : PlacesAt c R q) : PlacesAt c R p := by
  have same : p.after c = q.after c := by rw [after, after, hpq]
  refine ⟨?_, ?_, fun e d he => h.failure e d (hpq ▸ he), fun a d ha => h.result a d (hpq ▸ ha)⟩
  · rw [same]
    exact h.tidy
  · rw [same]
    exact h.onward

theorem mono {T : Nat → α → Prop} (h : PlacesAt c R p) (hT : ∀ stop a, R stop a → T stop a) :
    PlacesAt c T p :=
  ⟨h.tidy, h.onward, h.failure, fun a d ha => hT _ _ (h.result a d ha)⟩

theorem bind {f : α → Parser β} (hp : PlacesAt c R p)
    (hf : ∀ a d, d.Tidy → c.Onward d → R d.previous.stop a → PlacesAt d S (f a)) :
    PlacesAt c S (p >>= f) := by
  cases hrun : p c with
  | error e d =>
    refine .of_error (d := d) (by rw [bind_apply, hrun]) ?_ ?_ (hp.failure e d hrun)
    · exact after_of_error hrun ▸ hp.tidy
    · exact after_of_error hrun ▸ hp.onward
  | ok a d =>
    have onward := after_of_ok hrun ▸ hp.onward
    have hfa := hf a d (after_of_ok hrun ▸ hp.tidy) onward (hp.result a d hrun)
    have same : (p >>= f) c = f a d := by rw [bind_apply, hrun]
    refine ⟨?_, ?_, fun e d' h => hfa.failure e d' (same ▸ h),
      fun b d' h => hfa.result b d' (same ▸ h)⟩
    · rw [after_bind_of_ok hrun]
      exact hfa.tidy
    · rw [after_bind_of_ok hrun]
      exact onward.trans hfa.onward

/-- Looking ahead takes no step. -/
theorem look {f : α → Parser β} {a : α} (hp : p c = .ok a c) (h : PlacesAt c S (f a)) :
    PlacesAt c S (p >>= f) :=
  .congr (by rw [bind_apply, hp]) h

theorem kind {f : TokenKind → Parser β} (h : PlacesAt c S (f c.kind)) :
    PlacesAt c S (Parser.kind >>= f) := .look rfl h

theorem previousEnd {f : Nat → Parser β} (h : PlacesAt c S (f c.previous.stop)) :
    PlacesAt c S (Parser.previousEnd >>= f) := .look rfl h

theorem span {f : Span → Parser β} (h : PlacesAt c S (f c.span)) :
    PlacesAt c S (Parser.span >>= f) := .look rfl h

theorem clauseKeyword? {registry : Registry} {f : Option Descriptor → Parser β}
    (h : PlacesAt c S (f (c.kind.keyword? registry c.reserving))) :
    PlacesAt c S (Parser.clauseKeyword? registry >>= f) := .look (clauseKeyword?_apply _ c) h

theorem pure {a : α} (hc : c.Tidy) (ha : R c.previous.stop a) : PlacesAt c R (Pure.pure a) :=
  .of_ok rfl hc (.refl c) ha

theorem failHere (hc : c.Tidy) (fault : SyntaxFault) : PlacesAt c R (Parser.failHere fault) :=
  .of_error rfl hc (.refl c) hc.span_le

/-- Behind a report the tokens are the same. -/
theorem report {f : Unit → Parser β} {e : SyntaxError} (h : PlacesAt (c.report e) S (f ())) :
    PlacesAt c S (Parser.report e >>= f) :=
  ⟨h.tidy, ⟨h.onward.stop, h.onward.first⟩, h.failure, h.result⟩

theorem advance (hc : c.Tidy) (more : c.kind ≠ .endOfText) :
    PlacesAt c (fun stop t => t.span = c.span ∧ Laid c.previous.stop [t.span] stop)
      Parser.advance := by
  refine .of_ok rfl hc.advance hc.onward_advance ⟨rfl, hc.stop_le more, hc.span_le, ?_⟩
  rw [previous_advance more]
  exact le_rfl

theorem placeholder {T : Nat → Expr → Prop} {e : SyntaxError} (hc : c.Tidy)
    (he : e.span.start ≤ e.span.stop) (h : T c.previous.stop (.missing e.span)) :
    PlacesAt c T (Parser.placeholder e) :=
  .report (.pure (hc.report he) h)

theorem skipThroughTerminator (hc : c.Tidy) :
    PlacesAt c (fun stop _ => ¬c.kind.Closes → c.span.stop ≤ stop)
      Parser.skipThroughTerminator := by
  obtain ⟨tidy, onward⟩ := hc.skip (terminatorDistance c.rest)
  refine .of_ok rfl tidy onward fun goes => ?_
  obtain ⟨n, hn⟩ := Nat.exists_eq_succ_of_ne_zero (terminatorDistance_pos goes).ne'
  rw [hn, skip]
  have more : c.kind ≠ .endOfText := fun last => goes (.inr last)
  have step := (hc.advance.skip n).2.stop
  rwa [previous_advance more] at step

theorem skipMember (hc : c.Tidy) : PlacesAt c (fun _ _ => True) Parser.skipMember :=
  .of_ok rfl (hc.skip _).1 (hc.skip _).2 trivial

theorem skipToClass (hc : c.Tidy) : PlacesAt c (fun _ _ => True) Parser.skipToClass :=
  .of_ok rfl (hc.skip _).1 (hc.skip _).2 trivial

/-- A failure becomes a result, at a span that does not run backwards. -/
theorem outcome (hp : PlacesAt c R p) :
    PlacesAt c (fun stop r => match r with
      | .ok a => R stop a
      | .error e => e.span.start ≤ e.span.stop) (Parser.outcome p) := by
  cases hrun : p c with
  | ok a d =>
    refine .of_ok (a := .ok a) (by rw [Parser.outcome, hrun]) ?_ ?_ (hp.result a d hrun)
    · exact after_of_ok hrun ▸ hp.tidy
    · exact after_of_ok hrun ▸ hp.onward
  | error e d =>
    refine .of_ok (a := .error e) (by rw [Parser.outcome, hrun]) ?_ ?_ (hp.failure e d hrun)
    · exact after_of_error hrun ▸ hp.tidy
    · exact after_of_error hrun ▸ hp.onward

theorem withReserving (on : Bool) (hp : PlacesAt (c.inMode on) R p) :
    PlacesAt c R (Parser.withReserving on p) := by
  have same := Steady.withReserving_apply on p c
  have onward : c.Onward ((p.after (c.inMode on)).inMode c.reserving) :=
    ⟨hp.onward.stop, hp.onward.first⟩
  have tidy := hp.tidy.inMode c.reserving
  cases hrun : p (c.inMode on) with
  | ok a d =>
    rw [after_of_ok hrun] at onward tidy
    rw [hrun] at same
    exact .of_ok same tidy onward (hp.result a d hrun)
  | error e d =>
    rw [after_of_error hrun] at onward tidy
    rw [hrun] at same
    exact .of_error same tidy onward (hp.failure e d hrun)

/-! ### Single tokens -/

theorem expectSymbol (hc : c.Tidy) (s : Symbol) :
    PlacesAt c (fun stop t => Laid c.previous.stop [t.span] stop) (Parser.expectSymbol s) := by
  refine .kind ?_
  split
  · next hk => exact (advance hc (by rw [hk]; nofun)).mono fun _ _ h => h.2
  · exact failHere hc _

theorem accept (hc : c.Tidy) (s : Symbol) :
    PlacesAt c (fun _ _ => True) (Parser.accept s) := by
  refine .kind ?_
  split
  · next hk =>
    exact (advance hc (by rw [hk]; nofun)).bind fun _ d hd _ _ => pure hd trivial
  · exact pure hc trivial

theorem nameOr (hc : c.Tidy) (fault : TokenKind → SyntaxFault) :
    PlacesAt c (fun stop n => Laid c.previous.stop [n.span] stop) (Parser.nameOr fault) := by
  refine .kind ?_
  split
  · next hk =>
    exact (advance hc (by rw [hk]; nofun)).bind fun t d hd _ ht => pure hd ht.2
  · exact failHere hc _

theorem expectName (hc : c.Tidy) (role : NameRole) :
    PlacesAt c (fun stop n => Laid c.previous.stop [n.span] stop) (Parser.expectName role) :=
  nameOr hc _

theorem typeName (hc : c.Tidy) :
    PlacesAt c (fun stop n => Laid c.previous.stop [n.span] stop) Parser.typeName := nameOr hc _

/-! ### Repetition -/

/-- A repetition places its results when one entry does, given that the entries behind it do. -/
theorem recur {I : γ → Cursor → Prop} {R : Cursor → Nat → α → Prop}
    {step : (γ → Parser α) → γ → Parser α}
    (h : ∀ again, (∀ b c, c.Tidy → I b c → PlacesAt c (R c) (again b)) →
      ∀ b c, c.Tidy → I b c → PlacesAt c (R c) (step again b)) {b : γ} {c : Cursor} (hc : c.Tidy)
    (hb : I b c) : PlacesAt c (R c) (recur step b) :=
  recur_induction (M := fun b c p => c.Tidy → I b c → PlacesAt c (R c) p)
    (fun hpq hq hc hb => .congr hpq (hq hc hb)) (fun _ _ hc _ => .failHere hc _)
    (fun again hagain => h again hagain) b c hc hb

end PlacesAt

namespace Places

variable {spans : α → List Span} {good : α → Prop}

/-- The same where the entries have no argument. -/
theorem recur {step : (Unit → Parser α) → Parser α}
    (h : ∀ again, Places spans good (again ()) → Places spans good (step again)) :
    Places spans good (Parser.recur (fun again _ => step again) ()) := fun _ hc =>
  PlacesAt.recur (I := fun _ _ => True)
    (R := fun c stop a => Laid c.previous.stop (spans a) stop ∧ good a)
    (fun again hagain _ c hc _ => h again (fun d hd => hagain () d hd trivial) c hc) hc trivial

end Places

end Parser

end Contracts
