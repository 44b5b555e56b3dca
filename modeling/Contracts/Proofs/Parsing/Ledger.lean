import Contracts.Proofs.Parsing.Consumption

/-! What every error is charged to. A run consumes tokens and reports errors, each of them at
the next token or at one that it has just consumed (`Cursor.Stride`). A ledger
(`Cursor.Ledger`) keeps the balance of a run: how many of the consumed tokens no error has been
charged to, and how many errors there are for the placeholders that were left. Parsers are run
step by step from a cursor (`Parser.RunsAt`); each way to compose them has a rule. -/

namespace Contracts

/-- Faults for which a consumed word is left behind as a placeholder. A reserved name is one
only where words are reserved. -/
def SyntaxFault.isSlip (on : Bool) : SyntaxFault → Bool
  | reservedName _ => on
  | unknownSpecWord _ => true
  | argumentsRequired _ => true
  | _ => false

namespace Cursor

/-! ### Strides -/

/-- One step of a run: over a token, over a token at which a slip is reported, or, in a run
that recovers, to a report at the next token. -/
inductive Stride (recovers : Bool) : Cursor → Cursor → Prop
  | advance {c : Cursor} (more : c.kind ≠ .endOfText) : Stride recovers c c.advance
  | slip {c : Cursor} {fault : SyntaxFault} (more : c.kind ≠ .endOfText)
    (slip : fault.isSlip c.reserving = true) :
    Stride recovers c (c.advance.report ⟨fault, c.span⟩)
  | failure (c : Cursor) (fault : SyntaxFault) (h : recovers = true) :
    Stride recovers c (c.report ⟨fault, c.span⟩)

/-- Any number of steps. -/
def Strides (recovers : Bool) : Cursor → Cursor → Prop := Relation.ReflTransGen (Stride recovers)

variable {r : Bool} {b c d : Cursor}

theorem Strides.refl (c : Cursor) : Strides r c c := Relation.ReflTransGen.refl

theorem Strides.trans {e : Cursor} (h : Strides r c d) (k : Strides r d e) : Strides r c e :=
  Relation.ReflTransGen.trans h k

/-- What holds of every step holds of every run. -/
theorem Strides.lift {R : Cursor → Cursor → Prop} (refl : ∀ c, R c c)
    (trans : ∀ {c d e}, R c d → R d e → R c e) (step : ∀ {c d}, Stride r c d → R c d)
    (h : Strides r c d) : R c d := by
  induction h with
  | refl => exact refl c
  | tail _ hstep ih => exact trans ih (step hstep)

theorem Strides.walks (h : Strides r c d) : c.Walks anyKind d := by
  refine h.lift .refl .trans fun step => ?_
  cases step with
  | advance more => exact walks_advance fun _ => rfl
  | slip more slip => exact (walks_advance fun _ => rfl).trans (walks_report _ _)
  | failure fault h => exact walks_report _ _

theorem Strides.passes (h : Strides r c d) : c.Passes d := h.walks.passes

theorem Strides.widen (h : Strides false c d) : Strides r c d := by
  refine h.lift .refl .trans fun step => ?_
  cases step with
  | advance more => exact .single (.advance more)
  | slip more slip => exact .single (.slip more slip)
  | failure fault h => nomatch h

theorem SyntaxFault.isSlip_mono {fault : SyntaxFault} (h : fault.isSlip false = true) (on : Bool) :
    fault.isSlip on = true := by
  cases fault <;> first | rfl | nomatch h

/-- A run that reserves no words can be made in each mode. -/
theorem Strides.inMode (h : Strides r c d) (off : c.reserving = false) (on : Bool) :
    Strides r (c.inMode on) (d.inMode on) := by
  suffices c.reserving = false → d.reserving = false ∧ Strides r (c.inMode on) (d.inMode on) from
    (this off).2
  refine h.lift (R := fun c d => c.reserving = false →
    d.reserving = false ∧ Strides r (c.inMode on) (d.inMode on)) (fun c off => ⟨off, .refl _⟩)
    (fun hcd hde off => ?_) ?_
  · obtain ⟨off', first⟩ := hcd off
    obtain ⟨off'', second⟩ := hde off'
    exact ⟨off'', first.trans second⟩
  · intro x y step off
    cases step with
    | advance more =>
      rw [← advance_inMode]
      exact ⟨by rwa [advance_reserving], .single (.advance more)⟩
    | @slip fault more slip =>
      rw [off] at slip
      refine ⟨by rwa [report, advance_reserving], .single ?_⟩
      have run : Stride r (x.inMode on) ((x.inMode on).advance.report ⟨fault, x.span⟩) :=
        .slip more (SyntaxFault.isSlip_mono slip on)
      rwa [advance_inMode] at run
    | failure fault h => exact ⟨off, .single (.failure (Cursor.inMode on _) fault h)⟩

/-! ### The balance -/

/-- The number of errors and of tokens that are left. -/
def load (c : Cursor) : Nat := c.errors.length + c.rest.length

/-- Between two cursors so many tokens were consumed that no error was charged to, and so many
errors were reported. A balance below zero stands for errors that are still to be charged. -/
structure Ledger (r : Bool) (b : Cursor) (balance : Int) (reported : Nat) (c : Cursor) : Prop where
  strides : Strides r b c
  spared : c.load + balance ≤ b.load
  reported : b.errors.length + reported ≤ c.errors.length

variable {k : Int} {n : Nat}

theorem Ledger.refl (c : Cursor) : Ledger r c 0 0 c := ⟨.refl c, by omega, by omega⟩

theorem Ledger.mono {k' : Int} {n' : Nat} (h : Ledger r b k n c) (hk : k' ≤ k) (hn : n' ≤ n) :
    Ledger r b k' n' c := by
  have spared := h.spared
  have reported := h.reported
  exact ⟨h.strides, by omega, by omega⟩

/-- What was spared is not needed. -/
theorem Ledger.settle (h : Ledger r b k n c) (hk : 0 ≤ k) : Ledger r b 0 0 c :=
  h.mono hk n.zero_le

theorem Ledger.trans {j : Int} {m : Nat} (h : Ledger r b j m c) (h' : Ledger r c k n d) :
    Ledger r b (j + k) (m + n) d := by
  have first := h.spared
  have second := h'.spared
  have reported := h.reported
  have reported' := h'.reported
  exact ⟨h.strides.trans h'.strides, by omega, by omega⟩

theorem Ledger.widen (h : Ledger false b k n c) : Ledger r b k n c :=
  ⟨h.strides.widen, h.spared, h.reported⟩

theorem Ledger.reserving (h : Ledger r b k n c) : c.reserving = b.reserving :=
  h.strides.passes.reserving

theorem load_advance (more : c.kind ≠ .endOfText) : c.advance.load + 1 = c.load := by
  have tokens := congrArg List.length (rest_advance more)
  rw [List.length_cons] at tokens
  rw [load, load, advance_errors]
  omega

theorem length_report (e : SyntaxError) (c : Cursor) :
    (c.report e).errors.length = c.errors.length + 1 := List.length_append

theorem load_report (e : SyntaxError) (c : Cursor) : (c.report e).load = c.load + 1 := by
  have tokens : (c.report e).rest = c.rest := rfl
  rw [load, load, length_report, tokens]
  omega

theorem Ledger.advance (h : Ledger r b k n c) (more : c.kind ≠ .endOfText) :
    Ledger r b (k + 1) n c.advance := by
  have consumed := load_advance more
  have reported := h.reported
  have step : Ledger r c 1 0 c.advance :=
    ⟨.single (.advance more), by omega, by rw [advance_errors]; omega⟩
  exact h.trans step

theorem Ledger.report (h : Ledger true b k n c) (fault : SyntaxFault) :
    Ledger true b (k - 1) (n + 1) (c.report ⟨fault, c.span⟩) := by
  have charged := load_report ⟨fault, c.span⟩ c
  have step : Ledger true c (-1) 1 (c.report ⟨fault, c.span⟩) :=
    ⟨.single (.failure c fault rfl), by omega, Nat.le_of_eq (length_report _ _).symm⟩
  exact h.trans step

/-- A slip is charged to the token at which it is reported. -/
theorem Ledger.slip (h : Ledger r b k n c) (more : c.kind ≠ .endOfText) {fault : SyntaxFault}
    (slip : fault.isSlip c.reserving = true) :
    Ledger r b k (n + 1) (c.advance.report ⟨fault, c.span⟩) := by
  have consumed := load_advance more
  have charged := load_report ⟨fault, c.span⟩ c.advance
  have step : Ledger r c 0 1 (c.advance.report ⟨fault, c.span⟩) :=
    ⟨.single (.slip more slip), by omega, Nat.le_of_eq (by rw [length_report, advance_errors])⟩
  exact (h.trans step).mono (by omega) (Nat.le_refl _)

theorem Ledger.skip (h : Ledger r b k n c) (m : Nat) : Ledger r b k n (c.skip m) := by
  induction m generalizing c with
  | zero => exact h
  | succ m ih =>
    rw [Cursor.skip]
    by_cases hend : c.kind = .endOfText
    · rw [advance_of_end hend]
      exact ih h
    · exact ih ((h.advance hend).mono (by omega) (Nat.le_refl _))

theorem Ledger.skip_pos {m : Nat} (h : Ledger r b k n c) (more : c.kind ≠ .endOfText)
    (hm : 0 < m) : Ledger r b (k + 1) n (c.skip m) := by
  obtain ⟨m, rfl⟩ := Nat.exists_eq_succ_of_ne_zero (Nat.ne_of_gt hm)
  exact (h.advance more).skip m

/-- A run that reserves no words, made within one that may. -/
theorem Ledger.inMode {j : Int} {m : Nat} (h : Ledger r b j m c)
    (h' : Ledger r (c.inMode false) k n d) :
    Ledger r b (j + k) (m + n) (d.inMode c.reserving) :=
  h.trans ⟨h'.strides.inMode rfl c.reserving, h'.spared, h'.reported⟩

/-- The balance between statements. Where the statements end, one error may still be
charged to the brace that opened them. -/
def Due (b : Cursor) (n : Nat) (c : Cursor) : Prop :=
  Ledger true b 0 n c ∨ c.kind.Closes ∧ Ledger true b (-1) n c

theorem Due.ledger (h : Due b n c) : Ledger true b (-1) n c :=
  h.elim (fun h => h.mono (by omega) (Nat.le_refl n)) And.right

theorem Due.open (h : Due b n c) (goes : ¬c.kind.Closes) : Ledger true b 0 n c :=
  h.resolve_right fun closed => goes closed.1

/-- Nothing was consumed, or a token was that no error is charged to yet. -/
def Blames (c d : Cursor) : Prop := d = c ∨ Ledger true c 1 0 d

theorem Ledger.blames (h : Ledger true b 1 n c) (k : Blames c d) : Blames b d := by
  rcases k with rfl | k
  · exact .inr (h.mono (Int.le_refl 1) n.zero_le)
  · exact .inr ((h.trans k).mono (by omega) (Nat.zero_le _))

theorem terminatorDistance_of_closes (h : c.kind.Closes) : terminatorDistance c.rest = 0 := by
  obtain ⟨rest, previous, errors, reserving⟩ := c
  cases rest with
  | nil => rfl
  | cons t ts =>
    change t.kind.Closes at h
    rcases h with h | h <;> rw [terminatorDistance, h]

/-- A report before what is skipped through its terminator is charged to that, if there is
anything to skip. -/
theorem Ledger.due_skip (h : Ledger true b 0 n c) (fault : SyntaxFault) :
    Due b (n + 1) ((c.report ⟨fault, c.span⟩).skip (terminatorDistance c.rest)) := by
  have reported := h.report fault
  by_cases closed : c.kind.Closes
  · rw [terminatorDistance_of_closes closed]
    exact .inr ⟨closed, reported⟩
  · have more : c.kind ≠ .endOfText := fun hk => closed (.inr hk)
    exact .inl (reported.skip_pos more (terminatorDistance_pos closed))

end Cursor

namespace Parser

open Cursor

variable {α β γ ξ : Type}

/-! ### Runs -/

/-- From this cursor the parser succeeds with a result and a cursor as told, or it fails at the
next token of a cursor as told. -/
structure RunsAt (c : Cursor) (ok : α → Cursor → Prop) (fail : Cursor → Prop) (p : Parser α) :
    Prop where
  ok : ∀ a d, p c = .ok a d → ok a d
  error : ∀ e d, p c = .error e d → e.span = d.span ∧ fail d

namespace RunsAt

variable {c d : Cursor} {ok : α → Cursor → Prop} {ok' : β → Cursor → Prop}
  {fail fail' : Cursor → Prop} {p q : Parser α}

theorem of_ok {a : α} (hp : p c = .ok a d) (h : ok a d) : RunsAt c ok fail p := by
  refine ⟨fun b d' hb => ?_, fun e d' he => ?_⟩
  · rw [hp] at hb
    injection hb with hb hd
    exact hb ▸ hd ▸ h
  · rw [hp] at he
    nomatch he

/-- A parser that fails at the next token, without a step. -/
theorem of_error {fault : SyntaxFault} (hp : p c = .error ⟨fault, c.span⟩ c) (h : fail c) :
    RunsAt c ok fail p := by
  refine ⟨fun b d hb => ?_, fun e d he => ?_⟩
  · rw [hp] at hb
    nomatch hb
  · rw [hp] at he
    injection he with he hd
    exact he ▸ hd ▸ ⟨rfl, h⟩

theorem congr (hpq : p c = q c) (h : RunsAt c ok fail q) : RunsAt c ok fail p :=
  ⟨fun a d ha => h.ok a d (hpq ▸ ha), fun e d he => h.error e d (hpq ▸ he)⟩

theorem mono {ok₁ : α → Cursor → Prop} (h : RunsAt c ok fail p) (hok : ∀ a d, ok a d → ok₁ a d)
    (hfail : ∀ d, fail d → fail' d) : RunsAt c ok₁ fail' p :=
  ⟨fun a d ha => hok a d (h.ok a d ha),
    fun e d he => ⟨(h.error e d he).1, hfail d (h.error e d he).2⟩⟩

/-- What comes first is known. -/
theorem after {a : α} {f : α → Parser β} (hp : p c = .ok a d) (h : RunsAt d ok' fail (f a)) :
    RunsAt c ok' fail (p >>= f) := by
  have run : (p >>= f) c = f a d := by rw [bind_apply, hp]
  exact ⟨fun b d' hb => h.ok b d' (run ▸ hb), fun e d' he => h.error e d' (run ▸ he)⟩

theorem bind {f : α → Parser β} (hp : RunsAt c ok fail p) (hfail : ∀ d, fail d → fail' d)
    (hf : ∀ a d, ok a d → RunsAt d ok' fail' (f a)) : RunsAt c ok' fail' (p >>= f) := by
  cases hrun : p c with
  | ok a d => exact after hrun (hf a d (hp.ok a d hrun))
  | error e d =>
    obtain ⟨place, hd⟩ := hp.error e d hrun
    have run : (p >>= f) c = .error e d := by rw [bind_apply, hrun]
    refine ⟨fun b d' hb => ?_, fun e' d' he => ?_⟩
    · rw [run] at hb
      nomatch hb
    · rw [run] at he
      injection he with he hd'
      exact he ▸ hd' ▸ ⟨place, hfail d hd⟩

theorem pure {a : α} (h : ok a c) : RunsAt c ok fail (Pure.pure a) := of_ok rfl h

theorem failHere {fault : SyntaxFault} (h : fail c) : RunsAt c ok fail (Parser.failHere fault) :=
  of_error rfl h

/-! ### Single tokens -/

theorem expectSymbol {s : Symbol} {f : Token → Parser β} (stop : fail c)
    (go : c.kind = .symbol s → RunsAt c.advance ok' fail (f c.current)) :
    RunsAt c ok' fail (Parser.expectSymbol s >>= f) := by
  by_cases hk : c.kind = .symbol s
  · exact after (by rw [Parser.expectSymbol, expect_apply, if_pos hk]) (go hk)
  · exact of_error (by rw [bind_apply, Parser.expectSymbol, expect_apply, if_neg hk]) stop

/-- Whatever ends with a terminator. -/
theorem terminated {f : Nat → α} (stop : fail c)
    (go : c.kind = .symbol .semicolon → ok (f c.advance.previous.stop) c.advance) :
    RunsAt c ok fail (do
      let _ ← Parser.expectSymbol .semicolon
      return f (← previousEnd)) :=
  expectSymbol stop fun hk => after rfl (pure (go hk))

theorem accept {s : Symbol} {f : Bool → Parser β}
    (found : c.kind = .symbol s → RunsAt c.advance ok' fail (f true))
    (other : RunsAt c ok' fail (f false)) : RunsAt c ok' fail (Parser.accept s >>= f) := by
  by_cases hk : c.kind = .symbol s
  · exact after (by rw [accept_apply, if_pos hk]) (found hk)
  · exact after (by rw [accept_apply, if_neg hk]) other

theorem nameOr {fault : TokenKind → SyntaxFault} {f : Name → Parser β} (stop : fail c)
    (go : ∀ word, c.kind = .identifier word → RunsAt c.advance ok' fail (f ⟨word, c.span⟩)) :
    RunsAt c ok' fail (Parser.nameOr fault >>= f) := by
  cases hk : c.kind with
  | identifier word => exact after (by rw [nameOr_apply, hk]) (go word hk)
  | _ => exact of_error (by rw [bind_apply, nameOr_apply, hk]) stop

/-! ### Failure and mode -/

/-- A failure becomes a result, at the next token still. -/
theorem outcome (h : RunsAt c ok fail p) :
    RunsAt c (fun r d => match r with
      | .ok a => ok a d
      | .error e => e.span = d.span ∧ fail d) fail' (Parser.outcome p) := by
  cases hrun : p c with
  | ok a d => exact of_ok (a := .ok a) (by rw [Parser.outcome, hrun]) (h.ok a d hrun)
  | error e d => exact of_ok (a := .error e) (by rw [Parser.outcome, hrun]) (h.error e d hrun)

theorem withReserving {on : Bool}
    (h : RunsAt (c.inMode on) (fun a d => ok a (d.inMode c.reserving))
      (fun d => fail (d.inMode c.reserving)) p) : RunsAt c ok fail (Parser.withReserving on p) := by
  have same := Steady.withReserving_apply on p c
  cases hrun : p (c.inMode on) with
  | ok a d =>
    rw [hrun] at same
    exact of_ok same (h.ok a d hrun)
  | error e d =>
    rw [hrun] at same
    obtain ⟨place, hd⟩ := h.error e d hrun
    refine ⟨fun b d' hb => ?_, fun e' d' he => ?_⟩
    · rw [same] at hb
      nomatch hb
    · rw [same] at he
      injection he with he hd'
      exact he ▸ hd' ▸ ⟨place, hd⟩

/-! ### Repetition -/

/-- A repetition runs as told when one entry does, given that the entries behind it do. What is
told may depend on what the entry finds. -/
theorem recur (I : ξ → γ → Cursor → Prop) (ok : ξ → α → Cursor → Prop) (fail : ξ → Cursor → Prop)
    {step : (γ → Parser α) → γ → Parser α} (stuck : ∀ x a c, I x a c → fail x c)
    (h : ∀ again, (∀ x a c, I x a c → RunsAt c (ok x) (fail x) (again a)) →
      ∀ x a c, I x a c → RunsAt c (ok x) (fail x) (step again a)) {x : ξ} {a : γ} {c : Cursor}
    (hc : I x a c) : RunsAt c (ok x) (fail x) (Parser.recur step a) :=
  recur_induction (M := fun a c p => ∀ x, I x a c → RunsAt c (ok x) (fail x) p)
    (fun hpq hq x hx => congr hpq (hq x hx)) (fun a c x hx => failHere (stuck x a c hx))
    (fun again hagain a c x hx => h again (fun x a c hx => hagain a c x hx) x a c hx) a c x hc

/-- A repetition that is told the same at each entry. -/
theorem loop {I : γ → Cursor → Prop} {step : (γ → Parser α) → γ → Parser α}
    (stuck : ∀ a c, I a c → fail c)
    (h : ∀ again, (∀ a c, I a c → RunsAt c ok fail (again a)) →
      ∀ a c, I a c → RunsAt c ok fail (step again a)) {a : γ} (hc : I a c) :
    RunsAt c ok fail (Parser.recur step a) :=
  recur (fun (_ : Unit) => I) (fun _ => ok) (fun _ => fail) (fun _ => stuck)
    (fun again hagain _ => h again (hagain ())) (x := ()) hc

end RunsAt

/-! ### Charges -/

/-- Whatever the parser does, every error is charged to a token that it consumed, and a result
comes with an error for each of its placeholders. The property of results may depend on the
mode. -/
def Charges (r : Bool) (weight : α → Nat) (good : Bool → α → Prop) (p : Parser α) : Prop :=
  ∀ c, RunsAt c (fun a d => Ledger r c 0 (weight a) d ∧ good c.reserving a) (Ledger r c 0 0) p

namespace Charges

variable {r : Bool} {weight : α → Nat} {good : Bool → α → Prop} {p : Parser α} {b c : Cursor}
  {k : Int} {n : Nat} {ok : β → Cursor → Prop} {fail : Cursor → Prop}

theorem widen (h : Charges false weight good p) : Charges r weight good p := fun c =>
  (h c).mono (fun _ _ hd => ⟨hd.1.widen, hd.2⟩) fun _ => Ledger.widen

/-- The same behind a run that has a balance. -/
theorem behind (h : Charges r weight good p) (hc : Ledger r b k n c) :
    RunsAt c (fun a d => Ledger r b k (n + weight a) d ∧ good b.reserving a) (Ledger r b k n) p :=
  (h c).mono
    (fun _ _ hd => ⟨(hc.trans hd.1).mono (by omega) (Nat.le_refl _), hc.reserving ▸ hd.2⟩)
    fun _ hd => (hc.trans hd).mono (by omega) (Nat.le_refl _)

/-- What is made of a result keeps its placeholders. -/
theorem map {weight' : β → Nat} {good' : Bool → β → Prop} {f : α → β}
    (h : Charges r weight good p) (hw : ∀ a, weight' (f a) = weight a)
    (hg : ∀ on a, good on a → good' on (f a)) :
    Charges r weight' good' (p >>= fun a => pure (f a)) := fun c =>
  (h c).bind (fun _ hd => hd) fun a _ hd => .pure ⟨hw a ▸ hd.1, hg _ a hd.2⟩

/-- Where no words are reserved, nothing is known of names. -/
theorem withReserving (h : Charges false weight good p) :
    Charges false weight (fun _ _ => True) (withReserving false p) := fun c =>
  .withReserving ((h (c.inMode false)).mono
    (fun _ _ hd => ⟨((Ledger.refl c).inMode hd.1).mono (by omega) (by omega), trivial⟩)
    fun _ hd => ((Ledger.refl c).inMode hd).mono (by omega) (by omega))

theorem bind {f : α → Parser β} (h : Charges r weight good p) (hc : Ledger r b k n c)
    (hfail : ∀ d, Ledger r b k n d → fail d)
    (hf : ∀ a d, Ledger r b k (n + weight a) d → good b.reserving a → RunsAt d ok fail (f a)) :
    RunsAt c ok fail (p >>= f) :=
  (h.behind hc).bind hfail fun a d hd => hf a d hd.1 hd.2

/-- The same where no placeholder was left before. -/
theorem first {f : α → Parser β} (h : Charges r weight good p) (hc : Ledger r b k 0 c)
    (hfail : ∀ d, Ledger r b k 0 d → fail d)
    (hf : ∀ a d, Ledger r b k (weight a) d → good b.reserving a → RunsAt d ok fail (f a)) :
    RunsAt c ok fail (p >>= f) :=
  h.bind hc hfail fun a d hd => hf a d (Nat.zero_add (weight a) ▸ hd)

/-- A repetition without an argument. -/
theorem recur {step : (Unit → Parser α) → Parser α}
    (h : ∀ again, Charges r weight good (again ()) → Charges r weight good (step again)) :
    Charges r weight good (Parser.recur (fun again _ => step again) ()) := fun _ =>
  RunsAt.recur (fun x _ d => x = d)
    (fun x a d => Ledger r x 0 (weight a) d ∧ good x.reserving a) (fun x d => Ledger r x 0 0 d)
    (fun x _ _ hx => hx ▸ .refl x)
    (fun again hagain x _ _ hx => hx ▸ h again (fun d => hagain d () d rfl) x) rfl

end Charges

end Parser

end Contracts
