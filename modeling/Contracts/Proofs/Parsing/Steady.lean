import Contracts.Proofs.Parsing.Sound
import Mathlib.Logic.Relation

/-! What every run of a parser does, also one that fails. A run is a sequence of steps, each
over one token or to one more error (`Cursor.Walks`); it does not depend on the errors that
were reported before it; and a result has the property that its parser promises. A parser
with these three is steady (`Parser.Steady`). Steadiness goes through `>>=`, through a change
of the mode and through repetition. -/

namespace Contracts

/-- Tokens that neither end statements, clauses and fields nor stand around bodies. -/
def TokenKind.isInner : TokenKind → Bool
  | symbol .semicolon => false
  | symbol .leftBrace => false
  | symbol .rightBrace => false
  | endOfText => false
  | _ => true

namespace Cursor

/-! ### Steps -/

/-- One step of reading: over a token of an admitted kind, which is never the one that ends
the text, or to one more error. -/
inductive Step (admitted : TokenKind → Bool) : Cursor → Cursor → Prop
  | advance {c : Cursor} (here : admitted c.kind = true) (more : c.kind ≠ .endOfText) :
    Step admitted c c.advance
  | report (c : Cursor) (e : SyntaxError) : Step admitted c (c.report e)

/-- Any number of steps. -/
def Walks (admitted : TokenKind → Bool) : Cursor → Cursor → Prop :=
  Relation.ReflTransGen (Step admitted)

/-- Every kind is admitted. -/
def anyKind : TokenKind → Bool := fun _ => true

variable {admitted : TokenKind → Bool} {c d e : Cursor}

theorem Walks.refl (c : Cursor) : Walks admitted c c := Relation.ReflTransGen.refl

theorem Walks.trans (h : Walks admitted c d) (k : Walks admitted d e) : Walks admitted c e :=
  Relation.ReflTransGen.trans h k

theorem walks_report (c : Cursor) (e : SyntaxError) : Walks admitted c (c.report e) :=
  .single (.report c e)

theorem walks_advance (h : c.kind ≠ .endOfText → admitted c.kind = true) :
    Walks admitted c c.advance := by
  by_cases hend : c.kind = .endOfText
  · exact (advance_of_end hend).symm ▸ .refl c
  · exact .single (.advance (h hend) hend)

theorem walks_skip (n : Nat) (c : Cursor) : Walks anyKind c (c.skip n) := by
  induction n generalizing c with
  | zero => exact .refl c
  | succ n ih => exact (walks_advance fun _ => rfl).trans (ih c.advance)

/-- What holds of every step holds of every walk. -/
theorem Walks.lift {R : Cursor → Cursor → Prop} (refl : ∀ c, R c c)
    (trans : ∀ {c d e}, R c d → R d e → R c e) (step : ∀ {c d}, Step admitted c d → R c d)
    (h : Walks admitted c d) : R c d := by
  induction h with
  | refl => exact refl c
  | tail _ hstep ih => exact trans ih (step hstep)

theorem Walks.widen (h : Walks admitted c d) : Walks anyKind c d := by
  refine h.lift .refl .trans fun step => ?_
  cases step with
  | advance here more => exact .single (.advance rfl more)
  | report e => exact walks_report _ e

/-- The position never decreases, errors are only added and the mode stays. -/
theorem Walks.passes (h : Walks admitted c d) : c.Passes d := by
  refine h.lift .refl .trans fun step => ?_
  cases step with
  | advance here more => exact passes_advance _
  | report e => exact passes_report e _

/-- The cursor in another mode. -/
def inMode (on : Bool) (c : Cursor) : Cursor := { c with reserving := on }

theorem advance_inMode (on : Bool) (c : Cursor) : (c.inMode on).advance = c.advance.inMode on := by
  obtain ⟨rest, previous, errors, reserving⟩ := c
  cases rest with
  | nil => rfl
  | cons t ts => by_cases h : t.kind = .endOfText <;> simp [advance, inMode, h]

/-- The same walk can be taken in each mode. -/
theorem Walks.inMode (on : Bool) (h : Walks admitted c d) :
    Walks admitted (c.inMode on) (d.inMode on) := by
  refine h.lift (R := fun c d => Walks admitted (c.inMode on) (d.inMode on)) (fun _ => .refl _)
    .trans fun step => ?_
  cases step with
  | advance here more =>
    rw [← advance_inMode]
    exact .single (.advance here more)
  | report e => exact walks_report (Cursor.inMode on _) e

/-! ### Earlier errors -/

/-- The cursor with these errors reported before all others. -/
def behind (es : List SyntaxError) (c : Cursor) : Cursor := { c with errors := es ++ c.errors }

theorem advance_behind (es : List SyntaxError) (c : Cursor) :
    (c.behind es).advance = c.advance.behind es := by
  obtain ⟨rest, previous, errors, reserving⟩ := c
  cases rest with
  | nil => rfl
  | cons t ts => by_cases h : t.kind = .endOfText <;> simp [advance, behind, h]

theorem skip_behind (n : Nat) (es : List SyntaxError) (c : Cursor) :
    (c.behind es).skip n = (c.skip n).behind es := by
  induction n generalizing c with
  | zero => rfl
  | succ n ih => rw [skip, advance_behind, ih, skip]

theorem report_behind (e : SyntaxError) (es : List SyntaxError) (c : Cursor) :
    (c.behind es).report e = (c.report e).behind es := by
  simp only [report, behind, List.append_assoc]

theorem inMode_behind (on : Bool) (es : List SyntaxError) (c : Cursor) :
    (c.behind es).inMode on = (c.inMode on).behind es := rfl

end Cursor

namespace Parser

open Cursor

variable {α β γ : Type} {admitted : TokenKind → Bool} {P : α → Prop} {Q : β → Prop}

/-- What a parser gives, with these errors reported before all others. -/
def resultBehind (es : List SyntaxError) :
    EStateM.Result SyntaxError Cursor α → EStateM.Result SyntaxError Cursor α
  | .ok a c => .ok a (c.behind es)
  | .error e c => .error e (c.behind es)

/-- From this cursor the parser takes steps, looks at no error that was reported before, and
gives only results that have the property. -/
structure SteadyAt (c : Cursor) (admitted : TokenKind → Bool) (P : α → Prop) (p : Parser α) :
    Prop where
  walks : c.Walks admitted (p.after c)
  blind : ∀ es, p (c.behind es) = resultBehind es (p c)
  result : ∀ a c', p c = .ok a c' → P a

def Steady (admitted : TokenKind → Bool) (P : α → Prop) (p : Parser α) : Prop :=
  ∀ c, SteadyAt c admitted P p

/-! ### Rules -/

theorem SteadyAt.of_ok {c d : Cursor} {p : Parser α} {a : α} (h : p c = .ok a d)
    (walks : c.Walks admitted d) (blind : ∀ es, p (c.behind es) = .ok a (d.behind es)) (ha : P a) :
    SteadyAt c admitted P p := by
  refine ⟨?_, fun es => ?_, fun b c' hb => ?_⟩
  · rw [after_of_ok h]
    exact walks
  · rw [blind, h, resultBehind]
  · rw [h] at hb
    injection hb with hb _
    exact hb ▸ ha

/-- A parser that fails without a step. -/
theorem SteadyAt.of_error {c : Cursor} {p : Parser α} {e : SyntaxError} (h : p c = .error e c)
    (blind : ∀ es, p (c.behind es) = .error e (c.behind es)) : SteadyAt c admitted P p := by
  refine ⟨?_, fun es => ?_, fun b c' hb => ?_⟩
  · rw [after_of_error h]
    exact .refl c
  · rw [blind, h, resultBehind]
  · rw [h] at hb
    nomatch hb

theorem SteadyAt.mono {c : Cursor} {R : α → Prop} {p : Parser α} (h : SteadyAt c admitted P p)
    (hR : ∀ a, P a → R a) : SteadyAt c admitted R p :=
  ⟨h.walks, h.blind, fun a c' ha => hR a (h.result a c' ha)⟩

theorem SteadyAt.bind {c : Cursor} {p : Parser α} {f : α → Parser β} (hp : SteadyAt c admitted P p)
    (hf : ∀ a d, P a → SteadyAt d admitted Q (f a)) : SteadyAt c admitted Q (p >>= f) := by
  cases h : p c with
  | error e d =>
    have hfail : (p >>= f) c = .error e d := by rw [bind_apply, h]
    refine ⟨?_, fun es => ?_, fun b c' hb => ?_⟩
    · rw [after_of_error hfail, ← after_of_error h]
      exact hp.walks
    · rw [bind_apply, hp.blind, h, hfail]
      rfl
    · rw [hfail] at hb
      nomatch hb
  | ok a d =>
    have hgo : (p >>= f) c = f a d := by rw [bind_apply, h]
    have hfa := hf a d (hp.result a d h)
    refine ⟨?_, fun es => ?_, fun b c' hb => hfa.result b c' (hgo ▸ hb)⟩
    · rw [after_bind_of_ok h]
      exact (after_of_ok h ▸ hp.walks).trans hfa.walks
    · rw [bind_apply, hp.blind, h, hgo]
      exact hfa.blind es

namespace Steady

theorem mono {R : α → Prop} {p : Parser α} (h : Steady admitted P p) (hR : ∀ a, P a → R a) :
    Steady admitted R p := fun c => (h c).mono hR

theorem widen {p : Parser α} (h : Steady admitted P p) : Steady anyKind P p := fun c =>
  ⟨(h c).walks.widen, (h c).blind, (h c).result⟩

theorem pure {a : α} (h : P a) : Steady admitted P (Pure.pure a) := fun c =>
  .of_ok rfl (.refl c) (fun _ => rfl) h

theorem bind {p : Parser α} {f : α → Parser β} (hp : Steady admitted P p)
    (hf : ∀ a, P a → Steady admitted Q (f a)) : Steady admitted Q (p >>= f) := fun c =>
  (hp c).bind fun a d ha => hf a ha d

theorem failHere (fault : SyntaxFault) : Steady admitted P (failHere fault) := fun _ =>
  .of_error rfl fun _ => rfl

end Steady

theorem SteadyAt.congr {c : Cursor} {p q : Parser α} (here : p c = q c)
    (blind : ∀ es, p (c.behind es) = q (c.behind es)) (h : SteadyAt c admitted P q) :
    SteadyAt c admitted P p := by
  refine ⟨?_, fun es => ?_, fun a c' ha => h.result a c' (here ▸ ha)⟩
  · rw [after, here]
    exact h.walks
  · rw [blind, here]
    exact h.blind es

/-- Looking ahead takes no step. -/
theorem SteadyAt.look {c : Cursor} {p : Parser α} {f : α → Parser β} {a : α} (hp : p c = .ok a c)
    (blind : ∀ es, p (c.behind es) = .ok a (c.behind es)) (h : SteadyAt c admitted Q (f a)) :
    SteadyAt c admitted Q (p >>= f) := by
  have hgo : (p >>= f) c = f a c := by rw [bind_apply, hp]
  refine ⟨?_, fun es => ?_, fun b c' hb => h.result b c' (hgo ▸ hb)⟩
  · rw [after_bind_of_ok hp]
    exact h.walks
  · rw [bind_apply, blind, hgo]
    exact h.blind es

namespace Steady

/-- Nothing has to be known of the first result. -/
theorem next {p : Parser α} {f : α → Parser β} (hp : Steady admitted P p)
    (hf : ∀ a, Steady admitted Q (f a)) : Steady admitted Q (p >>= f) := hp.bind fun a _ => hf a

theorem map {p : Parser α} {f : α → β} (hp : Steady admitted P p) (hf : ∀ a, P a → Q (f a)) :
    Steady admitted Q (f <$> p) := by
  rw [map_eq_pure_bind]
  exact hp.bind fun a ha => .pure (hf a ha)

/-! ### Basic parsers -/

theorem kind : Steady admitted (fun _ => True) kind := fun c =>
  .of_ok rfl (.refl c) (fun _ => rfl) trivial

theorem secondKind : Steady admitted (fun _ => True) secondKind := fun c =>
  .of_ok rfl (.refl c) (fun _ => rfl) trivial

theorem span : Steady admitted (fun _ => True) span := fun c =>
  .of_ok rfl (.refl c) (fun _ => rfl) trivial

theorem previousEnd : Steady admitted (fun _ => True) previousEnd := fun c =>
  .of_ok rfl (.refl c) (fun _ => rfl) trivial

theorem reserving : Steady admitted (fun _ => True) reserving := fun c =>
  .of_ok rfl (.refl c) (fun _ => rfl) trivial

theorem report (e : SyntaxError) : Steady admitted (fun _ => True) (report e) := fun c =>
  .of_ok rfl (walks_report c e) (fun es => by rw [Parser.report, report_behind]) trivial

theorem placeholder {P : Expr → Prop} {e : SyntaxError} (h : P (.missing e.span)) :
    Steady admitted P (placeholder e) := (report e).next fun _ => .pure h

end Steady

theorem steadyAt_advance {c : Cursor} (h : c.kind ≠ .endOfText → admitted c.kind = true) :
    SteadyAt c admitted (fun _ => True) advance :=
  .of_ok rfl (walks_advance h) (fun es => by rw [advance, advance_behind]; rfl) trivial

/-- The next token is known. -/
theorem SteadyAt.advance {c : Cursor} {k : TokenKind} (hk : c.kind = k)
    (h : admitted k = true) : SteadyAt c admitted (fun _ => True) advance :=
  steadyAt_advance fun _ => hk ▸ h

namespace Steady

theorem advance : Steady anyKind (fun _ => True) advance := fun _ => steadyAt_advance fun _ => rfl

theorem expect {k : TokenKind} (h : admitted k = true) :
    Steady admitted (fun _ => True) (expect k) := fun c => by
  refine .look (a := c.kind) rfl (fun _ => rfl) ?_
  split
  · next hk => exact .advance hk h
  · exact failHere _ c

theorem expectSymbol {s : Symbol} (h : admitted (.symbol s) = true) :
    Steady admitted (fun _ => True) (expectSymbol s) := expect h

theorem accept {s : Symbol} (h : admitted (.symbol s) = true) :
    Steady admitted (fun _ => True) (accept s) := fun c => by
  refine .look (a := c.kind) rfl (fun _ => rfl) ?_
  split
  · next hk => exact (SteadyAt.advance hk h).bind fun _ d _ => pure trivial d
  · exact pure trivial c

theorem nameOr (fault : TokenKind → SyntaxFault) :
    Steady TokenKind.isInner (fun _ => True) (nameOr fault) := fun c => by
  refine .look (a := c.kind) rfl (fun _ => rfl) ?_
  split
  · next hk => exact (SteadyAt.advance hk rfl).bind fun _ d _ => pure trivial d
  · exact failHere _ c

theorem expectName (role : NameRole) :
    Steady TokenKind.isInner (fun _ => True) (expectName role) := nameOr _

theorem typeName : Steady TokenKind.isInner (fun _ => True) typeName := nameOr _

/-! ### Recovery and mode -/

theorem skipThroughTerminator : Steady anyKind (fun _ => True) skipThroughTerminator := fun c =>
  .of_ok rfl (walks_skip _ c)
    (fun es => by rw [Parser.skipThroughTerminator, skip_behind]; rfl) trivial

theorem skipMember : Steady anyKind (fun _ => True) skipMember := fun c =>
  .of_ok rfl (walks_skip _ c) (fun es => by rw [Parser.skipMember, skip_behind]; rfl) trivial

theorem skipToClass : Steady anyKind (fun _ => True) skipToClass := fun c =>
  .of_ok rfl (walks_skip _ c) (fun es => by rw [Parser.skipToClass, skip_behind]; rfl) trivial

theorem outcome {p : Parser α} (h : Steady admitted P p) :
    Steady admitted (fun r => ∀ a, r = .ok a → P a) (outcome p) := fun c => by
  cases hp : p c with
  | ok a d =>
    have walks := after_of_ok hp ▸ (h c).walks
    refine .of_ok (by rw [Parser.outcome, hp]) walks (fun es => ?_) fun b hb => ?_
    · rw [Parser.outcome, (h c).blind, hp]
      rfl
    · injection hb with hb
      exact hb ▸ (h c).result a d hp
  | error e d =>
    have walks := after_of_error hp ▸ (h c).walks
    refine .of_ok (a := .error e) (by rw [Parser.outcome, hp]) walks (fun es => ?_) fun b hb => ?_
    · rw [Parser.outcome, (h c).blind, hp]
      rfl
    · cases hb

theorem withReserving_apply (on : Bool) (p : Parser α) (c : Cursor) :
    Parser.withReserving on p c =
      match p (c.inMode on) with
      | .ok a d => .ok a (d.inMode c.reserving)
      | .error e d => .error e (d.inMode c.reserving) := rfl

theorem withReserving {p : Parser α} (on : Bool) (h : Steady admitted P p) :
    Steady admitted P (withReserving on p) := fun c => by
  have hp := h (c.inMode on)
  have walks : c.Walks admitted ((p.after (c.inMode on)).inMode c.reserving) :=
    hp.walks.inMode c.reserving
  refine ⟨?_, fun es => ?_, fun a c' ha => ?_⟩
  · rw [after] at walks ⊢
    rw [withReserving_apply]
    cases hok : p (c.inMode on) <;> rw [hok] at walks <;> exact walks
  · rw [withReserving_apply, withReserving_apply, inMode_behind, hp.blind]
    cases p (c.inMode on) <;> rfl
  · rw [withReserving_apply] at ha
    split at ha
    · next a' d hok =>
      injection ha with ha _
      exact ha ▸ hp.result a' d hok
    · cases ha

/-! ### Repetition -/

/-- What is entered only behind a cursor has to be steady only there. -/
theorem beyond {c : Cursor} {r : γ → Parser α} {b : γ}
    (h : ∀ d, d.rest.length < c.rest.length → SteadyAt d admitted P (r b)) :
    Steady admitted P (beyond c r b) := fun d => by
  -- Errors do not change the number of tokens that are left.
  by_cases hlt : d.rest.length < c.rest.length
  · have enter (es : List SyntaxError) : Parser.beyond c r b (d.behind es) = r b (d.behind es) :=
      if_pos hlt
    exact .congr (enter []) enter (h d hlt)
  · have refuse (es : List SyntaxError) : Parser.beyond c r b (d.behind es) =
        Parser.failHere .noProgress (d.behind es) := if_neg hlt
    exact .congr (refuse []) refuse (failHere _ d)

/-- A repetition is steady when one entry is, given that the entries behind it are. -/
theorem recur {I : γ → Prop} {step : (γ → Parser α) → γ → Parser α}
    (h : ∀ again, (∀ b, I b → Steady admitted P (again b)) →
      ∀ b, I b → Steady admitted P (step again b)) {b : γ} (hb : I b) :
    Steady admitted P (recur step b) := by
  -- The induction is on the number of tokens left, which falls from entry to entry.
  suffices ∀ n b c, I b → c.rest.length < n → SteadyAt c admitted P (Parser.recur step b) from
    fun c => this _ b c hb (Nat.lt_succ_self _)
  intro n
  induction n with
  | zero => intro b c _ hn; omega
  | succ n ih =>
    intro b c hb hn
    have entries (b' : γ) (hb' : I b') :
        Steady admitted P (Parser.beyond c (Parser.recur step) b') :=
      .beyond fun d hlt => ih b' d hb' (by omega)
    exact .congr (recur_eq step b c) (fun es => recur_eq step b (c.behind es))
      (h _ entries b hb c)

theorem recur_all {step : (γ → Parser α) → γ → Parser α}
    (h : ∀ again, (∀ b, Steady admitted P (again b)) → ∀ b, Steady admitted P (step again b))
    (b : γ) : Steady admitted P (Parser.recur step b) :=
  recur (I := fun _ => True) (fun _ hagain b _ => h _ (fun b => hagain b trivial) b) trivial

end Steady

/-- The parser first moves over the next token and is steady behind it. -/
def Opens (P : α → Prop) (p : Parser α) : Prop :=
  ∃ f : Token → Parser α, p = advance >>= f ∧ ∀ t, Steady anyKind P (f t)

theorem Opens.steady {p : Parser α} (h : Opens P p) : Steady anyKind P p := by
  obtain ⟨f, rfl, hf⟩ := h
  exact Steady.advance.next hf

end Parser

end Contracts
