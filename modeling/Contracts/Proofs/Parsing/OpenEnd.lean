import Contracts.Proofs.Parsing.Steady

/-! Reading without the token that ends a text. The cursor that lacks this token
(`Cursor.openEnd`) has the same kinds ahead, since the end of the tokens reads as the end of the
text, but a place at the end is that of the token before. Two parsers are in step
(`Parser.InStep`) when the second one, from the cursor without the token, gives the same result
as the first one, or the same failure, with the errors at the end of the text moved to the last
token (`TextEnd.relocate`). Each way to compose parsers has a rule; only where a parser moves or
takes a span, a token has to be left. -/

namespace Contracts

/-- Where the token stands that ends a text, and where the token before it. -/
structure TextEnd where
  place : Span
  last : Span

namespace TextEnd

/-- Moves an error at the end of the text to the last token. -/
def relocate (z : TextEnd) (e : SyntaxError) : SyntaxError :=
  if e.span = z.place then ⟨e.fault, z.last⟩ else e

theorem relocate_of_ne {z : TextEnd} {e : SyntaxError} (h : e.span ≠ z.place) :
    z.relocate e = e := if_neg h

/-- Where an error goes is told by its span. -/
theorem relocate_fault (z : TextEnd) (fault : SyntaxFault) (e : SyntaxError) :
    z.relocate ⟨fault, e.span⟩ = ⟨fault, (z.relocate e).span⟩ := by
  simp only [relocate]
  split <;> rfl

/-- Tokens that the end of the text closes, behind a token at a place; no other token is of its
kind or at its place. -/
inductive Closed (z : TextEnd) : Span → List Token → Prop
  | done {previous : Span} (last : previous = z.last) :
    Closed z previous [⟨.endOfText, z.place⟩]
  | more {previous : Span} {t : Token} {ts : List Token} (kind : t.kind ≠ .endOfText)
    (apart : t.span ≠ z.place) (rest : Closed z t.span ts) : Closed z previous (t :: ts)

/-- The cursor stands in a text with this end. -/
def Ends (z : TextEnd) (c : Cursor) : Prop := z.Closed c.previous c.rest

end TextEnd

open TextEnd

namespace Cursor

/-- The cursor without the token that ends the text. -/
def openEnd (z : TextEnd) (c : Cursor) : Cursor :=
  { c with rest := c.rest.dropLast, errors := c.errors.map z.relocate }

end Cursor

namespace TextEnd

variable {z : TextEnd} {c d : Cursor}

theorem Closed.ne_nil {previous : Span} {ts : List Token} (h : z.Closed previous ts) : ts ≠ [] := by
  cases h <;> exact List.cons_ne_nil _ _

theorem Closed.dropLast_cons {t : Token} {ts : List Token} (h : z.Closed t.span ts) :
    (t :: ts).dropLast = t :: ts.dropLast := List.dropLast_cons_of_ne_nil h.ne_nil

/-! ### Looking ahead -/

theorem Ends.kind (h : z.Ends c) : (c.openEnd z).kind = c.kind := by
  obtain ⟨rest, previous, errors, reserving⟩ := c
  cases h with
  | done => rfl
  | more _ _ rest => rw [Cursor.openEnd, Cursor.kind, rest.dropLast_cons]; rfl

theorem Ends.secondKind (h : z.Ends c) : (c.openEnd z).secondKind = c.secondKind := by
  obtain ⟨rest, previous, errors, reserving⟩ := c
  cases h with
  | done => rfl
  | more _ _ rest =>
    rw [Cursor.openEnd, Cursor.secondKind, rest.dropLast_cons]
    cases rest with
    | done => rfl
    | more _ _ rest => rw [rest.dropLast_cons]; rfl

/-- Where a token is left, its place is that of no error at the end. -/
theorem Ends.span_ne (h : z.Ends c) (more : c.kind ≠ .endOfText) : c.span ≠ z.place := by
  obtain ⟨rest, previous, errors, reserving⟩ := c
  cases h with
  | done => exact absurd rfl more
  | more _ apart _ => exact apart

theorem Ends.span (h : z.Ends c) (more : c.kind ≠ .endOfText) : (c.openEnd z).span = c.span := by
  obtain ⟨rest, previous, errors, reserving⟩ := c
  cases h with
  | done => exact absurd rfl more
  | more _ _ rest => rw [Cursor.openEnd, Cursor.span, rest.dropLast_cons]; rfl

/-- An error at the next token is moved where the cursor without the end has its next token. -/
theorem Ends.relocate_here (h : z.Ends c) (fault : SyntaxFault) :
    z.relocate ⟨fault, c.span⟩ = ⟨fault, (c.openEnd z).span⟩ := by
  by_cases more : c.kind = .endOfText
  · obtain ⟨rest, previous, errors, reserving⟩ := c
    cases h with
    | done last => exact (if_pos rfl).trans (congrArg _ last.symm)
    | more kind _ _ => exact absurd more kind
  · rw [h.span more]
    exact relocate_of_ne (h.span_ne more)

/-! ### Moving -/

theorem Ends.advance (h : z.Ends c) : z.Ends c.advance := by
  obtain ⟨rest, previous, errors, reserving⟩ := c
  cases h with
  | done last => exact .done last
  | more kind _ rest => simpa only [Ends, Cursor.advance, if_neg kind] using rest

theorem Ends.openEnd_advance (h : z.Ends c) : (c.openEnd z).advance = c.advance.openEnd z := by
  obtain ⟨rest, previous, errors, reserving⟩ := c
  cases h with
  | done => rfl
  | more kind _ rest =>
    rw [Cursor.openEnd, Cursor.advance, rest.dropLast_cons, Cursor.advance]
    simp only [if_neg kind]
    rfl

theorem Ends.skip (h : z.Ends c) (n : Nat) : z.Ends (c.skip n) := by
  induction n generalizing c with
  | zero => exact h
  | succ n ih => exact ih h.advance

theorem Ends.openEnd_skip (h : z.Ends c) (n : Nat) :
    (c.openEnd z).skip n = (c.skip n).openEnd z := by
  induction n generalizing c with
  | zero => rfl
  | succ n ih => rw [Cursor.skip, h.openEnd_advance, ih h.advance, Cursor.skip]

theorem openEnd_report (e : SyntaxError) (c : Cursor) :
    (c.openEnd z).report (z.relocate e) = (c.report e).openEnd z := by
  simp only [Cursor.report, Cursor.openEnd, List.map_append, List.map_singleton]

/-- Both cursors have used up tokens when one has. -/
theorem Ends.length_lt_iff (hc : z.Ends c) (hd : z.Ends d) :
    (d.openEnd z).rest.length < (c.openEnd z).rest.length ↔ d.rest.length < c.rest.length := by
  have hcpos := List.length_pos_iff.2 hc.ne_nil
  have hdpos := List.length_pos_iff.2 hd.ne_nil
  simp only [Cursor.openEnd, List.length_dropLast]
  omega

/-! ### Distances -/

section

variable {previous : Span} {ts : List Token}

theorem Closed.terminatorDistance (h : z.Closed previous ts) :
    Cursor.terminatorDistance ts.dropLast = Cursor.terminatorDistance ts := by
  induction h with
  | done => rfl
  | more _ _ rest ih => rw [rest.dropLast_cons, Cursor.terminatorDistance, ih,
      Cursor.terminatorDistance]

theorem Closed.memberDistance (h : z.Closed previous ts) (depth : Nat) :
    Cursor.memberDistance depth ts.dropLast = Cursor.memberDistance depth ts := by
  induction h generalizing depth with
  | done => rfl
  | more _ _ rest ih => simp only [rest.dropLast_cons, Cursor.memberDistance, ih]

theorem Closed.classDistance (h : z.Closed previous ts) :
    Cursor.classDistance ts.dropLast = Cursor.classDistance ts := by
  induction h with
  | done => rfl
  | more _ _ rest ih => rw [rest.dropLast_cons, Cursor.classDistance, ih, Cursor.classDistance]

end

end TextEnd

namespace Parser

open Cursor

variable {α β γ : Type} {z : TextEnd}

/-- What a parser gives, seen without the token that ends the text. -/
def opened (z : TextEnd) :
    EStateM.Result SyntaxError Cursor α → EStateM.Result SyntaxError Cursor α
  | .ok a c => .ok a (c.openEnd z)
  | .error e c => .error (z.relocate e) (c.openEnd z)

/-- From this cursor the first parser stays in the text, and from the cursor without the end the
second one gives the same. -/
structure InStepAt (z : TextEnd) (c : Cursor) (p q : Parser α) : Prop where
  ends : z.Ends (p.after c)
  run : q (c.openEnd z) = opened z (p c)

def InStep (z : TextEnd) (p q : Parser α) : Prop := ∀ c, z.Ends c → InStepAt z c p q

/-! ### Rules -/

namespace InStepAt

variable {c d : Cursor} {p q : Parser α}

theorem of_ok {a : α} (hp : p c = .ok a d) (ends : z.Ends d)
    (hq : q (c.openEnd z) = .ok a (d.openEnd z)) : InStepAt z c p q :=
  ⟨by rwa [after_of_ok hp], by rw [hp, hq, opened]⟩

theorem of_error {e : SyntaxError} (hp : p c = .error e d) (ends : z.Ends d)
    (hq : q (c.openEnd z) = .error (z.relocate e) (d.openEnd z)) : InStepAt z c p q :=
  ⟨by rwa [after_of_error hp], by rw [hp, hq, opened]⟩

theorem congr {p' q' : Parser α} (hp : p c = p' c) (hq : q (c.openEnd z) = q' (c.openEnd z))
    (h : InStepAt z c p' q') : InStepAt z c p q := by
  refine ⟨?_, by rw [hp, hq, h.run]⟩
  rw [after, hp]
  exact h.ends

theorem bind {f f' : α → Parser β} (hp : InStepAt z c p q)
    (hf : ∀ a, InStep z (f a) (f' a)) : InStepAt z c (p >>= f) (q >>= f') := by
  have ends := hp.ends
  have run := hp.run
  cases hrun : p c with
  | error e d =>
    rw [after_of_error hrun] at ends
    refine .of_error (by rw [bind_apply, hrun]) ends ?_
    rw [bind_apply, run, hrun]
    rfl
  | ok a d =>
    rw [after_of_ok hrun] at ends
    have behind := hf a d ends
    refine ⟨by rw [after_bind_of_ok hrun]; exact behind.ends, ?_⟩
    rw [bind_apply, bind_apply, run, hrun]
    exact behind.run

/-- Looking ahead takes no step. -/
theorem look {f f' : α → Parser β} {a b : α} (hp : p c = .ok a c)
    (hq : q (c.openEnd z) = .ok b (c.openEnd z)) (hf : InStepAt z c (f a) (f' b)) :
    InStepAt z c (p >>= f) (q >>= f') := by
  refine ⟨by rw [after_bind_of_ok hp]; exact hf.ends, ?_⟩
  rw [bind_apply, bind_apply, hp, hq]
  exact hf.run

theorem kind {f f' : TokenKind → Parser α} (hc : z.Ends c)
    (hf : InStepAt z c (f c.kind) (f' c.kind)) :
    InStepAt z c (Parser.kind >>= f) (Parser.kind >>= f') :=
  .look rfl (by rw [Parser.kind, hc.kind]) hf

theorem secondKind {f f' : TokenKind → Parser α} (hc : z.Ends c)
    (hf : InStepAt z c (f c.secondKind) (f' c.secondKind)) :
    InStepAt z c (Parser.secondKind >>= f) (Parser.secondKind >>= f') :=
  .look rfl (by rw [Parser.secondKind, hc.secondKind]) hf

theorem clauseKeyword? {registry : Registry} {f f' : Option Descriptor → Parser α}
    (hc : z.Ends c)
    (hf : InStepAt z c (f (c.kind.keyword? registry c.reserving))
      (f' (c.kind.keyword? registry c.reserving))) :
    InStepAt z c (Parser.clauseKeyword? registry >>= f)
      (Parser.clauseKeyword? registry >>= f') :=
  .look (clauseKeyword?_apply _ c) (by rw [clauseKeyword?_apply, hc.kind]; rfl) hf

theorem span {f f' : Span → Parser α} (hf : InStepAt z c (f c.span) (f' (c.openEnd z).span)) :
    InStepAt z c (Parser.span >>= f) (Parser.span >>= f') :=
  .look rfl rfl hf

/-- A token that is consumed is not at the end. -/
theorem advance {f f' : Token → Parser α} (hc : z.Ends c) (more : c.kind ≠ .endOfText)
    (hf : ∀ t, t.span ≠ z.place → InStep z (f t) (f' t)) :
    InStepAt z c (Parser.advance >>= f) (Parser.advance >>= f') := by
  have current : (c.openEnd z).current = c.current := by
    rw [Cursor.current, hc.kind, hc.span more, Cursor.current]
  have behind := hf c.current (hc.span_ne more) c.advance hc.advance
  refine ⟨behind.ends, ?_⟩
  rw [bind_apply, Parser.advance, current, hc.openEnd_advance]
  exact behind.run

theorem report {e : SyntaxError} {f f' : Unit → Parser α}
    (hf : InStepAt z (c.report e) (f ()) (f' ())) :
    InStepAt z c (Parser.report e >>= f) (Parser.report (z.relocate e) >>= f') := by
  refine ⟨hf.ends, ?_⟩
  rw [bind_apply, Parser.report, openEnd_report]
  exact hf.run

/-- A failure that is turned into a result is moved as one that is not. -/
theorem outcome {f f' : Except SyntaxError α → Parser β} (hp : InStepAt z c p q)
    (ok : ∀ a, InStep z (f (.ok a)) (f' (.ok a)))
    (error : ∀ e, InStep z (f (.error e)) (f' (.error (z.relocate e)))) :
    InStepAt z c (Parser.outcome p >>= f) (Parser.outcome q >>= f') := by
  have ends := hp.ends
  have run := hp.run
  cases hrun : p c with
  | ok a d =>
    rw [after_of_ok hrun] at ends
    have behind := ok a d ends
    have first : Parser.outcome p c = .ok (.ok a) d := by rw [Parser.outcome, hrun]
    refine ⟨by rw [after_bind_of_ok first]; exact behind.ends, ?_⟩
    rw [bind_apply, bind_apply, first, Parser.outcome, run, hrun]
    exact behind.run
  | error e d =>
    rw [after_of_error hrun] at ends
    have behind := error e d ends
    have first : Parser.outcome p c = .ok (.error e) d := by rw [Parser.outcome, hrun]
    refine ⟨by rw [after_bind_of_ok first]; exact behind.ends, ?_⟩
    rw [bind_apply, bind_apply, first, Parser.outcome, run, hrun]
    exact behind.run

end InStepAt

namespace InStep

variable {p q : Parser α}

theorem pure (a : α) : InStep z (Pure.pure a) (Pure.pure a) := fun _ hc => .of_ok rfl hc rfl

theorem bind {f f' : α → Parser β} (hp : InStep z p q) (hf : ∀ a, InStep z (f a) (f' a)) :
    InStep z (p >>= f) (q >>= f') := fun c hc => (hp c hc).bind hf

theorem map (f : α → β) (hp : InStep z p q) : InStep z (f <$> p) (f <$> q) := by
  rw [map_eq_pure_bind, map_eq_pure_bind]
  exact hp.bind fun a => .pure (f a)

/-- A failure at the next token is moved with the end. -/
theorem failHere (fault : SyntaxFault) :
    InStep z (Parser.failHere (α := α) fault) (Parser.failHere fault) := fun c hc =>
  .of_error rfl hc (by rw [Parser.failHere, hc.relocate_here])

/-! ### Basic parsers -/

theorem kind : InStep z kind kind := fun c hc => .of_ok rfl hc (by rw [Parser.kind, hc.kind])

theorem previousEnd : InStep z previousEnd previousEnd := fun _ hc => .of_ok rfl hc rfl

theorem reserving : InStep z reserving reserving := fun _ hc => .of_ok rfl hc rfl

theorem report (e : SyntaxError) : InStep z (report e) (report (z.relocate e)) := fun c hc =>
  .of_ok rfl hc (by rw [Parser.report, openEnd_report])

/-- An error at a token that was consumed stays where it is. -/
theorem placeholder {e : SyntaxError} (h : e.span ≠ z.place) :
    InStep z (placeholder e) (placeholder e) := by
  have reported := report (z := z) e
  rw [relocate_of_ne h] at reported
  exact reported.bind fun _ => .pure _

theorem expect {k : TokenKind} (hk : k ≠ .endOfText) : InStep z (expect k) (expect k) :=
  fun c hc => .kind hc <| by
    split
    · next h => exact .advance hc (h ▸ hk) fun t _ => .pure t
    · exact failHere _ c hc

theorem expectSymbol (s : Symbol) : InStep z (expectSymbol s) (expectSymbol s) := expect (by simp)

theorem accept (s : Symbol) : InStep z (accept s) (accept s) := fun c hc => .kind hc <| by
  split
  · next h => exact .advance hc (by simp [h]) fun _ _ => .pure true
  · exact pure false c hc

theorem nameOr (fault : TokenKind → SyntaxFault) : InStep z (nameOr fault) (nameOr fault) :=
  fun c hc => .kind hc <| by
    split
    · next h => exact .advance hc (by simp [h]) fun _ _ => .pure _
    · exact failHere _ c hc

theorem expectName (role : NameRole) : InStep z (expectName role) (expectName role) := nameOr _

theorem typeName : InStep z typeName typeName := nameOr _

/-! ### Recovery and mode -/

theorem skipThroughTerminator : InStep z skipThroughTerminator skipThroughTerminator :=
  fun c hc => .of_ok rfl (hc.skip _) (by
    rw [Parser.skipThroughTerminator, ← hc.openEnd_skip, ← hc.terminatorDistance]
    rfl)

theorem skipMember : InStep z skipMember skipMember := fun c hc =>
  .of_ok rfl (hc.skip _) (by
    rw [Parser.skipMember, ← hc.openEnd_skip, ← hc.memberDistance]
    rfl)

theorem skipToClass : InStep z skipToClass skipToClass := fun c hc =>
  .of_ok rfl (hc.skip _) (by
    rw [Parser.skipToClass, ← hc.openEnd_skip, ← hc.classDistance]
    rfl)

theorem withReserving (on : Bool) (hp : InStep z p q) :
    InStep z (withReserving on p) (withReserving on q) := fun c hc => by
  have inner := hp (c.inMode on) hc
  have ends := inner.ends
  have run : q ((c.openEnd z).inMode on) = opened z (p (c.inMode on)) := inner.run
  have first := Steady.withReserving_apply on p c
  have second := Steady.withReserving_apply on q (c.openEnd z)
  rw [run] at second
  cases hrun : p (c.inMode on) with
  | ok a d =>
    rw [hrun] at first second
    rw [after_of_ok hrun] at ends
    exact .of_ok first ends second
  | error e d =>
    rw [hrun] at first second
    rw [after_of_error hrun] at ends
    exact .of_error first ends second

/-! ### Repetition -/

/-- Repetitions are in step when entries are, given that the entries behind them are. -/
theorem recur {step step' : (γ → Parser α) → γ → Parser α}
    (h : ∀ again again', (∀ b, InStep z (again b) (again' b)) →
      ∀ b, InStep z (step again b) (step' again' b)) (b : γ) :
    InStep z (recur step b) (recur step' b) := fun c hc =>
  recur_induction_within (i := id) (M := fun _ c p q => InStepAt z c p q)
    (fun _ _ hc hd => hc.length_lt_iff hd) .congr (fun _ c hc => failHere _ c hc) h b c hc

/-- The same where the entries have no argument. -/
theorem recur_unit {step step' : (Unit → Parser α) → Parser α}
    (h : ∀ again again', InStep z (again ()) (again' ()) → InStep z (step again) (step' again')) :
    InStep z (Parser.recur (fun again _ => step again) ())
      (Parser.recur (fun again _ => step' again) ()) :=
  recur (fun _ _ hagain _ => h _ _ (hagain ())) ()

end InStep

end Parser

end Contracts
