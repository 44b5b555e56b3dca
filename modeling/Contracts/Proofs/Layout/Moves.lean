import Contracts.Proofs.Layout.Spans
import Contracts.Proofs.Parsing.Steady

/-! Parsers under a move. A move changes the offsets of a text, keeping their order, and takes
one registry for another. A parser mirrors another one (`Parser.Mirrors`) when, from a moved
cursor, it gives what the other one gives, moved, provided that the two registries agree on
the words that are left. Parsers look at spans only to compute further ones from their ends,
so every parser mirrors itself; each way to compose parsers has a rule. -/

namespace Contracts

/-- A change of offsets that keeps their order, and two registries. -/
structure Move where
  source : Registry
  target : Registry
  offset : Nat → Nat
  mono : Monotone offset

namespace Move

def span (m : Move) : Span → Span := Span.map m.offset

theorem span_union (m : Move) (s t : Span) : m.span (s.union t) = (m.span s).union (m.span t) :=
  Span.map_union m.mono s t

/-- The registries have the same entry for the word, if the token is one. -/
def Agrees (m : Move) (k : TokenKind) : Prop :=
  ∀ word, k = .identifier word ∨ k = .specWord word → m.source.get? word = m.target.get? word

theorem Agrees.keyword? {m : Move} {k : TokenKind} (h : m.Agrees k) (on : Bool) :
    k.keyword? m.target on = k.keyword? m.source on := by
  unfold TokenKind.keyword?
  split
  · next word => exact (h word (.inl rfl)).symm
  · rfl

/-- The registries have the same entries for the words that are left. -/
def Covers (m : Move) (c : Cursor) : Prop := ∀ t ∈ c.rest, m.Agrees t.kind

theorem Covers.passes {m : Move} {c d : Cursor} (h : m.Covers c) (hcd : c.Passes d) :
    m.Covers d := fun t ht => h t (hcd.rest.subset ht)

/-- At the end of a text there is no word. -/
theorem Covers.kind {m : Move} {c : Cursor} (h : m.Covers c) : m.Agrees c.kind := by
  by_cases hend : c.kind = .endOfText
  · rintro word (hk | hk) <;> rw [hend] at hk <;> nomatch hk
  · exact h c.current (by rw [Cursor.rest_advance hend]; exact List.mem_cons_self)

end Move

/-! ### Cursors -/

def Token.mapSpans (f : Span → Span) (t : Token) : Token := ⟨t.kind, f t.span⟩

theorem Token.kind_mapSpans (f : Span → Span) (t : Token) : (t.mapSpans f).kind = t.kind := rfl

namespace Cursor

variable (f : Span → Span) (c : Cursor)

def mapSpans : Cursor :=
  { c with
    rest := c.rest.map (·.mapSpans f)
    previous := f c.previous
    errors := c.errors.map (·.mapSpans f) }

@[simp] theorem length_mapSpans : (c.mapSpans f).rest.length = c.rest.length := by
  simp [mapSpans]

theorem kind_mapSpans : (c.mapSpans f).kind = c.kind := by
  obtain ⟨rest, previous, errors, reserving⟩ := c
  cases rest <;> rfl

theorem secondKind_mapSpans : (c.mapSpans f).secondKind = c.secondKind := by
  obtain ⟨rest, previous, errors, reserving⟩ := c
  rcases rest with _ | ⟨_, _ | _⟩ <;> rfl

theorem span_mapSpans : (c.mapSpans f).span = f c.span := by
  obtain ⟨rest, previous, errors, reserving⟩ := c
  cases rest <;> rfl

theorem current_mapSpans : (c.mapSpans f).current = c.current.mapSpans f := by
  rw [current, kind_mapSpans, span_mapSpans]
  rfl

theorem advance_mapSpans : (c.mapSpans f).advance = c.advance.mapSpans f := by
  obtain ⟨rest, previous, errors, reserving⟩ := c
  cases rest with
  | nil => rfl
  | cons t ts => by_cases h : t.kind = .endOfText <;> simp [advance, mapSpans, Token.mapSpans, h]

theorem skip_mapSpans (n : Nat) : (c.mapSpans f).skip n = (c.skip n).mapSpans f := by
  induction n generalizing c with
  | zero => rfl
  | succ n ih => rw [skip, advance_mapSpans, ih, skip]

theorem report_mapSpans (e : SyntaxError) :
    (c.mapSpans f).report (e.mapSpans f) = (c.report e).mapSpans f := by
  simp [report, mapSpans]

theorem terminatorDistance_mapSpans (ts : List Token) :
    terminatorDistance (ts.map (Token.mapSpans f)) = terminatorDistance ts := by
  induction ts with
  | nil => rfl
  | cons t ts ih => simp only [List.map_cons, terminatorDistance, Token.kind_mapSpans, ih]

theorem memberDistance_mapSpans (depth : Nat) (ts : List Token) :
    memberDistance depth (ts.map (Token.mapSpans f)) = memberDistance depth ts := by
  induction ts generalizing depth with
  | nil => rfl
  | cons t ts ih => simp only [List.map_cons, memberDistance, Token.kind_mapSpans, ih]

theorem classDistance_mapSpans (ts : List Token) :
    classDistance (ts.map (Token.mapSpans f)) = classDistance ts := by
  induction ts with
  | nil => rfl
  | cons t ts ih => simp only [List.map_cons, classDistance, Token.kind_mapSpans, ih]

end Cursor

namespace Parser

open Cursor

variable {α β γ : Type} {m : Move} {g : α → α} {h : β → β}

/-- What a parser gives, moved. -/
def moved (m : Move) (g : α → α) :
    EStateM.Result SyntaxError Cursor α → EStateM.Result SyntaxError Cursor α
  | .ok a c => .ok (g a) (c.mapSpans m.span)
  | .error e c => .error (e.mapSpans m.span) (c.mapSpans m.span)

/-- From this cursor the first parser passes, and from the moved cursor the second one gives
the same, moved. -/
structure MirrorsAt (m : Move) (g : α → α) (c : Cursor) (p q : Parser α) : Prop where
  passes : c.Passes (p.after c)
  run : q (c.mapSpans m.span) = moved m g (p c)

def Mirrors (m : Move) (g : α → α) (p q : Parser α) : Prop :=
  ∀ c, m.Covers c → MirrorsAt m g c p q

/-! ### Rules -/

namespace MirrorsAt

variable {c d : Cursor} {p q : Parser α} {a b : α}

theorem of_ok (hp : p c = .ok a d) (passes : c.Passes d)
    (hq : q (c.mapSpans m.span) = .ok (g a) (d.mapSpans m.span)) : MirrorsAt m g c p q := by
  refine ⟨?_, by rw [hp, hq, moved]⟩
  rw [after_of_ok hp]
  exact passes

theorem of_error {e : SyntaxError} (hp : p c = .error e c)
    (hq : q (c.mapSpans m.span) = .error (e.mapSpans m.span) (c.mapSpans m.span)) :
    MirrorsAt m g c p q := by
  refine ⟨?_, by rw [hp, hq, moved]⟩
  rw [after_of_error hp]
  exact .refl c

theorem congr {p' q' : Parser α} (hp : p c = p' c)
    (hq : q (c.mapSpans m.span) = q' (c.mapSpans m.span)) (h : MirrorsAt m g c p' q') :
    MirrorsAt m g c p q := by
  refine ⟨?_, by rw [hp, hq, h.run]⟩
  rw [after, hp]
  exact h.passes

theorem bind {f f' : α → Parser β} (hp : MirrorsAt m g c p q) (hc : m.Covers c)
    (hf : ∀ a d, m.Covers d → MirrorsAt m h d (f a) (f' (g a))) :
    MirrorsAt m h c (p >>= f) (q >>= f') := by
  cases hrun : p c with
  | error e d =>
    refine ⟨?_, by rw [bind_apply, bind_apply, hp.run, hrun]; rfl⟩
    rw [after_bind_of_error hrun, ← after_of_error hrun]
    exact hp.passes
  | ok a d =>
    have hcd := after_of_ok hrun ▸ hp.passes
    have hfa := hf a d (hc.passes hcd)
    refine ⟨?_, ?_⟩
    · rw [after_bind_of_ok hrun]
      exact hcd.trans hfa.passes
    · rw [bind_apply, bind_apply, hp.run, hrun]
      exact hfa.run

/-- Looking ahead takes no step. -/
theorem look {f f' : α → Parser β} (hp : p c = .ok a c)
    (hq : q (c.mapSpans m.span) = .ok b (c.mapSpans m.span)) (hf : MirrorsAt m h c (f a) (f' b)) :
    MirrorsAt m h c (p >>= f) (q >>= f') := by
  refine ⟨?_, ?_⟩
  · rw [after_bind_of_ok hp]
    exact hf.passes
  · rw [bind_apply, bind_apply, hp, hq]
    exact hf.run

theorem kind {f f' : TokenKind → Parser α} (hf : MirrorsAt m g c (f c.kind) (f' c.kind)) :
    MirrorsAt m g c (Parser.kind >>= f) (Parser.kind >>= f') :=
  .look rfl (by rw [Parser.kind, kind_mapSpans]) hf

theorem secondKind {f f' : TokenKind → Parser α}
    (hf : MirrorsAt m g c (f c.secondKind) (f' c.secondKind)) :
    MirrorsAt m g c (Parser.secondKind >>= f) (Parser.secondKind >>= f') :=
  .look rfl (by rw [Parser.secondKind, secondKind_mapSpans]) hf

theorem clauseKeyword? {f f' : Option Descriptor → Parser α} (hc : m.Covers c)
    (hf : MirrorsAt m g c (f (c.kind.keyword? m.source c.reserving))
      (f' (c.kind.keyword? m.source c.reserving))) :
    MirrorsAt m g c (Parser.clauseKeyword? m.source >>= f)
      (Parser.clauseKeyword? m.target >>= f') :=
  .look (clauseKeyword?_apply _ c)
    (by rw [clauseKeyword?_apply, kind_mapSpans, hc.kind.keyword?]; rfl) hf

end MirrorsAt

namespace Mirrors

variable {p q : Parser α} {a b : α}

theorem pure (hab : g a = b) : Mirrors m g (Pure.pure a) (Pure.pure b) := fun c _ =>
  .of_ok rfl (.refl c) (by rw [hab]; rfl)

theorem bind {f f' : α → Parser β} (hp : Mirrors m g p q)
    (hf : ∀ a, Mirrors m h (f a) (f' (g a))) : Mirrors m h (p >>= f) (q >>= f') := fun c hc =>
  (hp c hc).bind hc fun a => hf a

theorem map {f f' : α → β} (hp : Mirrors m g p q) (hf : ∀ a, h (f a) = f' (g a)) :
    Mirrors m h (f <$> p) (f' <$> q) := by
  rw [map_eq_pure_bind, map_eq_pure_bind]
  exact hp.bind fun a => .pure (hf a)

theorem failHere (fault : SyntaxFault) :
    Mirrors m g (Parser.failHere fault) (Parser.failHere fault) := fun c _ =>
  .of_error rfl (by rw [Parser.failHere, span_mapSpans]; rfl)

/-! ### Basic parsers -/

theorem kind : Mirrors m (fun k => k) kind kind := fun c _ =>
  .of_ok rfl (.refl c) (by rw [Parser.kind, kind_mapSpans])

theorem span : Mirrors m m.span span span := fun c _ =>
  .of_ok rfl (.refl c) (by rw [Parser.span, span_mapSpans])

theorem previousEnd : Mirrors m m.offset previousEnd previousEnd := fun c _ =>
  .of_ok rfl (.refl c) rfl

theorem reserving : Mirrors m (fun on => on) reserving reserving := fun c _ =>
  .of_ok rfl (.refl c) rfl

theorem advance : Mirrors m (·.mapSpans m.span) advance advance := fun c _ =>
  .of_ok rfl (passes_advance c) (by rw [Parser.advance, current_mapSpans, advance_mapSpans])

theorem report {e e' : SyntaxError} (he : e.mapSpans m.span = e') :
    Mirrors m (fun u => u) (report e) (report e') := fun c _ =>
  .of_ok rfl (passes_report e c) (by rw [Parser.report, ← he, report_mapSpans])

theorem placeholder {e e' : SyntaxError} (he : e.mapSpans m.span = e') :
    Mirrors m (·.mapSpans m.span) (placeholder e) (placeholder e') :=
  (report he).bind fun _ => .pure (by rw [← he]; rfl)

theorem expect (k : TokenKind) : Mirrors m (·.mapSpans m.span) (expect k) (expect k) :=
  fun c hc => .kind <| by
    split
    · exact advance c hc
    · exact failHere _ c hc

theorem expectSymbol (s : Symbol) :
    Mirrors m (·.mapSpans m.span) (expectSymbol s) (expectSymbol s) := expect _

theorem accept (s : Symbol) : Mirrors m (fun found => found) (accept s) (accept s) :=
  fun c hc => .kind <| by
    split
    · exact (advance c hc).bind hc fun _ => pure rfl
    · exact pure rfl c hc

theorem nameOr (fault : TokenKind → SyntaxFault) :
    Mirrors m (·.mapSpans m.span) (nameOr fault) (nameOr fault) := fun c hc => .kind <| by
  split
  · exact (advance c hc).bind hc fun _ => pure rfl
  · exact failHere _ c hc

theorem expectName (role : NameRole) :
    Mirrors m (·.mapSpans m.span) (expectName role) (expectName role) := nameOr _

theorem typeName : Mirrors m (·.mapSpans m.span) typeName typeName := nameOr _

/-! ### Recovery and mode -/

theorem skipThroughTerminator :
    Mirrors m (fun u => u) skipThroughTerminator skipThroughTerminator := fun c _ =>
  .of_ok rfl (passes_skip _ c) (by
    rw [Parser.skipThroughTerminator, ← skip_mapSpans, mapSpans, terminatorDistance_mapSpans])

theorem skipMember : Mirrors m (fun u => u) skipMember skipMember := fun c _ =>
  .of_ok rfl (passes_skip _ c) (by
    rw [Parser.skipMember, ← skip_mapSpans, mapSpans, memberDistance_mapSpans])

theorem skipToClass : Mirrors m (fun u => u) skipToClass skipToClass := fun c _ =>
  .of_ok rfl (passes_skip _ c) (by
    rw [Parser.skipToClass, ← skip_mapSpans, mapSpans, classDistance_mapSpans])

/-- An outcome, moved. -/
def movedOutcome (m : Move) (g : α → α) : Except SyntaxError α → Except SyntaxError α
  | .ok a => .ok (g a)
  | .error e => .error (e.mapSpans m.span)

theorem outcome (hp : Mirrors m g p q) :
    Mirrors m (movedOutcome m g) (outcome p) (outcome q) := fun c hc => by
  have hpq := hp c hc
  have hrun := hpq.run
  cases hrunp : p c with
  | ok a d =>
    refine .of_ok (a := .ok a) (d := d) (by rw [Parser.outcome, hrunp]) ?_ ?_
    · exact after_of_ok hrunp ▸ hpq.passes
    · rw [Parser.outcome, hrun, hrunp]
      rfl
  | error e d =>
    refine .of_ok (a := .error e) (d := d) (by rw [Parser.outcome, hrunp]) ?_ ?_
    · exact after_of_error hrunp ▸ hpq.passes
    · rw [Parser.outcome, hrun, hrunp]
      rfl

theorem withReserving (on : Bool) (hp : Mirrors m g p q) :
    Mirrors m g (withReserving on p) (withReserving on q) := fun c hc => by
  have hpq := hp (c.inMode on) hc
  have hrun : q ((c.mapSpans m.span).inMode on) = moved m g (p (c.inMode on)) := hpq.run
  have passes := hpq.passes
  have same := Steady.withReserving_apply on p c
  have same' := Steady.withReserving_apply on q (c.mapSpans m.span)
  rw [hrun] at same'
  cases hrunp : p (c.inMode on) with
  | ok a d =>
    rw [hrunp] at same same'
    rw [after_of_ok hrunp] at passes
    exact .of_ok same ⟨passes.rest, passes.errors, rfl⟩ same'
  | error e d =>
    rw [hrunp] at same same'
    rw [after_of_error hrunp] at passes
    refine ⟨?_, by rw [same, same']; rfl⟩
    rw [after_of_error same]
    exact ⟨passes.rest, passes.errors, rfl⟩

/-! ### Repetition -/

/-- A repetition mirrors another one when one entry does, given that the entries behind it
do. -/
theorem recur {i : γ → γ} {step step' : (γ → Parser α) → γ → Parser α}
    (hstep : ∀ again again', (∀ b, Mirrors m g (again b) (again' (i b))) →
      ∀ b, Mirrors m g (step again b) (step' again' (i b))) (b : γ) :
    Mirrors m g (recur step b) (recur step' (i b)) :=
  recur_induction₂ (M := fun _ c p q => m.Covers c → MirrorsAt m g c p q) (length_mapSpans m.span)
    (fun hp hq hm hc => .congr hp hq (hm hc)) (fun _ c hc => failHere _ c hc) hstep b

/-- The same where the entries have no argument. -/
theorem recur_unit {step step' : (Unit → Parser α) → Parser α}
    (hstep : ∀ again again', Mirrors m g (again ()) (again' ()) →
      Mirrors m g (step again) (step' again')) :
    Mirrors m g (Parser.recur (fun again _ => step again) ())
      (Parser.recur (fun again _ => step' again) ()) :=
  recur (i := fun u => u) (fun _ _ hagain _ => hstep _ _ (hagain ())) ()

end Mirrors

end Parser

end Contracts
