import Contracts.Proofs.Parsing.Sound

/-! What it means that a parser reads a word. Wherever tokens of the kinds of the word
stand next and then those of the rest, the parser succeeds, reports nothing, and leaves
the rest (`Parser.Parses`). The rules follow the word from left to right; a repetition
unfolds, and is entered again for shorter words only (`Parses.recur`). -/

namespace Contracts

/-! ### Words that are left -/

/-- The cursor stands before tokens of these kinds, in this mode and after these errors. -/
structure Cursor.Before (on : Bool) (errors : List SyntaxError) (w : List TokenKind) (c : Cursor) :
    Prop where
  kinds : c.kinds = w
  reserving : c.reserving = on
  errors : c.errors = errors

/-- The kind of the first token of a word. -/
def firstKind (w : List TokenKind) : TokenKind := w.headD .endOfText

@[simp] theorem firstKind_cons (k : TokenKind) (w : List TokenKind) : firstKind (k :: w) = k := rfl

/-- The kind of the second token of a word. -/
def nextKind (w : List TokenKind) : TokenKind := firstKind w.tail

@[simp] theorem nextKind_cons (k : TokenKind) (w : List TokenKind) :
    nextKind (k :: w) = firstKind w := rfl

namespace Cursor

variable {on : Bool} {errors : List SyntaxError} {k : TokenKind} {w : List TokenKind} {c : Cursor}

theorem kind_eq_firstKind (c : Cursor) : c.kind = firstKind c.kinds := by
  obtain ⟨rest, previous, errors, reserving⟩ := c
  cases rest <;> rfl

theorem secondKind_eq_nextKind (c : Cursor) : c.secondKind = nextKind c.kinds := by
  obtain ⟨rest, previous, errors, reserving⟩ := c
  rcases rest with _ | ⟨t, _ | ⟨u, ts⟩⟩ <;> rfl

theorem Before.kind (h : c.Before on errors w) : c.kind = firstKind w := by
  rw [kind_eq_firstKind, h.kinds]

theorem Before.length (h : c.Before on errors w) : c.rest.length = w.length := by
  rw [← h.kinds, Cursor.kinds, List.length_map]

theorem Before.advance (hk : k ≠ .endOfText) (h : c.Before on errors (k :: w)) :
    c.advance.Before on errors w := by
  have hrest := rest_advance (c := c) (by rwa [h.kind])
  have hkinds := h.kinds
  rw [Cursor.kinds, hrest, List.map_cons] at hkinds
  exact ⟨(List.cons.inj hkinds).2, by rw [advance_reserving, h.reserving],
    by rw [advance_errors, h.errors]⟩

end Cursor

namespace Parser

variable {α β γ : Type} {on : Bool} {v w k : List TokenKind} {Q : α → Prop} {R : β → Prop}

/-- Before `w` and then `k`, the parser reads `w` and has such a result. -/
def Parses (on : Bool) (p : Parser α) (w k : List TokenKind) (Q : α → Prop) : Prop :=
  ∀ c errors, c.Before on errors (w ++ k) → ∃ a c', p c = .ok a c' ∧ Q a ∧ c'.Before on errors k

namespace Parses

theorem pure {a : α} (h : Q a) : Parses on (Pure.pure a) [] k Q := fun c _ hc =>
  ⟨a, c, rfl, h, hc⟩

theorem bind {p : Parser α} {f : α → Parser β} (hp : Parses on p v (w ++ k) Q)
    (hf : ∀ a, Q a → Parses on (f a) w k R) : Parses on (p >>= f) (v ++ w) k R := by
  intro c es hc
  rw [List.append_assoc] at hc
  obtain ⟨a, d, hok, ha, hd⟩ := hp c es hc
  obtain ⟨b, c', hok', hb, hc'⟩ := hf a ha d es hd
  exact ⟨b, c', by rw [bind_apply, hok]; exact hok', hb, hc'⟩

/-- A parser behind one that reads the whole word. -/
theorem bind_last {p : Parser α} {f : α → Parser β} (hp : Parses on p w k Q)
    (hf : ∀ a, Q a → Parses on (f a) [] k R) : Parses on (p >>= f) w k R := by
  rw [← List.append_nil w]
  exact hp.bind hf

theorem map {p : Parser α} {f : α → β} (hp : Parses on p w k Q) (hf : ∀ a, Q a → R (f a)) :
    Parses on (f <$> p) w k R := by
  rw [map_eq_pure_bind]
  exact hp.bind_last fun a ha => .pure (hf a ha)

/-! ### Looking ahead -/

theorem look {p : Parser α} {f : α → Parser β} {a : α}
    (hp : ∀ c es, c.Before on es (w ++ k) → p c = .ok a c) (h : Parses on (f a) w k R) :
    Parses on (p >>= f) w k R := fun c es hc => by
  rw [bind_apply, hp c es hc]
  exact h c es hc

theorem kind {f : TokenKind → Parser β} (h : Parses on (f (firstKind (w ++ k))) w k R) :
    Parses on (Parser.kind >>= f) w k R :=
  look (fun c _ hc => by rw [Parser.kind, hc.kind]) h

theorem kind_cons {f : TokenKind → Parser β} {x : TokenKind}
    (h : Parses on (f x) (x :: w) k R) : Parses on (Parser.kind >>= f) (x :: w) k R :=
  kind h

theorem secondKind {f : TokenKind → Parser β} (h : Parses on (f (nextKind (w ++ k))) w k R) :
    Parses on (Parser.secondKind >>= f) w k R :=
  look (fun c _ hc => by rw [Parser.secondKind, c.secondKind_eq_nextKind, hc.kinds]) h

theorem secondKind_cons {f : TokenKind → Parser β} {x y : TokenKind}
    (h : Parses on (f y) (x :: y :: w) k R) :
    Parses on (Parser.secondKind >>= f) (x :: y :: w) k R :=
  secondKind h

theorem reserving {f : Bool → Parser β} (h : Parses on (f on) w k R) :
    Parses on (Parser.reserving >>= f) w k R :=
  look (fun c _ hc => by rw [Parser.reserving, hc.reserving]) h

theorem clauseKeyword? {registry : Registry} {f : Option Descriptor → Parser β}
    (h : Parses on (f ((firstKind (w ++ k)).keyword? registry on)) w k R) :
    Parses on (Parser.clauseKeyword? registry >>= f) w k R :=
  look (fun c _ hc => by rw [clauseKeyword?_apply, hc.kind, hc.reserving]) h

theorem clauseKeyword?_cons {registry : Registry} {f : Option Descriptor → Parser β}
    {x : TokenKind} (h : Parses on (f (x.keyword? registry on)) (x :: w) k R) :
    Parses on (Parser.clauseKeyword? registry >>= f) (x :: w) k R :=
  clauseKeyword? h

theorem span {f : Span → Parser β} (h : ∀ s, Parses on (f s) w k R) :
    Parses on (Parser.span >>= f) w k R := fun c es hc => h c.span c es hc

theorem previousEnd {f : Nat → Parser β} (h : ∀ n, Parses on (f n) w k R) :
    Parses on (Parser.previousEnd >>= f) w k R := fun c es hc => h c.previous.stop c es hc

/-! ### Single tokens -/

theorem advance {f : Token → Parser β} {x : TokenKind} (hx : x ≠ .endOfText)
    (h : ∀ t, Parses on (f t) w k R) : Parses on (Parser.advance >>= f) (x :: w) k R :=
  fun c es hc => h c.current c.advance es (Cursor.Before.advance hx hc)

theorem expect {f : Token → Parser β} {x : TokenKind} (hx : x ≠ .endOfText)
    (h : ∀ t, Parses on (f t) w k R) : Parses on (Parser.expect x >>= f) (x :: w) k R := by
  intro c es hc
  rw [bind_apply, expect_apply, if_pos (by rw [hc.kind]; rfl)]
  exact h c.current c.advance es (Cursor.Before.advance hx hc)

theorem expectSymbol {f : Token → Parser β} {s : Symbol} (h : ∀ t, Parses on (f t) w k R) :
    Parses on (Parser.expectSymbol s >>= f) (.symbol s :: w) k R :=
  expect (by simp) h

theorem expectSymbol_self {s : Symbol} :
    Parses on (Parser.expectSymbol s) [.symbol s] k (fun _ => True) := by
  rw [← bind_pure (Parser.expectSymbol s)]
  exact expectSymbol fun _ => .pure trivial

theorem accept_true {f : Bool → Parser β} {s : Symbol} (h : Parses on (f true) w k R) :
    Parses on (Parser.accept s >>= f) (.symbol s :: w) k R := by
  intro c es hc
  rw [bind_apply, accept_apply, if_pos (by rw [hc.kind]; rfl)]
  exact h c.advance es (Cursor.Before.advance (by simp) hc)

theorem accept_false {f : Bool → Parser β} {s : Symbol} (hne : firstKind (w ++ k) ≠ .symbol s)
    (h : Parses on (f false) w k R) : Parses on (Parser.accept s >>= f) w k R := by
  intro c es hc
  rw [bind_apply, accept_apply, if_neg (by rwa [hc.kind])]
  exact h c es hc

theorem nameOr {fault : TokenKind → SyntaxFault} {f : Name → Parser β} {word : String}
    (h : ∀ s, Parses on (f ⟨word, s⟩) w k R) :
    Parses on (Parser.nameOr fault >>= f) (.identifier word :: w) k R := by
  intro c es hc
  have hkind : c.kind = .identifier word := hc.kind
  rw [bind_apply, nameOr_apply, hkind]
  exact h c.span c.advance es (Cursor.Before.advance (by simp) hc)

theorem expectName {role : NameRole} {f : Name → Parser β} {word : String}
    (h : ∀ s, Parses on (f ⟨word, s⟩) w k R) :
    Parses on (Parser.expectName role >>= f) (.identifier word :: w) k R :=
  nameOr h

theorem typeName {f : Name → Parser β} {word : String}
    (h : ∀ s, Parses on (f ⟨word, s⟩) w k R) :
    Parses on (Parser.typeName >>= f) (.identifier word :: w) k R :=
  nameOr h

/-! ### Failure and mode -/

theorem outcome {p : Parser α} {f : Except SyntaxError α → Parser β}
    (hp : Parses on p v (w ++ k) Q) (hf : ∀ a, Q a → Parses on (f (.ok a)) w k R) :
    Parses on (Parser.outcome p >>= f) (v ++ w) k R := by
  intro c es hc
  rw [List.append_assoc] at hc
  obtain ⟨a, d, hok, ha, hd⟩ := hp c es hc
  obtain ⟨b, c', hok', hb, hc'⟩ := hf a ha d es hd
  exact ⟨b, c', by rw [bind_apply, Parser.outcome, hok]; exact hok', hb, hc'⟩

theorem withReserving {p : Parser α} (inner : Bool) (h : Parses inner p w k Q) :
    Parses on (Parser.withReserving inner p) w k Q := by
  intro c es hc
  obtain ⟨a, d, hok, ha, hd⟩ := h { c with reserving := inner } es ⟨hc.kinds, rfl, hc.errors⟩
  refine ⟨a, { d with reserving := c.reserving }, ?_, ha, hd.kinds, hc.reserving, hd.errors⟩
  simp only [Parser.withReserving, hok]

/-! ### Repetition -/

/-- A repetition reads what its body reads, where the body may use that the repetition
reads shorter words. -/
theorem recur {step : (γ → Parser α) → γ → Parser α} {b : γ}
    (h : ∀ again : γ → Parser α,
      (∀ b' v k' P, (v ++ k').length < (w ++ k).length →
        Parses on (Parser.recur step b') v k' P → Parses on (again b') v k' P) →
      Parses on (step again b) w k Q) :
    Parses on (Parser.recur step b) w k Q := by
  intro c es hc
  rw [recur_eq]
  refine h _ (fun b' v k' P hlt hagain d es' hd => ?_) c es hc
  rw [beyond, if_pos (by rw [hd.length, hc.length]; exact hlt)]
  exact hagain d es' hd

end Parses

end Parser

end Contracts
