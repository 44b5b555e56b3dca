import Contracts.Parser.Unit

/-! What a parser may do to its cursor, and what it means that it read something. Every
parser only moves forward, only adds errors, and gives back the mode that it was entered
with (`Cursor.Passes`). A parser is sound for a relation between token kinds and results
when each success without a new error has read tokens of kinds that are so related to the
result (`Parser.Sound`). Soundness goes through `>>=` by what is left to be read
(`SoundAt.bind`), and through repetition for any relation that one entry preserves
(`Sound.recur`). -/

namespace Contracts

/-- The descriptor of a token, if that is a registered word and such words are reserved. -/
def TokenKind.keyword? (registry : Registry) (on : Bool) (k : TokenKind) : Option Descriptor :=
  match on, k with
  | true, identifier word => registry.get? word
  | _, _ => none

namespace Cursor

/-! ### Cursors -/

/-- The kinds of the tokens that are left. -/
def kinds (c : Cursor) : List TokenKind := c.rest.map (·.kind)

/-- Away from the end of the text, moving brings the second token next. -/
theorem kind_advance {c : Cursor} (h : c.kind ≠ .endOfText) : c.advance.kind = c.secondKind := by
  obtain ⟨rest, previous, errors, reserving⟩ := c
  rcases rest with _ | ⟨u, _ | ⟨v, vs⟩⟩
  · exact absurd rfl h
  all_goals
    have more : ¬u.kind = .endOfText := h
    simp [advance, kind, secondKind, more]

/-- What a parser may do to a cursor. -/
structure Passes (c c' : Cursor) : Prop where
  rest : c'.rest <:+ c.rest
  errors : c.errors <+: c'.errors
  reserving : c'.reserving = c.reserving

theorem Passes.refl (c : Cursor) : c.Passes c :=
  ⟨List.suffix_refl _, List.prefix_refl _, rfl⟩

theorem Passes.trans {c d e : Cursor} (h : c.Passes d) (k : d.Passes e) : c.Passes e :=
  ⟨k.rest.trans h.rest, h.errors.trans k.errors, k.reserving.trans h.reserving⟩

theorem passes_advance (c : Cursor) : c.Passes c.advance := by
  refine ⟨?_, by simp, by simp⟩
  by_cases h : c.kind = .endOfText
  · exact (advance_of_end h).symm ▸ List.suffix_refl _
  · rw [rest_advance h]
    exact List.suffix_cons _ _

theorem passes_skip (n : Nat) (c : Cursor) : c.Passes (c.skip n) := by
  induction n generalizing c with
  | zero => exact .refl c
  | succ n ih => exact c.passes_advance.trans (ih c.advance)

theorem passes_report (e : SyntaxError) (c : Cursor) : c.Passes (c.report e) :=
  ⟨List.suffix_refl _, List.prefix_append _ _, rfl⟩

/-- Between two cursors, tokens of these kinds were read. -/
def Reads (c : Cursor) (w : List TokenKind) (c' : Cursor) : Prop :=
  ∃ ts, ts.map (·.kind) = w ∧ c.rest = ts ++ c'.rest

theorem Reads.nil (c : Cursor) : c.Reads [] c := ⟨[], rfl, rfl⟩

theorem Reads.append {c d e : Cursor} {v w : List TokenKind} (h : c.Reads v d)
    (k : d.Reads w e) : c.Reads (v ++ w) e := by
  obtain ⟨ts, rfl, hts⟩ := h
  obtain ⟨us, rfl, hus⟩ := k
  exact ⟨ts ++ us, List.map_append, by rw [hts, hus, List.append_assoc]⟩

theorem Reads.kinds {c c' : Cursor} {w : List TokenKind} (h : c.Reads w c') :
    c.kinds = w ++ c'.kinds := by
  obtain ⟨ts, rfl, rest⟩ := h
  rw [Cursor.kinds, rest, List.map_append, Cursor.kinds]

theorem Passes.exists_reads {c c' : Cursor} (h : c.Passes c') : ∃ w, c.Reads w c' := by
  obtain ⟨ts, hts⟩ := h.rest
  exact ⟨_, ts, rfl, hts.symm⟩

end Cursor

namespace Parser

variable {α β : Type}

/-! ### Parsers that pass -/

/-- The cursor that a parser leaves, also where it fails. -/
def after (p : Parser α) (c : Cursor) : Cursor :=
  match p c with
  | .ok _ c' => c'
  | .error _ c' => c'

theorem after_of_ok {p : Parser α} {a : α} {c c' : Cursor} (h : p c = .ok a c') :
    p.after c = c' := by
  rw [after, h]

theorem after_of_error {p : Parser α} {e : SyntaxError} {c c' : Cursor}
    (h : p c = .error e c') : p.after c = c' := by
  rw [after, h]

theorem after_bind_of_ok {p : Parser α} {f : α → Parser β} {a : α} {c c' : Cursor}
    (h : p c = .ok a c') : (p >>= f).after c = (f a).after c' := by
  simp only [after, bind_apply, h]

theorem after_bind_of_error {p : Parser α} {f : α → Parser β} {e : SyntaxError}
    {c c' : Cursor} (h : p c = .error e c') : (p >>= f).after c = c' :=
  after_of_error (e := e) (by rw [bind_apply, h])

/-- From this cursor the parser passes, and when it reads without a new error, what it
reads stands in the relation to its result. -/
structure SoundAt (c : Cursor) (D : List TokenKind → α → Prop) (p : Parser α) : Prop where
  passes : c.Passes (p.after c)
  reads : ∀ a c', p c = .ok a c' → c'.errors = c.errors → ∃ w, c.Reads w c' ∧ D w a

/-- In this mode the parser is sound from every cursor. -/
def Sound (on : Bool) (D : List TokenKind → α → Prop) (p : Parser α) : Prop :=
  ∀ c, c.reserving = on → SoundAt c D p

/-- A parser that succeeds without a step. -/
theorem SoundAt.of_ok {c : Cursor} {D : List TokenKind → α → Prop} {p : Parser α} {a : α}
    (hp : p c = .ok a c) (h : D [] a) : SoundAt c D p := by
  refine ⟨by rw [after_of_ok hp]; exact .refl c, fun b c' hok _ => ?_⟩
  rw [hp] at hok
  injection hok with ha hc
  subst ha hc
  exact ⟨[], .nil c, h⟩

/-- A parser that fails without a step. -/
theorem SoundAt.of_error {c : Cursor} {D : List TokenKind → α → Prop} {p : Parser α}
    {e : SyntaxError} (hp : p c = .error e c) : SoundAt c D p := by
  refine ⟨by rw [after_of_error hp]; exact .refl c, fun b c' hok _ => ?_⟩
  rw [hp] at hok
  nomatch hok

theorem SoundAt.congr {c : Cursor} {D : List TokenKind → α → Prop} {p q : Parser α}
    (hpq : p c = q c) (h : SoundAt c D q) : SoundAt c D p := by
  refine ⟨?_, fun a c' hok => h.reads a c' (hpq ▸ hok)⟩
  rw [after, hpq]
  exact h.passes

theorem SoundAt.mono {c : Cursor} {D E : List TokenKind → α → Prop} {p : Parser α}
    (h : SoundAt c D p) (hd : ∀ w a, D w a → E w a) : SoundAt c E p := by
  refine ⟨h.passes, fun a c' hok clean => ?_⟩
  obtain ⟨w, hw, hd'⟩ := h.reads a c' hok clean
  exact ⟨w, hw, hd _ _ hd'⟩

theorem Sound.mono {on : Bool} {D E : List TokenKind → α → Prop} {p : Parser α}
    (h : Sound on D p) (hd : ∀ w a, D w a → E w a) : Sound on E p := fun c hc =>
  (h c hc).mono hd

/-- Errors are only added, so a run without a new error had none at any time. -/
theorem SoundAt.clean {c d : Cursor} {D : List TokenKind → α → Prop} {p : Parser α}
    (h : SoundAt d D p) (hcd : c.Passes d) (hlast : (p.after d).errors = c.errors) :
    d.errors = c.errors := by
  refine (hcd.errors.eq_of_length ?_).symm
  have first := hcd.errors.length_le
  have second := h.passes.errors.length_le
  rw [hlast] at second
  omega

/-- The second parser has to read what the first one leaves of the relation. -/
theorem SoundAt.bind {c : Cursor} {C : List TokenKind → α → Prop}
    {D : List TokenKind → β → Prop} {p : Parser α} {f : α → Parser β} (hp : SoundAt c C p)
    (hf : ∀ a d, d.reserving = c.reserving →
      SoundAt d (fun w b => ∀ v, C v a → D (v ++ w) b) (f a)) :
    SoundAt c D (p >>= f) := by
  have first := hp.passes
  cases h : p c with
  | error e d =>
    rw [after_of_error h] at first
    refine ⟨by rw [after_bind_of_error h]; exact first, fun b c' hok _ => ?_⟩
    rw [bind_apply, h] at hok
    nomatch hok
  | ok a d =>
    rw [after_of_ok h] at first
    have second := hf a d first.reserving
    refine ⟨by rw [after_bind_of_ok h]; exact first.trans second.passes, fun b c' hok clean => ?_⟩
    rw [bind_apply, h] at hok
    have hd : d.errors = c.errors := second.clean first (by rw [after_of_ok hok, clean])
    obtain ⟨v, hv, hC⟩ := hp.reads a d h hd
    obtain ⟨w, hw, hD⟩ := second.reads b c' hok (clean.trans hd.symm)
    exact ⟨v ++ w, hv.append hw, hD v hC⟩

theorem Sound.bind {on : Bool} {C : List TokenKind → α → Prop} {D : List TokenKind → β → Prop}
    {p : Parser α} {f : α → Parser β} (hp : Sound on C p)
    (hf : ∀ a, Sound on (fun w b => ∀ v, C v a → D (v ++ w) b) (f a)) :
    Sound on D (p >>= f) := fun c hc =>
  (hp c hc).bind fun a d hd => hf a d (hd.trans hc)

/-! ### Basic parsers -/

theorem Sound.pure {on : Bool} {D : List TokenKind → α → Prop} {a : α} (h : D [] a) :
    Sound on D (Pure.pure a) := fun _ _ => .of_ok rfl h

theorem Sound.failHere {on : Bool} {D : List TokenKind → α → Prop} (fault : SyntaxFault) :
    Sound on D (failHere fault) := fun _ _ => .of_error rfl

/-- Looking ahead reads nothing. -/
theorem SoundAt.look {c : Cursor} {D : List TokenKind → β → Prop} {p : Parser α}
    {f : α → Parser β} {a : α} (hp : p c = .ok a c) (h : SoundAt c D (f a)) :
    SoundAt c D (p >>= f) :=
  .congr (by rw [bind_apply, hp]) h

theorem soundAt_advance {c : Cursor} {k : TokenKind} (hk : c.kind = k) (hne : k ≠ .endOfText) :
    SoundAt c (fun w t => w = [k] ∧ t.kind = k) advance := by
  subst hk
  refine ⟨c.passes_advance, fun t c' hok _ => ?_⟩
  injection hok with ht hc
  subst ht hc
  exact ⟨_, ⟨[c.current], rfl, Cursor.rest_advance hne⟩, rfl, rfl⟩

theorem sound_expect {on : Bool} {k : TokenKind} (hne : k ≠ .endOfText) :
    Sound on (fun w _ => w = [k]) (expect k) := fun c _ => by
  refine .look (a := c.kind) rfl ?_
  split
  · next h => exact (soundAt_advance h hne).mono fun _ _ h => h.1
  · exact .of_error rfl

theorem sound_expectSymbol {on : Bool} (s : Symbol) :
    Sound on (fun w _ => w = [.symbol s]) (expectSymbol s) :=
  sound_expect (by simp)

theorem sound_accept {on : Bool} (s : Symbol) :
    Sound on (fun w found => w = if found then [.symbol s] else []) (accept s) := fun c _ => by
  refine .look (a := c.kind) rfl ?_
  split
  · next h =>
    refine (soundAt_advance h (by simp)).bind fun t d _ => .of_ok rfl fun v hv => ?_
    rw [hv.1]
    rfl
  · exact .of_ok rfl rfl

theorem sound_nameOr {on : Bool} (fault : TokenKind → SyntaxFault) :
    Sound on (fun w n => w = [.identifier n.text]) (nameOr fault) := fun c _ => by
  refine .look (a := c.kind) rfl ?_
  split
  · next word h =>
    refine (soundAt_advance h (by simp)).bind fun t d _ => .of_ok rfl fun v hv => ?_
    rw [hv.1]
    rfl
  · exact .of_error rfl

theorem sound_expectName {on : Bool} (role : NameRole) :
    Sound on (fun w n => w = [.identifier n.text]) (expectName role) :=
  sound_nameOr _

theorem clauseKeyword?_apply (registry : Registry) (c : Cursor) :
    clauseKeyword? registry c = .ok (c.kind.keyword? registry c.reserving) c := by
  simp only [clauseKeyword?, bind_apply, reserving, kind, TokenKind.keyword?]
  generalize c.reserving = on
  generalize c.kind = k
  cases on <;> cases k <;> rfl

/-- A registered word is not the end of a text. -/
theorem ne_end_of_keyword? {registry : Registry} {k : TokenKind} {on : Bool} {d : Descriptor}
    (h : k.keyword? registry on = some d) : k ≠ .endOfText := by
  rintro rfl
  cases on <;> nomatch h

/-! ### Errors and recovery -/

/-- A parser that has reported something has not read without a new error. -/
theorem Sound.report {on : Bool} {D : List TokenKind → β → Prop} {f : Unit → Parser β}
    (e : SyntaxError) (h : Sound on (fun _ _ => True) (f ())) :
    Sound on D (Parser.report e >>= f) := fun c hc => by
  have hf := h (c.report e) hc
  refine ⟨(c.passes_report e).trans hf.passes, fun b c' hok clean => ?_⟩
  have := hf.clean (c.passes_report e) (after_of_ok hok ▸ clean)
  simp [Cursor.report] at this

theorem sound_placeholder {on : Bool} {D : List TokenKind → Expr → Prop} (e : SyntaxError) :
    Sound on D (placeholder e) :=
  .report e (.pure trivial)

theorem SoundAt.of_passes {c c' : Cursor} {p : Parser α} {a : α} (hp : p c = .ok a c')
    (h : c.Passes c') : SoundAt c (fun _ _ => True) p := by
  refine ⟨after_of_ok hp ▸ h, fun b d hok _ => ?_⟩
  rw [hp] at hok
  injection hok with _ hd
  subst hd
  obtain ⟨w, hw⟩ := h.exists_reads
  exact ⟨w, hw, trivial⟩

theorem sound_advance {on : Bool} : Sound on (fun _ _ => True) advance := fun c _ =>
  .of_passes rfl c.passes_advance

theorem sound_skipThroughTerminator {on : Bool} :
    Sound on (fun _ _ => True) skipThroughTerminator := fun c _ =>
  .of_passes rfl (c.passes_skip _)

theorem sound_skipMember {on : Bool} : Sound on (fun _ _ => True) skipMember := fun c _ =>
  .of_passes rfl (c.passes_skip _)

theorem sound_skipToClass {on : Bool} : Sound on (fun _ _ => True) skipToClass := fun c _ =>
  .of_passes rfl (c.passes_skip _)

theorem SoundAt.outcome {c : Cursor} {D : List TokenKind → α → Prop} {p : Parser α}
    (hp : SoundAt c D p) : SoundAt c (fun w r => ∀ a, r = .ok a → D w a) (outcome p) := by
  have hpasses := hp.passes
  cases hok : p c with
  | ok a d =>
    have same : Parser.outcome p c = .ok (.ok a) d := by rw [Parser.outcome, hok]
    rw [after_of_ok hok] at hpasses
    refine ⟨after_of_ok same ▸ hpasses, fun r c' hr clean => ?_⟩
    rw [same] at hr
    injection hr with hr hc'
    subst hr hc'
    obtain ⟨w, hw, hD⟩ := hp.reads a d hok clean
    exact ⟨w, hw, fun b hb => by injection hb with hb; exact hb ▸ hD⟩
  | error e d =>
    have same : Parser.outcome p c = .ok (.error e) d := by rw [Parser.outcome, hok]
    rw [after_of_error hok] at hpasses
    refine ⟨after_of_ok same ▸ hpasses, fun r c' hr clean => ?_⟩
    rw [same] at hr
    injection hr with hr hc'
    subst hr hc'
    obtain ⟨w, hw⟩ := hpasses.exists_reads
    exact ⟨w, hw, fun b hb => nomatch hb⟩

theorem Sound.outcome {on : Bool} {D : List TokenKind → α → Prop} {p : Parser α}
    (h : Sound on D p) :
    Sound on (fun w r => ∀ a, r = .ok a → D w a) (outcome p) := fun c hc => (h c hc).outcome

/-- A mode that is set for one parser is the mode in which that parser has to be sound. -/
theorem Sound.withReserving {on : Bool} {D : List TokenKind → α → Prop} {p : Parser α}
    (inner : Bool) (h : Sound inner D p) : Sound on D (withReserving inner p) := fun c _ => by
  have hp := h { c with reserving := inner } rfl
  have hpasses := hp.passes
  cases hok : p { c with reserving := inner } with
  | ok a d =>
    have same : Parser.withReserving inner p c = .ok a { d with reserving := c.reserving } := by
      simp only [Parser.withReserving, hok]
    rw [after_of_ok hok] at hpasses
    refine ⟨after_of_ok same ▸ ⟨hpasses.rest, hpasses.errors, rfl⟩, fun r c' hr clean => ?_⟩
    rw [same] at hr
    injection hr with hr hc'
    subst hr hc'
    exact hp.reads a d hok clean
  | error e d =>
    have same : Parser.withReserving inner p c = .error e { d with reserving := c.reserving } := by
      simp only [Parser.withReserving, hok]
    rw [after_of_error hok] at hpasses
    refine ⟨after_of_error same ▸ ⟨hpasses.rest, hpasses.errors, rfl⟩, fun r c' hr _ => ?_⟩
    rw [same] at hr
    nomatch hr

/-! ### Repetition -/

/-- What holds of two failures, and of an entry of each of two repetitions given that it holds of
the entries behind them, holds of the repetitions. The second one is run from another cursor,
where tokens are used up as they are at the first one; all this within a set of cursors. -/
theorem recur_induction_within {γ γ' : Type} {k : Cursor → Cursor} {i : γ → γ'}
    {I : Cursor → Prop} {M : γ → Cursor → Parser α → Parser β → Prop}
    (left : ∀ c d, I c → I d →
      ((k d).rest.length < (k c).rest.length ↔ d.rest.length < c.rest.length))
    (congr : ∀ {b c p p' q q'}, p c = p' c → q (k c) = q' (k c) → M b c p' q' → M b c p q)
    (stuck : ∀ b c, I c → M b c (Parser.failHere .noProgress) (Parser.failHere .noProgress))
    {step : (γ → Parser α) → γ → Parser α} {step' : (γ' → Parser β) → γ' → Parser β}
    (h : ∀ again again', (∀ b c, I c → M b c (again b) (again' (i b))) →
      ∀ b c, I c → M b c (step again b) (step' again' (i b))) (b : γ) (c : Cursor) (hc : I c) :
    M b c (recur step b) (recur step' (i b)) := by
  -- The induction is on the number of tokens left, which falls from entry to entry.
  suffices ∀ n b c, I c → c.rest.length < n → M b c (recur step b) (recur step' (i b)) from
    this _ b c hc (Nat.lt_succ_self _)
  intro n
  induction n with
  | zero => intro b c _ hn; omega
  | succ n ih =>
    intro b c hc hn
    refine congr (recur_eq step b c) (recur_eq step' (i b) (k c)) (h _ _ (fun b' d hd => ?_) b c hc)
    by_cases hlt : d.rest.length < c.rest.length
    · have hlt' : (k d).rest.length < (k c).rest.length := (left c d hc hd).2 hlt
      exact congr (if_pos hlt) (if_pos hlt') (ih b' d hd (by omega))
    · have hlt' : ¬(k d).rest.length < (k c).rest.length := mt (left c d hc hd).1 hlt
      exact congr (if_neg hlt) (if_neg hlt') (stuck b' d hd)

/-- The same at all cursors, where the second one has as many tokens left. -/
theorem recur_induction₂ {γ γ' : Type} {k : Cursor → Cursor} {i : γ → γ'}
    {M : γ → Cursor → Parser α → Parser β → Prop}
    (left : ∀ c, (k c).rest.length = c.rest.length)
    (congr : ∀ {b c p p' q q'}, p c = p' c → q (k c) = q' (k c) → M b c p' q' → M b c p q)
    (stuck : ∀ b c, M b c (Parser.failHere .noProgress) (Parser.failHere .noProgress))
    {step : (γ → Parser α) → γ → Parser α} {step' : (γ' → Parser β) → γ' → Parser β}
    (h : ∀ again again', (∀ b c, M b c (again b) (again' (i b))) →
      ∀ b c, M b c (step again b) (step' again' (i b))) (b : γ) (c : Cursor) :
    M b c (recur step b) (recur step' (i b)) :=
  recur_induction_within (I := fun _ => True) (M := M) (fun c d _ _ => by rw [left, left]) congr
    (fun b c _ => stuck b c)
    (fun again again' hagain b c _ => h again again' (fun b c => hagain b c trivial) b c) b c
    trivial

/-- The same for one repetition. -/
theorem recur_induction {γ : Type} {M : γ → Cursor → Parser α → Prop}
    (congr : ∀ {b c p q}, p c = q c → M b c q → M b c p)
    (stuck : ∀ b c, M b c (Parser.failHere .noProgress)) {step : (γ → Parser α) → γ → Parser α}
    (h : ∀ again, (∀ b c, M b c (again b)) → ∀ b c, M b c (step again b)) (b : γ) (c : Cursor) :
    M b c (recur step b) :=
  (recur_induction₂ (k := id) (i := id) (M := fun b c p q => M b c p ∧ M b c q) (fun _ => rfl)
    (fun hp hq hm => ⟨congr hp hm.1, congr hq hm.2⟩) (fun b c => ⟨stuck b c, stuck b c⟩)
    (fun again again' hagain b c => ⟨h again (fun b c => (hagain b c).1) b c,
      h again' (fun b c => (hagain b c).2) b c⟩) b c).1

/-- A repetition is sound when one entry is, given that the entries behind it are. -/
theorem Sound.recur {on : Bool} {γ : Type} {D : γ → List TokenKind → α → Prop}
    {step : (γ → Parser α) → γ → Parser α}
    (h : ∀ again, (∀ b, Sound on (D b) (again b)) → ∀ b, Sound on (D b) (step again b)) (b : γ) :
    Sound on (D b) (recur step b) :=
  recur_induction (M := fun b c p => c.reserving = on → SoundAt c (D b) p)
    (fun hpq hq hc => .congr hpq (hq hc)) (fun _ _ hc => Sound.failHere _ _ hc) h b

end Parser

end Contracts
