import Contracts.Proofs.Parsing.Steady

/-! Repetition without a guard. `recur` enters its body again only where fewer tokens are
left. Here the guard is shown to make no difference: a loop each turn of which consumes
something or is the last one (`Loops`), and a recursion that enters its argument only where
something has been consumed (`Enters`), satisfy their equations as they stand
(`Loops.recur_eq`, `recur_eq_of_enters`). -/

namespace Contracts.Parser

open Cursor

variable {α β γ : Type} {admitted : TokenKind → Bool} {P : α → Prop}

/-! ### Consumption -/

theorem Steady.length_le {p : Parser α} {a : α} {c d : Cursor} (h : Steady admitted P p)
    (hok : p c = .ok a d) : d.rest.length ≤ c.rest.length := by
  have walks := (h c).walks
  rw [after_of_ok hok] at walks
  exact walks.passes.rest.length_le

theorem length_advance_lt {c : Cursor} (h : c.kind ≠ .endOfText) :
    c.advance.rest.length < c.rest.length := by
  rw [rest_advance h, List.length_cons]
  exact Nat.lt_succ_self _

/-- From this cursor, success consumes a token. -/
def ConsumesAt (c : Cursor) (p : Parser α) : Prop :=
  ∀ a d, p c = .ok a d → d.rest.length < c.rest.length

def Consumes (p : Parser α) : Prop := ∀ c, ConsumesAt c p

theorem ConsumesAt.of_eq {c : Cursor} {p q : Parser α} (hpq : p c = q c) (h : ConsumesAt c q) :
    ConsumesAt c p := fun a d hok => h a d (hpq ▸ hok)

theorem ConsumesAt.look {c : Cursor} {p : Parser α} {f : α → Parser β} {a : α}
    (hp : p c = .ok a c) (h : ConsumesAt c (f a)) : ConsumesAt c (p >>= f) :=
  .of_eq (by rw [bind_apply, hp]) h

/-- What comes behind may do what it likes. -/
theorem ConsumesAt.bind {c : Cursor} {p : Parser β} {f : β → Parser α} (hp : ConsumesAt c p)
    (hf : ∀ b, Steady anyKind (fun _ => True) (f b)) : ConsumesAt c (p >>= f) := by
  intro a e hok
  rw [bind_apply] at hok
  split at hok
  · next b d hpd =>
    have first := hp b d hpd
    have second := (hf b).length_le hok
    omega
  · nomatch hok

theorem Consumes.bind {p : Parser β} {f : β → Parser α} (hp : Consumes p)
    (hf : ∀ b, Steady anyKind (fun _ => True) (f b)) : Consumes (p >>= f) := fun c => (hp c).bind hf

/-- What comes first may consume something too. -/
theorem Consumes.after {Q : β → Prop} {p : Parser β} {f : β → Parser α} (hp : Steady anyKind Q p)
    (hf : ∀ b, Consumes (f b)) : Consumes (p >>= f) := by
  intro c a e hok
  rw [bind_apply] at hok
  split at hok
  · next b d hpd =>
    have first := hp.length_le hpd
    have second := hf b d a e hok
    omega
  · nomatch hok

theorem consumesAt_advance {c : Cursor} (h : c.kind ≠ .endOfText) : ConsumesAt c advance := by
  intro t d hok
  injection hok with _ hd
  exact hd ▸ length_advance_lt h

theorem consumes_failHere (fault : SyntaxFault) : Consumes (failHere fault : Parser α) :=
  fun _ _ _ hok => nomatch hok

theorem consumes_expectSymbol (s : Symbol) : Consumes (expectSymbol s) := by
  intro c
  refine .look (a := c.kind) rfl ?_
  split
  · next h => exact consumesAt_advance (by simp [h])
  · exact consumes_failHere _ c

theorem consumes_nameOr (fault : TokenKind → SyntaxFault) : Consumes (nameOr fault) := by
  intro c
  refine .look (a := c.kind) rfl ?_
  split
  · next h =>
    have more : c.kind ≠ .endOfText := by simp [h]
    have first := consumesAt_advance more
    exact first.bind fun _ => .pure trivial
  · exact consumes_failHere _ c

/-- A parser that opens with a token has consumed it wherever it ends. -/
theorem Opens.length_after_lt {p : Parser α} {c : Cursor} (h : Opens P p)
    (more : c.kind ≠ .endOfText) : (p.after c).rest.length < c.rest.length := by
  obtain ⟨f, rfl, hf⟩ := h
  rw [after_bind_of_ok (p := advance) rfl]
  have first := length_advance_lt more
  have second := (hf c.current c.advance).walks.passes.rest.length_le
  omega

/-! ### Loops -/

/-- One turn of a loop that goes on as `again`. Either the loop ends here, or a new turn
starts where fewer than `n` tokens are left. -/
inductive Turn (stop : EStateM.Result SyntaxError Cursor β → Prop) (n : Nat) (c : Cursor)
    (turn : (α → Parser β) → Parser β) : Prop
  | last {r : EStateM.Result SyntaxError Cursor β} (h : ∀ again, turn again c = r) (hr : stop r)
  | next {a : α} {d : Cursor} {g : β → β} (short : d.rest.length < n)
    (h : ∀ again, turn again c = (g <$> again a) d)

/-- Each turn of the loop consumes a token or is the last one, and where the loop ends, `stop`
holds. -/
def Loops (stop : EStateM.Result SyntaxError Cursor β → Prop)
    (step : (α → Parser β) → α → Parser β) : Prop :=
  ∀ a c, Turn stop c.rest.length c fun again => step again a

/-- The result is a success, at a cursor with the property. -/
def EndsOk (Q : Cursor → Prop) (r : EStateM.Result SyntaxError Cursor β) : Prop :=
  ∃ b d, r = .ok b d ∧ Q d

section

variable {stop : EStateM.Result SyntaxError Cursor β → Prop} {n : Nat} {c : Cursor}

theorem Turn.pure {b : β} (h : stop (.ok b c)) :
    Turn (α := α) stop n c fun _ => Pure.pure b := .last (fun _ => rfl) h

theorem Turn.again {a : α} (short : c.rest.length < n) : Turn stop n c fun again => again a :=
  .next short fun again => by rw [id_map]

theorem Turn.map {a : α} (g : β → β) (short : c.rest.length < n) :
    Turn stop n c fun again => again a >>= fun b => Pure.pure (g b) :=
  .next short fun again => by rw [map_eq_pure_bind]

theorem Turn.bind {p : Parser γ} {f : γ → (α → Parser β) → Parser β}
    (fail : ∀ e d, p c = .error e d → stop (.error e d))
    (go : ∀ x d, p c = .ok x d → Turn stop n d (f x)) :
    Turn stop n c fun again => p >>= fun x => f x again := by
  cases hp : p c with
  | ok x d =>
    have same (again : α → Parser β) : (p >>= fun x => f x again) c = f x again d := by
      rw [bind_apply, hp]
    cases go x d hp with
    | last h hr => exact .last (fun again => (same again).trans (h again)) hr
    | next short h => exact .next short fun again => (same again).trans (h again)
  | error e d => exact .last (fun again => by rw [bind_apply, hp]) (fail e d hp)

/-- The first part of a turn is known to succeed. -/
theorem Turn.run {p : Parser γ} {f : γ → (α → Parser β) → Parser β} {x : γ} {d : Cursor}
    (hp : p c = .ok x d) (h : Turn stop n d (f x)) :
    Turn stop n c fun again => p >>= fun x => f x again := by
  refine .bind (fun e d hfail => ?_) fun y d hok => ?_
  · rw [hp] at hfail
    nomatch hfail
  · rw [hp] at hok
    injection hok with hy hd
    exact hy ▸ hd ▸ h

variable {step : (α → Parser β) → α → Parser β}

/-- The guard of a repetition makes no difference to a loop. -/
theorem Loops.recur_eq (h : Loops stop step) (a : α) (c : Cursor) :
    recur step a c = step (recur step) a c := by
  rw [Parser.recur_eq]
  cases h a c with
  | last hlast => rw [hlast, hlast]
  | next short hnext =>
    rw [hnext, hnext, map_eq_pure_bind, map_eq_pure_bind, bind_apply, bind_apply, beyond,
      if_pos short]

/-- A loop that ends only in successes ends in one. -/
theorem Loops.endsOk {Q : Cursor → Prop} (h : Loops (EndsOk Q) step) (a : α) (c : Cursor) :
    EndsOk Q (recur step a c) := by
  -- The induction is on the number of tokens left, which falls from turn to turn.
  suffices ∀ n a c, c.rest.length < n → EndsOk Q (recur step a c) from
    this _ a c (Nat.lt_succ_self _)
  intro n
  induction n with
  | zero => intro a c hn; omega
  | succ n ih =>
    intro a c hn
    rw [h.recur_eq]
    cases h a c with
    | last hlast hr => exact hlast _ ▸ hr
    | next short hnext =>
      obtain ⟨b, d, hok, hd⟩ := ih _ _ (Nat.lt_of_lt_of_le short (by omega))
      rw [hnext, map_eq_pure_bind, bind_apply, hok]
      exact ⟨_, d, rfl, hd⟩

end

/-! ### Recursion -/

section

variable {δ : Type} (S : Parser δ → Prop) (n : Nat)

/-- From this cursor, `F` enters its argument only where fewer than `n` tokens are left. -/
def Enters (c : Cursor) (F : Parser δ → Parser α) : Prop :=
  ∀ p q, S p → S q → (∀ d, d.rest.length < n → p d = q d) → F p c = F q c

/-- So it is from each cursor with fewer than `m` tokens. -/
def EntersBelow (m : Nat) (F : Parser δ → Parser α) : Prop :=
  ∀ c, c.rest.length < m → Enters S n c F

end

section

variable {δ : Type} {S : Parser δ → Prop} {m n : Nat} {c : Cursor}

theorem Enters.const {p : Parser α} : Enters S n c fun _ => p := fun _ _ _ _ _ => rfl

theorem Enters.look {p : Parser β} {b : β} {F : β → Parser δ → Parser α} (hp : p c = .ok b c)
    (h : Enters S n c (F b)) : Enters S n c fun r => p >>= fun b => F b r := by
  intro r s hr hs same
  dsimp only
  rw [bind_apply, bind_apply, hp]
  exact h r s hr hs same

theorem Enters.bind {F : Parser δ → Parser β} {G : β → Parser δ → Parser α} (hF : Enters S n c F)
    (hG : ∀ p, S p → ∀ b d, F p c = .ok b d → Enters S n d (G b)) :
    Enters S n c fun p => F p >>= fun b => G b p := by
  intro p q hp hq same
  dsimp only
  rw [bind_apply, bind_apply, hF p q hp hq same]
  split
  · next b d hok => exact hG q hq b d hok p q hp hq same
  · rfl

theorem EntersBelow.self : EntersBelow S n n fun p => p := fun c hc _ _ _ _ same => same c hc

theorem EntersBelow.const {p : Parser α} : EntersBelow S n m fun _ => p := fun _ _ => .const

/-- What comes first only has to be steady. -/
theorem EntersBelow.bind {F : Parser δ → Parser β} {G : β → Parser δ → Parser α} {Q : β → Prop}
    (hF : EntersBelow S n m F) (steady : ∀ p, S p → Steady admitted Q (F p))
    (hG : ∀ b, EntersBelow S n m (G b)) :
    EntersBelow S n m fun p => F p >>= fun b => G b p := fun c hc =>
  (hF c hc).bind fun p hp b d hok => hG b d (by have := (steady p hp).length_le hok; omega)

/-- What comes first does not use the argument. -/
theorem EntersBelow.next {p : Parser β} {G : β → Parser δ → Parser α} {Q : β → Prop}
    (hp : Steady anyKind Q p) (hG : ∀ b, EntersBelow S n m (G b)) :
    EntersBelow S n m fun q => p >>= fun b => G b q := .bind .const (fun _ _ => hp) hG

/-- Behind something that has been consumed, the argument may be entered. -/
theorem EntersBelow.behind {p : Parser β} {G : β → Parser δ → Parser α} (hp : Consumes p)
    (hG : ∀ b, EntersBelow S n n (G b)) :
    EntersBelow S n (n + 1) fun q => p >>= fun b => G b q := fun c hc =>
  Enters.const.bind fun _ _ b d hok => hG b d (by have := hp c b d hok; omega)

theorem EntersBelow.outcome {F : Parser δ → Parser α} (h : EntersBelow S n m F) :
    EntersBelow S n m fun p => outcome (F p) := by
  intro c hc p q hp hq same
  have inner := h c hc p q hp hq same
  simp only [Parser.outcome, inner]

theorem EntersBelow.recur (step : Parser δ → (γ → Parser α) → γ → Parser α)
    (h : ∀ again a, EntersBelow S n m fun p => step p again a) (a : γ) :
    EntersBelow S n m fun p => recur (step p) a := by
  suffices ∀ k a c, c.rest.length < k → c.rest.length < m →
      Enters S n c fun p => Parser.recur (step p) a from
    fun c hc => this _ a c (Nat.lt_succ_self _) hc
  intro k
  induction k with
  | zero => intro a c hk; omega
  | succ k ih =>
    intro a c hk hm p q hp hq same
    have entries : beyond c (Parser.recur (step p)) = beyond c (Parser.recur (step q)) := by
      funext b d
      unfold beyond
      split
      · exact ih b d (by omega) (by omega) p q hp hq same
      · rfl
    have first := Parser.recur_eq (step p) a c
    have second := Parser.recur_eq (step q) a c
    rw [← entries] at second
    exact first.trans ((h _ a c hm p q hp hq same).trans second.symm)

/-- The guard of a repetition makes no difference to a recursion that enters its argument only
where something has been consumed. -/
theorem recur_eq_of_enters {F : Parser α → Parser α} {P : α → Prop}
    (steady : ∀ p, Steady admitted P p → Steady admitted P (F p))
    (h : ∀ n, EntersBelow (Steady admitted P) n (n + 1) F) (c : Cursor) :
    recur (fun again _ => F (again ())) () c = F (recur (fun again _ => F (again ())) ()) c := by
  have whole : Steady admitted P (recur (fun again _ => F (again ())) ()) :=
    .recur_all (fun _ hagain _ => steady _ (hagain ())) ()
  rw [Parser.recur_eq]
  refine h c.rest.length c (Nat.lt_succ_self _) _ _ (.beyond fun d _ => whole d) whole ?_
  intro d hd
  rw [beyond, if_pos hd]

end

end Contracts.Parser
