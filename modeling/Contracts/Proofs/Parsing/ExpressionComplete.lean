import Contracts.Proofs.Parsing.Complete
import Contracts.Proofs.Parsing.ExpressionSound

/-! Every expression of the grammar is read, up to spans, before any token that cannot
continue it. -/

namespace Contracts

/-- Tokens that cannot continue an expression of the level. -/
structure Level.Stops (l : Level) (k : TokenKind) : Prop where
  call : k ≠ .symbol .leftParen
  field : k ≠ .symbol .dot
  sign : ∀ op : BinaryOp, l.rank ≤ op.level.rank → k ≠ .symbol op.sign

namespace Level

variable {l m : Level} {k : TokenKind}

theorem Stops.next (next : l.next? = some m) (h : l.Stops k) : m.Stops k := by
  refine ⟨h.call, h.field, fun op hop => h.sign op ?_⟩
  have := rank_next next
  omega

/-- The sign of an operator ends its left operand where that is of a tighter level. -/
theorem stops_sign {op : BinaryOp} (h : op.level.rank < l.rank) : l.Stops (.symbol op.sign) := by
  refine ⟨by cases op <;> decide, by cases op <;> decide, fun op' hop' heq => ?_⟩
  injection heq with heq
  rw [BinaryOp.sign_injective heq] at h
  omega

theorem stops_symbol {s : Symbol} (hparen : s ≠ .leftParen) (hdot : s ≠ .dot)
    (hsign : ∀ op ∈ BinaryOp.all, s ≠ op.sign) : l.Stops (.symbol s) :=
  ⟨by simpa, by simpa, fun op _ heq => hsign op op.mem_all (by simpa using heq)⟩

theorem stops_of_not_continues (h : ¬k.Continues) : l.Stops k :=
  ⟨fun hk => h (.inl hk), fun hk => h (.inr (.inl hk)), fun op _ hk => h (.inr (.inr ⟨op, hk⟩))⟩

end Level

namespace Parser

variable {α : Type} {registry : Registry} {on : Bool} {n : Nat} {l m : Level}
  {w k : List TokenKind} {e : Expr}

/-! ### Items and lists of items -/

/-- Of fewer than `n` tokens, the parser reads every word that derives a result, up to a
view of results, before such tokens. -/
def Complete (on : Bool) (n : Nat) (F : TokenKind → Prop) (D : List TokenKind → α → Prop)
    (f : α → α) (p : Parser α) : Prop :=
  ∀ w k a, (w ++ k).length < n → D w a → F (firstKind k) → Parses on p w k (fun a' => f a' = f a)

theorem parses_commaSeparated {F : TokenKind → Prop} {D : List TokenKind → α → Prop} {f : α → α}
    {item : Parser α} (h : Complete on n F D f item) (hcomma : F (.symbol .comma))
    {as : List α} (hw : Commas D w as) (hne : as ≠ []) (hn : (w ++ k).length < n)
    (hk : F (firstKind k)) (hlast : firstKind k ≠ .symbol .comma) :
    Parses on (commaSeparated item) w k (fun as' => as'.map f = as.map f) := by
  induction hw with
  | none => exact absurd rfl hne
  | @one w a hitem =>
    refine .recur fun again _ => ?_
    refine (h w k a hn hitem hk).bind_last fun a' ha' => ?_
    refine .accept_false hlast ?_
    exact .pure (by simp [ha'])
  | @more v w a b as hitem _ ih =>
    refine .recur fun again hagain => ?_
    refine (h v (.symbol .comma :: w ++ k) a (by simpa using hn) hitem hcomma).bind fun a' ha' => ?_
    refine .accept_true ?_
    have hlt : (w ++ k).length < (v ++ .symbol .comma :: w ++ k).length := by
      simp only [List.length_append, List.length_cons]
      omega
    refine (hagain () w k _ hlt (ih (List.cons_ne_nil _ _) (by omega))).bind_last fun as' has' => ?_
    exact .pure (by rw [List.map_cons, List.map_cons, ha', has'])

theorem parses_parenthesized {F : TokenKind → Prop} {D : List TokenKind → α → Prop} {f : α → α}
    {item : Parser α} (h : Complete on n F D f item) (hcomma : F (.symbol .comma))
    (hclose : F (.symbol .rightParen))
    (hstart : ∀ w a, D w a → ∃ t u, w = t :: u ∧ t ≠ .symbol .rightParen)
    {as : List α} (hw : Commas D w as) (hn : (w ++ .symbol .rightParen :: k).length < n) :
    Parses on (parenthesized item) (.symbol .leftParen :: (w ++ [.symbol .rightParen])) k
      (fun as' => as'.map f = as.map f) := by
  refine .expectSymbol fun _ => .kind ?_
  by_cases hne : as = []
  · subst hne
    cases hw
    refine .look (fun _ _ _ => rfl) (.expectSymbol fun _ => ?_)
    exact .pure rfl
  · have hopen : firstKind (w ++ [.symbol .rightParen] ++ k) ≠ .symbol .rightParen := by
      cases hw with
      | none => exact absurd rfl hne
      | one hitem =>
        obtain ⟨t, u, rfl, ht⟩ := hstart _ _ hitem
        exact ht
      | more hitem _ =>
        obtain ⟨t, u, rfl, ht⟩ := hstart _ _ hitem
        exact ht
    rw [if_neg hopen]
    have hlast : firstKind (.symbol .rightParen :: k) ≠ .symbol .comma := by simp
    refine (parses_commaSeparated h hcomma hw hne hn hclose hlast).bind fun as' has' => ?_
    exact .expectSymbol fun _ => .pure has'

/-! ### Selections -/

/-- Expressions of a level, up to spans. -/
abbrev CompleteExpr (registry : Registry) (on : Bool) (n : Nat) (l : Level) (p : Parser Expr) :
    Prop :=
  Complete on n l.Stops (Derives registry on l) Expr.unspanned p

variable {expr : Parser Expr}

theorem parses_arguments (h : CompleteExpr registry on n .implication expr) {args : List Expr}
    (hw : Commas (Derives registry on .implication) w args)
    (hn : (w ++ .symbol .rightParen :: k).length < n) :
    Parses on (parenthesized expr) (.symbol .leftParen :: (w ++ [.symbol .rightParen])) k
      (fun args' => args'.map Expr.unspanned = args.map Expr.unspanned) := by
  refine parses_parenthesized h ?_ ?_ ?_ hw hn
  · exact Level.stops_symbol (by decide) (by decide) (by decide)
  · exact Level.stops_symbol (by decide) (by decide) (by decide)
  · intro w e he
    obtain ⟨t, u, rfl, ht⟩ := he.exists_cons
    refine ⟨t, u, rfl, ?_⟩
    rintro rfl
    exact absurd (startsExpression_symbol ht) (by decide)

/-- Behind the word, the first parser goes on as the second one goes on with the tree. -/
def GoesOn (on : Bool) (n : Nat) (F : List TokenKind → List TokenKind → Prop) (first : Parser Expr)
    (second : Expr → Parser Expr) (w : List TokenKind) (e : Expr) : Prop :=
  ∀ u k R, (w ++ (u ++ k)).length ≤ n → F u k →
    (∀ e', e'.unspanned = e.unspanned → Parses on (second e') u k R) →
    Parses on first (w ++ u) k R

theorem parses_selections_nil {P : Expr → Prop} (hk : Level.selection.Stops (firstKind k))
    (h : P e) : Parses on (selections expr e) [] k P := by
  refine .recur fun again _ => .kind ?_
  split
  · next heq => exact absurd heq hk.call
  · next heq => exact absurd heq hk.field
  · exact .pure h

theorem keyword?_of_free {word : String} (h : registry.Free on word) :
    (TokenKind.identifier word).keyword? registry on = none := by
  cases on with
  | false => rfl
  | true => exact h rfl

/-- An operand that has been read whole goes on with the selections behind it. -/
theorem goesOn_of_parses_primary (h : ∀ k, (w ++ k).length ≤ n →
      Parses on (primary registry expr) w k (·.unspanned = e.unspanned)) :
    GoesOn on n (fun _ k => Level.selection.Stops (firstKind k)) (selected registry expr)
      (selections expr) w e := by
  intro u k R hn _ hnext
  exact (h (u ++ k) hn).bind fun e' he' => hnext e' he'

theorem parses_stateReferenceOf (h : CompleteExpr registry on n .implication expr)
    {word : String} {d : Descriptor} {keyword : StateKeyword} {args : List Expr} {s t : Span}
    (list : Commas (Derives registry on .implication) w args) :
    GoesOn on n (fun _ _ => True) (stateReferenceOf expr d keyword) (selections expr)
      (.specWord word :: .symbol .leftParen :: (w ++ [.symbol .rightParen]))
      (.state ⟨d, keyword, [], s, t⟩ args none) := by
  intro u k R hn _ hnext
  refine .advance (by simp) fun _ => .kind_cons ?_
  rw [if_pos rfl]
  have hlt : (w ++ .symbol .rightParen :: (u ++ k)).length < n := by
    simp only [List.length_append, List.length_cons, List.length_nil] at hn ⊢
    omega
  refine (parses_arguments h list hlt).bind fun args' hargs' => .previousEnd fun _ => hnext _ ?_
  rw [Expr.unspanned, Expr.unspanned, Expr.unspannedList_eq, Expr.unspannedList_eq, hargs']
  rfl

/-- Primaries, with the selections behind them. -/
theorem goesOn_primary (h : CompleteExpr registry on n .implication expr)
    (he : Derives registry on .primary w e) :
    GoesOn on n (fun _ k => Level.selection.Stops (firstKind k)) (selected registry expr)
      (selections expr) w e := by
  cases he with
  | loosen next => cases next
  | binary level => exact absurd (BinaryOp.rank_level_lt _) (by rw [level]; decide)
  | name free =>
    refine goesOn_of_parses_primary fun k _ => .kind_cons (.clauseKeyword? ?_)
    rw [List.cons_append, firstKind_cons, keyword?_of_free free]
    exact .advance (by simp) fun _ => .pure rfl
  | int =>
    exact goesOn_of_parses_primary fun k _ => .kind_cons (.advance (by simp) fun _ => .pure rfl)
  | true =>
    exact goesOn_of_parses_primary fun k _ => .kind_cons (.advance (by simp) fun _ => .pure rfl)
  | false =>
    exact goesOn_of_parses_primary fun k _ => .kind_cons (.advance (by simp) fun _ => .pure rfl)
  | result =>
    refine goesOn_of_parses_primary fun k _ => .kind_cons ?_
    exact .advance (by simp) fun _ => .pure rfl
  | @parens v _ inner =>
    refine goesOn_of_parses_primary fun k hn => .kind_cons (.advance (by simp) fun _ => ?_)
    have hlt : (v ++ .symbol .rightParen :: k).length < n := by
      simp only [List.length_append, List.length_cons, List.length_nil] at hn ⊢
      omega
    have hclose : Level.implication.Stops (firstKind (.symbol .rightParen :: k)) :=
      Level.stops_symbol (by decide) (by decide) (by decide)
    refine (h v _ _ hlt inner hclose).bind fun e' he' => ?_
    exact .expectSymbol fun _ => .pure he'
  | @state word d keyword v args s t other registered kind list =>
    intro u k R hn hk hnext
    -- The parser of the reference itself reads the selections; none are left behind it.
    refine Parses.bind_last (Q := R) ?_ fun e' he' => parses_selections_nil hk he'
    refine .kind_cons ?_
    have hfound : ((registry.get? word).bind fun d => d.stateKeyword?.map (d, ·)) =
        some (d, keyword) := by
      rw [registered, Option.bind_some, Descriptor.stateKeyword?, kind]
      rfl
    simp only [specWord, if_neg other, hfound]
    exact parses_stateReferenceOf h list u k R hn trivial hnext

/-- Operands without prefix operators. -/
theorem goesOn_selected (h : CompleteExpr registry on n .implication expr)
    (he : Derives registry on .selection w e) :
    GoesOn on n (fun _ k => Level.selection.Stops (firstKind k)) (selected registry expr)
      (selections expr) w e := by
  induction hlength : w.length using Nat.strongRecOn generalizing w e with
  | _ m ih =>
    subst hlength
    cases he with
    | loosen next inner =>
      cases next
      exact goesOn_primary h inner
    | binary level => exact absurd (BinaryOp.rank_level_lt _) (by rw [level]; decide)
    | @field v e _ _ base =>
      intro u k R hn hk hnext
      rw [List.append_assoc] at hn ⊢
      apply ih v.length (by simp) base rfl _ k R (by simpa using hn) hk
      intro e' he'
      refine .recur fun again hagain => .kind_cons (.advance (by simp) fun _ => ?_)
      refine .expectName fun _ => hagain _ u k R ?_ (hnext _ ?_)
      · simp only [List.length_append, List.length_cons]
        omega
      · rw [Expr.unspanned, he']
        rfl
    | @call v w e args _ callee list =>
      intro u k R hn hk hnext
      rw [List.append_assoc] at hn ⊢
      apply ih v.length (by simp) callee rfl _ k R (by simpa using hn) hk
      intro e' he'
      refine .recur fun again hagain => .kind_cons ?_
      have hlt : (w ++ .symbol .rightParen :: (u ++ k)).length < n := by
        simp only [List.length_append, List.length_cons, List.length_nil] at hn ⊢
        omega
      refine (parses_arguments h list hlt).bind fun args' hargs' => .previousEnd fun _ => ?_
      refine hagain _ u k R ?_ (hnext _ ?_)
      · simp only [List.length_append, List.length_cons]
        omega
      · rw [Expr.unspanned, Expr.unspanned, Expr.unspannedList_eq, Expr.unspannedList_eq, he',
          hargs']

/-! ### Operators -/

theorem complete_selected (h : CompleteExpr registry on n .implication expr) :
    CompleteExpr registry on (n + 1) .selection (selected registry expr) := by
  intro w k e hn he hk
  have := goesOn_selected h he [] k (·.unspanned = e.unspanned) (Nat.le_of_lt_succ hn) hk
    fun e' he' => parses_selections_nil hk he'
  rwa [List.append_nil] at this

theorem complete_prefixed {operand : Parser Expr}
    (h : CompleteExpr registry on n .selection operand) :
    CompleteExpr registry on n .prefixed (prefixed operand) := by
  intro w k e hn he hk
  induction hlength : w.length using Nat.strongRecOn generalizing w e with
  | _ m ih =>
    subst hlength
    refine .recur fun again hagain => ?_
    cases he with
    | loosen next inner =>
      cases next
      refine .kind ?_
      have hplain : prefixOperator? (firstKind (w ++ k)) = none := by
        obtain ⟨t, u, rfl, ht | ⟨hrank, -⟩⟩ := inner.exists_first
        · rw [List.cons_append, firstKind_cons, Option.eq_none_iff_forall_ne_some]
          intro op hop
          rw [prefixOperator?_eq_some_iff.1 hop] at ht
          cases op <;> cases ht
        · exact absurd hrank (by decide)
      rw [hplain]
      exact h w k e hn inner (hk.next rfl)
    | binary level => exact absurd (BinaryOp.rank_level_lt _) (by rw [level]; decide)
    | @unary op w e s operand' =>
      refine .kind_cons ?_
      rw [prefixOperator?_eq_some_iff.2 rfl]
      refine .advance (by simp) fun _ => ?_
      have hlt : (w ++ k).length < n := by
        rw [List.cons_append, List.length_cons] at hn
        omega
      have hread := ih w.length (by simp) w e hlt operand' rfl
      refine (hagain () w k _ (by simp) hread).bind_last fun e' he' => .pure ?_
      rw [Expr.unspanned, Expr.unspanned, he']

/-- Operands of one level, grouped to the left. -/
theorem goesOn_chain {operand : Parser Expr} (next : l.next? = some m)
    (hrank : l.rank < Level.prefixed.rank) (grouping : l ≠ .implication)
    (h : CompleteExpr registry on (n + 1) m operand) (he : Derives registry on l w e) :
    GoesOn on n (fun u k => m.Stops (firstKind (u ++ k))) (chain l.operators operand)
      (recur (chain.step l.operators operand)) w e := by
  induction hlength : w.length using Nat.strongRecOn generalizing w e with
  | _ length ih =>
    subst hlength
    intro u k R hn hk hnext
    cases he with
    | loosen next' inner =>
      obtain rfl : m = _ := Option.some.inj (next.symm.trans next')
      exact (h w (u ++ k) e (Nat.lt_succ_of_le hn) inner hk).bind fun e' he' => hnext e' he'
    | implies => exact absurd rfl grouping
    | @binary _ _ op v w a b _ level _ next' left right =>
      obtain rfl : m = _ := Option.some.inj (next.symm.trans next')
      have hsign : m.Stops (.symbol op.sign) := Level.stops_sign (by
        rw [level, Level.rank_next next]
        omega)
      rw [List.append_assoc] at hn ⊢
      refine ih v.length (by simp) left rfl _ k R (by simpa using hn) hsign fun a' ha' => ?_
      refine .recur fun again hagain => .kind_cons ?_
      rw [operator?_eq_some_iff.2 ⟨level, rfl⟩]
      refine .advance (by simp) fun _ => ?_
      have hlt : (w ++ (u ++ k)).length < n + 1 := by
        simp only [List.length_append, List.length_cons] at hn ⊢
        omega
      refine (h w (u ++ k) b hlt right hk).bind fun b' hb' => ?_
      refine hagain _ u k R ?_ (hnext _ ?_)
      · simp only [List.length_append, List.length_cons]
        omega
      · rw [joined, Expr.unspanned, Expr.unspanned, ha', hb']
    | unary => exact absurd hrank (by decide)
    | field => exact absurd hrank (by decide)
    | call => exact absurd hrank (by decide)
    | name => exact absurd hrank (by decide)
    | int => exact absurd hrank (by decide)
    | true => exact absurd hrank (by decide)
    | false => exact absurd hrank (by decide)
    | result => exact absurd hrank (by decide)
    | parens => exact absurd hrank (by decide)
    | state => exact absurd hrank (by decide)

theorem complete_chain {operand : Parser Expr} (next : l.next? = some m)
    (hrank : l.rank < Level.prefixed.rank) (grouping : l ≠ .implication)
    (h : CompleteExpr registry on (n + 1) m operand) :
    CompleteExpr registry on (n + 1) l (chain l.operators operand) := by
  intro w k e hn he hk
  have hread := goesOn_chain next hrank grouping h he [] k (·.unspanned = e.unspanned)
    (Nat.le_of_lt_succ hn) (hk.next next) fun e' he' => by
      refine .recur fun again _ => .kind ?_
      have hlast : operator? l.operators (firstKind ([] ++ k)) = none := by
        rw [List.nil_append, Option.eq_none_iff_forall_ne_some]
        intro op hop
        obtain ⟨level, hsign⟩ := operator?_eq_some_iff.1 hop
        exact hk.sign op (Nat.le_of_eq (by rw [level])) hsign
      rw [hlast]
      exact .pure he'
  rwa [List.append_nil] at hread

theorem complete_disjunction (h : CompleteExpr registry on n .implication expr) :
    CompleteExpr registry on (n + 1) .disjunction (disjunction registry expr) := by
  rw [disjunction, ladder_eq]
  apply complete_chain (m := .conjunction) rfl (by decide) (by decide)
  apply complete_chain (m := .equality) rfl (by decide) (by decide)
  apply complete_chain (m := .relation) rfl (by decide) (by decide)
  apply complete_chain (m := .sum) rfl (by decide) (by decide)
  apply complete_chain (m := .product) rfl (by decide) (by decide)
  apply complete_chain (m := .prefixed) rfl (by decide) (by decide)
  exact complete_prefixed (complete_selected h)

theorem complete_implication (h : CompleteExpr registry on n .implication expr) :
    CompleteExpr registry on (n + 1) .implication (implication registry expr) := by
  intro w k e hn he hk
  cases he with
  | loosen next inner =>
    cases next
    refine (complete_disjunction h w k e hn inner (hk.next rfl)).bind_last fun e' he' => ?_
    exact .accept_false (hk.sign .implies (Nat.zero_le _)) (.pure he')
  | @implies v w a b _ left right =>
    have hsign : Level.disjunction.Stops (.symbol BinaryOp.implies.sign) :=
      Level.stops_sign (by decide)
    have hleft : (v ++ (.symbol .implies :: w ++ k)).length < n + 1 := by simpa using hn
    refine (complete_disjunction h v _ a hleft left hsign).bind fun a' ha' => .accept_true ?_
    have hright : (w ++ k).length < n := by
      simp only [List.length_append, List.length_cons] at hn ⊢
      omega
    refine (h w k b hright right hk).bind_last fun b' hb' => .pure ?_
    rw [joined, Expr.unspanned, Expr.unspanned, ha', hb']
  | binary _ grouping => exact absurd rfl grouping

/-- Every expression is read, whatever its length. -/
theorem complete_expression (registry : Registry) (on : Bool) (n : Nat) :
    CompleteExpr registry on n .implication (expression registry) := by
  induction n with
  | zero => exact fun w k e hn => absurd hn (Nat.not_lt_zero _)
  | succ n ih =>
    intro w k e hn he hk
    refine .recur fun again hagain => ?_
    refine complete_implication (n := (w ++ k).length) ?_ w k e (Nat.lt_succ_self _) he hk
    intro w' k' e' hn' he' hk'
    exact hagain () w' k' _ hn' (ih w' k' e' (by omega) he' hk')

/-! ### Exactness -/

end Parser

end Contracts
