import Contracts.Proofs.Grammar.Expression
import Contracts.Proofs.Parsing.Sound

/-! Reading expressions. -/

namespace Contracts

/-! ### The ladder -/

/-- The operators of a level with the symbols that they are written with. -/
def Level.operators (l : Level) : List (Symbol × BinaryOp) :=
  (BinaryOp.all.filter (·.level = l)).map fun op => (op.sign, op)

namespace Parser

variable {α : Type} {registry : Registry} {on : Bool}

theorem ladder_eq :
    ladder = [.disjunction, .conjunction, .equality, .relation, .sum, .product].map
      Level.operators := rfl

theorem lookup_sign {ops : List BinaryOp} {s : Symbol} {op : BinaryOp} :
    (ops.map fun op => (op.sign, op)).lookup s = some op ↔ op ∈ ops ∧ op.sign = s := by
  induction ops with
  | nil => simp
  | cons o ops ih =>
    rw [List.map_cons, List.lookup_cons]
    by_cases h : s = o.sign
    · subst h
      simp only [beq_self_eq_true, Option.some.injEq, List.mem_cons]
      constructor
      · rintro rfl
        exact ⟨.inl rfl, rfl⟩
      · rintro ⟨-, h⟩
        exact (BinaryOp.sign_injective h).symm
    · have hne : (s == o.sign) = false := by simpa using h
      simp only [hne, ih, List.mem_cons]
      constructor
      · rintro ⟨hmem, hs⟩
        exact ⟨.inr hmem, hs⟩
      · rintro ⟨rfl | hmem, hs⟩
        · exact absurd hs.symm h
        · exact ⟨hmem, hs⟩

/-- A token joins operands of a level when it is the sign of an operator of that level. -/
theorem operator?_eq_some_iff {l : Level} {k : TokenKind} {op : BinaryOp} :
    operator? l.operators k = some op ↔ op.level = l ∧ k = .symbol op.sign := by
  cases k with
  | symbol s =>
    rw [operator?, Level.operators, lookup_sign]
    simp [BinaryOp.mem_all, eq_comm]
  | _ => simp [operator?]

theorem prefixOperator?_eq_some_iff {k : TokenKind} {op : UnaryOp} :
    prefixOperator? k = some op ↔ k = .symbol op.sign := by
  constructor
  · intro h
    unfold prefixOperator? at h
    split at h
    · injection h with h
      exact h ▸ rfl
    · injection h with h
      exact h ▸ rfl
    · nomatch h
  · rintro rfl
    cases op <;> rfl

/-! ### What is read is derived -/

theorem sound_chain {l m : Level} {operand : Parser Expr} (next : l.next? = some m)
    (grouping : l ≠ .implication) (h : Sound on (Derives registry on m) operand) :
    Sound on (Derives registry on l) (chain l.operators operand) := by
  -- Behind a left operand, the rest of a chain continues every word of that operand.
  have rest : ∀ left, Sound on
      (fun w e => ∀ v, Derives registry on l v left → Derives registry on l (v ++ w) e)
      (recur (chain.step l.operators operand) left) := by
    intro left
    refine Sound.recur
      (D := fun left w e => ∀ v, Derives registry on l v left → Derives registry on l (v ++ w) e)
      (fun again hagain left c hc => ?_) left
    refine .look (a := c.kind) rfl ?_
    split
    · exact .of_ok rfl fun v hv => by rwa [List.append_nil]
    · next op hop =>
      obtain ⟨level, hk⟩ := operator?_eq_some_iff.1 hop
      refine (soundAt_advance hk (by simp)).bind fun _ d hd => ?_
      refine (h d (hd.trans hc)).bind fun right e he => ?_
      refine (hagain (joined op left right) e (he.trans (hd.trans hc))).mono ?_
      intro u b hb w hw s hs v hv
      rw [hs.1]
      have := hb _ (.binary level grouping next hv hw)
      simpa using this
  refine h.bind fun a => (rest a).mono ?_
  intro w e he v hv
  exact he v (.loosen next hv)

theorem sound_prefixed {operand : Parser Expr}
    (h : Sound on (Derives registry on .selection) operand) :
    Sound on (Derives registry on .prefixed) (prefixed operand) := by
  refine Sound.recur (D := fun _ => Derives registry on .prefixed) (fun again hagain _ c hc => ?_) ()
  refine .look (a := c.kind) rfl ?_
  split
  · exact (h c hc).mono fun _ _ hw => .loosen rfl hw
  · next op hop =>
    refine (soundAt_advance (prefixOperator?_eq_some_iff.1 hop) (by simp)).bind fun _ d hd => ?_
    refine (hagain () d (hd.trans hc)).bind fun e d' _ => .of_ok rfl ?_
    intro w hw s hs
    rw [hs.1, List.append_nil]
    exact .unary hw

theorem sound_commaSeparated {D : List TokenKind → α → Prop} {item : Parser α}
    (h : Sound on D item) :
    Sound on (fun w as => as ≠ [] ∧ Commas D w as) (commaSeparated item) := by
  refine Sound.recur (D := fun _ w as => as ≠ [] ∧ Commas D w as) (fun again hagain _ c hc => ?_) ()
  refine (h c hc).bind fun a d hd => ?_
  refine (sound_accept .comma d (hd.trans hc)).bind fun found e he => ?_
  split
  · refine (hagain () e (he.trans (hd.trans hc))).bind fun as e' _ => .of_ok rfl ?_
    rintro w ⟨hne, hw⟩ s rfl v hv
    obtain ⟨b, bs, rfl⟩ := List.exists_cons_of_ne_nil hne
    refine ⟨List.cons_ne_nil _ _, ?_⟩
    simpa using Commas.more hv hw
  · refine .of_ok rfl ?_
    rintro s rfl v hv
    exact ⟨List.cons_ne_nil _ _, by simpa using Commas.one hv⟩

theorem sound_parenthesized {D : List TokenKind → α → Prop} {item : Parser α}
    (h : Sound on D item) :
    Sound on (fun w as => ∃ v, w = .symbol .leftParen :: (v ++ [.symbol .rightParen]) ∧ Commas D v as)
      (parenthesized item) := by
  refine (sound_expectSymbol .leftParen).bind fun _ c hc => ?_
  refine .look (a := c.kind) rfl ?_
  have close : ∀ as d, d.reserving = on → SoundAt d
      (fun w bs => ∀ v, Commas D v as → ∀ s, s = [.symbol .leftParen] →
        ∃ u, s ++ (v ++ w) = .symbol .leftParen :: (u ++ [.symbol .rightParen]) ∧ Commas D u bs)
      (expectSymbol .rightParen >>= fun _ => pure as) := by
    intro as d hd
    refine (sound_expectSymbol .rightParen d hd).bind fun _ d' _ => .of_ok rfl ?_
    rintro _ rfl v hv _ rfl
    exact ⟨v, by simp, hv⟩
  split
  · refine .look rfl ((close [] c hc).mono ?_)
    intro w bs hbs
    exact hbs [] .none
  · refine (sound_commaSeparated h c hc).bind fun as d hd => ?_
    refine (close as d (hd.trans hc)).mono ?_
    rintro w bs hbs v ⟨-, hv⟩ s hs
    simpa using hbs v hv s hs

theorem sound_selections {expr : Parser Expr} (h : Sound on (Derives registry on .implication) expr)
    (e : Expr) :
    Sound on
      (fun w e' => ∀ v, Derives registry on .selection v e → Derives registry on .selection (v ++ w) e')
      (selections expr e) := by
  refine Sound.recur (D := fun e w e' => ∀ v, Derives registry on .selection v e →
    Derives registry on .selection (v ++ w) e') (fun again hagain e c hc => ?_) e
  refine .look (a := c.kind) rfl ?_
  split
  · refine (sound_parenthesized h c hc).bind fun args d hd => ?_
    refine .look rfl ?_
    refine (hagain _ d (hd.trans hc)).mono ?_
    rintro w e' he' _ ⟨u, rfl, hargs⟩ v hv
    have := he' _ (.call hv hargs)
    simpa using this
  · next hk =>
    refine (soundAt_advance hk (by simp)).bind fun _ d hd => ?_
    refine (sound_expectName _ d (hd.trans hc)).bind fun n d' hd' => ?_
    refine (hagain _ d' (hd'.trans (hd.trans hc))).mono ?_
    rintro w e' he' _ rfl _ ⟨rfl, -⟩ v hv
    have := he' _ (.field hv)
    simpa using this
  · exact .of_ok rfl fun v hv => by rwa [List.append_nil]

theorem sound_stateReferenceOf {expr : Parser Expr} {word : String} {d : Descriptor}
    {keyword : StateKeyword} (h : Sound on (Derives registry on .implication) expr)
    (other : word ≠ resultWord) (registered : registry.get? word = some d)
    (kind : d.kind = .state keyword) {c : Cursor} (hc : c.reserving = on)
    (hk : c.kind = .specWord word) :
    SoundAt c (Derives registry on .selection) (stateReferenceOf expr d keyword) := by
  refine (soundAt_advance hk (by simp)).bind fun _ c' hc' => ?_
  refine .look (a := c'.kind) rfl ?_
  split
  · refine (sound_parenthesized h c' (hc'.trans hc)).bind fun args e he => ?_
    refine .look rfl ?_
    refine (sound_selections h _ e (he.trans (hc'.trans hc))).mono ?_
    rintro w e' he' _ ⟨u, rfl, hargs⟩ _ ⟨rfl, -⟩
    have := he' _ (.loosen rfl (.state other registered kind hargs))
    simpa using this
  · exact sound_placeholder _ c' (hc'.trans hc)

theorem sound_specWord {expr : Parser Expr} {word : String}
    (h : Sound on (Derives registry on .implication) expr) {c : Cursor} (hc : c.reserving = on)
    (hk : c.kind = .specWord word) :
    SoundAt c (Derives registry on .selection) (specWord registry expr word) := by
  unfold specWord
  split
  · next hword =>
    subst hword
    refine (soundAt_advance hk (by simp)).bind fun _ _ _ => .of_ok rfl ?_
    rintro _ ⟨rfl, -⟩
    exact .loosen rfl .result
  · next hword =>
    split
    · next d keyword hfound =>
      obtain ⟨d', registered, hkind⟩ := Option.bind_eq_some_iff.1 hfound
      obtain ⟨keyword', hstate, heq⟩ := Option.map_eq_some_iff.1 hkind
      injection heq with hd hkeyword
      subst hd hkeyword
      have kind : d'.kind = .state keyword' := by
        unfold Descriptor.stateKeyword? ClauseKind.stateKeyword? at hstate
        split at hstate
        · next heq =>
          injection hstate with hstate
          rw [heq, hstate]
        · nomatch hstate
      exact sound_stateReferenceOf h hword registered kind hc hk
    · exact (soundAt_advance hk (by simp)).bind fun _ c' hc' =>
        sound_placeholder _ c' (hc'.trans hc)

theorem sound_primary {expr : Parser Expr} (h : Sound on (Derives registry on .implication) expr) :
    Sound on (Derives registry on .selection) (primary registry expr) := fun c hc => by
  refine .look (a := c.kind) rfl ?_
  split
  · next word hk =>
    refine .look (clauseKeyword?_apply registry c) ?_
    refine (soundAt_advance hk (by simp)).bind fun t d hd => ?_
    split
    · exact sound_placeholder _ d (hd.trans hc)
    · next free =>
      refine .of_ok rfl ?_
      rintro _ ⟨rfl, -⟩
      have hfree : registry.Free on word := fun hon => by
        simpa [TokenKind.keyword?, hc, hon, hk] using free
      exact .loosen rfl (Derives.name (n := ⟨word, t.span⟩) hfree)
  · next hk =>
    refine (soundAt_advance hk (by simp)).bind fun _ _ _ => .of_ok rfl ?_
    rintro _ ⟨rfl, -⟩
    exact .loosen rfl .int
  · next hk =>
    refine (soundAt_advance hk (by simp)).bind fun _ _ _ => .of_ok rfl ?_
    rintro _ ⟨rfl, -⟩
    exact .loosen rfl .true
  · next hk =>
    refine (soundAt_advance hk (by simp)).bind fun _ _ _ => .of_ok rfl ?_
    rintro _ ⟨rfl, -⟩
    exact .loosen rfl .false
  · next hk =>
    refine (soundAt_advance hk (by simp)).bind fun _ d hd => ?_
    refine (h d (hd.trans hc)).bind fun e d' hd' => ?_
    refine (sound_expectSymbol .rightParen d' (hd'.trans (hd.trans hc))).bind fun _ _ _ =>
      .of_ok rfl ?_
    rintro _ rfl w hw _ ⟨rfl, -⟩
    exact .loosen rfl (.parens hw)
  · next hk => exact sound_specWord h hc hk
  · exact .of_error rfl

theorem sound_selected {expr : Parser Expr} (h : Sound on (Derives registry on .implication) expr) :
    Sound on (Derives registry on .selection) (selected registry expr) := by
  refine (sound_primary h).bind fun e => (sound_selections h e).mono ?_
  intro w e' he' v hv
  exact he' v hv

theorem sound_disjunction {expr : Parser Expr}
    (h : Sound on (Derives registry on .implication) expr) :
    Sound on (Derives registry on .disjunction) (disjunction registry expr) := by
  rw [disjunction, ladder_eq]
  apply sound_chain (m := .conjunction) rfl (by decide)
  apply sound_chain (m := .equality) rfl (by decide)
  apply sound_chain (m := .relation) rfl (by decide)
  apply sound_chain (m := .sum) rfl (by decide)
  apply sound_chain (m := .product) rfl (by decide)
  apply sound_chain (m := .prefixed) rfl (by decide)
  exact sound_prefixed (sound_selected h)

theorem sound_implication {expr : Parser Expr}
    (h : Sound on (Derives registry on .implication) expr) :
    Sound on (Derives registry on .implication) (implication registry expr) := by
  refine (sound_disjunction h).bind fun left => ?_
  refine (sound_accept .implies).bind fun found => ?_
  intro c hc
  split
  · refine (h c hc).bind fun right _ _ => .of_ok rfl ?_
    rintro w hw _ rfl v hv
    simpa [joined] using Derives.implies hv hw
  · refine .of_ok rfl ?_
    rintro _ rfl v hv
    simpa using Derives.loosen rfl hv

/-- Tokens that are read as an expression without a new error are that expression. -/
theorem sound_expression (registry : Registry) (on : Bool) :
    Sound on (Derives registry on .implication) (expression registry) :=
  Sound.recur (D := fun _ => Derives registry on .implication)
    (fun _ hagain _ => sound_implication (hagain ())) ()

end Parser

end Contracts
