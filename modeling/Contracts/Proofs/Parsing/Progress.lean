import Contracts.Proofs.Parsing.Consumption

/-! Reading ends. Every turn of every loop consumes a token or is the last one, recovery
included, and expressions and statements are entered again only behind something that was
consumed. So a unit is read to the end of its tokens, whatever they are. -/

namespace Contracts.Parser

open Cursor

variable {α : Type} {registry : Registry}

/-! ### Turns -/

theorem loops_classes (registry : Registry) :
    Loops (EndsOk fun d => d.kind = .endOfText) fun again _ => classes.step registry again := by
  intro _ c
  refine .run (x := c.kind) rfl ?_
  split
  · next hk => exact .pure ⟨[], c, rfl, hk⟩
  · next hk =>
    have more : c.kind ≠ .endOfText := by simp [hk]
    obtain ⟨found, d, hok, short⟩ := exists_classOrSkip more
    exact .run hok (.map _ short)
  · next more _ =>
    refine .run rfl (.run rfl (.run rfl (.run rfl (.again ?_))))
    have first : (c.report ⟨.expectedClass c.kind, c.span⟩).advance.rest.length < c.rest.length :=
      length_advance_lt more
    exact Nat.lt_of_le_of_lt (passes_skip _ _).rest.length_le first

theorem loops_members (registry : Registry) :
    Loops (EndsOk fun d => d.kind.Closes) fun again _ => members.step registry again := by
  intro _ c
  refine .run (x := c.kind) rfl ?_
  split
  · next hk => exact .pure ⟨[], c, rfl, .inl hk⟩
  · next hk => exact .pure ⟨[], c, rfl, .inr hk⟩
  · next hk => exact .run rfl (.again (length_advance_lt (by simp [hk])))
  · next open_ more _ =>
    have goes : ¬c.kind.Closes := fun hk => hk.elim open_ more
    obtain ⟨m, d, hok, short⟩ := exists_memberOrSkip registry goes
    exact .run hok (.map _ short)

theorem loops_statementsOf {statement : Parser Statement}
    (steady : SteadyStatement registry statement)
    (consumes : Consumes statement) :
    Loops (EndsOk fun d => d.kind.Closes) fun again _ => statementsOf.step statement again := by
  intro _ c
  refine .run (x := c.kind) rfl ?_
  split
  · next hk => exact .pure ⟨[], c, rfl, .inl hk⟩
  · next hk => exact .pure ⟨[], c, rfl, .inr hk⟩
  · next hk => exact .run rfl (.again (length_advance_lt (by simp [hk])))
  · next open_ more _ =>
    obtain ⟨s, d, hok, short⟩ := exists_statementOrPlaceholder steady consumes (c := c) fun hk =>
      hk.elim open_ more
    exact .run hok (.map _ short)

/-- Nothing is said of how a loop ends. -/
abbrev AnyEnd : EStateM.Result SyntaxError Cursor α → Prop := fun _ => True

theorem loops_specClauses (registry : Registry) :
    Loops AnyEnd fun again _ => specClauses.step registry again := by
  intro _ c
  refine .run (clauseKeyword?_apply registry c) ?_
  split
  · next d _ =>
    refine .bind (fun _ _ _ => trivial) fun a d' hok => ?_
    exact .map _ (consumes_specClause d c a d' hok)
  · exact .pure trivial

theorem loops_specCases (registry : Registry) :
    Loops AnyEnd fun again _ => specCases.step registry again := by
  intro _ c
  refine .bind (fun _ _ _ => trivial) fun a d hok => ?_
  have le := (steady_specCase registry).length_le hok
  refine .run (x := d.kind) rfl ?_
  split
  · next hk =>
    have lt := length_advance_lt (c := d) (by simp [hk])
    exact .run rfl (.map _ (Nat.lt_of_lt_of_le lt le))
  · exact .pure trivial

theorem loops_commaSeparated {P : α → Prop} {item : Parser α}
    (h : Steady TokenKind.isInner P item) :
    Loops AnyEnd fun again _ => commaSeparated.step item again := by
  intro _ c
  refine .bind (fun _ _ _ => trivial) fun a d hok => ?_
  have le := h.length_le hok
  by_cases hk : d.kind = .symbol .comma
  · have comma : accept .comma d = .ok true d.advance := by rw [accept_apply, if_pos hk]
    have lt := length_advance_lt (c := d) (by simp [hk])
    exact .run comma (.map _ (Nat.lt_of_lt_of_le lt le))
  · have other : accept .comma d = .ok false d := by rw [accept_apply, if_neg hk]
    exact .run other (.pure trivial)

section

variable {expr : Parser Expr} (h : SteadyExpr registry expr)

include h

theorem loops_selections : Loops AnyEnd (selections.step expr) := by
  intro e c
  refine .run (x := c.kind) rfl ?_
  split
  · refine .bind (fun _ _ _ => trivial) fun args d hok => ?_
    exact .run rfl (.again (consumes_parenthesized h c args d hok))
  · next hk =>
    refine .run rfl (.bind (fun _ _ _ => trivial) fun n d hok => .again ?_)
    have lt := length_advance_lt (c := c) (by simp [hk])
    exact Nat.lt_of_le_of_lt ((Steady.expectName _).length_le hok) lt
  · exact .pure trivial

theorem loops_chain (level : List (Symbol × BinaryOp)) : Loops AnyEnd (chain.step level expr) := by
  intro left c
  refine .run (x := c.kind) rfl ?_
  split
  · exact .pure trivial
  · next op hop =>
    refine .run rfl (.bind (fun _ _ _ => trivial) fun right d hok => .again ?_)
    have lt := length_advance_lt (c := c) fun hk => by simp [hk, operator?] at hop
    exact Nat.lt_of_le_of_lt (h.length_le hok) lt

end

theorem loops_prefixed (operand : Parser Expr) :
    Loops AnyEnd fun again _ => prefixed.step operand again := by
  intro _ c
  refine .run (x := c.kind) rfl ?_
  split
  · cases hok : operand c with
    | ok e d => exact .last (r := .ok e d) (fun _ => hok) trivial
    | error e d => exact .last (r := .error e d) (fun _ => hok) trivial
  · next op hop =>
    have lt := length_advance_lt (c := c) fun hk => by simp [hk, prefixOperator?] at hop
    exact .run rfl (.map (fun e => Expr.unary op e ⟨c.current.span.start, e.span.stop⟩) lt)

/-! ### Recursion -/

section

variable {β : Type} {S : Parser β → Prop} {n m : Nat}

theorem enters_commaSeparated {P : α → Prop} {F : Parser β → Parser α} (h : EntersBelow S n m F)
    (steady : ∀ p, S p → Steady TokenKind.isInner P (F p)) :
    EntersBelow S n m fun p => commaSeparated (F p) := by
  refine .recur (fun p again _ => commaSeparated.step (F p) again) (fun again _ => ?_) ()
  exact .bind h steady fun _ => .const

theorem enters_parenthesized {P : α → Prop} {F : Parser β → Parser α} (h : EntersBelow S n n F)
    (steady : ∀ p, S p → Steady TokenKind.isInner P (F p)) :
    EntersBelow S n (n + 1) fun p => parenthesized (F p) := by
  refine .behind (consumes_expectSymbol _) fun _ => ?_
  refine .next .kind fun k => ?_
  split
  · exact .const
  · exact .bind (enters_commaSeparated h steady) (fun p hp => steady_commaSeparated (steady p hp))
      fun _ => .const

end

section

variable {n m : Nat}

theorem enters_selections (e : Expr) :
    EntersBelow (SteadyExpr registry) n (n + 1) fun p => selections p e := by
  refine .recur _ (fun again e => ?_) e
  refine .next .kind fun k => ?_
  split
  · exact .bind (enters_parenthesized .self fun _ hp => hp) (fun _ hp => steady_parenthesized hp)
      fun _ => .const
  · exact .const
  · exact .const

theorem enters_stateReferenceOf (d : Descriptor) (keyword : StateKeyword) :
    EntersBelow (SteadyExpr registry) n (n + 1) fun p => stateReferenceOf p d keyword := by
  refine .next .advance fun t => ?_
  refine .next .kind fun k => ?_
  split
  · refine .bind (enters_parenthesized .self fun _ hp => hp) (fun _ hp => steady_parenthesized hp)
      fun args => ?_
    exact .next .previousEnd fun _ =>
      enters_selections _
  · exact .const

theorem enters_specWord (word : String) :
    EntersBelow (SteadyExpr registry) n (n + 1) fun p => specWord registry p word := by
  unfold specWord
  split
  · exact .const
  · split
    · exact enters_stateReferenceOf _ _
    · exact .const

theorem enters_primary :
    EntersBelow (SteadyExpr registry) n (n + 1) fun p => primary registry p := by
  intro c hc
  refine .look (b := c.kind) rfl ?_
  split
  · exact .const
  · exact .const
  · exact .const
  · exact .const
  · next hk =>
    -- The parenthesis has been consumed where the expression in it starts.
    refine Enters.const.bind fun _ _ t d hok => ?_
    have lt := consumesAt_advance (by simp [hk]) t d hok
    exact EntersBelow.self.bind (fun _ hp => hp) (fun _ => .const) d (by omega)
  · exact enters_specWord _ c hc
  · exact .const

theorem enters_selected :
    EntersBelow (SteadyExpr registry) n (n + 1) fun p => selected registry p :=
  .bind enters_primary (fun _ hp => steady_primary hp) fun e => enters_selections e

theorem enters_chain (l : Level) {F : Parser Expr → Parser Expr}
    (h : EntersBelow (SteadyExpr registry) n m F)
    (steady : ∀ p, SteadyExpr registry p → SteadyExpr registry (F p)) :
    EntersBelow (SteadyExpr registry) n m fun p => chain l.operators (F p) := by
  refine .bind h steady fun left => .recur _ (fun again left => ?_) left
  refine .next .kind fun k => ?_
  split
  · exact .const
  · refine .next .advance fun _ => ?_
    exact .bind h steady fun _ => .const

theorem enters_prefixed {F : Parser Expr → Parser Expr}
    (h : EntersBelow (SteadyExpr registry) n m F) :
    EntersBelow (SteadyExpr registry) n m fun p => prefixed (F p) := by
  refine .recur (fun p again _ => prefixed.step (F p) again) (fun again _ => ?_) ()
  refine .next .kind fun k => ?_
  split
  · exact h
  · exact .const

theorem enters_ladder (levels : List Level) :
    EntersBelow (SteadyExpr registry) n (n + 1) fun p =>
      levels.foldr (fun l => chain l.operators) (prefixed (selected registry p)) := by
  induction levels with
  | nil => exact enters_prefixed enters_selected
  | cons l levels ih => exact enters_chain l ih fun _ hp => steady_ladder hp levels

theorem enters_disjunction :
    EntersBelow (SteadyExpr registry) n (n + 1) fun p => disjunction registry p := by
  simp only [disjunction, ladder_eq, List.foldr_map]
  exact enters_ladder _

theorem enters_implication :
    EntersBelow (SteadyExpr registry) n (n + 1) fun p => implication registry p := by
  refine .bind enters_disjunction (fun _ hp => steady_disjunction hp) fun left c hc => ?_
  refine Enters.const.bind fun _ _ found d hok => ?_
  rw [accept_apply] at hok
  split at hok
  · next hk =>
    -- The operator has been consumed where its right operand starts.
    injection hok with hfound hd
    subst hfound hd
    have lt := length_advance_lt (c := c) (by simp [hk])
    exact EntersBelow.self.bind (fun _ hp => hp) (fun _ => .const) c.advance (by omega)
  · injection hok with hfound hd
    subst hfound hd
    exact .const

/-- Expressions are read as the grammar is, without a guard. -/
theorem expression_eq (registry : Registry) (c : Cursor) :
    expression registry c = implication registry (expression registry) c :=
  recur_eq_of_enters (fun _ hp => steady_implication hp) (fun _ => enters_implication) c

theorem enters_statementsOf :
    EntersBelow (SteadyStatement registry) n n fun p => statementsOf p := by
  refine .recur (fun p again _ => statementsOf.step p again) (fun again _ => ?_) ()
  refine .next .kind fun k => ?_
  split
  · exact .const
  · exact .const
  · exact .const
  · refine .bind ?_ (fun _ hp => steady_statementOrPlaceholder hp) fun _ => .const
    refine .next .span fun _ => ?_
    exact .bind (.outcome .self) (fun _ hp => hp.outcome) fun _ => .const

theorem enters_blockOf :
    EntersBelow (SteadyStatement registry) n (n + 1) fun p => blockOf p := by
  refine .behind (consumes_expectSymbol _) fun _ => ?_
  exact .bind enters_statementsOf (fun _ hp => steady_statementsOf hp) fun _ => .const

theorem enters_labeledStatement :
    EntersBelow (SteadyStatement registry) n (n + 1) fun p => labeledStatement p := by
  refine .behind (consumes_nameOr _) fun _ => ?_
  refine .next (.expectSymbol rfl) fun _ => ?_
  exact .bind .self (fun _ hp => hp) fun _ => .const

theorem enters_statementOf :
    EntersBelow (SteadyStatement registry) n (n + 1) fun p => statementOf registry p := by
  refine .next .kind fun k => ?_
  split
  · exact .bind enters_blockOf (fun _ hp => steady_blockOf hp) fun _ => .const
  · exact .const
  · refine .next Steady.clauseKeyword? fun found => ?_
    split
    · exact .const
    · refine .next .kind fun _ => ?_
      refine .next .secondKind fun _ => ?_
      split
      · exact enters_labeledStatement
      · exact .const
      · exact .const
      · exact .const

/-- Statements are read as the grammar is, without a guard. -/
theorem statement_eq (registry : Registry) (c : Cursor) :
    statement registry c = statementOf registry (statement registry) c :=
  recur_eq_of_enters (fun _ hp => steady_statementOf hp) (fun _ => enters_statementOf) c

end

/-! ### Whole units -/

/-- Each run takes steps over one token or to one more error. -/
def Forward (p : Parser α) : Prop := ∀ c : Cursor, c.Walks anyKind (p.after c)

theorem Steady.forward {admitted : TokenKind → Bool} {P : α → Prop} {p : Parser α}
    (h : Steady admitted P p) : Forward p := fun c => (h c).walks.widen

/-- What keeps reading going, from whatever cursor it starts. -/
structure Progress (registry : Registry) : Prop where
  /-- A unit is read to the end of its tokens. -/
  units : ∀ c : Cursor, ∃ cs d, classes registry c = .ok cs d ∧ d.kind = .endOfText ∧
    c.parseUnit registry = ⟨⟨cs⟩, d.errors⟩
  /-- The position never decreases and errors are only added, in every part of a unit. -/
  forward : Forward (classes registry) ∧ Forward (classDeclaration registry) ∧
    Forward (member registry) ∧ Forward (specCases registry) ∧ Forward (block registry) ∧
    Forward (statement registry) ∧ Forward (expression registry) ∧ Forward (arguments registry)
  unitTurns : Loops (EndsOk fun d => d.kind = .endOfText) fun again _ =>
    classes.step registry again
  memberTurns : Loops (EndsOk fun d => d.kind.Closes) fun again _ => members.step registry again
  statementTurns : Loops (EndsOk fun d => d.kind.Closes) fun again _ =>
    statementsOf.step (statement registry) again
  caseTurns : Loops AnyEnd fun again _ => specCases.step registry again
  clauseTurns : Loops AnyEnd fun again _ => specClauses.step registry again
  selectionTurns : Loops AnyEnd (selections.step (expression registry))
  argumentTurns : Loops AnyEnd fun again _ => commaSeparated.step (expression registry) again
  paramTurns : Loops AnyEnd fun again _ => commaSeparated.step param again
  frameTurns : Loops AnyEnd fun again _ => commaSeparated.step frameMethod again
  chainTurns : ∀ (l : Level) (levels : List Level), Loops AnyEnd (chain.step l.operators
    (levels.foldr (fun m => chain m.operators)
      (prefixed (selected registry (expression registry)))))
  prefixTurns : Loops AnyEnd fun again _ =>
    prefixed.step (selected registry (expression registry)) again
  /-- Expressions and statements contain others only behind something that was consumed. -/
  expressions : ∀ c, expression registry c = implication registry (expression registry) c
  statements : ∀ c, statement registry c = statementOf registry (statement registry) c
  /-- Every move of recovery consumes one token. -/
  skips : ∀ (c : Cursor) (i : Nat), i ≤ terminatorDistance c.rest ∨ i ≤ memberDistance 0 c.rest ∨
    i ≤ classDistance c.rest → (c.skip i).rest.length + i = c.rest.length

/-- Reading goes on to the end, whatever the registry, the tokens and the mode are. -/
theorem progress (registry : Registry) : Progress registry where
  units c := by
    obtain ⟨cs, d, hok, hend⟩ := (loops_classes registry).endsOk () c
    have run : classes registry c = .ok cs d := hok
    exact ⟨cs, d, run, hend, by rw [Cursor.parseUnit, run]⟩
  forward :=
    ⟨(steady_classes registry).forward, (opens_classDeclaration registry).steady.forward,
      (steady_member registry).forward, (steady_specCases registry).forward,
      (steady_block registry).forward, (steady_statement registry).forward,
      (steady_expression registry).forward,
      (steady_parenthesized (steady_expression registry)).forward⟩
  unitTurns := loops_classes registry
  memberTurns := loops_members registry
  statementTurns := loops_statementsOf (steady_statement registry) consumes_statement
  caseTurns := loops_specCases registry
  clauseTurns := loops_specClauses registry
  selectionTurns := loops_selections (steady_expression registry)
  argumentTurns := loops_commaSeparated (steady_expression registry)
  paramTurns := loops_commaSeparated steady_param
  frameTurns := loops_commaSeparated (.nameOr _)
  chainTurns l levels := loops_chain (steady_ladder (steady_expression registry) levels) l.operators
  prefixTurns := loops_prefixed _
  expressions := expression_eq registry
  statements := statement_eq registry
  skips c i h := by
    rcases h with h | h | h
    · exact length_skip (skippable_terminatorDistance c.rest) h
    · exact length_skip (skippable_memberDistance 0 c.rest) h
    · exact length_skip (skippable_classDistance c.rest) h

end Contracts.Parser
