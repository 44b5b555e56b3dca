import Contracts.Proofs.Parsing.Registered
import Contracts.Proofs.Parsing.Turn

/-! What is consumed. Statements and members that are read have consumed something. Where one
of them fails without having consumed anything, its recovery does (`exists_memberOrSkip` and so
on), and recovery consumes one token with every move (`length_skip`). -/

namespace Contracts

/-- Tokens at which a list of members or of statements ends. -/
def TokenKind.Closes (k : TokenKind) : Prop := k = .symbol .rightBrace ∨ k = .endOfText

namespace Cursor

variable {c d : Cursor}

/-! ### Recovery -/

theorem kind_congr (h : d.rest = c.rest) : d.kind = c.kind := by
  unfold kind
  rw [h]

theorem length_skip_lt {n : Nat} (more : c.kind ≠ .endOfText) (hn : 0 < n) :
    (c.skip n).rest.length < c.rest.length := by
  obtain ⟨n, rfl⟩ : ∃ m, n = m + 1 := ⟨n - 1, by omega⟩
  have first := Parser.length_advance_lt more
  have second := (passes_skip n c.advance).rest.length_le
  rw [skip]
  omega

theorem terminatorDistance_pos (h : ¬c.kind.Closes) : 0 < terminatorDistance c.rest := by
  obtain ⟨rest, previous, errors, reserving⟩ := c
  cases rest with
  | nil => exact absurd (.inr rfl) h
  | cons t ts =>
    change ¬t.kind.Closes at h
    unfold terminatorDistance
    split
    · next hk => exact absurd (.inr hk) h
    · next hk => exact absurd (.inl hk) h
    · exact Nat.zero_lt_one
    · exact Nat.succ_pos _

theorem memberDistance_pos (h : ¬c.kind.Closes) : 0 < memberDistance 0 c.rest := by
  obtain ⟨rest, previous, errors, reserving⟩ := c
  cases rest with
  | nil => exact absurd (.inr rfl) h
  | cons t ts =>
    change ¬t.kind.Closes at h
    unfold memberDistance
    split
    · next hk => exact absurd (.inr hk) h
    · exact Nat.zero_lt_one
    · exact Nat.succ_pos _
    · next hk _ => exact absurd (.inl hk) h
    · exact Nat.zero_lt_one
    · exact Nat.succ_pos _
    · exact Nat.succ_pos _

/-- Recovery consumes something where the failed reading has not. -/
theorem length_recover_lt {e : SyntaxError} {n : Nat} (h : c.Passes d)
    (more : c.kind ≠ .endOfText) (hn : d.rest = c.rest → 0 < n) :
    ((d.report e).skip n).rest.length < c.rest.length := by
  have le := (passes_skip n (d.report e)).rest.length_le
  by_cases same : d.rest = c.rest
  · have lt := length_skip_lt (c := d.report e) (kind_congr (c := c) same ▸ more) (hn same)
    have eq : (d.report e).rest.length = c.rest.length := congrArg List.length same
    omega
  · have lt : d.rest.length < c.rest.length := by
      refine Nat.lt_of_le_of_ne h.rest.length_le fun heq => ?_
      exact same (h.rest.eq_of_length heq)
    have eq : (d.report e).rest.length = d.rest.length := rfl
    omega

/-! ### Skipping -/

/-- So many tokens stand before the end of the text. -/
def Skippable (n : Nat) (ts : List Token) : Prop :=
  n ≤ ts.length ∧ ∀ t ∈ ts.take n, t.kind ≠ .endOfText

theorem skippable_zero (ts : List Token) : Skippable 0 ts := ⟨Nat.zero_le _, fun _ h => nomatch h⟩

theorem Skippable.cons {n : Nat} {t : Token} {ts : List Token} (ht : t.kind ≠ .endOfText)
    (h : Skippable n ts) : Skippable (n + 1) (t :: ts) :=
  ⟨Nat.succ_le_succ h.1, List.forall_mem_cons.2 ⟨ht, h.2⟩⟩

theorem skippable_terminatorDistance (ts : List Token) : Skippable (terminatorDistance ts) ts := by
  induction ts with
  | nil => exact skippable_zero _
  | cons t ts ih =>
    unfold terminatorDistance
    split
    · exact skippable_zero _
    · exact skippable_zero _
    · next hk => exact (skippable_zero ts).cons (by simp [hk])
    · next more _ _ => exact ih.cons more

theorem skippable_memberDistance (depth : Nat) (ts : List Token) :
    Skippable (memberDistance depth ts) ts := by
  induction ts generalizing depth with
  | nil => exact skippable_zero _
  | cons t ts ih =>
    unfold memberDistance
    split
    · exact skippable_zero _
    · next hk => exact (skippable_zero ts).cons (by simp [hk])
    · next hk => exact (ih _).cons (by simp [hk])
    · exact skippable_zero _
    · next hk => exact (skippable_zero ts).cons (by simp [hk])
    · next hk => exact (ih _).cons (by simp [hk])
    · next more _ _ _ _ _ => exact (ih _).cons more

theorem skippable_classDistance (ts : List Token) : Skippable (classDistance ts) ts := by
  induction ts with
  | nil => exact skippable_zero _
  | cons t ts ih =>
    unfold classDistance
    split
    · exact skippable_zero _
    · exact skippable_zero _
    · next more _ => exact ih.cons more

theorem rest_skip {n : Nat} (h : Skippable n c.rest) : (c.skip n).rest = c.rest.drop n := by
  induction n generalizing c with
  | zero => rfl
  | succ n ih =>
    obtain ⟨rest, previous, errors, reserving⟩ := c
    cases rest with
    | nil => exact absurd h.1 (Nat.not_succ_le_zero n)
    | cons t ts =>
      obtain ⟨ht, hts⟩ := List.forall_mem_cons.1 h.2
      have step : (⟨t :: ts, previous, errors, reserving⟩ : Cursor).advance =
          ⟨ts, t.span, errors, reserving⟩ := if_neg ht
      have tail : Skippable n ts := ⟨Nat.le_of_succ_le_succ h.1, hts⟩
      rw [skip, step]
      exact ih (c := ⟨ts, t.span, errors, reserving⟩) tail

/-- Every move of a skip consumes one token. -/
theorem length_skip {n i : Nat} (h : Skippable n c.rest) (hi : i ≤ n) :
    (c.skip i).rest.length + i = c.rest.length := by
  have first : Skippable i c.rest := by
    refine ⟨Nat.le_trans hi h.1, fun t ht => h.2 t ?_⟩
    exact List.take_subset_take_left _ hi ht
  have le := first.1
  rw [rest_skip first, List.length_drop]
  omega

end Cursor

namespace Parser

open Cursor

variable {α : Type} {registry : Registry}

/-! ### What is consumed -/

theorem consumes_parenthesized {P : α → Prop} {item : Parser α}
    (h : Steady TokenKind.isInner P item) : Consumes (parenthesized item) := by
  refine .after (.expectSymbol rfl) fun _ => .after .kind fun _ => ?_
  have close (as : List α) : Consumes (do
      let _ ← expectSymbol .rightParen
      return as) := (consumes_expectSymbol _).bind fun _ => .pure trivial
  split
  · exact .after (Q := fun _ => True) (.pure trivial) close
  · exact .after (steady_commaSeparated h).widen close

/-- Whatever ends with a terminator consumes that. -/
theorem consumes_terminated (f : Nat → α) : Consumes (do
    let _ ← expectSymbol .semicolon
    return f (← previousEnd)) :=
  (consumes_expectSymbol _).bind fun _ => .next .previousEnd fun _ => .pure trivial

theorem consumes_specClause (d : Descriptor) : Consumes (specClause registry d) := by
  refine .after .advance fun _ => ?_
  exact .after (.withReserving _ (steady_expression registry).widen) fun _ => consumes_terminated _

theorem consumes_variableDeclaration : Consumes (variableDeclaration registry) := by
  refine .after Steady.typeName.widen fun _ => .after (Steady.expectName _).widen fun _ => ?_
  exact .after (steady_initialiser registry).widen fun _ => consumes_terminated _

theorem consumes_assignment : Consumes (assignment registry) := by
  refine .after (Steady.expectName _).widen fun _ => .after (.expectSymbol rfl) fun _ => ?_
  exact .after (steady_expression registry).widen fun _ => consumes_terminated _

theorem consumes_leaveStatement : Consumes (leaveStatement registry) := by
  refine .after .advance fun _ => .after .kind fun _ => ?_
  split
  · exact .after (Q := fun _ => True) (.pure trivial) fun _ => consumes_terminated _
  · have value : Steady anyKind (fun _ => True) (some <$> expression registry) :=
      (steady_expression registry).widen.map fun _ _ => trivial
    exact .after value fun _ => consumes_terminated _

theorem consumes_expressionStatement : Consumes (expressionStatement registry) :=
  .after (steady_expression registry).widen fun _ =>
    (consumes_expectSymbol _).bind fun _ => .pure trivial

theorem consumes_clauseStatement (d : Descriptor) : Consumes (clauseStatement registry d) := by
  unfold clauseStatement
  split
  · exact (consumes_specClause d).bind fun _ => .pure trivial
  · exact .after .advance fun _ => consumes_variableDeclaration.bind fun _ => .pure trivial
  · exact consumes_failHere _

section

variable {statement : Parser Statement} (h : SteadyStatement registry statement)

include h

theorem consumes_blockOf : Consumes (blockOf statement) := by
  refine .after (.expectSymbol rfl) fun _ => .after (steady_statementsOf h) fun _ => ?_
  exact (consumes_expectSymbol _).bind fun _ => .pure trivial

theorem consumes_labeledStatement : Consumes (labeledStatement statement) := by
  refine (consumes_nameOr _).bind fun _ => .next (.expectSymbol rfl) fun _ => ?_
  exact .next h fun _ => .next .previousEnd fun _ => .pure trivial

theorem consumes_statementOf : Consumes (statementOf registry statement) := by
  refine .after .kind fun _ => ?_
  split
  · exact (consumes_blockOf h).bind fun _ => .pure trivial
  · exact consumes_leaveStatement
  · refine .after Steady.clauseKeyword? fun _ => ?_
    split
    · exact consumes_clauseStatement _
    · refine .after .kind fun _ => .after .secondKind fun _ => ?_
      split
      · exact consumes_labeledStatement h
      · exact consumes_variableDeclaration.bind fun _ => .pure trivial
      · exact consumes_assignment
      · exact consumes_expressionStatement

end

theorem consumes_statement : Consumes (statement registry) := by
  intro c a d hok
  rw [statement, recur_eq] at hok
  refine consumes_statementOf (.beyond fun e _ => steady_statement registry e) c a d hok

theorem consumes_fieldBehind (type name : Name) : Consumes (fieldBehind registry type name) :=
  .after (steady_initialiser registry).widen fun _ => consumes_terminated _

theorem consumes_methodBehind (cases : List SpecCase) (type name : Name) :
    Consumes (methodBehind registry cases type name) := by
  refine (consumes_parenthesized steady_param).bind fun _ => ?_
  exact .next (steady_block registry) fun _ => .next .previousEnd fun _ => .pure trivial

theorem consumes_ghostField (d : Descriptor) : Consumes (ghostField registry d) := by
  refine .after .advance fun _ => .after Steady.typeName.widen fun type => ?_
  refine .after (Steady.expectName _).widen fun name => ?_
  exact (consumes_fieldBehind type name).bind fun _ => .pure trivial

theorem consumes_specifiedMethod : Consumes (specifiedMethod registry) := by
  refine .after (steady_specCases registry) fun _ => .after Steady.typeName.widen fun _ => ?_
  refine .after (Steady.expectName _).widen fun _ => .after .kind fun _ => ?_
  split
  · exact consumes_methodBehind _ _ _
  · exact consumes_failHere _

theorem consumes_plainMember : Consumes (plainMember registry) := by
  refine .after Steady.typeName.widen fun _ => .after (Steady.expectName _).widen fun _ => ?_
  refine .after .kind fun _ => ?_
  split
  · exact (consumes_methodBehind _ _ _).bind fun _ => .pure trivial
  · exact (consumes_fieldBehind _ _).bind fun _ => .pure trivial

theorem consumesAt_clauseMember {d : Descriptor} (hd : registry.Holds d) {c : Cursor}
    (more : c.kind ≠ .endOfText) : ConsumesAt c (clauseMember registry d) := by
  unfold clauseMember
  split
  · next word kind =>
    have clause : ConsumesAt c (typeClause registry d) := fun a e hok =>
      after_of_ok hok ▸ (opens_typeClause hd kind).length_after_lt more
    exact clause.bind fun _ => .pure trivial
  · exact (consumes_specifiedMethod c).bind fun _ => .pure trivial
  · exact (consumes_ghostField d c).bind fun _ => .pure trivial
  · exact consumes_failHere _ c

theorem consumesAt_member {c : Cursor} (more : c.kind ≠ .endOfText) :
    ConsumesAt c (member registry) := by
  refine .look (clauseKeyword?_apply registry c) ?_
  split
  · next d found =>
    have keyword : Steady anyKind _ (clauseKeyword? registry) := .clauseKeyword?
    have hd := (keyword c).result _ _ (clauseKeyword?_apply registry c) d found
    exact consumesAt_clauseMember hd more
  · refine .look rfl (.look rfl ?_)
    split
    · exact consumes_failHere _ c
    · exact consumes_plainMember c

/-! ### Recovery -/

theorem statementOrPlaceholder_of_ok {statement : Parser Statement} {s : Statement} {c d : Cursor}
    (h : statement c = .ok s d) : statementOrPlaceholder statement c = .ok s d := by
  simp only [statementOrPlaceholder, bind_apply, span, outcome, h]
  rfl

theorem statementOrPlaceholder_of_error {statement : Parser Statement} {e : SyntaxError}
    {c d : Cursor} (h : statement c = .error e d) :
    ∃ s, statementOrPlaceholder statement c =
      .ok s ((d.report e).skip (terminatorDistance d.rest)) := by
  simp only [statementOrPlaceholder, bind_apply, span, outcome, h]
  exact ⟨_, rfl⟩

theorem memberOrSkip_of_ok {m : Member} {c d : Cursor} (h : member registry c = .ok m d) :
    memberOrSkip registry c = .ok (some m) d := by
  simp only [memberOrSkip, bind_apply, outcome, h]
  rfl

theorem memberOrSkip_of_error {e : SyntaxError} {c d : Cursor}
    (h : member registry c = .error e d) :
    memberOrSkip registry c = .ok none ((d.report e).skip (memberDistance 0 d.rest)) := by
  simp only [memberOrSkip, bind_apply, outcome, h]
  rfl

theorem classOrSkip_of_ok {a : Class} {c d : Cursor} (h : classDeclaration registry c = .ok a d) :
    classOrSkip registry c = .ok (some a) d := by
  simp only [classOrSkip, bind_apply, outcome, h]
  rfl

theorem classOrSkip_of_error {e : SyntaxError} {c d : Cursor}
    (h : classDeclaration registry c = .error e d) :
    classOrSkip registry c = .ok none ((d.report e).skip (classDistance d.rest)) := by
  simp only [classOrSkip, bind_apply, outcome, h]
  rfl

/-- A statement is read or skipped, and something is consumed. -/
theorem exists_statementOrPlaceholder {statement : Parser Statement}
    (steady : SteadyStatement registry statement)
    (consumes : Consumes statement) {c : Cursor} (h : ¬c.kind.Closes) :
    ∃ s d, statementOrPlaceholder statement c = .ok s d ∧ d.rest.length < c.rest.length := by
  cases hs : statement c with
  | ok s d => exact ⟨s, d, statementOrPlaceholder_of_ok hs, consumes c s d hs⟩
  | error e d =>
    have passes : c.Passes d := after_of_error hs ▸ (steady c).walks.passes
    obtain ⟨s, hskip⟩ := statementOrPlaceholder_of_error hs
    refine ⟨s, _, hskip, length_recover_lt passes (fun hend => h (.inr hend)) fun same => ?_⟩
    exact terminatorDistance_pos (kind_congr same ▸ h)

/-- So it is with members. -/
theorem exists_memberOrSkip (registry : Registry) {c : Cursor} (h : ¬c.kind.Closes) :
    ∃ m d, memberOrSkip registry c = .ok m d ∧ d.rest.length < c.rest.length := by
  have more : c.kind ≠ .endOfText := fun hend => h (.inr hend)
  cases hm : member registry c with
  | ok m d => exact ⟨some m, d, memberOrSkip_of_ok hm, consumesAt_member more m d hm⟩
  | error e d =>
    have passes : c.Passes d := after_of_error hm ▸ (steady_member registry c).walks.passes
    refine ⟨none, _, memberOrSkip_of_error hm, length_recover_lt passes more fun same => ?_⟩
    exact memberDistance_pos (kind_congr same ▸ h)

theorem exists_classOrSkip {c : Cursor} (more : c.kind ≠ .endOfText) :
    ∃ found d, classOrSkip registry c = .ok found d ∧ d.rest.length < c.rest.length := by
  have shorter := (opens_classDeclaration registry).length_after_lt more
  cases hc : classDeclaration registry c with
  | ok a d => exact ⟨some a, d, classOrSkip_of_ok hc, after_of_ok hc ▸ shorter⟩
  | error e d =>
    have skipped := (passes_skip (classDistance d.rest) (d.report e)).rest.length_le
    rw [after_of_error hc] at shorter
    exact ⟨none, _, classOrSkip_of_error hc, Nat.lt_of_le_of_lt skipped shorter⟩

end Parser

end Contracts
