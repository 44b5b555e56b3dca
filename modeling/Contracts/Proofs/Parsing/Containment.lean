import Contracts.Proofs.Parsing.Terminator

/-! Mistakes stay where they are. In a list of members or of statements, the tokens up to a
terminator are one entry, whether they make sense or not: reading goes on right behind the
terminator, and what is read there does not depend on them (`mistakes_contained`). -/

namespace Contracts.Parser

open Cursor

variable {registry : Registry} {t : Token} {S : List Token} {c : Cursor} {A B : Cursor → Prop}

section

variable (segment : Segment A B)

include segment

/-! ### Statements -/

theorem stops_expressionStatement : Stops A B (expressionStatement registry) :=
  .bind segment (steady_expression registry) fun _ =>
    (stops_terminator segment).close fun _ _ => ⟨_, rfl⟩

theorem stops_variableDeclaration : Stops A B (variableDeclaration registry) := by
  refine .bind segment .typeName fun _ => .bind segment (.expectName _) fun _ => ?_
  refine .bind segment (steady_initialiser registry) fun _ => ?_
  exact (stops_terminator segment).close fun _ _ => ⟨_, rfl⟩

theorem stops_assignment : Stops A B (assignment registry) := by
  refine .bind segment (.expectName _) fun _ => .bind segment (.expectSymbol rfl) fun _ => ?_
  refine .bind segment (steady_expression registry) fun _ => ?_
  exact (stops_terminator segment).close fun _ _ => ⟨_, rfl⟩

theorem stopsAt_specClause (here : c.kind.isInner = true) (before : A c) (d : Descriptor) :
    StopsAt A B c (specClause registry d) := by
  refine .advance segment here before fun _ => ?_
  refine .bind segment (.withReserving false (steady_expression registry)) fun _ => ?_
  exact (stops_terminator segment).close fun _ _ => ⟨_, rfl⟩

theorem stopsAt_leaveStatement (here : c.kind.isInner = true) (before : A c) :
    StopsAt A B c (leaveStatement registry) := by
  refine .advance segment here before fun start d hd => .run (b := d.kind) rfl ?_
  have finish (value : Option Expr) : Stops A B (do
      let _ ← expectSymbol .semicolon
      return Statement.leave value ⟨start.span.start, ← previousEnd⟩) :=
    (stops_terminator segment).close fun _ _ => ⟨_, rfl⟩
  split
  · exact .run rfl (finish none d hd)
  · have value : Steady TokenKind.isInner (fun _ => True) (some <$> expression registry) :=
      (steady_expression registry).map fun _ _ => trivial
    exact Stops.bind segment value finish d hd

theorem stopsAt_clauseStatement (here : c.kind.isInner = true) (before : A c)
    (d : Descriptor) : StopsAt A B c (clauseStatement registry d) := by
  unfold clauseStatement
  split
  · exact (stopsAt_specClause segment here before d).close fun _ _ => ⟨_, rfl⟩
  · exact .advance segment here before fun _ =>
      (stops_variableDeclaration segment).close fun _ _ => ⟨_, rfl⟩
  · exact Stops.failHere _ c before

section

variable {statement : Parser Statement} (h : Stops A B statement)

include h

theorem stops_labeledStatement : Stops A B (labeledStatement statement) := by
  refine .bind segment (.expectName _) fun _ => .bind segment (.expectSymbol rfl) fun _ => ?_
  exact h.close fun _ _ => ⟨_, rfl⟩

theorem stops_plainStatement : Stops A B (plainStatement registry statement) := by
  refine .bind segment .kind fun _ => .bind segment .secondKind fun _ => ?_
  split
  · exact stops_labeledStatement segment h
  · exact (stops_variableDeclaration segment).close fun _ _ => ⟨_, rfl⟩
  · exact stops_assignment segment
  · exact stops_expressionStatement segment

theorem stops_statementOf (noBrace : ∀ c, A c → c.kind ≠ .symbol .leftBrace) :
    Stops A B (statementOf registry statement) := by
  intro c before
  refine .run (b := c.kind) rfl ?_
  split
  · next hk => exact absurd hk (noBrace c before)
  · next hk => exact stopsAt_leaveStatement segment (hk ▸ rfl) before
  · refine .run (clauseKeyword?_apply registry c) ?_
    split
    · next d found => exact stopsAt_clauseStatement segment (isInner_of_keyword? found) before d
    · exact stops_plainStatement segment h c before

end

theorem stops_statement (noBrace : ∀ c, A c → c.kind ≠ .symbol .leftBrace) :
    Stops A B (statement registry) :=
  .recur (fun _ hagain _ => stops_statementOf segment (hagain ()) noBrace) ()

/-! ### Members -/

theorem stops_fieldBehind (type name : Name) : Stops A B (fieldBehind registry type name) := by
  refine .bind segment (steady_initialiser registry) fun _ => ?_
  exact (stops_terminator segment).close fun _ _ => ⟨_, rfl⟩

theorem stopsAt_ghostField (here : c.kind.isInner = true) (before : A c)
    (d : Descriptor) : StopsAt A B c (ghostField registry d) := by
  refine .advance segment here before fun _ => .bind segment .typeName fun type => ?_
  refine .bind segment (.expectName _) fun name => ?_
  exact (stops_fieldBehind segment type name).close fun _ _ => ⟨_, rfl⟩

section

variable (recovers : ∀ c, A c → B (c.skip (terminatorDistance c.rest)))

include recovers

theorem stops_brokenTypeClause (d : Descriptor) (start : Nat) (place : Span) :
    Stops A B (brokenTypeClause d start place) := by
  have skip : Stops A B skipThroughTerminator := fun c before => .done rfl (recovers c before)
  refine .bind segment (.report _) fun _ => ?_
  exact skip.close fun _ _ => ⟨_, rfl⟩

theorem stopsAt_typeClause (here : c.kind.isInner = true) (before : A c)
    (d : Descriptor) : StopsAt A B c (typeClause registry d) := by
  refine .advance segment here before fun start => ?_
  refine .bind segment (.outcome (.withReserving false (steady_typeClauseBody registry d))) fun r => ?_
  have broken := stops_brokenTypeClause segment recovers
  split
  · exact broken _ _ _
  · intro e he
    by_cases hk : e.kind = .symbol .semicolon
    · have found : accept .semicolon e = .ok true e.advance := by rw [accept_apply, if_pos hk]
      exact .done (by rw [bind_apply, found]; rfl) (segment.close he hk)
    · have missed : accept .semicolon e = .ok false e := by rw [accept_apply, if_neg hk]
      exact .run missed (.run rfl (broken _ _ _ e he))

end

section

variable (noBrace : ∀ c, A c → c.kind ≠ .symbol .leftBrace)

include noBrace

/-- No body can be read before the terminator. -/
theorem stops_methodBehind (cases : List SpecCase) (type name : Name) :
    Stops A B (methodBehind registry cases type name) := by
  refine .bind segment (steady_parenthesized steady_param) fun _ c before => ?_
  have noBody : block registry c =
      .error ⟨.expectedToken (.symbol .leftBrace) c.kind, c.span⟩ c := by
    rw [block, blockOf, bind_apply, expectSymbol, expect_apply, if_neg (noBrace c before)]
  exact .fail (by rw [bind_apply, noBody]) before

end

section

theorem stops_plainMember
    (method : ∀ type name, Stops A B (methodBehind registry [] type name)) :
    Stops A B (plainMember registry) := by
  refine .bind segment .typeName fun type => .bind segment (.expectName _) fun name => ?_
  refine .bind segment .kind fun _ => ?_
  split
  · exact (method type name).close fun _ _ => ⟨_, rfl⟩
  · exact (stops_fieldBehind segment type name).close fun _ _ => ⟨_, rfl⟩

/-- What a member is depends on the word it starts with. -/
theorem stopsAt_memberOf (before : A c)
    (typed : ∀ d k, c.kind.keyword? registry c.reserving = some d → d.kind = .typeClause k →
      StopsAt A B c (typeClause registry d))
    (specified : ∀ d k, c.kind.keyword? registry c.reserving = some d → d.kind = .methodSpec k →
      StopsAt A B c (specifiedMethod registry))
    (plain : StopsAt A B c (plainMember registry)) : StopsAt A B c (member registry) := by
  refine .run (clauseKeyword?_apply registry c) ?_
  split
  · next d found =>
    have here := isInner_of_keyword? found
    unfold clauseMember
    split
    · next k hk => exact (typed d k found hk).close fun _ _ => ⟨_, rfl⟩
    · next k hk => exact (specified d k found hk).close fun _ _ => ⟨_, rfl⟩
    · exact (stopsAt_ghostField segment here before d).close fun _ _ => ⟨_, rfl⟩
    · exact .fail rfl before
  · refine .run rfl (.run rfl ?_)
    split
    · exact .fail rfl before
    · exact plain

end

end

section

variable (ends : t.kind = .symbol .semicolon)

include ends

/-- A specification would end before its method, behind its last clause. -/
theorem stopsAt_member (ahead : Ahead t S c)
    (plain : ∀ d, c.kind.keyword? registry c.reserving = some d → d.kind.isMethodSpec = false) :
    StopsAt (Ahead t S) (Behind t S) c (member registry) := by
  have segment := segment_ahead (S := S) ends
  have noBrace : ∀ c, Ahead t S c → c.kind ≠ .symbol .leftBrace := fun _ h => h.ne_leftBrace ends
  refine stopsAt_memberOf segment ahead (fun d _ found _ => ?_) (fun d k found hk => ?_) ?_
  · exact stopsAt_typeClause segment (fun _ ahead => ahead.behind_terminator ends)
      (isInner_of_keyword? found) ahead d
  · have spec := plain d found
    rw [hk] at spec
    nomatch spec
  · exact stops_plainMember segment (stops_methodBehind segment noBrace []) c ahead

/-! ### One turn -/

theorem exists_behind_memberOrSkip (ahead : Ahead t S c)
    (plain : ∀ d, c.kind.keyword? registry c.reserving = some d → d.kind.isMethodSpec = false) :
    ∃ m d, memberOrSkip registry c = .ok m d ∧ Behind t S d := by
  have stops := stopsAt_member ends ahead plain
  cases hm : member registry c with
  | ok m d => exact ⟨_, d, memberOrSkip_of_ok hm, stops.ok m d hm⟩
  | error e d =>
    have ahead' : Ahead t S (d.report e) := (stops.error e d hm).congr rfl
    exact ⟨_, _, memberOrSkip_of_error hm, ahead'.behind_member ends⟩

theorem exists_behind_statementOrPlaceholder (registry : Registry) (ahead : Ahead t S c) :
    ∃ s d, statementOrPlaceholder (statement registry) c = .ok s d ∧ Behind t S d := by
  have stops : StopsAt (Ahead t S) (Behind t S) c (statement registry) :=
    stops_statement (segment_ahead ends) (fun _ h => h.ne_leftBrace ends) c ahead
  cases hs : statement registry c with
  | ok s d => exact ⟨s, d, statementOrPlaceholder_of_ok hs, stops.ok s d hs⟩
  | error e d =>
    have ahead' : Ahead t S (d.report e) := (stops.error e d hs).congr rfl
    obtain ⟨s, skipped⟩ := statementOrPlaceholder_of_error hs
    exact ⟨s, _, skipped, ahead'.behind_terminator ends⟩

end

/-- A list of members goes on behind the first of them. -/
theorem members_eq_append {m : Option Member} {ms : List Member} {d e : Cursor}
    (goes : ¬c.kind.Closes) (entry : c.kind ≠ .symbol .semicolon)
    (first : memberOrSkip registry c = .ok m d)
    (others : members registry d = .ok ms e) : members registry c = .ok (m.toList ++ ms) e := by
  have turn : members registry c = members.step registry (fun _ => members registry) c :=
    (loops_members registry).recur_eq () c
  rw [turn, members.step, bind_apply, Parser.kind]
  dsimp only
  generalize c.kind = k at goes entry
  split
  · exact absurd (.inl rfl) goes
  · exact absurd (.inr rfl) goes
  · exact absurd rfl entry
  · rw [bind_apply, first]
    dsimp only
    rw [bind_apply, others]
    rfl

theorem statementsOf_eq_cons {s : Statement} {ss : List Statement} {d e : Cursor}
    (goes : ¬c.kind.Closes) (entry : c.kind ≠ .symbol .semicolon)
    (first : statementOrPlaceholder (statement registry) c = .ok s d)
    (others : statementsOf (statement registry) d = .ok ss e) :
    statementsOf (statement registry) c = .ok (s :: ss) e := by
  have turn : statementsOf (statement registry) c =
      statementsOf.step (statement registry) (fun _ => statementsOf (statement registry)) c :=
    (loops_statementsOf (steady_statement registry) consumes_statement).recur_eq () c
  rw [turn, statementsOf.step, bind_apply, Parser.kind]
  dsimp only
  generalize c.kind = k at goes entry
  split
  · exact absurd (.inl rfl) goes
  · exact absurd (.inr rfl) goes
  · exact absurd rfl entry
  · rw [bind_apply, first]
    dsimp only
    rw [bind_apply, others]
    rfl

/-- Mistakes are contained. Let `w` stand before a terminator and `S` behind it, where `w`
is not empty and has no braces, no terminator and no end in it. Whatever `w` is, one turn of a
list of statements goes on at `S`, in the same mode and with all earlier errors, and so does
one turn of a list of members unless `w` starts with a keyword of specifications. What is read
from `S`, and the errors in it, are the same as without `w`. -/
theorem mistakes_contained (registry : Registry) {w : List Token} {t : Token} {S : List Token}
    {c : Cursor} (nonempty : w ≠ []) (inner : ∀ u ∈ w, u.kind.isInner = true)
    (ends : t.kind = .symbol .semicolon) (rest : c.rest = w ++ t :: S)
    (on : c.reserving = true) :
    let d : Cursor := { rest := S, previous := t.span }
    ((∀ e, c.kind.keyword? registry true = some e → e.kind.isMethodSpec = false) →
      ∃ m es, memberOrSkip registry c = .ok m (d.behind (c.errors ++ es)) ∧
        ∃ ms d', members registry d = .ok ms d' ∧
          members registry c = .ok (m.toList ++ ms) (d'.behind (c.errors ++ es))) ∧
      ∃ s es,
        statementOrPlaceholder (statement registry) c = .ok s (d.behind (c.errors ++ es)) ∧
          ∃ ss d', statementsOf (statement registry) d = .ok ss d' ∧
            statementsOf (statement registry) c = .ok (s :: ss) (d'.behind (c.errors ++ es)) := by
  intro d
  have ahead : Ahead t S c := ⟨w, inner, rest⟩
  have here : c.kind.isInner = true := by
    obtain ⟨u, us, rfl⟩ := List.exists_cons_of_ne_nil nonempty
    exact kind_of_rest rest ▸ inner u (List.mem_cons_self ..)
  have goes : ¬c.kind.Closes := by
    rintro (last | last) <;> rw [last] at here <;> nomatch here
  have entry : c.kind ≠ .symbol .semicolon := by
    intro terminator
    rw [terminator] at here
    nomatch here
  constructor
  · intro plain
    obtain ⟨m, e, first, behind⟩ := exists_behind_memberOrSkip ends ahead (on ▸ plain)
    have passes : c.Passes e := after_of_ok first ▸ (steady_memberOrSkip registry c).walks.passes
    obtain ⟨es, rfl⟩ := behind.eq_behind passes on
    obtain ⟨ms, d', others, -⟩ := (loops_members registry).endsOk () d
    have others : members registry d = .ok ms d' := others
    refine ⟨m, es, first, ms, d', others, members_eq_append goes entry first ?_⟩
    rw [(steady_members registry d).blind, others, resultBehind]
  · obtain ⟨s, e, first, behind⟩ := exists_behind_statementOrPlaceholder ends registry ahead
    have steady := steady_statementOrPlaceholder (steady_statement registry)
    have passes : c.Passes e := after_of_ok first ▸ (steady c).walks.passes
    obtain ⟨es, rfl⟩ := behind.eq_behind passes on
    obtain ⟨ss, d', others, -⟩ :=
      (loops_statementsOf (steady_statement registry) consumes_statement).endsOk () d
    have others : statementsOf (statement registry) d = .ok ss d' := others
    refine ⟨s, es, first, ss, d', others, statementsOf_eq_cons goes entry first ?_⟩
    rw [(steady_statementsOf (steady_statement registry) d).blind, others, resultBehind]

/-- `int = (` is neither a field nor a statement; the field behind it is read as it is. -/
theorem mistakes_contained_parenthesis :
    let w : List Token := [⟨.identifier "int", ⟨0, 3⟩⟩, ⟨.symbol .assign, ⟨4, 5⟩⟩,
      ⟨.symbol .leftParen, ⟨6, 7⟩⟩]
    let t : Token := ⟨.symbol .semicolon, ⟨7, 8⟩⟩
    let S : List Token := [⟨.identifier "int", ⟨9, 12⟩⟩, ⟨.identifier "n", ⟨13, 14⟩⟩,
      ⟨.symbol .semicolon, ⟨14, 15⟩⟩, ⟨.symbol .rightBrace, ⟨16, 17⟩⟩]
    let c : Cursor := { rest := w ++ t :: S }
    let d : Cursor := { rest := S, previous := t.span }
    (∃ m es, memberOrSkip .standard c = .ok m (d.behind es) ∧
      ∃ ms d', members .standard d = .ok ms d' ∧
        members .standard c = .ok (m.toList ++ ms) (d'.behind es)) ∧
      ∃ s es, statementOrPlaceholder (statement .standard) c = .ok s (d.behind es) ∧
        ∃ ss d', statementsOf (statement .standard) d = .ok ss d' ∧
          statementsOf (statement .standard) c = .ok (s :: ss) (d'.behind es) := by
  intro w t S c d
  have contained := mistakes_contained .standard (w := w) (t := t) (S := S) (c := c)
    (by decide) (by decide) rfl rfl rfl
  have plain : c.kind.keyword? .standard true = none := by decide +kernel
  refine ⟨contained.1 fun e he => ?_, contained.2⟩
  rw [plain] at he
  nomatch he

end Contracts.Parser
