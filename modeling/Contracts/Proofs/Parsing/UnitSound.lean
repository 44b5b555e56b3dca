import Contracts.Proofs.Grammar.Fresh
import Contracts.Proofs.Parsing.Registered

/-! What is read without a new error is whole: every placeholder stands where an error was
reported (`whole_parseUnit`). Words do not matter here, so a parser yields a property when it is
sound for it whatever it reads (`Parser.Yields`). -/

namespace Contracts

namespace Parser

variable {α β : Type} {registry : Registry} {on : Bool} {P : α → Prop} {Q : β → Prop}

/-- What the parser reads without a new error has the property. -/
def Yields (on : Bool) (P : α → Prop) (p : Parser α) : Prop := Sound on (fun _ => P) p

namespace Yields

theorem pure {a : α} (h : P a) : Yields on P (Pure.pure a) := Sound.pure h

theorem mono {R : α → Prop} {p : Parser α} (h : Yields on P p) (hR : ∀ a, P a → R a) :
    Yields on R p := Sound.mono h fun _ => hR

theorem bind {p : Parser α} {f : α → Parser β} (hp : Yields on P p)
    (hf : ∀ a, Yields on (fun b => P a → Q b) (f a)) : Yields on Q (p >>= f) :=
  Sound.bind hp fun a => Sound.mono (hf a) fun _ _ h _ => h

/-- Nothing has to be known of the first result. -/
theorem next {p : Parser α} {f : α → Parser β} (hp : Yields on P p)
    (hf : ∀ a, Yields on Q (f a)) : Yields on Q (p >>= f) :=
  hp.bind fun a => (hf a).mono fun _ h _ => h

theorem map {p : Parser α} {f : α → β} (hp : Yields on P p) (hf : ∀ a, P a → Q (f a)) :
    Yields on Q (f <$> p) := by
  rw [map_eq_pure_bind]
  exact hp.bind fun a => .pure (hf a)

theorem failHere (fault : SyntaxFault) : Yields on P (failHere fault : Parser α) :=
  Sound.failHere fault

/-- Behind a report nothing is read without a new error. -/
theorem report {f : Unit → Parser β} (e : SyntaxError) (h : Yields on (fun _ => True) (f ())) :
    Yields on Q (Parser.report e >>= f) := Sound.report e h

/-- A parser that looks at the cursor and leaves it. -/
theorem look {p : Parser α} (h : ∀ c, ∃ a, p c = .ok a c) : Yields on (fun _ => True) p :=
  fun c _ => by
    obtain ⟨a, ha⟩ := h c
    exact .of_ok ha trivial

theorem kind : Yields on (fun _ => True) kind := look fun _ => ⟨_, rfl⟩

theorem secondKind : Yields on (fun _ => True) secondKind := look fun _ => ⟨_, rfl⟩

theorem span : Yields on (fun _ => True) span := look fun _ => ⟨_, rfl⟩

theorem previousEnd : Yields on (fun _ => True) previousEnd := look fun _ => ⟨_, rfl⟩

theorem reserving : Yields on (fun _ => True) reserving := look fun _ => ⟨_, rfl⟩

theorem advance : Yields on (fun _ => True) advance := sound_advance

theorem expectSymbol (s : Symbol) : Yields on (fun _ => True) (expectSymbol s) :=
  (sound_expectSymbol s).mono fun _ _ _ => trivial

theorem accept (s : Symbol) : Yields on (fun _ => True) (accept s) :=
  (sound_accept s).mono fun _ _ _ => trivial

theorem nameOr (fault : TokenKind → SyntaxFault) : Yields on (fun _ => True) (nameOr fault) :=
  (sound_nameOr fault).mono fun _ _ _ => trivial

theorem expectName (role : NameRole) : Yields on (fun _ => True) (expectName role) := .nameOr _

theorem typeName : Yields on (fun _ => True) typeName := .nameOr _

theorem clauseKeyword? : Yields on (fun _ => True) (clauseKeyword? registry) :=
  look fun c => ⟨_, clauseKeyword?_apply registry c⟩

theorem outcome {p : Parser α} (h : Yields on P p) :
    Yields on (fun r => ∀ a, r = .ok a → P a) (outcome p) := Sound.outcome h

theorem withReserving {p : Parser α} (inner : Bool) (h : Yields inner P p) :
    Yields on P (withReserving inner p) := Sound.withReserving inner h

theorem recur {γ : Type} {step : (γ → Parser α) → γ → Parser α}
    (h : ∀ again, (∀ b, Yields on P (again b)) → ∀ b, Yields on P (step again b)) (b : γ) :
    Yields on P (recur step b) :=
  Sound.recur (D := fun _ _ => P) h b

theorem commaSeparated {p : Parser α} (h : Yields on P p) :
    Yields on (fun _ => True) (commaSeparated p) :=
  (sound_commaSeparated h).mono fun _ _ _ => trivial

theorem parenthesized {p : Parser α} (h : Yields on P p) :
    Yields on (fun _ => True) (parenthesized p) :=
  (sound_parenthesized h).mono fun _ _ _ => trivial

end Yields

/-! ### Statements -/

theorem yields_expression : Yields on Expr.Whole (expression registry) :=
  (sound_expression registry on).mono fun _ _ h => h.whole

theorem yields_initialiser :
    Yields on (fun init => ∀ e ∈ init, e.Whole) (initialiser registry) := by
  refine .next (.accept _) fun found => ?_
  split
  · exact yields_expression.bind fun e => .pure fun he _ h => Option.some.inj h ▸ he
  · exact .pure fun _ h => nomatch h

theorem yields_specClause (d : Descriptor) :
    Yields on (fun c => c.expr.Whole) (specClause registry d) := by
  refine .next .advance fun _ => .bind (.withReserving false yields_expression) fun e => ?_
  exact .next (.expectSymbol _) fun _ => .next .previousEnd fun _ => .pure id

theorem yields_variableDeclaration :
    Yields on Variable.Whole (variableDeclaration registry) := by
  refine .next .typeName fun _ => .next (.expectName _) fun _ => ?_
  refine yields_initialiser.bind fun init => .next (.expectSymbol _) fun _ => ?_
  exact .next .previousEnd fun _ => .pure id

theorem yields_assignment : Yields on Statement.Whole (assignment registry) := by
  refine .next (.expectName _) fun _ => .next (.expectSymbol _) fun _ => ?_
  refine yields_expression.bind fun value => .next (.expectSymbol _) fun _ => ?_
  exact .next .previousEnd fun _ => .pure id

theorem yields_leaveStatement : Yields on Statement.Whole (leaveStatement registry) := by
  refine .next .advance fun _ => .next .kind fun k => ?_
  split
  · refine .bind (P := fun value => ∀ e ∈ value, e.Whole) (.pure fun _ h => nomatch h) fun value => ?_
    exact .next (.expectSymbol _) fun _ => .next .previousEnd fun _ => .pure id
  · refine .bind (P := fun value => ∀ e ∈ value, e.Whole)
      (yields_expression.map fun e he _ h => Option.some.inj h ▸ he) fun value => ?_
    exact .next (.expectSymbol _) fun _ => .next .previousEnd fun _ => .pure id

theorem yields_expressionStatement :
    Yields on Statement.Whole (expressionStatement registry) :=
  yields_expression.bind fun _ => .next (.expectSymbol _) fun _ => .pure id

theorem yields_clauseStatement (d : Descriptor) :
    Yields on Statement.Whole (clauseStatement registry d) := by
  unfold clauseStatement
  split
  · exact (yields_specClause d).bind fun c => .pure id
  · exact .next .advance fun _ => yields_variableDeclaration.bind fun v => .pure id
  · exact .failHere _

section

variable {statement : Parser Statement} (h : Yields on Statement.Whole statement)

include h

theorem yields_statementOrPlaceholder :
    Yields on Statement.Whole (statementOrPlaceholder statement) := by
  refine .next .span fun _ => h.outcome.bind fun r => ?_
  split
  · exact .pure fun hs => hs _ rfl
  · refine .report _ (.next sound_skipThroughTerminator fun _ => ?_)
    exact .next .previousEnd fun _ => .pure trivial

theorem yields_statementsOf : Yields on Statement.Whole.listWhole (statementsOf statement) := by
  refine .recur (fun again hagain _ => .next .kind fun k => ?_) ()
  split
  · exact .pure trivial
  · exact .pure trivial
  · exact .next .advance fun _ => hagain ()
  · refine (yields_statementOrPlaceholder h).bind fun s => (hagain ()).bind fun ss => .pure ?_
    exact fun hss hs => ⟨hs, hss⟩

theorem yields_blockOf :
    Yields on (fun b => Statement.Whole.listWhole b.statements) (blockOf statement) := by
  refine .next (.expectSymbol _) fun _ => (yields_statementsOf h).bind fun ss => ?_
  exact .next (.expectSymbol _) fun _ => .pure id

theorem yields_labeledStatement : Yields on Statement.Whole (labeledStatement statement) := by
  refine .next (.expectName _) fun _ => .next (.expectSymbol _) fun _ => ?_
  exact h.bind fun body => .next .previousEnd fun _ => .pure id

theorem yields_plainStatement : Yields on Statement.Whole (plainStatement registry statement) := by
  refine .next .kind fun _ => .next .secondKind fun _ => ?_
  split
  · exact yields_labeledStatement h
  · exact yields_variableDeclaration.bind fun _ => .pure id
  · exact yields_assignment
  · exact yields_expressionStatement

theorem yields_statementOf : Yields on Statement.Whole (statementOf registry statement) := by
  refine .next .kind fun _ => ?_
  split
  · exact (yields_blockOf h).bind fun _ => .pure id
  · exact yields_leaveStatement
  · refine .next .clauseKeyword? fun found => ?_
    split
    · exact yields_clauseStatement _
    · exact yields_plainStatement h

end

theorem yields_statement : Yields on Statement.Whole (statement registry) :=
  .recur (fun _ hagain _ => yields_statementOf (hagain ())) ()

/-! ### Members -/

theorem yields_frame : Yields on (fun _ => True) frame := by
  refine .next .kind fun _ => ?_
  split
  · refine .next .advance fun _ => .next .kind fun _ => ?_
    split
    · exact .next .advance fun _ => .pure trivial
    · exact .next (.commaSeparated (.nameOr _)) fun _ => .pure trivial
  · exact .pure trivial

theorem yields_typeClauseBody (d : Descriptor) :
    Yields on (fun body => body.1.Whole) (typeClauseBody registry d) := by
  refine yields_expression.bind fun e => ?_
  split
  · exact .next yields_frame fun _ => .pure id
  · exact .pure id

/-- A broken clause has been reported. -/
theorem yields_brokenTypeClause {P : TypeClause → Prop} (d : Descriptor) (start : Nat)
    (place : Span) : Yields on P (brokenTypeClause d start place) :=
  .report _ (.next sound_skipThroughTerminator fun _ => .next .previousEnd fun _ => .pure trivial)

theorem yields_typeClause (d : Descriptor) :
    Yields on (fun c => c.expr.Whole) (typeClause registry d) := by
  refine .next .advance fun _ => ?_
  refine .bind (.outcome (.withReserving false (yields_typeClauseBody d))) fun r => ?_
  split
  · exact yields_brokenTypeClause _ _ _
  · refine .next (.accept _) fun found => ?_
    split
    · exact .next .previousEnd fun _ => .pure fun hbody => hbody _ rfl
    · exact .next .span fun _ => yields_brokenTypeClause _ _ _

theorem yields_fieldBehind (type name : Name) :
    Yields on (fun f => ∀ e ∈ f.init, e.Whole) (fieldBehind registry type name) := by
  refine yields_initialiser.bind fun init => .next (.expectSymbol _) fun _ => ?_
  exact .next .previousEnd fun _ => .pure id

theorem yields_ghostField (d : Descriptor) :
    Yields on (fun f => ∀ e ∈ f.init, e.Whole) (ghostField registry d) := by
  refine .next .advance fun _ => .next .typeName fun type => .next (.expectName _) fun name => ?_
  exact (yields_fieldBehind type name).bind fun f => .pure id

theorem yields_param : Yields on (fun _ => True) param :=
  .next .typeName fun _ => .next (.expectName _) fun _ => .pure trivial

theorem yields_methodBehind (cases : List SpecCase) (type name : Name) :
    Yields on (fun m => m.cases = cases ∧ Statement.Whole.listWhole m.body.statements)
      (methodBehind registry cases type name) := by
  refine .next (.parenthesized yields_param) fun params => ?_
  refine (yields_blockOf yields_statement).bind fun body => .next .previousEnd fun _ => ?_
  exact .pure fun hbody => ⟨rfl, hbody⟩

theorem yields_specClauses :
    Yields on (fun cs => ∀ c ∈ cs, c.expr.Whole) (specClauses registry) := by
  refine .recur (fun again hagain _ => .next .clauseKeyword? fun found => ?_) ()
  split
  · refine (yields_specClause _).bind fun c => (hagain ()).bind fun cs => .pure fun hcs hc => ?_
    exact List.forall_mem_cons.2 ⟨hc, hcs⟩
  · exact .pure fun _ h => nomatch h

theorem yields_specCase : Yields on SpecCase.Whole (specCase registry) := by
  refine .next .span fun _ => yields_specClauses.bind fun cs => ?_
  split
  · exact .failHere _
  · exact .next .previousEnd fun _ => .pure id

theorem yields_specCases :
    Yields on (fun cs => ∀ c ∈ cs, c.Whole) (specCases registry) := by
  refine .recur (fun again hagain _ => yields_specCase.bind fun c => .next .kind fun _ => ?_) ()
  split
  · refine .next .advance fun _ => (hagain ()).bind fun cs => .pure fun hcs hc => ?_
    exact List.forall_mem_cons.2 ⟨hc, hcs⟩
  · exact .pure fun hc => List.forall_mem_singleton.2 hc

theorem yields_specifiedMethod : Yields on Method.Whole (specifiedMethod registry) := by
  refine yields_specCases.bind fun cases => .next .typeName fun type => ?_
  refine .next (.expectName _) fun name => .next .kind fun _ => ?_
  split
  · refine (yields_methodBehind cases type name).mono ?_
    rintro m ⟨rfl, hbody⟩ hcases
    exact ⟨hcases, hbody⟩
  · exact .failHere _

theorem yields_clauseMember (d : Descriptor) :
    Yields on Member.Whole (clauseMember registry d) := by
  unfold clauseMember
  split
  · exact (yields_typeClause d).bind fun c => .pure id
  · exact yields_specifiedMethod.bind fun m => .pure id
  · exact (yields_ghostField d).bind fun f => .pure id
  · exact .failHere _

theorem yields_plainMember : Yields on Member.Whole (plainMember registry) := by
  refine .next .typeName fun type => .next (.expectName _) fun name => .next .kind fun _ => ?_
  split
  · refine (yields_methodBehind [] type name).bind fun m => .pure ?_
    rintro ⟨hcases, hbody⟩
    exact ⟨by simp [hcases], hbody⟩
  · exact (yields_fieldBehind type name).bind fun f => .pure id

theorem yields_member : Yields on Member.Whole (member registry) := by
  refine .next .clauseKeyword? fun found => ?_
  split
  · exact yields_clauseMember _
  · refine .next .reserving fun _ => .next .kind fun _ => ?_
    split
    · exact .failHere _
    · exact yields_plainMember

/-! ### Classes -/

theorem yields_memberOrSkip :
    Yields on (fun m => ∀ m' ∈ m, m'.Whole) (memberOrSkip registry) := by
  refine yields_member.outcome.bind fun r => ?_
  split
  · exact .pure fun hm _ h => Option.some.inj h ▸ hm _ rfl
  · exact .report _ (.next sound_skipMember fun _ => .pure trivial)

theorem yields_members : Yields on (fun ms => ∀ m ∈ ms, m.Whole) (members registry) := by
  refine .recur (fun again hagain _ => .next .kind fun _ => ?_) ()
  split
  · exact .pure fun _ h => nomatch h
  · exact .pure fun _ h => nomatch h
  · exact .next .advance fun _ => hagain ()
  · refine yields_memberOrSkip.bind fun m => (hagain ()).bind fun ms => .pure fun hms hm => ?_
    refine List.forall_mem_append.2 ⟨fun m' hm' => hm m' ?_, hms⟩
    exact Option.mem_toList.1 hm'

theorem yields_classDeclaration : Yields on Class.Whole (classDeclaration registry) := by
  refine .next .advance fun _ => .next (.expectName _) fun _ => .next (.expectSymbol _) fun _ => ?_
  refine yields_members.bind fun ms => .next (.outcome (.expectSymbol _)) fun r => ?_
  split
  · exact .next .previousEnd fun _ => .pure id
  · exact .report _ (.next .previousEnd fun _ => .pure trivial)

theorem yields_classOrSkip :
    Yields on (fun c => ∀ c' ∈ c, c'.Whole) (classOrSkip registry) := by
  refine yields_classDeclaration.outcome.bind fun r => ?_
  split
  · exact .pure fun hc _ h => Option.some.inj h ▸ hc _ rfl
  · exact .report _ (.next sound_skipToClass fun _ => .pure trivial)

theorem yields_classes : Yields on (fun cs => ∀ c ∈ cs, c.Whole) (classes registry) := by
  refine .recur (fun again hagain _ => .next .kind fun _ => ?_) ()
  split
  · exact .pure fun _ h => nomatch h
  · refine yields_classOrSkip.bind fun c => (hagain ()).bind fun cs => .pure fun hcs hc => ?_
    refine List.forall_mem_append.2 ⟨fun c' hc' => hc c' ?_, hcs⟩
    exact Option.mem_toList.1 hc'
  · refine .next .span fun _ => .report _ ?_
    refine .next .advance fun _ => .next sound_skipToClass fun _ => ?_
    exact (hagain ()).mono fun _ _ => trivial

end Parser

/-- A unit that is read without an error is whole. -/
theorem whole_parseUnit {registry : Registry} {source : String}
    (h : (parseUnit registry source).errors = []) : (parseUnit registry source).unit.Whole := by
  unfold parseUnit at h ⊢
  cases hlex : lex source with
  | error errors => exact fun _ hc => nomatch hc
  | ok tokens =>
    rw [hlex] at h
    dsimp only [Cursor.parseUnit] at h ⊢
    cases hrun : Parser.classes registry ({ rest := tokens } : Cursor) with
    | error e c' => simp [hrun] at h
    | ok classes c' =>
      rw [hrun] at h
      obtain ⟨-, -, whole⟩ := (Parser.yields_classes _ rfl).reads classes c' hrun h
      exact whole

/-- With the standard registry it is fresh. -/
theorem fresh_parseUnit {source : String} (h : (parseUnit .standard source).errors = []) :
    (parseUnit .standard source).unit.Fresh :=
  (whole_parseUnit h).fresh (registered_parseUnit .standard source)

end Contracts
