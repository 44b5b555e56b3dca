import Contracts.Proofs.Grammar.Registered
import Contracts.Proofs.Parsing.ExpressionSound
import Contracts.Proofs.Parsing.Steady

/-! Every parser is steady, and what it reads agrees with the registry, with errors and
without (`registered_parseUnit`). Expressions, names, parameters and frames are read over inner
tokens only. -/

namespace Contracts.Parser

open Cursor

variable {α : Type} {registry : Registry} {admitted : TokenKind → Bool}

/-- Reading an expression takes steps over inner tokens and gives one that agrees with the
registry. -/
abbrev SteadyExpr (registry : Registry) : Parser Expr → Prop :=
  Steady TokenKind.isInner (Expr.Registered registry)

abbrev SteadyStatement (registry : Registry) : Parser Statement → Prop :=
  Steady anyKind (Statement.Registered registry)

theorem Steady.clauseKeyword? :
    Steady admitted (fun found => ∀ d ∈ found, registry.Holds d) (clauseKeyword? registry) :=
  fun c => by
    refine .of_ok (clauseKeyword?_apply registry c) (.refl c)
      (fun es => clauseKeyword?_apply registry (c.behind es)) fun d hd => ?_
    unfold TokenKind.keyword? at hd
    split at hd
    · exact Registry.holds_of_get? hd
    · nomatch hd

/-! ### Expressions -/

theorem isInner_of_operator? {l : Level} {k : TokenKind} {op : BinaryOp}
    (h : operator? l.operators k = some op) : k.isInner = true := by
  obtain ⟨-, rfl⟩ := operator?_eq_some_iff.1 h
  cases op <;> rfl

theorem isInner_of_prefixOperator? {k : TokenKind} {op : UnaryOp}
    (h : prefixOperator? k = some op) : k.isInner = true := by
  obtain rfl := prefixOperator?_eq_some_iff.1 h
  cases op <;> rfl

theorem kind_of_stateKeyword? {d : Descriptor} {keyword : StateKeyword}
    (h : d.stateKeyword? = some keyword) : d.kind = .state keyword := by
  unfold Descriptor.stateKeyword? ClauseKind.stateKeyword? at h
  split at h
  · next word hkind =>
    injection h with h
    rw [hkind, h]
  · nomatch h

section

variable {P : α → Prop} {item : Parser α} (h : Steady TokenKind.isInner P item)

include h

theorem steady_commaSeparated :
    Steady TokenKind.isInner (fun as => as ≠ [] ∧ ∀ a ∈ as, P a) (commaSeparated item) := by
  refine .recur_all (fun again hagain _ => ?_) ()
  refine h.bind fun a ha => .next (.accept rfl) fun found => ?_
  split
  · refine (hagain ()).bind fun as has => .pure ⟨List.cons_ne_nil _ _, ?_⟩
    exact List.forall_mem_cons.2 ⟨ha, has.2⟩
  · exact .pure ⟨List.cons_ne_nil _ _, List.forall_mem_singleton.2 ha⟩

theorem steady_parenthesized :
    Steady TokenKind.isInner (fun as => ∀ a ∈ as, P a) (parenthesized item) := by
  refine .next (.expectSymbol rfl) fun _ => .next .kind fun _ => ?_
  have items : Steady TokenKind.isInner (fun as => ∀ a ∈ as, P a) (commaSeparated item) :=
    (steady_commaSeparated h).mono fun as has => has.2
  split
  · refine .bind (P := fun as => ∀ a ∈ as, P a) (.pure fun _ h => nomatch h) fun as has => ?_
    exact .next (.expectSymbol rfl) fun _ => .pure has
  · exact items.bind fun as has => .next (.expectSymbol rfl) fun _ => .pure has

end

section

variable {expr : Parser Expr} (h : SteadyExpr registry expr)

include h

theorem steady_chain (l : Level) :
    SteadyExpr registry (chain l.operators expr) := by
  refine h.bind fun left hleft => .recur (fun again hagain left hleft c => ?_) hleft
  refine .look (a := c.kind) rfl (fun _ => rfl) ?_
  split
  · exact Steady.pure hleft c
  · next op hop =>
    refine (SteadyAt.advance rfl (isInner_of_operator? hop)).bind fun _ d _ => ?_
    refine (h d).bind fun right e hright => ?_
    exact hagain (joined op left right) ⟨hleft, hright⟩ e

theorem steady_prefixed : SteadyExpr registry (prefixed expr) := by
  refine .recur_all (fun again hagain _ c => ?_) ()
  refine .look (a := c.kind) rfl (fun _ => rfl) ?_
  split
  · exact h c
  · next op hop =>
    refine (SteadyAt.advance rfl (isInner_of_prefixOperator? hop)).bind fun _ d _ => ?_
    exact (hagain () d).bind fun e d' he => Steady.pure (a := Expr.unary op e _) he d'

theorem steady_selections {e : Expr} (he : e.Registered registry) :
    SteadyExpr registry (selections expr e) := by
  refine .recur (fun again hagain e he c => ?_) he
  refine .look (a := c.kind) rfl (fun _ => rfl) ?_
  split
  · refine (steady_parenthesized h c).bind fun args d hargs => ?_
    refine .look rfl (fun _ => rfl) ?_
    exact hagain (.call e args _) ⟨he, Expr.listRegistered_of_forall hargs⟩ d
  · next hk =>
    refine (SteadyAt.advance hk rfl).bind fun _ d _ => ?_
    exact (Steady.expectName _ d).bind fun n d' _ => hagain (.field e n _) he d'
  · exact Steady.pure he c

theorem steadyAt_stateReferenceOf {d : Descriptor} {keyword : StateKeyword} (hd : registry.Holds d)
    (kind : d.kind = .state keyword) {c : Cursor}
    (hc : c.kind ≠ .endOfText → c.kind.isInner = true) :
    SteadyAt c TokenKind.isInner (Expr.Registered registry) (stateReferenceOf expr d keyword) := by
  refine (steadyAt_advance hc).bind fun t c' _ => .look (a := c'.kind) rfl (fun _ => rfl) ?_
  split
  · refine (steady_parenthesized h c').bind fun args e hargs => ?_
    refine .look rfl (fun _ => rfl) ?_
    have head : Expr.Registered registry
        (.state ⟨d, keyword, [], t.span, ⟨t.span.start, e.previous.stop⟩⟩ args none) :=
      ⟨hd, kind, Expr.listRegistered_of_forall hargs⟩
    exact steady_selections h head e
  · exact Steady.placeholder trivial c'

theorem steadyAt_specWord {word : String} {c : Cursor} (hk : c.kind = .specWord word) :
    SteadyAt c TokenKind.isInner (Expr.Registered registry) (specWord registry expr word) := by
  unfold specWord
  split
  · exact (SteadyAt.advance hk rfl).bind fun _ d _ => Steady.pure trivial d
  · split
    · next d keyword hfound =>
      obtain ⟨d', registered, hkind⟩ := Option.bind_eq_some_iff.1 hfound
      obtain ⟨keyword', hstate, heq⟩ := Option.map_eq_some_iff.1 hkind
      injection heq with hd hkeyword
      subst hd hkeyword
      exact steadyAt_stateReferenceOf h (Registry.holds_of_get? registered)
        (kind_of_stateKeyword? hstate) fun _ => hk ▸ rfl
    · exact (SteadyAt.advance hk rfl).bind fun _ d _ => Steady.placeholder trivial d

theorem steady_primary : SteadyExpr registry (primary registry expr) :=
  fun c => by
    refine .look (a := c.kind) rfl (fun _ => rfl) ?_
    split
    · next hk =>
      refine .look (clauseKeyword?_apply registry c)
        (fun es => clauseKeyword?_apply registry (c.behind es)) ?_
      refine (SteadyAt.advance hk rfl).bind fun _ d _ => ?_
      split
      · exact Steady.placeholder trivial d
      · exact Steady.pure trivial d
    · next hk => exact (SteadyAt.advance hk rfl).bind fun _ d _ => Steady.pure trivial d
    · next hk => exact (SteadyAt.advance hk rfl).bind fun _ d _ => Steady.pure trivial d
    · next hk => exact (SteadyAt.advance hk rfl).bind fun _ d _ => Steady.pure trivial d
    · next hk =>
      refine (SteadyAt.advance hk rfl).bind fun _ d _ => (h d).bind fun e d' he => ?_
      exact (Steady.expectSymbol rfl d').bind fun _ d'' _ => Steady.pure he d''
    · next hk => exact steadyAt_specWord h hk
    · exact Steady.failHere _ c

theorem steady_selected :
    SteadyExpr registry (selected registry expr) :=
  (steady_primary h).bind fun _ he => steady_selections h he

/-- So it is at every level of the ladder. -/
theorem steady_ladder (levels : List Level) :
    SteadyExpr registry
      (levels.foldr (fun l => chain l.operators) (prefixed (selected registry expr))) := by
  induction levels with
  | nil => exact steady_prefixed (steady_selected h)
  | cons l levels ih => exact steady_chain ih l

theorem steady_disjunction :
    SteadyExpr registry (disjunction registry expr) := by
  rw [disjunction, ladder_eq, List.foldr_map]
  exact steady_ladder h _

theorem steady_implication :
    SteadyExpr registry (implication registry expr) := by
  refine (steady_disjunction h).bind fun left hleft => .next (.accept rfl) fun found => ?_
  split
  · exact h.bind fun right hright => .pure ⟨hleft, hright⟩
  · exact .pure hleft

end

theorem steady_expression (registry : Registry) :
    SteadyExpr registry (expression registry) :=
  .recur_all (fun _ hagain _ => steady_implication (hagain ())) ()

theorem steady_initialiser (registry : Registry) :
    Steady TokenKind.isInner (fun init => ∀ e ∈ init, e.Registered registry)
      (initialiser registry) := by
  refine .next (.accept rfl) fun found => ?_
  split
  · exact (steady_expression registry).bind fun e he => .pure fun _ h => Option.some.inj h ▸ he
  · exact .pure fun _ h => nomatch h

/-! ### Statements -/

theorem steady_specClause {d : Descriptor} (hd : registry.Holds d) :
    Steady anyKind (fun c => c.descriptor = d ∧ c.Registered registry) (specClause registry d) := by
  refine .next .advance fun _ => .bind (.withReserving false (steady_expression registry).widen) ?_
  intro e he
  exact .next (.expectSymbol rfl) fun _ => .next .previousEnd fun _ => .pure ⟨rfl, hd, he⟩

theorem steady_variableDeclaration (registry : Registry) :
    Steady anyKind (Variable.Registered registry) (variableDeclaration registry) := by
  refine .next Steady.typeName.widen fun _ => .next (Steady.expectName _).widen fun _ => ?_
  refine (steady_initialiser registry).widen.bind fun init hinit => ?_
  exact .next (.expectSymbol rfl) fun _ => .next .previousEnd fun _ => .pure hinit

theorem steady_assignment (registry : Registry) :
    SteadyStatement registry (assignment registry) := by
  refine .next (Steady.expectName _).widen fun target => .next (.expectSymbol rfl) fun _ => ?_
  refine (steady_expression registry).widen.bind fun value hvalue => ?_
  refine .next (.expectSymbol rfl) fun _ => .next .previousEnd fun stop => ?_
  exact .pure (a := Statement.assign target value _) hvalue

theorem steady_leaveStatement (registry : Registry) :
    SteadyStatement registry (leaveStatement registry) := by
  refine .next .advance fun start => .next .kind fun _ => ?_
  have finish (value : Option Expr) (h : ∀ e ∈ value, e.Registered registry) :
      SteadyStatement registry (do
        let _ ← expectSymbol .semicolon
        return .leave value ⟨start.span.start, ← previousEnd⟩) :=
    .next (.expectSymbol rfl) fun _ => .next .previousEnd fun _ =>
      .pure (a := Statement.leave value _) h
  split
  · exact .bind (P := (· = none)) (.pure rfl) fun value hvalue => finish value (hvalue ▸ nofun)
  · refine .bind ((steady_expression registry).widen.map fun e he => ?_) finish
    exact fun _ h => Option.some.inj h ▸ he

theorem steady_expressionStatement (registry : Registry) :
    SteadyStatement registry (expressionStatement registry) :=
  (steady_expression registry).widen.bind fun e he =>
    .next (.expectSymbol rfl) fun _ => .pure (a := Statement.expr e) he

theorem steady_clauseStatement {d : Descriptor} (hd : registry.Holds d) :
    SteadyStatement registry (clauseStatement registry d) := by
  unfold clauseStatement
  split
  · next word kind =>
    refine (steady_specClause hd).bind fun c hc => .pure (a := Statement.clause c) ⟨hc.2, word, ?_⟩
    rw [hc.1, kind]
  · next kind =>
    refine .next .advance fun _ => (steady_variableDeclaration registry).bind fun v hv => ?_
    exact .pure (a := Statement.ghost d v) ⟨hd, kind, hv⟩
  · exact .failHere _

section

variable {statement : Parser Statement} (h : SteadyStatement registry statement)

include h

theorem steady_statementOrPlaceholder :
    SteadyStatement registry (statementOrPlaceholder statement) := by
  refine .next .span fun start => h.outcome.bind fun r hr => ?_
  split
  · exact .pure (hr _ rfl)
  · refine .next (.report _) fun _ => .next .skipThroughTerminator fun _ => ?_
    exact .next .previousEnd fun _ => .pure (a := Statement.missing _) trivial

theorem steady_statementsOf :
    Steady anyKind (Statement.Registered.listRegistered registry) (statementsOf statement) := by
  refine .recur_all (fun again hagain _ => .next .kind fun k => ?_) ()
  split
  · exact .pure trivial
  · exact .pure trivial
  · exact .next .advance fun _ => hagain ()
  · refine (steady_statementOrPlaceholder h).bind fun s hs => ?_
    exact (hagain ()).bind fun ss hss => .pure ⟨hs, hss⟩

theorem steady_blockOf :
    Steady anyKind (fun b => Statement.Registered.listRegistered registry b.statements)
      (blockOf statement) := by
  refine .next (.expectSymbol rfl) fun _ => (steady_statementsOf h).bind fun ss hss => ?_
  exact .next (.expectSymbol rfl) fun _ => .pure hss

theorem steady_labeledStatement :
    SteadyStatement registry (labeledStatement statement) := by
  refine .next (Steady.expectName _).widen fun label => .next (.expectSymbol rfl) fun _ => ?_
  refine h.bind fun body hbody => .next .previousEnd fun _ => ?_
  exact .pure (a := Statement.labeled label body _) hbody

theorem steady_plainStatement :
    SteadyStatement registry (plainStatement registry statement) := by
  refine .next .kind fun _ => .next .secondKind fun _ => ?_
  split
  · exact steady_labeledStatement h
  · exact (steady_variableDeclaration registry).bind fun v hv => .pure (a := Statement.declare v) hv
  · exact steady_assignment registry
  · exact steady_expressionStatement registry

theorem steady_statementOf :
    SteadyStatement registry (statementOf registry statement) := by
  refine .next .kind fun _ => ?_
  split
  · exact (steady_blockOf h).bind fun b hb => .pure (a := Statement.block b.statements b.span) hb
  · exact steady_leaveStatement registry
  · refine Steady.clauseKeyword?.bind fun found hfound => ?_
    split
    · exact steady_clauseStatement (hfound _ rfl)
    · exact steady_plainStatement h

end

theorem steady_statement (registry : Registry) :
    SteadyStatement registry (statement registry) :=
  .recur_all (fun _ hagain _ => steady_statementOf (hagain ())) ()

theorem steady_block (registry : Registry) :
    Steady anyKind (fun b => Statement.Registered.listRegistered registry b.statements)
      (block registry) := steady_blockOf (steady_statement registry)

/-! ### Clauses of a class -/

theorem steady_frame :
    Steady TokenKind.isInner (fun found => ∀ f ∈ found, f.Nonempty) frame := fun c => by
  refine .look (a := c.kind) rfl (fun _ => rfl) ?_
  split
  · next hk =>
    refine (SteadyAt.advance hk rfl).bind fun _ d _ => .look (a := d.kind) rfl (fun _ => rfl) ?_
    split
    · next hk' =>
      refine (SteadyAt.advance hk' rfl).bind fun t e _ => ?_
      exact Steady.pure (fun f hf => Option.some.inj hf ▸ trivial) e
    · refine (steady_commaSeparated (.nameOr _) d).bind fun names e hnames => ?_
      exact Steady.pure (fun f hf => Option.some.inj hf ▸ hnames.1) e
  · exact Steady.pure (fun _ h => nomatch h) c

theorem steady_typeClauseBody (registry : Registry) (d : Descriptor) :
    Steady TokenKind.isInner
      (fun body => body.1.Registered registry ∧
        ∀ f ∈ body.2, d.kind = .typeClause .constraint ∧ f.Nonempty)
      (typeClauseBody registry d) := by
  refine (steady_expression registry).bind fun e he => ?_
  split
  · next kind =>
    refine steady_frame.bind fun found hfound => .pure ⟨he, fun f hf => ?_⟩
    exact ⟨kind, hfound f hf⟩
  · exact .pure ⟨he, nofun⟩

section

variable {d : Descriptor} (hd : registry.Holds d) {word : TypeClauseKeyword}
  (kind : d.kind = .typeClause word)

include hd kind

theorem steady_brokenTypeClause (start : Nat) (place : Span) :
    Steady anyKind (TypeClause.Registered registry) (brokenTypeClause d start place) := by
  refine .next (.report _) fun _ => .next .skipThroughTerminator fun _ => ?_
  exact .next .previousEnd fun _ => .pure ⟨hd, ⟨word, kind⟩, trivial, nofun⟩

theorem opens_typeClause : Opens (TypeClause.Registered registry) (typeClause registry d) := by
  refine ⟨_, rfl, fun _ => ?_⟩
  refine .bind (.outcome (.withReserving false (steady_typeClauseBody registry d).widen)) ?_
  intro r hr
  split
  · exact steady_brokenTypeClause hd kind _ _
  · refine .next (.accept rfl) fun found => ?_
    obtain ⟨hexpr, hframe⟩ := hr _ rfl
    split
    · exact .next .previousEnd fun _ => .pure ⟨hd, ⟨word, kind⟩, hexpr, hframe⟩
    · exact .next .span fun _ => steady_brokenTypeClause hd kind _ _

end

/-! ### Members -/

theorem steady_fieldBehind (registry : Registry) (type name : Name) :
    Steady anyKind (fun f => f.ghost = none ∧ ∀ e ∈ f.init, e.Registered registry)
      (fieldBehind registry type name) := by
  refine (steady_initialiser registry).widen.bind fun init hinit => ?_
  exact .next (.expectSymbol rfl) fun _ => .next .previousEnd fun _ => .pure ⟨rfl, hinit⟩

theorem steady_ghostField {d : Descriptor} (hd : registry.Holds d) (kind : d.kind = .declaration) :
    Steady anyKind (Field.Registered registry) (ghostField registry d) := by
  refine .next .advance fun _ => .next Steady.typeName.widen fun type => ?_
  refine .next (Steady.expectName _).widen fun name => ?_
  refine (steady_fieldBehind registry type name).bind fun f hf => .pure ⟨fun d' hd' => ?_, hf.2⟩
  exact Option.some.inj hd' ▸ ⟨hd, kind⟩

theorem steady_param : Steady TokenKind.isInner (fun _ => True) param :=
  .next .typeName fun _ => .next (.expectName _) fun _ => .pure trivial

theorem steady_methodBehind {cases : List SpecCase} (hcases : ∀ c ∈ cases, c.Registered registry)
    (type name : Name) :
    Steady anyKind (Method.Registered registry) (methodBehind registry cases type name) := by
  refine .next (steady_parenthesized steady_param).widen fun params => ?_
  refine (steady_block registry).bind fun body hbody => .next .previousEnd fun _ => ?_
  exact .pure ⟨hcases, hbody⟩

theorem exists_of_isMethodSpec {kind : ClauseKind} (h : kind.isMethodSpec = true) :
    ∃ word, kind = .methodSpec word := by
  cases kind with
  | methodSpec word => exact ⟨word, rfl⟩
  | _ => nomatch h

theorem steady_specClauses (registry : Registry) :
    Steady anyKind
      (fun cs => ∀ c ∈ cs, c.Registered registry ∧ ∃ word, c.descriptor.kind = .methodSpec word)
      (specClauses registry) := by
  refine .recur_all (fun again hagain _ => ?_) ()
  refine Steady.clauseKeyword?.bind fun found hfound => ?_
  split
  · next d heq =>
    obtain ⟨rfl, isSpec⟩ := Option.filter_eq_some_iff.1 heq
    obtain ⟨word, kind⟩ := exists_of_isMethodSpec isSpec
    refine (steady_specClause (hfound d rfl)).bind fun c hc => ?_
    refine (hagain ()).bind fun cs hcs => .pure (List.forall_mem_cons.2 ⟨?_, hcs⟩)
    exact ⟨hc.2, word, hc.1 ▸ kind⟩
  · exact .pure fun _ h => nomatch h

theorem steady_specCase (registry : Registry) :
    Steady anyKind (SpecCase.Registered registry) (specCase registry) := by
  refine .next .span fun _ => (steady_specClauses registry).bind fun cs hcs => ?_
  split
  · exact .failHere _
  · next nonempty =>
    refine .next .previousEnd fun _ => .pure ⟨?_, hcs⟩
    simpa using nonempty

theorem steady_specCases (registry : Registry) :
    Steady anyKind (fun cs => ∀ c ∈ cs, c.Registered registry) (specCases registry) := by
  refine .recur_all (fun again hagain _ => ?_) ()
  refine (steady_specCase registry).bind fun c hc => .next .kind fun _ => ?_
  split
  · refine .next .advance fun _ => (hagain ()).bind fun cs hcs => ?_
    exact .pure (List.forall_mem_cons.2 ⟨hc, hcs⟩)
  · exact .pure (List.forall_mem_singleton.2 hc)

theorem steady_specifiedMethod (registry : Registry) :
    Steady anyKind (Method.Registered registry) (specifiedMethod registry) := by
  refine (steady_specCases registry).bind fun cases hcases => ?_
  refine .next Steady.typeName.widen fun type => .next (Steady.expectName _).widen fun name => ?_
  refine .next .kind fun _ => ?_
  split
  · exact steady_methodBehind hcases type name
  · exact .failHere _

theorem steady_clauseMember {d : Descriptor} (hd : registry.Holds d) :
    Steady anyKind (Member.Registered registry) (clauseMember registry d) := by
  unfold clauseMember
  split
  · next word kind =>
    exact (opens_typeClause hd kind).steady.bind fun c hc => .pure (a := Member.clause c) hc
  · exact (steady_specifiedMethod registry).bind fun m hm => .pure (a := Member.method m) hm
  · next kind => exact (steady_ghostField hd kind).bind fun f hf => .pure (a := Member.field f) hf
  · exact .failHere _

theorem steady_plainMember (registry : Registry) :
    Steady anyKind (Member.Registered registry) (plainMember registry) := by
  refine .next Steady.typeName.widen fun type => .next (Steady.expectName _).widen fun name => ?_
  refine .next .kind fun _ => ?_
  split
  · refine (steady_methodBehind (List.forall_mem_nil _) type name).bind fun m hm => ?_
    exact .pure (a := Member.method m) hm
  · refine (steady_fieldBehind registry type name).bind fun f hf => ?_
    have ghost : ∀ d ∈ f.ghost, registry.Holds d ∧ d.kind = .declaration := hf.1 ▸ nofun
    exact .pure (a := Member.field f) ⟨ghost, hf.2⟩

theorem steady_member (registry : Registry) :
    Steady anyKind (Member.Registered registry) (member registry) := by
  refine Steady.clauseKeyword?.bind fun found hfound => ?_
  split
  · exact steady_clauseMember (hfound _ rfl)
  · refine .next .reserving fun _ => .next .kind fun _ => ?_
    split
    · exact .failHere _
    · exact steady_plainMember registry

/-! ### Classes -/

theorem steady_memberOrSkip (registry : Registry) :
    Steady anyKind (fun found => ∀ m ∈ found, m.Registered registry) (memberOrSkip registry) := by
  refine (steady_member registry).outcome.bind fun r hr => ?_
  split
  · exact .pure fun _ h => Option.some.inj h ▸ hr _ rfl
  · exact .next (.report _) fun _ => .next .skipMember fun _ => .pure fun _ h => nomatch h

theorem steady_members (registry : Registry) :
    Steady anyKind (fun ms => ∀ m ∈ ms, m.Registered registry) (members registry) := by
  refine .recur_all (fun again hagain _ => .next .kind fun _ => ?_) ()
  split
  · exact .pure fun _ h => nomatch h
  · exact .pure fun _ h => nomatch h
  · exact .next .advance fun _ => hagain ()
  · refine (steady_memberOrSkip registry).bind fun m hm => ?_
    refine (hagain ()).bind fun ms hms => .pure (List.forall_mem_append.2 ⟨?_, hms⟩)
    exact fun m' hm' => hm m' (Option.mem_toList.1 hm')

theorem opens_classDeclaration (registry : Registry) :
    Opens (Class.Registered registry) (classDeclaration registry) := by
  refine ⟨_, rfl, fun _ => .next (Steady.expectName _).widen fun _ => ?_⟩
  refine .next (.expectSymbol rfl) fun _ => (steady_members registry).bind fun ms hms => ?_
  refine .next (.outcome (.expectSymbol rfl)) fun r => ?_
  split
  · exact .next .previousEnd fun _ => .pure hms
  · exact .next (.report _) fun _ => .next .previousEnd fun _ => .pure hms

theorem steady_classOrSkip (registry : Registry) :
    Steady anyKind (fun found => ∀ c ∈ found, c.Registered registry) (classOrSkip registry) := by
  refine (opens_classDeclaration registry).steady.outcome.bind fun r hr => ?_
  split
  · exact .pure fun _ h => Option.some.inj h ▸ hr _ rfl
  · exact .next (.report _) fun _ => .next .skipToClass fun _ => .pure fun _ h => nomatch h

theorem steady_classes (registry : Registry) :
    Steady anyKind (fun cs => ∀ c ∈ cs, c.Registered registry) (classes registry) := by
  refine .recur_all (fun again hagain _ => .next .kind fun _ => ?_) ()
  split
  · exact .pure fun _ h => nomatch h
  · refine (steady_classOrSkip registry).bind fun c hc => ?_
    refine (hagain ()).bind fun cs hcs => .pure (List.forall_mem_append.2 ⟨?_, hcs⟩)
    exact fun c' hc' => hc c' (Option.mem_toList.1 hc')
  · refine .next .span fun _ => .next (.report _) fun _ => .next .advance fun _ => ?_
    exact .next .skipToClass fun _ => hagain ()

end Contracts.Parser

namespace Contracts

/-- What is read agrees with the registry, also after errors. -/
theorem registered_parseUnit (registry : Registry) (source : String) :
    (parseUnit registry source).unit.Registered registry := by
  unfold parseUnit
  split
  · next tokens _ =>
    unfold Cursor.parseUnit
    split
    · next cs d hok => exact (Parser.steady_classes registry _).result cs d hok
    · exact List.forall_mem_nil _
  · exact List.forall_mem_nil _

end Contracts
