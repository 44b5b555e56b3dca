import Contracts.Proofs.Grammar.Recovered
import Contracts.Proofs.Parsing.Ledger
import Contracts.Proofs.Parsing.Terminator

/-! Every parser keeps the ledger. Expressions report only slips, each charged to the word that
it stands at; a statement that fails is charged to a token that is skipped for it, to the
opening brace of the block around it where nothing is skipped, and a member that fails to its
first token. So a whole unit ends with a balance that is not below zero
(`charges_classes`). -/

namespace Contracts.Parser

open Cursor

variable {α : Type} {registry : Registry} {r : Bool} {c : Cursor}

/-- Reading an expression keeps the ledger, and its names are free. -/
abbrev ChargesExpr (registry : Registry) : Parser Expr → Prop :=
  Charges false Expr.placeholders fun on e => e.Free registry on

/-- The expression was read since the first cursor, and its placeholders are on the ledger. -/
abbrev Entered (registry : Registry) (b : Cursor) (e : Expr) (c : Cursor) : Prop :=
  Ledger false b 0 e.placeholders c ∧ e.Free registry b.reserving

theorem reserving_of_keyword? {k : TokenKind} {on : Bool} {d : Descriptor}
    (h : k.keyword? registry on = some d) : on = true := by
  cases on with
  | true => rfl
  | false => cases k <;> nomatch h

theorem free_of_keyword? {word : String} {on : Bool}
    (h : (TokenKind.identifier word).keyword? registry on = none) : registry.Free on word :=
  fun hon => by rwa [hon] at h

/-! ### Lists -/

section

variable {weight : α → Nat} {good : Bool → α → Prop} {item : Parser α}
  (h : Charges r weight good item)

include h

theorem charges_commaSeparated :
    Charges r (fun as => (as.map weight).sum) (fun on as => ∀ a ∈ as, good on a)
      (commaSeparated item) := by
  refine .recur fun again hagain c => ?_
  refine h.bind (.refl c) (fun _ hd => hd) fun a d hd ha => .accept (fun hk => ?_) ?_
  · refine hagain.bind (hd.advance (by rw [hk]; nofun)) (fun _ he => he.settle (by omega)) ?_
    intro as e he has
    refine .pure ⟨he.mono (by omega) ?_, List.forall_mem_cons.2 ⟨ha, has⟩⟩
    rw [List.map_cons, List.sum_cons]
    omega
  · refine .pure ⟨hd.mono (by omega) ?_, List.forall_mem_singleton.2 ha⟩
    rw [List.map_cons, List.sum_cons, List.map_nil, List.sum_nil]
    omega

theorem charges_parenthesized :
    Charges r (fun as => (as.map weight).sum) (fun on as => ∀ a ∈ as, good on a)
      (parenthesized item) := fun c => by
  refine .expectSymbol (.refl c) fun hk => .after rfl ?_
  have opened : Ledger r c 1 0 c.advance := (Ledger.refl c).advance (by rw [hk]; nofun)
  have finish (as : List α) (d : Cursor) (hd : Ledger r c 1 (as.map weight).sum d)
      (has : ∀ a ∈ as, good c.reserving a) :
      RunsAt d (fun as d => Ledger r c 0 (as.map weight).sum d ∧ ∀ a ∈ as, good c.reserving a)
        (Ledger r c 0 0) (do let _ ← expectSymbol .rightParen; return as) := by
    refine .expectSymbol (hd.settle (by omega)) fun hk => .pure ⟨?_, has⟩
    exact (hd.advance (by rw [hk]; nofun)).mono (by omega) (Nat.le_refl _)
  split
  · exact finish [] _ opened fun _ ha => nomatch ha
  · refine (charges_commaSeparated h).bind opened (fun _ hd => hd.settle (by omega)) ?_
    exact fun as d hd has => finish as d (hd.mono (Int.le_refl _) (by omega)) has

end

/-! ### Expressions -/

section

variable {expr : Parser Expr} (h : ChargesExpr registry expr)

include h

theorem charges_arguments :
    Charges false Expr.placeholders.listPlaceholders
      (fun on es => Expr.Free.listFree registry on es) (parenthesized expr) := fun c =>
  (charges_parenthesized h c).mono
    (fun es _ hd => ⟨Expr.listPlaceholders_eq es ▸ hd.1, Expr.listFree_iff.2 hd.2⟩) fun _ hd => hd

theorem charges_chain (level : List (Symbol × BinaryOp)) :
    ChargesExpr registry (chain level expr) := by
  intro c
  refine h.first (.refl c) (fun _ hd => hd) fun left d hd hleft => ?_
  refine RunsAt.loop (I := Entered registry c) (fun _ _ hd => hd.1.settle (by omega))
    (fun again hagain left d hd => .after rfl ?_) ⟨hd, hleft⟩
  split
  · exact .pure hd
  · next op hop =>
    have more : d.kind ≠ .endOfText := fun last => by rw [last] at hop; nomatch hop
    refine .after rfl (h.bind (hd.1.advance more) (fun _ he => he.settle (by omega)) ?_)
    exact fun right e he hright => hagain _ e ⟨he.mono (by omega) (Nat.le_refl _), hd.2, hright⟩

theorem charges_prefixed : ChargesExpr registry (prefixed expr) := by
  refine .recur fun again hagain c => .after rfl ?_
  split
  · exact h c
  · next op hop =>
    have more : c.kind ≠ .endOfText := fun last => by rw [last] at hop; nomatch hop
    refine .after rfl (hagain.first ((Ledger.refl c).advance more)
      (fun _ hd => hd.settle (by omega)) fun e d hd he => .pure ⟨?_, he⟩)
    exact hd.mono (by omega) (Nat.le_refl _)

theorem runsAt_selections {b : Cursor} {e : Expr} (hc : Entered registry b e c) :
    RunsAt c (Entered registry b) (Ledger false b 0 0) (selections expr e) := by
  refine RunsAt.loop (I := Entered registry b) (fun _ _ hd => hd.1.settle (by omega))
    (fun again hagain e c hc => .after rfl ?_) hc
  split
  · refine (charges_arguments h).bind hc.1 (fun _ hd => hd.settle (by omega)) ?_
    exact fun args d hd hargs => .after rfl (hagain _ d ⟨hd, hc.2, hargs⟩)
  · next hk =>
    have dot := hc.1.advance (by rw [hk]; nofun)
    refine .after rfl (.nameOr (dot.settle (by omega)) fun word hk' => hagain _ _ ⟨?_, hc.2⟩)
    exact (dot.advance (by rw [hk']; nofun)).mono (by omega) (Nat.le_refl _)
  · exact .pure hc

omit h in
/-- A word is left behind as a placeholder, which is charged to it. -/
theorem runsAt_slip (more : c.kind ≠ .endOfText) {fault : SyntaxFault}
    (slip : fault.isSlip c.reserving = true) :
    RunsAt c.advance (Entered registry c) (Ledger false c 0 0)
      (placeholder ⟨fault, c.span⟩) :=
  .of_ok (a := .missing c.span) rfl ⟨(Ledger.refl c).slip more slip, trivial⟩

theorem runsAt_stateReferenceOf (d : Descriptor) (keyword : StateKeyword)
    (more : c.kind ≠ .endOfText) :
    RunsAt c (Entered registry c) (Ledger false c 0 0) (stateReferenceOf expr d keyword) := by
  refine .after rfl (.after rfl ?_)
  split
  · refine (charges_arguments h).first ((Ledger.refl c).advance more)
      (fun _ hd => hd.settle (by omega)) fun args x hx hargs => .after rfl ?_
    exact runsAt_selections h ⟨hx.mono (by omega) (Nat.le_refl _), hargs⟩
  · exact runsAt_slip more rfl

theorem runsAt_specWord {word : String} (hk : c.kind = .specWord word) :
    RunsAt c (Entered registry c) (Ledger false c 0 0) (specWord registry expr word) := by
  have more : c.kind ≠ .endOfText := by rw [hk]; nofun
  unfold specWord
  split
  · exact .after rfl (.pure ⟨((Ledger.refl c).advance more).settle (by omega), trivial⟩)
  · split
    · exact runsAt_stateReferenceOf h _ _ more
    · exact .after rfl (runsAt_slip more rfl)

theorem charges_primary : ChargesExpr registry (primary registry expr) := fun c => by
  have leaf (e : Expr) (more : c.kind ≠ .endOfText) (whole : e.placeholders = 0)
      (free : e.Free registry c.reserving) :
      RunsAt c.advance (Entered registry c) (Ledger false c 0 0) (pure e) :=
    .pure ⟨((Ledger.refl c).advance more).mono (by omega) (by omega), free⟩
  refine .after rfl ?_
  split
  · next word hk =>
    have more : c.kind ≠ .endOfText := by rw [hk]; nofun
    refine .after (clauseKeyword?_apply registry c) (.after rfl ?_)
    split
    · next d hd => exact runsAt_slip more (reserving_of_keyword? hd)
    · next hfree => exact leaf (.name ⟨word, _⟩) more rfl (free_of_keyword? (hk ▸ hfree))
  · next hk => exact .after rfl (leaf (.int _ _) (by rw [hk]; nofun) rfl trivial)
  · next hk => exact .after rfl (leaf (.bool _ _) (by rw [hk]; nofun) rfl trivial)
  · next hk => exact .after rfl (leaf (.bool _ _) (by rw [hk]; nofun) rfl trivial)
  · next hk =>
    refine .after rfl (h.first ((Ledger.refl c).advance (by rw [hk]; nofun))
      (fun _ hd => hd.settle (by omega)) fun e d hd he => ?_)
    refine .expectSymbol (hd.settle (by omega)) fun hk' => .pure ⟨?_, he⟩
    exact (hd.advance (by rw [hk']; nofun)).mono (by omega) (by omega)
  · next hk => exact runsAt_specWord h hk
  · exact .failHere (.refl c)

theorem charges_selected : ChargesExpr registry (selected registry expr) := fun c => by
  refine (charges_primary h).first (.refl c) (fun _ hd => hd) fun e d hd he => ?_
  exact runsAt_selections h ⟨hd, he⟩

/-- So it is at every level of the ladder. -/
theorem charges_ladder (levels : List (List (Symbol × BinaryOp))) :
    ChargesExpr registry (levels.foldr chain (prefixed (selected registry expr))) := by
  induction levels with
  | nil => exact charges_prefixed (charges_selected h)
  | cons level levels ih => exact charges_chain ih level

theorem charges_implication : ChargesExpr registry (implication registry expr) := fun c => by
  refine (charges_ladder h ladder).first (.refl c) (fun _ hd => hd) fun left d hd hleft => ?_
  refine .accept (fun hk => ?_) (.pure ⟨hd, hleft⟩)
  refine h.bind (hd.advance (by rw [hk]; nofun)) (fun _ he => he.settle (by omega)) ?_
  exact fun right e he hright => .pure ⟨he.mono (by omega) (Nat.le_refl _), hleft, hright⟩

end

theorem charges_expression (registry : Registry) : ChargesExpr registry (expression registry) :=
  .recur fun _ hagain => charges_implication hagain

/-! ### Statements -/

abbrev ChargesStatement (registry : Registry) : Parser Statement → Prop :=
  Charges true Statement.placeholders fun on s => s.Free registry on

theorem charges_initialiser (registry : Registry) :
    Charges false initPlaceholders (fun on init => ∀ e ∈ init, e.Free registry on)
      (initialiser registry) := fun c => by
  refine .accept (fun hk => ?_) (.pure ⟨.refl c, nofun⟩)
  refine (charges_expression registry).first ((Ledger.refl c).advance (by rw [hk]; nofun))
    (fun _ hd => hd.settle (by omega)) fun e d hd he => .pure ⟨?_, ?_⟩
  · exact hd.mono (by omega) (Nat.le_refl _)
  · exact fun _ h => Option.some.inj h ▸ he

/-- The keyword is spared, since the expression pays for itself. -/
theorem runsAt_specClause (d : Descriptor) (more : c.kind ≠ .endOfText) :
    RunsAt c (fun a d => Ledger r c 1 a.expr.placeholders d) (Ledger r c 1 0)
      (specClause registry d) := by
  have keyword : Ledger r c (0 + 1) 0 c.advance := (Ledger.refl c).advance more
  refine .after rfl ((charges_expression registry).withReserving.widen.first keyword
    (fun _ hx => hx.mono (by omega) (by omega)) fun e x hx _ => .terminated ?_ fun hk => ?_)
  · exact hx.mono (by omega) (by omega)
  · exact (hx.advance (by rw [hk]; nofun)).mono (by omega) (Nat.le_refl _)

theorem charges_variableDeclaration (registry : Registry) :
    Charges r (fun v => initPlaceholders v.init) (fun on v => ∀ e ∈ v.init, e.Free registry on)
      (variableDeclaration registry) := fun c => by
  refine .nameOr (.refl c) fun _ hk => ?_
  have type := (Ledger.refl (r := r) c).advance (by rw [hk]; nofun)
  refine .nameOr (type.settle (by omega)) fun _ hk => ?_
  refine (charges_initialiser registry).widen.first (type.advance (by rw [hk]; nofun))
    (fun _ hd => hd.settle (by omega)) fun init d hd free => ?_
  refine .terminated (hd.settle (by omega)) fun hk => ⟨?_, free⟩
  exact (hd.advance (by rw [hk]; nofun)).mono (by omega) (Nat.le_refl _)

theorem charges_assignment (registry : Registry) :
    ChargesStatement registry (assignment registry) := fun c => by
  refine .nameOr (.refl c) fun _ hk => ?_
  have target := (Ledger.refl (r := true) c).advance (by rw [hk]; nofun)
  refine .expectSymbol (target.settle (by omega)) fun hk => ?_
  refine (charges_expression registry).widen.first (target.advance (by rw [hk]; nofun))
    (fun _ hd => hd.settle (by omega)) fun value d hd free => ?_
  refine .terminated (hd.settle (by omega)) fun hk => ⟨?_, free⟩
  exact (hd.advance (by rw [hk]; nofun)).mono (by omega) (Nat.le_refl _)

theorem runsAt_leaveStatement (more : c.kind ≠ .endOfText) :
    RunsAt c (fun s d => Ledger true c 0 s.placeholders d ∧ s.Free registry c.reserving)
      (Ledger true c 0 0) (leaveStatement registry) := by
  have word : Ledger true c (0 + 1) 0 c.advance := (Ledger.refl c).advance more
  refine .after rfl (.after rfl ?_)
  have finish (value : Option Expr) (d : Cursor) (hd : Ledger true c 1 (initPlaceholders value) d)
      (free : ∀ e ∈ value, e.Free registry c.reserving) :
      RunsAt d (fun s d => Ledger true c 0 s.placeholders d ∧ s.Free registry c.reserving)
        (Ledger true c 0 0) (do
          let _ ← expectSymbol .semicolon
          return Statement.leave value ⟨c.span.start, ← previousEnd⟩) :=
    .terminated (hd.settle (by omega)) fun hk =>
      ⟨(hd.advance (by rw [hk]; nofun)).mono (by omega) (Nat.le_refl _), free⟩
  split
  · exact finish none _ word nofun
  · have value : Charges true initPlaceholders (fun on init => ∀ e ∈ init, e.Free registry on)
        (some <$> expression registry) := by
      rw [map_eq_pure_bind]
      exact (charges_expression registry).widen.map (fun _ => rfl) fun _ _ he _ h =>
        Option.some.inj h ▸ he
    exact value.first word (fun _ hd => hd.settle (by omega)) finish

theorem charges_expressionStatement (registry : Registry) :
    ChargesStatement registry (expressionStatement registry) := fun c => by
  refine (charges_expression registry).widen.first (.refl c) (fun _ hd => hd) fun e d hd he => ?_
  refine .expectSymbol (hd.settle (by omega)) fun hk => .pure ⟨?_, he⟩
  exact (hd.advance (by rw [hk]; nofun)).mono (by omega) (Nat.le_refl _)

theorem runsAt_clauseStatement (d : Descriptor) (more : c.kind ≠ .endOfText) :
    RunsAt c (fun s d => Ledger true c 0 s.placeholders d ∧ s.Free registry c.reserving)
      (Ledger true c 0 0) (clauseStatement registry d) := by
  unfold clauseStatement
  split
  · refine (runsAt_specClause d more).bind (fun _ hx => hx.settle (by omega)) fun a x hx => ?_
    exact .pure ⟨hx.mono (by omega) (Nat.le_refl _), trivial⟩
  · refine .after rfl ?_
    refine (charges_variableDeclaration registry).first ((Ledger.refl c).advance more)
      (fun _ hx => hx.settle (by omega)) fun v x hx free => .pure ⟨?_, free⟩
    exact hx.mono (by omega) (Nat.le_refl _)
  · exact .failHere (.refl c)

section

variable {statement : Parser Statement} (h : ChargesStatement registry statement)

include h

theorem runsAt_statementOrPlaceholder {b : Cursor} {n : Nat} (hc : Ledger true b 0 n c) :
    RunsAt c (fun s d => Due b (n + s.placeholders) d ∧ s.Free registry b.reserving)
      (fun _ => False) (statementOrPlaceholder statement) := by
  refine .after rfl ((h.behind hc).outcome.bind (fun _ hd => hd) fun result d hd => ?_)
  cases result with
  | ok s => exact .pure ⟨.inl hd.1, hd.2⟩
  | error e =>
    obtain ⟨fault, place⟩ := e
    obtain ⟨rfl, hd⟩ := hd
    exact .after rfl (.after rfl (.after rfl (.pure ⟨hd.due_skip fault, trivial⟩)))

theorem runsAt_statementsOf {b : Cursor} {n : Nat} (hc : Due b n c) :
    RunsAt c (fun ss d => Ledger true b (-1) (n + Statement.placeholders.listPlaceholders ss) d ∧
        Statement.Free.listFree registry b.reserving ss)
      (Ledger true b (-1) 0) (statementsOf statement) := by
  refine RunsAt.recur (fun n _ => Due b n)
    (fun n ss d => Ledger true b (-1) (n + Statement.placeholders.listPlaceholders ss) d ∧
      Statement.Free.listFree registry b.reserving ss)
    (fun _ => Ledger true b (-1) 0) (fun n _ c hc => hc.ledger.mono (by omega) n.zero_le)
    (fun again hagain n _ c hc => .after rfl ?_) hc
  split
  · exact .pure ⟨hc.ledger, trivial⟩
  · exact .pure ⟨hc.ledger, trivial⟩
  · next hk =>
    have open_ : ¬c.kind.Closes := by rw [hk]; exact nofun
    have next := (hc.open open_).advance (by rw [hk]; nofun)
    exact .after rfl (hagain n () _ (.inl (next.mono (by omega) (Nat.le_refl n))))
  · next brace more _ =>
    have open_ : ¬c.kind.Closes := fun hk => hk.elim brace more
    refine (runsAt_statementOrPlaceholder h (hc.open open_)).bind (fun _ hd => hd.elim) ?_
    refine fun s d hd => (hagain _ () d hd.1).bind (fun _ he => he) fun ss e he => .pure ?_
    refine ⟨he.1.mono (by omega) ?_, hd.2, he.2⟩
    rw [Statement.placeholders.listPlaceholders]
    omega

theorem charges_blockOf :
    Charges true (fun b => Statement.placeholders.listPlaceholders b.statements)
      (fun on b => Statement.Free.listFree registry on b.statements) (blockOf statement) :=
  fun c => by
    refine .expectSymbol (.refl c) fun hk => ?_
    have brace := (Ledger.refl (r := true) c).advance (by rw [hk]; nofun)
    refine (runsAt_statementsOf h (.inl (.refl _))).bind
      (fun _ hd => (brace.trans hd).settle (by omega)) fun ss d hd => ?_
    have body : Ledger true c 0 (Statement.placeholders.listPlaceholders ss) d :=
      (brace.trans hd.1).mono (by omega) (by omega)
    refine .expectSymbol (body.settle (by omega)) fun hk => .pure ⟨?_, ?_⟩
    · exact (body.advance (by rw [hk]; nofun)).mono (by omega) (Nat.le_refl _)
    · exact brace.reserving ▸ hd.2

theorem charges_labeledStatement : ChargesStatement registry (labeledStatement statement) :=
  fun c => by
    refine .nameOr (.refl c) fun _ hk => ?_
    have label := (Ledger.refl (r := true) c).advance (by rw [hk]; nofun)
    refine .expectSymbol (label.settle (by omega)) fun hk => ?_
    refine h.first (label.advance (by rw [hk]; nofun)) (fun _ hd => hd.settle (by omega)) ?_
    exact fun body d hd free => .after rfl (.pure ⟨hd.mono (by omega) (Nat.le_refl _), free⟩)

theorem charges_plainStatement : ChargesStatement registry (plainStatement registry statement) :=
  fun c => by
    refine .after rfl (.after rfl ?_)
    split
    · exact charges_labeledStatement h c
    · exact (charges_variableDeclaration registry).map (f := Statement.declare) (fun _ => rfl)
        (fun _ _ free => free) c
    · exact charges_assignment registry c
    · exact charges_expressionStatement registry c

theorem charges_statementOf : ChargesStatement registry (statementOf registry statement) :=
  fun c => by
    refine .after rfl ?_
    split
    · have body : ChargesStatement registry (do
          let b ← blockOf statement
          return .block b.statements b.span) :=
        (charges_blockOf h).map (fun _ => rfl) fun _ _ free => free
      exact body c
    · next hk => exact runsAt_leaveStatement (by rw [hk]; nofun)
    · refine .after (clauseKeyword?_apply registry c) ?_
      split
      · next d hd => exact runsAt_clauseStatement d (ne_end_of_keyword? hd)
      · exact charges_plainStatement h c

end

theorem charges_statement (registry : Registry) : ChargesStatement registry (statement registry) :=
  .recur fun _ hagain => charges_statementOf hagain

theorem charges_block (registry : Registry) :
    Charges true (fun b => Statement.placeholders.listPlaceholders b.statements)
      (fun on b => Statement.Free.listFree registry on b.statements) (block registry) :=
  charges_blockOf (charges_statement registry)

/-! ### Clauses of a class -/

theorem charges_frame : Charges r (fun _ => 0) (fun _ _ => True) frame := fun c => by
  have method : Charges r (fun _ => 0) (fun _ _ => True) frameMethod := fun c => by
    rw [← bind_pure frameMethod]
    refine .nameOr (.refl c) fun _ hk => .pure ⟨?_, trivial⟩
    exact ((Ledger.refl c).advance (by rw [hk]; nofun)).settle (by omega)
  refine .after rfl ?_
  split
  · next hk =>
    have word := (Ledger.refl (r := r) c).advance (by rw [hk]; nofun)
    refine .after rfl (.after rfl ?_)
    split
    · next hk' =>
      refine .after rfl (.pure ⟨?_, trivial⟩)
      exact (word.advance (by rw [hk']; nofun)).settle (by omega)
    · refine (charges_commaSeparated method).bind word (fun _ hd => hd.settle (by omega)) ?_
      exact fun names d hd _ => .pure ⟨hd.settle (by omega), trivial⟩
  · exact .pure ⟨Ledger.refl c, trivial⟩

theorem charges_typeClauseBody (registry : Registry) (d : Descriptor) :
    Charges false (fun body => body.1.placeholders) (fun on body => body.1.Free registry on)
      (typeClauseBody registry d) := fun c => by
  refine (charges_expression registry).first (.refl c) (fun _ hx => hx) fun e x hx free => ?_
  split
  · refine charges_frame.bind hx (fun _ hy => hy.settle (by omega)) fun found y hy _ => ?_
    exact .pure ⟨hy, free⟩
  · exact .pure ⟨hx, free⟩

/-- The report is charged to the keyword. -/
theorem runsAt_brokenTypeClause {b : Cursor} (hc : Ledger true b 1 0 c) (d : Descriptor)
    (start : Nat) :
    RunsAt c (fun a d => Ledger true b 0 a.expr.placeholders d) (fun _ => False)
      (brokenTypeClause d start c.span) :=
  .after rfl (.after rfl (.after rfl (.pure ((hc.report _).skip _))))

theorem runsAt_typeClause (d : Descriptor) (more : c.kind ≠ .endOfText) :
    RunsAt c (fun a d => Ledger true c 0 a.expr.placeholders d) (fun _ => False)
      (typeClause registry d) := by
  have keyword : Ledger true c (0 + 1) 0 c.advance := (Ledger.refl c).advance more
  have body := (charges_typeClauseBody registry d).withReserving.widen.behind keyword
  refine .after rfl (body.outcome.bind (fun _ hx => hx) fun result x hx => ?_)
  cases result with
  | error e =>
    obtain ⟨place, hx⟩ := hx
    have broken := runsAt_brokenTypeClause hx d c.span.start
    rwa [← place] at broken
  | ok found =>
    refine .accept (fun hk => ?_) ?_
    · have closed : Ledger true c 2 found.1.placeholders x.advance :=
        (hx.1.advance (by rw [hk]; nofun)).mono (by omega) (by omega)
      exact .after rfl (.pure (closed.mono (by omega) (Nat.le_refl _)))
    · exact .after rfl (runsAt_brokenTypeClause (hx.1.mono (by omega) (Nat.zero_le _)) d _)

/-! ### Members -/

theorem charges_fieldBehind (registry : Registry) (type name : Name) :
    Charges false (fun f => initPlaceholders f.init) (fun on f => ∀ e ∈ f.init, e.Free registry on)
      (fieldBehind registry type name) := fun c => by
  refine (charges_initialiser registry).first (.refl c) (fun _ hd => hd) fun init d hd free => ?_
  refine .terminated (hd.settle (by omega)) fun hk => ⟨?_, free⟩
  exact (hd.advance (by rw [hk]; nofun)).mono (by omega) (Nat.le_refl _)

theorem runsAt_ghostField (d : Descriptor) (more : c.kind ≠ .endOfText) :
    RunsAt c (fun f d => Ledger true c 0 (initPlaceholders f.init) d ∧
        ∀ e ∈ f.init, e.Free registry c.reserving) (Ledger true c 1 0) (ghostField registry d) := by
  have keyword : Ledger true c (0 + 1) 0 c.advance := (Ledger.refl c).advance more
  refine .after rfl (.nameOr keyword fun _ hk => ?_)
  have type := keyword.advance (by rw [hk]; nofun)
  refine .nameOr (type.mono (by omega) (Nat.le_refl _)) fun _ hk => ?_
  refine (charges_fieldBehind registry _ _).widen.first (type.advance (by rw [hk]; nofun))
    (fun _ hx => hx.mono (by omega) (Nat.le_refl _)) fun f x hx free => .pure ⟨?_, free⟩
  exact hx.mono (by omega) (Nat.le_refl _)

theorem charges_param : Charges r (fun _ => 0) (fun _ _ => True) param := fun c => by
  refine .nameOr (.refl c) fun _ hk => ?_
  have type := (Ledger.refl (r := r) c).advance (by rw [hk]; nofun)
  refine .nameOr (type.settle (by omega)) fun _ hk => .pure ⟨?_, trivial⟩
  exact (type.advance (by rw [hk]; nofun)).settle (by omega)

theorem runsAt_methodBehind {b : Cursor} {k : Int} {cases : List SpecCase}
    (hc : Ledger true b k (cases.map (·.placeholders)).sum c) (type name : Name) :
    RunsAt c (fun m d => Ledger true b k m.placeholders d ∧
        Statement.Free.listFree registry b.reserving m.body.statements)
      (Ledger true b k 0) (methodBehind registry cases type name) := by
  refine (charges_parenthesized charges_param).bind hc
    (fun _ hd => hd.mono (Int.le_refl k) (Nat.zero_le _)) fun params d hd _ => ?_
  refine (charges_block registry).bind (hd.mono (Int.le_refl k) (Nat.le_add_right _ _))
    (fun _ he => he.mono (Int.le_refl k) (Nat.zero_le _)) fun body e he free => ?_
  exact .after rfl (.pure ⟨he, free⟩)

theorem runsAt_specClauses (registry : Registry) (c : Cursor) :
    RunsAt c (fun as d => as = [] ∧ d = c ∨
        Ledger true c 1 (as.map (·.expr.placeholders)).sum d)
      (Blames c) (specClauses registry) := by
  refine RunsAt.recur (fun b _ d => b = d)
    (fun b (as : List SpecClause) d =>
      as = [] ∧ d = b ∨ Ledger true b 1 (as.map (·.expr.placeholders)).sum d)
    Blames (fun _ _ _ here => .inl here.symm) (fun again hagain b _ c here => ?_) rfl
  subst here
  refine .after (clauseKeyword?_apply registry b) ?_
  split
  · next d found =>
    have more := ne_end_of_keyword? (Option.filter_eq_some_iff.1 found).1
    refine (runsAt_specClause d more).bind (fun _ => .inr) fun a x hx => ?_
    refine (hagain x () x rfl).bind (fun _ => hx.blames) fun as y hy => .pure (.inr ?_)
    rw [List.map_cons, List.sum_cons]
    rcases hy with ⟨rfl, rfl⟩ | hy
    · exact hx
    · exact (hx.trans hy).mono (by omega) (Nat.le_refl _)
  · exact .pure (.inl ⟨rfl, rfl⟩)

theorem runsAt_specCase (registry : Registry) (c : Cursor) :
    RunsAt c (fun a => Ledger true c 1 a.placeholders) (Blames c) (specCase registry) := by
  refine .after rfl ((runsAt_specClauses registry c).bind (fun _ hd => hd) fun as d hd => ?_)
  split
  · exact .failHere (hd.imp And.right fun hd => hd.mono (Int.le_refl 1) (Nat.zero_le _))
  · next nonempty =>
    refine .after rfl (.pure (hd.resolve_left fun h => nonempty ?_))
    rw [h.1, List.isEmpty_nil]

theorem runsAt_specCases (registry : Registry) (c : Cursor) :
    RunsAt c (fun cases => Ledger true c 1 (cases.map (·.placeholders)).sum) (Blames c)
      (specCases registry) := by
  refine RunsAt.recur (fun b _ d => b = d)
    (fun b (cases : List SpecCase) => Ledger true b 1 (cases.map (·.placeholders)).sum) Blames
    (fun _ _ _ here => .inl here.symm) (fun again hagain b _ c here => ?_) rfl
  subst here
  refine (runsAt_specCase registry b).bind (fun _ hd => hd) fun a x hx => .after rfl ?_
  split
  · next hk =>
    have also_ := hx.advance (by rw [hk]; nofun)
    have spared : Ledger true b 1 a.placeholders x.advance :=
      also_.mono (by omega) (Nat.le_refl _)
    refine .after rfl ((hagain _ () _ rfl).bind (fun _ => spared.blames) fun as y hy => .pure ?_)
    exact (spared.trans hy).mono (by omega) (Nat.le_refl _)
  · exact .pure hx

theorem runsAt_specifiedMethod (registry : Registry) (c : Cursor) :
    RunsAt c (fun m d => Ledger true c 0 m.placeholders d ∧
        Statement.Free.listFree registry c.reserving m.body.statements) (Blames c)
      (specifiedMethod registry) := by
  refine (runsAt_specCases registry c).bind (fun _ hd => hd) fun cases d hd => ?_
  have spared {k : Int} {n : Nat} (x : Cursor) (hx : Ledger true c k n x) (hk : 1 ≤ k) :
      Blames c x := .inr (hx.mono hk n.zero_le)
  refine .nameOr (spared d hd (Int.le_refl 1)) fun _ hk => ?_
  have type := hd.advance (by rw [hk]; nofun)
  refine .nameOr (spared _ type (by omega)) fun _ hk => .after rfl ?_
  have name := type.advance (by rw [hk]; nofun)
  split
  · refine (runsAt_methodBehind name _ _).mono (fun m x hx => ⟨?_, hx.2⟩)
      fun x hx => spared x hx (by omega)
    exact hx.1.mono (by omega) (Nat.le_refl _)
  · exact .failHere (spared _ name (by omega))

/-- Members that are read keep the ledger; one that fails has consumed a token that is to be
charged for it, or nothing at all. -/
abbrev ChargesMemberAt (registry : Registry) (c : Cursor) (p : Parser Member) : Prop :=
  RunsAt c (fun m d => Ledger true c 0 m.placeholders d ∧ m.Free registry c.reserving) (Blames c) p

theorem runsAt_clauseMember (d : Descriptor) (more : c.kind ≠ .endOfText) :
    ChargesMemberAt registry c (clauseMember registry d) := by
  unfold clauseMember
  split
  · exact (runsAt_typeClause d more).bind (fun _ hx => hx.elim) fun a x hx => .pure ⟨hx, trivial⟩
  · exact (runsAt_specifiedMethod registry c).bind (fun _ hx => hx) fun m x hx => .pure hx
  · exact (runsAt_ghostField d more).bind (fun _ => .inr) fun f x hx => .pure hx
  · exact .failHere (.inl rfl)

theorem runsAt_plainMember (registry : Registry) (c : Cursor) :
    ChargesMemberAt registry c (plainMember registry) := by
  refine .nameOr (.inl rfl) fun _ hk => ?_
  have type := (Ledger.refl (r := true) c).advance (by rw [hk]; nofun)
  refine .nameOr (.inr type) fun _ hk => .after rfl ?_
  have name : Ledger true c 1 0 _ :=
    (type.advance (by rw [hk]; nofun)).mono (by omega) (Nat.le_refl _)
  have unspecified : Ledger true c 1 (([] : List SpecCase).map (·.placeholders)).sum _ := name
  split
  · refine (runsAt_methodBehind unspecified _ _).bind (fun _ => .inr) fun m d hd => ?_
    exact .pure ⟨hd.1.mono (by omega) (Nat.le_refl _), hd.2⟩
  · refine (charges_fieldBehind registry _ _).widen.first name (fun _ => .inr) ?_
    exact fun f d hd free => .pure ⟨hd.mono (by omega) (Nat.le_refl _), free⟩

theorem runsAt_member (registry : Registry) (c : Cursor) :
    ChargesMemberAt registry c (member registry) := by
  refine .after (clauseKeyword?_apply registry c) ?_
  split
  · next d hd => exact runsAt_clauseMember d (ne_end_of_keyword? hd)
  · refine .after rfl (.after rfl ?_)
    split
    · exact .failHere (.inl rfl)
    · exact runsAt_plainMember registry c

/-! ### Classes -/

theorem runsAt_memberOrSkip (registry : Registry) (open_ : ¬c.kind.Closes) :
    RunsAt c (fun found d => Ledger true c 0 (found.toList.map (·.placeholders)).sum d ∧
        ∀ m ∈ found.toList, m.Free registry c.reserving)
      (fun _ => False) (memberOrSkip registry) := by
  refine (runsAt_member registry c).outcome.bind (fun _ hd => hd) fun result d hd => ?_
  cases result with
  | ok m => exact .pure ⟨hd.1, List.forall_mem_singleton.2 hd.2⟩
  | error e =>
    obtain ⟨fault, place⟩ := e
    obtain ⟨rfl, hd⟩ := hd
    refine .after rfl (.after rfl (.pure ⟨?_, List.forall_mem_nil _⟩))
    rcases hd with rfl | hd
    · have more : d.kind ≠ .endOfText := fun hk => open_ (.inr hk)
      have reported := (Ledger.refl d).report fault
      exact (reported.skip_pos more (memberDistance_pos open_)).mono (by omega) (Nat.zero_le _)
    · exact ((hd.report fault).skip _).mono (by omega) (Nat.zero_le _)

theorem charges_members (registry : Registry) :
    Charges true (fun ms => (ms.map (·.placeholders)).sum)
      (fun on ms => ∀ m ∈ ms, m.Free registry on) (members registry) := by
  refine .recur fun again hagain c => .after rfl ?_
  split
  · exact .pure ⟨.refl c, List.forall_mem_nil _⟩
  · exact .pure ⟨.refl c, List.forall_mem_nil _⟩
  · next hk =>
    have next : Ledger true c 0 0 c.advance :=
      ((Ledger.refl c).advance (by rw [hk]; nofun)).settle (by omega)
    refine .after rfl ((hagain.behind next).mono (fun ms d hd => ⟨?_, hd.2⟩) fun _ hd => hd)
    exact hd.1.mono (by omega) (by omega)
  · next brace more _ =>
    refine (runsAt_memberOrSkip registry fun hk => hk.elim brace more).bind
      (fun _ hd => hd.elim) fun found d hd => ?_
    refine hagain.bind hd.1 (fun _ he => he.settle (by omega)) fun ms e he free => .pure ⟨?_, ?_⟩
    · rwa [List.map_append, List.sum_append]
    · exact List.forall_mem_append.2 ⟨hd.2, free⟩

theorem runsAt_classDeclaration (registry : Registry) (more : c.kind ≠ .endOfText) :
    RunsAt c (fun a d => Ledger true c 0 a.placeholders d ∧ a.Free registry c.reserving)
      (Ledger true c 1 0) (classDeclaration registry) := by
  have word : Ledger true c (0 + 1) 0 c.advance := (Ledger.refl c).advance more
  refine .after rfl (.nameOr word fun _ hk => ?_)
  have name := word.advance (by simp [hk])
  refine .expectSymbol (name.mono (by omega) (Nat.le_refl _)) fun hk => ?_
  refine (charges_members registry).first (name.advance (by simp [hk]))
    (fun _ hd => hd.mono (by omega) (Nat.le_refl _)) fun ms d hd free => ?_
  -- A missing brace is charged to the keyword.
  by_cases hk : d.kind = .symbol .rightBrace
  · refine .after (d := d.advance) (a := .ok d.current) ?_ ?_
    · rw [Parser.outcome, expectSymbol_of_kind hk]
    · refine .after rfl (.pure ?_)
      exact ⟨(hd.advance (by simp [hk])).mono (by omega) (Nat.le_refl _), free⟩
  · refine .after (d := d) (a := .error ⟨.expectedToken (.symbol .rightBrace) d.kind, d.span⟩) ?_ ?_
    · rw [Parser.outcome, expectSymbol, expect_apply, if_neg hk]
    · refine .after rfl (.after rfl (.pure ⟨?_, free⟩))
      exact (hd.report _).mono (by omega) (Nat.le_succ _)

theorem runsAt_classOrSkip (registry : Registry) (more : c.kind ≠ .endOfText) :
    RunsAt c (fun found d => Ledger true c 0 (found.toList.map (·.placeholders)).sum d ∧
        ∀ a ∈ found.toList, a.Free registry c.reserving)
      (fun _ => False) (classOrSkip registry) := by
  refine (runsAt_classDeclaration registry more).outcome.bind (fun _ hd => hd) fun result d hd => ?_
  cases result with
  | ok a => exact .pure ⟨hd.1, List.forall_mem_singleton.2 hd.2⟩
  | error e =>
    obtain ⟨fault, place⟩ := e
    obtain ⟨rfl, hd⟩ := hd
    refine .after rfl (.after rfl (.pure ⟨?_, List.forall_mem_nil _⟩))
    exact ((hd.report fault).skip _).mono (by omega) (Nat.zero_le _)

theorem charges_classes (registry : Registry) :
    Charges true (fun cs => (cs.map (·.placeholders)).sum)
      (fun on cs => ∀ a ∈ cs, a.Free registry on) (classes registry) := by
  refine .recur fun again hagain c => .after rfl ?_
  split
  · exact .pure ⟨.refl c, List.forall_mem_nil _⟩
  · next hk =>
    refine (runsAt_classOrSkip registry (by rw [hk]; nofun)).bind (fun _ hd => hd.elim) ?_
    refine fun found d hd => hagain.bind hd.1 (fun _ he => he.settle (by omega)) ?_
    refine fun cs e he free => .pure ⟨?_, List.forall_mem_append.2 ⟨hd.2, free⟩⟩
    rwa [List.map_append, List.sum_append]
  · next more _ =>
    have reported := ((Ledger.refl c).report (.expectedClass c.kind)).advance more
    have charged : Ledger true c 0 0 _ := reported.mono (by omega) (Nat.zero_le _)
    refine .after rfl (.after rfl (.after rfl (.after rfl ?_)))
    refine (hagain.behind (charged.skip _)).mono (fun cs d hd => ⟨?_, hd.2⟩) fun _ hd => hd
    exact hd.1.mono (by omega) (by omega)

end Contracts.Parser

namespace Contracts

/-! ### Whole units -/

/-- A unit is read by a run that ends with a balance not below zero, and whose errors are those
of the unit. -/
theorem Cursor.exists_ledger_parseUnit (registry : Registry) (c : Cursor) :
    ∃ d, Ledger true c 0 (c.parseUnit registry).unit.placeholders d ∧
      (c.parseUnit registry).errors = d.errors ∧
      (c.parseUnit registry).unit.Free registry c.reserving := by
  obtain ⟨cs, d, run, -, parsed⟩ := (Parser.progress registry).units c
  obtain ⟨ledger, free⟩ := (Parser.charges_classes registry c).ok cs d run
  rw [parsed]
  exact ⟨d, ledger, rfl, free⟩

/-- Placeholders are accounted for. The tree of a text holds no more of them, at any depth, than
there are syntax errors, so a tree that callers get who refuse partial trees holds none. -/
theorem placeholders_parseUnit (registry : Registry) (source : String) :
    (parseUnit registry source).unit.placeholders ≤ (parseUnit registry source).errors.length ∧
      ∀ u, (parseUnit registry source).toExcept = .ok u → u.placeholders = 0 := by
  have bound : (parseUnit registry source).unit.placeholders ≤
      (parseUnit registry source).errors.length := by
    unfold parseUnit
    split
    · next tokens _ =>
      obtain ⟨d, ledger, errors, -⟩ := Cursor.exists_ledger_parseUnit registry { rest := tokens }
      have reported := ledger.reported
      rw [errors]
      exact Nat.le_trans (Nat.le_add_left _ _) reported
    · exact Nat.zero_le _
  refine ⟨bound, fun u hu => ?_⟩
  unfold ParsedUnit.toExcept at hu
  split at hu
  · next clean =>
    injection hu with hu
    rw [List.isEmpty_iff.1 clean, List.length_nil, hu] at bound
    exact Nat.le_zero.1 bound
  · nomatch hu

end Contracts
