import Contracts.Proofs.Parsing.ExpressionComplete
import Contracts.Proofs.Printing.Unit

/-! Statements that are written are read again, up to spans. The first tokens of a
statement tell its form: an expression starts with no token that another form starts with,
and behind a name it goes on as no other form does. -/

namespace Contracts.Parser

variable {on : Bool} {n : Nat} {k : List TokenKind}

/-! ### Expressions -/

theorem not_continues_symbol {s : Symbol} (hparen : s ≠ .leftParen) (hdot : s ≠ .dot)
    (hsign : ∀ op ∈ BinaryOp.all, s ≠ op.sign) : ¬(TokenKind.symbol s).Continues := by
  rintro (h | h | ⟨op, h⟩)
  · exact hparen (TokenKind.symbol.inj h)
  · exact hdot (TokenKind.symbol.inj h)
  · exact hsign op op.mem_all (TokenKind.symbol.inj h)

theorem not_continues_identifier {word : String} : ¬(TokenKind.identifier word).Continues := by
  rintro (h | h | ⟨op, h⟩) <;> cases h

theorem parses_derived {registry : Registry} {w : List TokenKind} {e : Expr}
    (h : Derives registry on .implication w e) (hk : ¬(firstKind k).Continues) :
    Parses on (expression registry) w k (·.unspanned = e.unspanned) :=
  complete_expression registry on _ _ _ e (Nat.lt_succ_self _) h (Level.stops_of_not_continues hk)

theorem parses_expression {e : Expr} (h : e.Writable on) (hk : ¬(firstKind k).Continues) :
    Parses on (expression .standard) (e.words .implication) k (·.unspanned = e.unspanned) :=
  parses_derived (e.derives_words _ h) hk

/-- An expression before a terminator. -/
theorem parses_terminated {e : Expr} (h : e.Writable on) :
    Parses on (expression .standard) (e.words .implication) (.symbol .semicolon :: k)
      (·.unspanned = e.unspanned) :=
  parses_expression h (not_continues_symbol (by decide) (by decide) (by decide))

theorem parses_initialiser {init : Option Expr} (h : InitWritable init) :
    Parses true (initialiser .standard) (initWords init) (.symbol .semicolon :: k)
      (fun init' => init'.map Expr.unspanned = init.map Expr.unspanned) := by
  cases init with
  | none => exact .accept_false (by simp [initWords]) (.pure rfl)
  | some e =>
    refine .accept_true ?_
    refine (parses_terminated (h e rfl)).bind_last fun e' he' => .pure ?_
    rw [Option.map_some, Option.map_some, he']

/-! ### Variables and clauses -/

theorem parses_variableDeclaration {v : Variable} (h : v.Writable) :
    Parses true (variableDeclaration .standard) v.words k (·.unspanned = v.unspanned) := by
  refine .typeName fun _ => .expectName fun _ => ?_
  refine (parses_initialiser h.init).bind fun init' hinit' => ?_
  refine .expectSymbol fun _ => .previousEnd fun _ => .pure ?_
  rw [Variable.unspanned, Variable.unspanned, hinit']
  rfl

/-- In its body every word is a name, under every registry. -/
theorem parses_specClause_derived {registry : Registry} {word : String} {w : List TokenKind}
    {e : Expr} (d : Descriptor) (h : Derives registry false .implication w e) :
    Parses on (specClause registry d) (.identifier word :: (w ++ [.symbol .semicolon])) k
      (·.unspanned = ⟨d, e.unspanned, .origin⟩) := by
  refine .advance (by simp) fun _ => ?_
  have body : Parses false (expression registry) w (.symbol .semicolon :: k)
      (·.unspanned = e.unspanned) :=
    parses_derived h (not_continues_symbol (by decide) (by decide) (by decide))
  refine (Parses.withReserving false body).bind fun e' he' => ?_
  refine .expectSymbol fun _ => .previousEnd fun _ => .pure ?_
  rw [SpecClause.unspanned, he']

theorem parses_specClause {c : SpecClause} (h : c.Writable) :
    Parses on (specClause .standard c.descriptor) c.words k (·.unspanned = c.unspanned) :=
  parses_specClause_derived c.descriptor (c.expr.derives_words _ h.expr)

theorem keyword?_standard {d : Descriptor} (h : d.Standard) :
    (TokenKind.identifier d.keyword).keyword? .standard true = some d := by
  rw [h]
  exact Registry.get?_keyword_kind d.kind

theorem keyword?_isFreeName {word : String} (h : IsFreeName word) :
    (TokenKind.identifier word).keyword? .standard true = none :=
  h.2

/-! ### Blocks -/

/-- Of fewer than `n` tokens, the parser reads every statement. -/
def CompleteStatement (n : Nat) (p : Parser Statement) : Prop :=
  ∀ (s : Statement) (k : List TokenKind), s.Writable → (s.words ++ k).length < n →
    Parses true p s.words k (·.unspanned = s.unspanned)

/-- Tokens with which a statement can start. -/
theorem exists_first_words {s : Statement} (h : s.Writable) :
    ∃ t u, s.words = t :: u ∧ t ≠ .symbol .rightBrace ∧ t ≠ .endOfText ∧
      t ≠ .symbol .semicolon := by
  cases s with
  | expr e =>
    obtain ⟨t, u, hw, ht⟩ := (e.derives_words .implication h).exists_cons
    refine ⟨t, u ++ [.symbol .semicolon], by rw [Statement.words, hw, List.cons_append],
      ?_, ?_, ?_⟩
    · rintro rfl
      exact absurd (startsExpression_symbol ht) (by decide)
    · rintro rfl
      rcases ht with ht | ⟨op, ht⟩ <;> cases ht
    · rintro rfl
      exact absurd (startsExpression_symbol ht) (by decide)
  | missing => exact h.elim
  | _ => exact ⟨_, _, rfl, by simp, by simp, by simp⟩

theorem parses_statementOrPlaceholder {statement : Parser Statement} {w : List TokenKind}
    {Q : Statement → Prop} (h : Parses on statement w k Q) :
    Parses on (statementOrPlaceholder statement) w k Q := by
  refine .span fun _ => ?_
  rw [← List.append_nil w]
  exact .outcome h fun s hs => .pure hs

theorem parses_statementsOf {statement : Parser Statement} (h : CompleteStatement n statement)
    {ss : List Statement} (hss : Statement.Writable.listWritable ss)
    (hn : (Statement.words.listWords ss ++ .symbol .rightBrace :: k).length < n) :
    Parses true (statementsOf statement) (Statement.words.listWords ss) (.symbol .rightBrace :: k)
      (fun ss' => ss'.map (·.unspanned) = ss.map (·.unspanned)) := by
  induction ss with
  | nil => exact .recur fun again _ => .kind (.pure rfl)
  | cons s ss ih =>
    refine .recur fun again hagain => .kind ?_
    obtain ⟨t, u, hw, hbrace, hend, hsemicolon⟩ := exists_first_words hss.1
    have hfirst : firstKind (Statement.words.listWords (s :: ss) ++ .symbol .rightBrace :: k) =
        t := by
      rw [Statement.words.listWords, hw]
      rfl
    have hs : (s.words ++ (Statement.words.listWords ss ++ .symbol .rightBrace :: k)).length < n := by
      rwa [Statement.words.listWords, List.append_assoc] at hn
    rw [hfirst]
    split
    · exact absurd rfl hbrace
    · exact absurd rfl hend
    · exact absurd rfl hsemicolon
    · refine (parses_statementOrPlaceholder (h s _ hss.1 hs)).bind fun s' hs' => ?_
      have hlt : (Statement.words.listWords ss ++ .symbol .rightBrace :: k).length <
          (Statement.words.listWords (s :: ss) ++ .symbol .rightBrace :: k).length := by
        rw [Statement.words.listWords, hw]
        simp only [List.length_append, List.length_cons]
        omega
      refine (hagain () _ _ _ hlt (ih hss.2 (Nat.lt_trans hlt hn))).bind_last fun ss' hss' => .pure ?_
      rw [List.map_cons, List.map_cons, hs', hss']

theorem parses_blockOf {statement : Parser Statement} (h : CompleteStatement n statement)
    {b : Block} (hb : Statement.Writable.listWritable b.statements)
    (hn : (b.words ++ k).length < n + 1) :
    Parses true (blockOf statement) b.words k (·.unspanned = b.unspanned) := by
  refine .expectSymbol fun _ => ?_
  have hlt : (Statement.words.listWords b.statements ++ .symbol .rightBrace :: k).length < n := by
    rw [Block.words] at hn
    simp only [List.length_append, List.length_cons] at hn ⊢
    omega
  refine (parses_statementsOf h hb hlt).bind fun ss' hss' => .expectSymbol fun _ => .pure ?_
  rw [Block.unspanned, Block.unspanned, hss']

/-! ### Statements -/

/-- Behind a name at its start, an expression before a terminator goes on as no other
statement does. -/
theorem nextKind_of_expression {w : List TokenKind} (h : NameContinues w) {word : String}
    (hfirst : firstKind w = .identifier word) :
    (∀ name, nextKind (w ++ .symbol .semicolon :: k) ≠ .identifier name) ∧
      nextKind (w ++ .symbol .semicolon :: k) ≠ .symbol .colon ∧
      nextKind (w ++ .symbol .semicolon :: k) ≠ .symbol .assign := by
  obtain ⟨u, rfl⟩ : ∃ u, w = .identifier word :: u := by
    cases w with
    | nil => cases hfirst
    | cons t u => exact ⟨u, by rw [← hfirst]; rfl⟩
  rcases h word u rfl with rfl | ⟨t, v, rfl, ht⟩
  · simp
  · refine ⟨fun name heq => ?_, fun heq => ?_, fun heq => ?_⟩
    · obtain rfl : t = .identifier name := heq
      exact not_continues_identifier ht
    · obtain rfl : t = .symbol .colon := heq
      exact not_continues_symbol (by decide) (by decide) (by decide) ht
    · obtain rfl : t = .symbol .assign := heq
      exact not_continues_symbol (by decide) (by decide) (by decide) ht

theorem parses_expressionStatement {e : Expr} (h : e.Writable true) :
    Parses true (expressionStatement .standard) (Statement.expr e).words k
      (·.unspanned = (Statement.expr e).unspanned) := by
  refine (parses_terminated h).bind fun e' he' => .expectSymbol fun _ => .pure ?_
  rw [Statement.unspanned, Statement.unspanned, he']

theorem parses_plainStatement_expr {statement : Parser Statement} {e : Expr}
    (h : e.Writable true) :
    Parses true (plainStatement .standard statement) (Statement.expr e).words k
      (·.unspanned = (Statement.expr e).unspanned) := by
  refine .kind (.secondKind ?_)
  have hderives := e.derives_words .implication h
  obtain ⟨t, u, hw, -⟩ := hderives.exists_first
  have hfirst : firstKind ((Statement.expr e).words ++ k) = firstKind (e.words .implication) := by
    rw [Statement.words, hw]
    rfl
  have hnext : nextKind ((Statement.expr e).words ++ k) =
      nextKind (e.words .implication ++ .symbol .semicolon :: k) := by
    rw [Statement.words, List.append_assoc]
    rfl
  rw [hfirst, hnext]
  split
  · next heq hcolon => exact absurd hcolon (nextKind_of_expression hderives.nameContinues heq).2.1
  · next heq hname => exact absurd hname ((nextKind_of_expression hderives.nameContinues heq).1 _)
  · next heq hassign => exact absurd hassign (nextKind_of_expression hderives.nameContinues heq).2.2
  · exact parses_expressionStatement h

theorem parses_leaveStatement {value : Option Expr} {s : Span} (h : InitWritable value) :
    Parses true (leaveStatement .standard) (Statement.leave value s).words k
      (·.unspanned = (Statement.leave value s).unspanned) := by
  refine .advance (by simp) fun _ => .kind ?_
  cases value with
  | none =>
    refine .look (fun _ _ _ => rfl) (.expectSymbol fun _ => .previousEnd fun _ => .pure ?_)
    rfl
  | some e =>
    have hfirst : firstKind (e.words .implication ++ [.symbol .semicolon] ++ k) ≠
        .symbol .semicolon := by
      obtain ⟨t, u, hw, ht⟩ := (e.derives_words .implication (h e rfl)).exists_cons
      rw [hw]
      rintro rfl
      exact absurd (startsExpression_symbol ht) (by decide)
    rw [Option.map_some, Option.getD_some, if_neg hfirst]
    refine ((parses_terminated (h e rfl)).map (R := fun v => v.map Expr.unspanned =
      some e.unspanned) fun e' he' => by rw [Option.map_some, he']).bind fun v hv => ?_
    refine .expectSymbol fun _ => .previousEnd fun _ => .pure ?_
    rw [Statement.unspanned, Statement.unspanned, hv]
    rfl

/-- One statement is read where the statements inside it are. -/
theorem parses_statementOf {statement : Parser Statement} (h : CompleteStatement n statement)
    {s : Statement} (hs : s.Writable) (hn : (s.words ++ k).length < n + 1) :
    Parses true (statementOf .standard statement) s.words k (·.unspanned = s.unspanned) := by
  cases s with
  | declare decl =>
    refine .kind_cons (.clauseKeyword?_cons ?_)
    rw [keyword?_isFreeName hs.type]
    refine .kind_cons (.secondKind_cons ?_)
    refine (parses_variableDeclaration hs).bind_last fun decl' hdecl' => .pure ?_
    rw [Statement.unspanned, Statement.unspanned, hdecl']
  | ghost d decl =>
    obtain ⟨rfl, hdecl⟩ := hs
    refine .kind_cons (.clauseKeyword?_cons ?_)
    have hd : (Descriptor.ofKind .declaration).Standard := rfl
    rw [keyword?_standard hd]
    refine .advance (by simp) fun _ => ?_
    refine (parses_variableDeclaration hdecl).bind_last fun decl' hdecl' => .pure ?_
    rw [Statement.unspanned, Statement.unspanned, hdecl']
  | assign target value _ =>
    refine .kind_cons (.clauseKeyword?_cons ?_)
    rw [keyword?_isFreeName hs.1]
    refine .kind_cons (.secondKind_cons (.expectName fun _ => .expectSymbol fun _ => ?_))
    refine (parses_terminated hs.2).bind fun value' hvalue' => ?_
    refine .expectSymbol fun _ => .previousEnd fun _ => .pure ?_
    rw [Statement.unspanned, Statement.unspanned, hvalue']
    rfl
  | labeled label body _ =>
    refine .kind_cons (.clauseKeyword?_cons ?_)
    rw [keyword?_isFreeName hs.1]
    refine .kind_cons (.secondKind_cons (.expectName fun _ => .expectSymbol fun _ => ?_))
    have hlt : (body.words ++ k).length < n := by
      rw [Statement.words] at hn
      simp only [List.length_append, List.length_cons] at hn ⊢
      omega
    refine (h body k hs.2 hlt).bind_last fun body' hbody' => .previousEnd fun _ => .pure ?_
    rw [Statement.unspanned, Statement.unspanned, hbody']
    rfl
  | clause c =>
    obtain ⟨hc, keyword, hkind⟩ := hs
    refine .kind_cons (.clauseKeyword?_cons ?_)
    rw [keyword?_standard hc.descriptor]
    simp only [clauseStatement, hkind]
    refine (parses_specClause hc).bind_last fun c' hc' => .pure ?_
    rw [Statement.unspanned, Statement.unspanned, hc']
  | leave value _ => exact .kind_cons (parses_leaveStatement hs)
  | expr e =>
    refine .kind ?_
    obtain ⟨t, u, hw, ht⟩ := (e.derives_words .implication hs).exists_cons
    have hfirst : firstKind ((Statement.expr e).words ++ k) = t := by
      rw [Statement.words, hw]
      rfl
    rw [hfirst]
    split
    · exact absurd (startsExpression_symbol ht) (by decide)
    · rcases ht with ht | ⟨op, ht⟩
      · rcases ht with ht | ht <;> cases ht
      · cases ht
    · refine .clauseKeyword? ?_
      have hkeyword : t.keyword? .standard true = none := by
        cases t with
        | identifier word =>
          rcases ht with ht | ⟨op, ht⟩
          · exact ht rfl
          · cases ht
        | _ => rfl
      rw [hfirst, hkeyword]
      exact parses_plainStatement_expr hs
  | block statements s =>
    refine .kind_cons ?_
    refine (parses_blockOf (b := ⟨statements, s⟩) h hs hn).bind_last fun b' hb' => .pure ?_
    rw [Statement.unspanned, Statement.unspanned, Statement.listUnspanned_eq,
      Statement.listUnspanned_eq]
    injection hb' with hb'
    rw [hb']
  | missing => exact hs.elim

theorem complete_statement (n : Nat) : CompleteStatement n (statement .standard) := by
  induction n with
  | zero => exact fun s k _ hn => absurd hn (Nat.not_lt_zero _)
  | succ n ih =>
    intro s k hs hn
    refine .recur fun again hagain => ?_
    refine parses_statementOf (n := (s.words ++ k).length) ?_ hs (Nat.lt_succ_self _)
    intro s' k' hs' hn'
    exact hagain () s'.words k' _ hn' (ih s' k' hs' (by omega))

theorem parses_block {b : Block} (hb : Statement.Writable.listWritable b.statements) :
    Parses true (block .standard) b.words k (·.unspanned = b.unspanned) :=
  parses_blockOf (complete_statement _) hb (Nat.lt_succ_self _)

end Contracts.Parser
