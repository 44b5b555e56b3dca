import Contracts.Proofs.Layout.Moves

/-! Every parser under a move. A span of a tree has the start of one token, or of the tree that
it begins with, and the end of another, so it moves with its tokens; a word is looked up in the
registry where it is read, so registries that agree on the words of a text are
interchangeable. Hence a unit that is read from moved tokens is the moved unit, with the moved
errors (`parseUnit_mapSpans`). -/

namespace Contracts

namespace Parser

open Cursor

variable {m : Move} {α : Type}

/-- Whole expressions. -/
abbrev MirrorsExpr (m : Move) : Parser Expr → Parser Expr → Prop := Mirrors m (·.mapSpans m.span)

/-! ### Expressions -/

theorem mapSpans_joined (m : Move) (op : BinaryOp) (left right : Expr) :
    (joined op left right).mapSpans m.span =
      joined op (left.mapSpans m.span) (right.mapSpans m.span) := by
  rw [joined, joined, Expr.mapSpans, m.span_union, Expr.span_mapSpans, Expr.span_mapSpans]

section

variable {g : α → α} {item item' : Parser α} (h : Mirrors m g item item')

include h

theorem mirrors_commaSeparated :
    Mirrors m (List.map g) (commaSeparated item) (commaSeparated item') := by
  refine .recur_unit fun again again' hagain => ?_
  refine h.bind fun a => (Mirrors.accept _).bind fun found => ?_
  split
  · exact hagain.bind fun as => .pure rfl
  · exact .pure rfl

theorem mirrors_parenthesized :
    Mirrors m (List.map g) (parenthesized item) (parenthesized item') := by
  refine (Mirrors.expectSymbol _).bind fun _ => Mirrors.kind.bind fun k => ?_
  have finish (as : List α) : Mirrors m (List.map g)
      (do let _ ← expectSymbol .rightParen; return as)
      (do let _ ← expectSymbol .rightParen; return as.map g) :=
    (Mirrors.expectSymbol _).bind fun _ => .pure rfl
  split
  · exact .bind (.pure rfl) finish
  · exact (mirrors_commaSeparated h).bind finish

end

section

variable {expr expr' : Parser Expr} (h : MirrorsExpr m expr expr')

include h

theorem mirrors_chain (level : List (Symbol × BinaryOp)) :
    MirrorsExpr m (chain level expr) (chain level expr') := by
  refine h.bind fun left => .recur (fun again again' hagain left => ?_) left
  refine Mirrors.kind.bind fun k => ?_
  split
  · exact .pure rfl
  · next op _ =>
    refine Mirrors.advance.bind fun _ => h.bind fun right => ?_
    rw [← mapSpans_joined]
    exact hagain _

theorem mirrors_prefixed : MirrorsExpr m (prefixed expr) (prefixed expr') := by
  refine .recur_unit fun again again' hagain => ?_
  refine Mirrors.kind.bind fun k => ?_
  split
  · exact h
  · exact Mirrors.advance.bind fun t => hagain.bind fun e =>
      .pure (by rw [Expr.mapSpans, Expr.span_mapSpans]; rfl)

theorem mirrors_selections (e : Expr) :
    MirrorsExpr m (selections expr e) (selections expr' (e.mapSpans m.span)) := by
  refine .recur (fun again again' hagain e => ?_) e
  refine Mirrors.kind.bind fun k => ?_
  split
  · refine (mirrors_parenthesized h).bind fun args => Mirrors.previousEnd.bind fun stop => ?_
    have moved : (Expr.call e args ⟨e.span.start, stop⟩).mapSpans m.span =
        .call (e.mapSpans m.span) (args.map (·.mapSpans m.span))
          ⟨(e.mapSpans m.span).span.start, m.offset stop⟩ := by
      rw [Expr.mapSpans, Expr.mapSpans_mapList, Expr.span_mapSpans]
      rfl
    exact moved ▸ hagain _
  · refine Mirrors.advance.bind fun _ => (Mirrors.expectName _).bind fun n => ?_
    have moved : (Expr.field e n (e.span.union n.span)).mapSpans m.span =
        .field (e.mapSpans m.span) (n.mapSpans m.span)
          ((e.mapSpans m.span).span.union (n.mapSpans m.span).span) := by
      rw [Expr.mapSpans, m.span_union, Expr.span_mapSpans]
      rfl
    exact moved ▸ hagain _
  · exact .pure rfl

theorem mirrors_stateReferenceOf (d : Descriptor) (keyword : StateKeyword) :
    MirrorsExpr m (stateReferenceOf expr d keyword) (stateReferenceOf expr' d keyword) := by
  refine Mirrors.advance.bind fun t => Mirrors.kind.bind fun k => ?_
  split
  · refine (mirrors_parenthesized h).bind fun args => Mirrors.previousEnd.bind fun stop => ?_
    have behind := mirrors_selections h
      (.state ⟨d, keyword, [], t.span, ⟨t.span.start, stop⟩⟩ args none)
    rw [Expr.mapSpans, Expr.mapSpans_mapList] at behind
    exact behind
  · exact .placeholder rfl

theorem mirrorsAt_specWord {word : String} {c : Cursor} (hc : m.Covers c)
    (hk : c.kind = .specWord word) :
    MirrorsAt m (·.mapSpans m.span) c (specWord m.source expr word)
      (specWord m.target expr' word) := by
  unfold specWord
  rw [← hc.kind word (.inr hk)]
  split
  · exact (Mirrors.advance c hc).bind hc fun _ => Mirrors.pure rfl
  · split
    · exact mirrors_stateReferenceOf h _ _ c hc
    · exact (Mirrors.advance c hc).bind hc fun _ => Mirrors.placeholder rfl

theorem mirrors_primary : MirrorsExpr m (primary m.source expr) (primary m.target expr') :=
  fun c hc => .kind <| by
    split
    · refine .clauseKeyword? hc ((Mirrors.advance c hc).bind hc fun _ => ?_)
      split
      · exact Mirrors.placeholder rfl
      · exact Mirrors.pure rfl
    · exact (Mirrors.advance c hc).bind hc fun _ => Mirrors.pure rfl
    · exact (Mirrors.advance c hc).bind hc fun _ => Mirrors.pure rfl
    · exact (Mirrors.advance c hc).bind hc fun _ => Mirrors.pure rfl
    · refine (Mirrors.advance c hc).bind hc fun _ => h.bind fun e => ?_
      exact (Mirrors.expectSymbol _).bind fun _ => .pure rfl
    · next hk => exact mirrorsAt_specWord h hc hk
    · exact Mirrors.failHere _ c hc

theorem mirrors_selected : MirrorsExpr m (selected m.source expr) (selected m.target expr') :=
  (mirrors_primary h).bind fun e => mirrors_selections h e

/-- So it is at every level of the ladder. -/
theorem mirrors_ladder (levels : List (List (Symbol × BinaryOp))) :
    MirrorsExpr m (levels.foldr chain (prefixed (selected m.source expr)))
      (levels.foldr chain (prefixed (selected m.target expr'))) := by
  induction levels with
  | nil => exact mirrors_prefixed (mirrors_selected h)
  | cons level levels ih => exact mirrors_chain ih level

theorem mirrors_implication :
    MirrorsExpr m (implication m.source expr) (implication m.target expr') := by
  refine (mirrors_ladder h ladder).bind fun left => (Mirrors.accept _).bind fun found => ?_
  split
  · exact h.bind fun right => .pure (mapSpans_joined m _ _ _)
  · exact .pure rfl

end

theorem mirrors_expression (m : Move) :
    MirrorsExpr m (expression m.source) (expression m.target) :=
  .recur_unit fun _ _ hagain => mirrors_implication hagain

theorem mirrors_initialiser (m : Move) :
    Mirrors m (Option.map (·.mapSpans m.span)) (initialiser m.source) (initialiser m.target) := by
  refine (Mirrors.accept _).bind fun found => ?_
  split
  · exact (mirrors_expression m).bind fun e => .pure rfl
  · exact .pure rfl

/-! ### Statements -/

/-- Whole statements. -/
abbrev MirrorsStatement (m : Move) : Parser Statement → Parser Statement → Prop :=
  Mirrors m (·.mapSpans m.span)

theorem mirrors_specClause (m : Move) (d : Descriptor) :
    Mirrors m (·.mapSpans m.span) (specClause m.source d) (specClause m.target d) := by
  refine Mirrors.advance.bind fun t => ((mirrors_expression m).withReserving false).bind fun e => ?_
  exact (Mirrors.expectSymbol _).bind fun _ => Mirrors.previousEnd.bind fun stop => .pure rfl

theorem mirrors_variableDeclaration (m : Move) :
    Mirrors m (·.mapSpans m.span) (variableDeclaration m.source)
      (variableDeclaration m.target) := by
  refine Mirrors.typeName.bind fun type => (Mirrors.expectName _).bind fun name => ?_
  refine (mirrors_initialiser m).bind fun init => (Mirrors.expectSymbol _).bind fun _ => ?_
  exact Mirrors.previousEnd.bind fun stop => .pure rfl

theorem mirrors_assignment (m : Move) :
    MirrorsStatement m (assignment m.source) (assignment m.target) := by
  refine (Mirrors.expectName _).bind fun target => (Mirrors.expectSymbol _).bind fun _ => ?_
  refine (mirrors_expression m).bind fun value => (Mirrors.expectSymbol _).bind fun _ => ?_
  exact Mirrors.previousEnd.bind fun stop => .pure rfl

theorem mirrors_leaveStatement (m : Move) :
    MirrorsStatement m (leaveStatement m.source) (leaveStatement m.target) := by
  refine Mirrors.advance.bind fun t => Mirrors.kind.bind fun k => ?_
  have finish (value : Option Expr) : MirrorsStatement m
      (do let _ ← expectSymbol .semicolon; return .leave value ⟨t.span.start, ← previousEnd⟩)
      (do
        let _ ← expectSymbol .semicolon
        return .leave (value.map (·.mapSpans m.span)) ⟨(m.span t.span).start, ← previousEnd⟩) :=
    (Mirrors.expectSymbol _).bind fun _ => Mirrors.previousEnd.bind fun stop => .pure rfl
  split
  · exact .bind (.pure rfl) finish
  · refine .bind ?_ finish
    exact (mirrors_expression m).map fun _ => rfl

theorem mirrors_expressionStatement (m : Move) :
    MirrorsStatement m (expressionStatement m.source) (expressionStatement m.target) :=
  (mirrors_expression m).bind fun _ => (Mirrors.expectSymbol _).bind fun _ => .pure rfl

theorem mirrors_clauseStatement (m : Move) (d : Descriptor) :
    MirrorsStatement m (clauseStatement m.source d) (clauseStatement m.target d) := by
  unfold clauseStatement
  split
  · exact (mirrors_specClause m d).bind fun c => .pure rfl
  · exact Mirrors.advance.bind fun _ => (mirrors_variableDeclaration m).bind fun v => .pure rfl
  · exact .failHere _

section

variable {statement statement' : Parser Statement} (h : MirrorsStatement m statement statement')

include h

theorem mirrors_statementOrPlaceholder :
    MirrorsStatement m (statementOrPlaceholder statement) (statementOrPlaceholder statement') := by
  refine Mirrors.span.bind fun place => h.outcome.bind fun r => ?_
  cases r with
  | ok s => exact .pure rfl
  | error e =>
    refine (Mirrors.report rfl).bind fun _ => Mirrors.skipThroughTerminator.bind fun _ => ?_
    refine Mirrors.previousEnd.bind fun stop => .pure ?_
    rw [Statement.mapSpans, Move.span, Span.map, m.mono.map_max]
    rfl

theorem mirrors_statementsOf :
    Mirrors m (List.map (·.mapSpans m.span)) (statementsOf statement)
      (statementsOf statement') := by
  refine .recur_unit fun again again' hagain => ?_
  refine Mirrors.kind.bind fun k => ?_
  split
  · exact .pure rfl
  · exact .pure rfl
  · exact Mirrors.advance.bind fun _ => hagain
  · exact (mirrors_statementOrPlaceholder h).bind fun s => hagain.bind fun ss => .pure rfl

theorem mirrors_blockOf :
    Mirrors m (·.mapSpans m.span) (blockOf statement) (blockOf statement') := by
  refine (Mirrors.expectSymbol _).bind fun t => (mirrors_statementsOf h).bind fun ss => ?_
  exact (Mirrors.expectSymbol _).bind fun t' => .pure rfl

theorem mirrors_labeledStatement :
    MirrorsStatement m (labeledStatement statement) (labeledStatement statement') := by
  refine (Mirrors.expectName _).bind fun label => (Mirrors.expectSymbol _).bind fun _ => ?_
  exact h.bind fun body => Mirrors.previousEnd.bind fun stop => .pure rfl

theorem mirrors_plainStatement :
    MirrorsStatement m (plainStatement m.source statement) (plainStatement m.target statement') :=
  fun c hc => .kind <| .secondKind <| by
    split
    · exact mirrors_labeledStatement h c hc
    · exact ((mirrors_variableDeclaration m) c hc).bind hc fun v => Mirrors.pure rfl
    · exact mirrors_assignment m c hc
    · exact mirrors_expressionStatement m c hc

theorem mirrors_statementOf :
    MirrorsStatement m (statementOf m.source statement) (statementOf m.target statement') :=
  fun c hc => .kind <| by
    split
    · refine (mirrors_blockOf h c hc).bind hc fun b => Mirrors.pure ?_
      rw [Statement.mapSpans, Statement.mapSpans_mapList]
      rfl
    · exact mirrors_leaveStatement m c hc
    · refine .clauseKeyword? hc ?_
      split
      · exact mirrors_clauseStatement m _ c hc
      · exact mirrors_plainStatement h c hc

end

theorem mirrors_statement (m : Move) :
    MirrorsStatement m (statement m.source) (statement m.target) :=
  .recur_unit fun _ _ hagain => mirrors_statementOf hagain

theorem mirrors_block (m : Move) :
    Mirrors m (·.mapSpans m.span) (block m.source) (block m.target) :=
  mirrors_blockOf (mirrors_statement m)

/-! ### Clauses of a class -/

theorem mirrors_frame (m : Move) : Mirrors m (Option.map (·.mapSpans m.span)) frame frame := by
  refine Mirrors.kind.bind fun k => ?_
  split
  · refine Mirrors.advance.bind fun _ => Mirrors.kind.bind fun k => ?_
    split
    · exact Mirrors.advance.bind fun t => .pure rfl
    · exact (mirrors_commaSeparated (.nameOr _)).bind fun names => .pure rfl
  · exact .pure rfl

/-- What stands between the keyword and the terminator, moved. -/
def movedBody (m : Move) (body : Expr × Option Frame) : Expr × Option Frame :=
  (body.1.mapSpans m.span, body.2.map (·.mapSpans m.span))

theorem mirrors_typeClauseBody (m : Move) (d : Descriptor) :
    Mirrors m (movedBody m) (typeClauseBody m.source d) (typeClauseBody m.target d) := by
  refine (mirrors_expression m).bind fun e => ?_
  split
  · exact (mirrors_frame m).bind fun found => .pure rfl
  · exact .pure rfl

theorem mirrors_brokenTypeClause (m : Move) (d : Descriptor) (start : Nat) (place : Span) :
    Mirrors m (·.mapSpans m.span) (brokenTypeClause d start place)
      (brokenTypeClause d (m.offset start) (m.span place)) := by
  refine (Mirrors.report rfl).bind fun _ => Mirrors.skipThroughTerminator.bind fun _ => ?_
  refine Mirrors.previousEnd.bind fun stop => .pure ?_
  have covered : m.span ⟨start, max stop start⟩ =
      ⟨m.offset start, max (m.offset stop) (m.offset start)⟩ := by
    rw [Move.span, Span.map, m.mono.map_max]
  rw [TypeClause.mapSpans, Expr.mapSpans, covered]
  rfl

theorem mirrors_typeClause (m : Move) (d : Descriptor) :
    Mirrors m (·.mapSpans m.span) (typeClause m.source d) (typeClause m.target d) := by
  refine Mirrors.advance.bind fun t => ?_
  refine (((mirrors_typeClauseBody m d).withReserving false).outcome).bind fun r => ?_
  cases r with
  | error e => exact mirrors_brokenTypeClause m d t.span.start e.span
  | ok body =>
    refine (Mirrors.accept _).bind fun found => ?_
    split
    · exact Mirrors.previousEnd.bind fun stop => .pure rfl
    · exact Mirrors.span.bind fun place => mirrors_brokenTypeClause m d t.span.start place

/-! ### Members -/

theorem mirrors_fieldBehind (m : Move) (type name : Name) :
    Mirrors m (·.mapSpans m.span) (fieldBehind m.source type name)
      (fieldBehind m.target (type.mapSpans m.span) (name.mapSpans m.span)) := by
  refine (mirrors_initialiser m).bind fun init => (Mirrors.expectSymbol _).bind fun _ => ?_
  exact Mirrors.previousEnd.bind fun stop => .pure rfl

theorem mirrors_ghostField (m : Move) (d : Descriptor) :
    Mirrors m (·.mapSpans m.span) (ghostField m.source d) (ghostField m.target d) := by
  refine Mirrors.advance.bind fun t => Mirrors.typeName.bind fun type => ?_
  refine (Mirrors.expectName _).bind fun name => ?_
  exact (mirrors_fieldBehind m type name).bind fun x => .pure rfl

theorem mirrors_param (m : Move) : Mirrors m (·.mapSpans m.span) param param :=
  Mirrors.typeName.bind fun type => (Mirrors.expectName _).bind fun name =>
    .pure (by rw [Param.mapSpans, m.span_union]; rfl)

theorem mirrors_methodBehind (m : Move) (cases : List SpecCase) (type name : Name) :
    Mirrors m (·.mapSpans m.span) (methodBehind m.source cases type name)
      (methodBehind m.target (cases.map (·.mapSpans m.span)) (type.mapSpans m.span)
        (name.mapSpans m.span)) := by
  refine (mirrors_parenthesized (mirrors_param m)).bind fun params => ?_
  refine (mirrors_block m).bind fun body => Mirrors.previousEnd.bind fun stop => .pure ?_
  cases cases <;> rfl

theorem mirrors_specClauses (m : Move) :
    Mirrors m (List.map (·.mapSpans m.span)) (specClauses m.source) (specClauses m.target) := by
  refine .recur_unit fun again again' hagain c hc => ?_
  refine .clauseKeyword? hc ?_
  split
  · refine (mirrors_specClause m _ c hc).bind hc fun c => ?_
    exact hagain.bind fun cs => .pure rfl
  · exact Mirrors.pure rfl c hc

theorem mirrors_specCase (m : Move) :
    Mirrors m (·.mapSpans m.span) (specCase m.source) (specCase m.target) := by
  refine Mirrors.span.bind fun place => (mirrors_specClauses m).bind fun clauses => ?_
  rw [List.isEmpty_map]
  split
  · exact .failHere _
  · exact Mirrors.previousEnd.bind fun stop => .pure rfl

theorem mirrors_specCases (m : Move) :
    Mirrors m (List.map (·.mapSpans m.span)) (specCases m.source) (specCases m.target) := by
  refine .recur_unit fun again again' hagain => ?_
  refine (mirrors_specCase m).bind fun c => ?_
  refine Mirrors.kind.bind fun k => ?_
  split
  · exact Mirrors.advance.bind fun _ => hagain.bind fun cs => .pure rfl
  · exact .pure rfl

theorem mirrors_specifiedMethod (m : Move) :
    Mirrors m (·.mapSpans m.span) (specifiedMethod m.source) (specifiedMethod m.target) := by
  refine (mirrors_specCases m).bind fun cases => Mirrors.typeName.bind fun type => ?_
  refine (Mirrors.expectName _).bind fun name => Mirrors.kind.bind fun k => ?_
  split
  · exact mirrors_methodBehind m cases type name
  · exact .failHere _

theorem mirrors_clauseMember (m : Move) (d : Descriptor) :
    Mirrors m (·.mapSpans m.span) (clauseMember m.source d) (clauseMember m.target d) := by
  unfold clauseMember
  split
  · exact (mirrors_typeClause m d).bind fun c => .pure rfl
  · exact (mirrors_specifiedMethod m).bind fun x => .pure rfl
  · exact (mirrors_ghostField m d).bind fun x => .pure rfl
  · exact .failHere _

theorem mirrors_plainMember (m : Move) :
    Mirrors m (·.mapSpans m.span) (plainMember m.source) (plainMember m.target) := by
  refine Mirrors.typeName.bind fun type => (Mirrors.expectName _).bind fun name => ?_
  refine Mirrors.kind.bind fun k => ?_
  split
  · exact (mirrors_methodBehind m [] type name).bind fun x => .pure rfl
  · exact (mirrors_fieldBehind m type name).bind fun x => .pure rfl

theorem mirrors_member (m : Move) :
    Mirrors m (·.mapSpans m.span) (member m.source) (member m.target) :=
  fun c hc => .clauseKeyword? hc <| by
    split
    · exact mirrors_clauseMember m _ c hc
    · refine (Mirrors.reserving c hc).bind hc fun on => Mirrors.kind.bind fun k => ?_
      split
      · exact .failHere _
      · exact mirrors_plainMember m

/-! ### Classes -/

theorem mirrors_memberOrSkip (m : Move) :
    Mirrors m (Option.map (·.mapSpans m.span)) (memberOrSkip m.source) (memberOrSkip m.target) := by
  refine (mirrors_member m).outcome.bind fun r => ?_
  cases r with
  | ok x => exact .pure rfl
  | error e =>
    exact (Mirrors.report rfl).bind fun _ => Mirrors.skipMember.bind fun _ => .pure rfl

theorem mirrors_members (m : Move) :
    Mirrors m (List.map (·.mapSpans m.span)) (members m.source) (members m.target) := by
  refine .recur_unit fun again again' hagain => ?_
  refine Mirrors.kind.bind fun k => ?_
  split
  · exact .pure rfl
  · exact .pure rfl
  · exact Mirrors.advance.bind fun _ => hagain
  · refine (mirrors_memberOrSkip m).bind fun found => hagain.bind fun rest => .pure ?_
    cases found <;> rfl

theorem mirrors_classDeclaration (m : Move) :
    Mirrors m (·.mapSpans m.span) (classDeclaration m.source) (classDeclaration m.target) := by
  refine Mirrors.advance.bind fun t => (Mirrors.expectName _).bind fun name => ?_
  refine (Mirrors.expectSymbol _).bind fun _ => (mirrors_members m).bind fun members => ?_
  have finish : Mirrors m (·.mapSpans m.span)
      (do return Class.mk name members ⟨t.span.start, ← previousEnd⟩)
      (do
        return Class.mk (name.mapSpans m.span) (members.map (·.mapSpans m.span))
          ⟨(m.span t.span).start, ← previousEnd⟩) :=
    Mirrors.previousEnd.bind fun stop => .pure rfl
  refine (Mirrors.expectSymbol _).outcome.bind fun r => ?_
  cases r with
  | ok _ => exact finish
  | error e => exact (Mirrors.report rfl).bind fun _ => finish

theorem mirrors_classOrSkip (m : Move) :
    Mirrors m (Option.map (·.mapSpans m.span)) (classOrSkip m.source) (classOrSkip m.target) := by
  refine (mirrors_classDeclaration m).outcome.bind fun r => ?_
  cases r with
  | ok x => exact .pure rfl
  | error e =>
    exact (Mirrors.report rfl).bind fun _ => Mirrors.skipToClass.bind fun _ => .pure rfl

theorem mirrors_classes (m : Move) :
    Mirrors m (List.map (·.mapSpans m.span)) (classes m.source) (classes m.target) := by
  refine .recur_unit fun again again' hagain => ?_
  refine Mirrors.kind.bind fun k => ?_
  split
  · exact .pure rfl
  · refine (mirrors_classOrSkip m).bind fun found => hagain.bind fun rest => .pure ?_
    cases found <;> rfl
  · refine Mirrors.span.bind fun place => (Mirrors.report rfl).bind fun _ => ?_
    exact Mirrors.advance.bind fun _ => Mirrors.skipToClass.bind fun _ => hagain

end Parser

/-- A unit that is read from moved tokens under the other registry is the moved unit. -/
theorem parseUnit_mapSpans (m : Move) {c : Cursor} (hc : m.Covers c) :
    (c.mapSpans m.span).parseUnit m.target = (c.parseUnit m.source).mapSpans m.span := by
  have run := (Parser.mirrors_classes m c hc).run
  unfold Cursor.parseUnit
  rw [run]
  cases Parser.classes m.source c with
  | ok cs d => rfl
  | error e d => simp [Parser.moved, ParsedUnit.mapSpans, CompilationUnit.mapSpans, Cursor.mapSpans]

end Contracts
