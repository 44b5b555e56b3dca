import Contracts.Proofs.Lexing.Division
import Contracts.Proofs.Parsing.OpenEnd
import Mathlib.Data.List.Forall2

/-! The token that ends a text is not needed. No parser moves over it, and the spans that trees
keep are those of tokens that were consumed, so every parser is in step with itself. Hence the
tokens of a text without the last one give the same tree and the same errors, save that an error
at the end is located at the last token (`parseUnit_dropLast`). -/

namespace Contracts

namespace Parser

open Cursor

variable {z : TextEnd} {registry : Registry} {α : Type}

/-! ### Expressions -/

section

variable {item item' : Parser α} (h : InStep z item item')

include h

theorem inStep_commaSeparated : InStep z (commaSeparated item) (commaSeparated item') := by
  refine .recur_unit fun again again' hagain => ?_
  refine h.bind fun a => (InStep.accept _).bind fun found => ?_
  split
  · exact hagain.bind fun as => .pure _
  · exact .pure _

theorem inStep_parenthesized : InStep z (parenthesized item) (parenthesized item') := by
  refine (InStep.expectSymbol _).bind fun _ => InStep.kind.bind fun k => ?_
  have finish (as : List α) : InStep z
      (do let _ ← expectSymbol .rightParen; return as)
      (do let _ ← expectSymbol .rightParen; return as) :=
    (InStep.expectSymbol _).bind fun _ => .pure as
  split
  · exact .bind (.pure []) finish
  · exact (inStep_commaSeparated h).bind finish

end

section

variable {expr expr' : Parser Expr} (h : InStep z expr expr')

include h

theorem inStep_chain (level : List (Symbol × BinaryOp)) :
    InStep z (chain level expr) (chain level expr') := by
  refine h.bind fun left => .recur (fun again again' hagain left c hc => .kind hc ?_) left
  split
  · exact InStep.pure _ c hc
  · next op hop =>
    have more : c.kind ≠ .endOfText := fun last => by rw [last] at hop; nomatch hop
    exact .advance hc more fun _ _ => h.bind fun right => hagain _

theorem inStep_prefixed : InStep z (prefixed expr) (prefixed expr') := by
  refine .recur_unit fun again again' hagain c hc => .kind hc ?_
  split
  · exact h c hc
  · next op hop =>
    have more : c.kind ≠ .endOfText := fun last => by rw [last] at hop; nomatch hop
    exact .advance hc more fun t _ => hagain.bind fun e => .pure _

theorem inStep_selections (e : Expr) : InStep z (selections expr e) (selections expr' e) := by
  refine .recur (fun again again' hagain e c hc => .kind hc ?_) e
  split
  · exact (inStep_parenthesized h c hc).bind fun args =>
      InStep.previousEnd.bind fun stop => hagain _
  · next hk =>
    refine .advance hc (by rw [hk]; nofun) fun _ _ => ?_
    exact (InStep.expectName _).bind fun n => hagain _
  · exact InStep.pure _ c hc

theorem inStepAt_stateReferenceOf (d : Descriptor) (keyword : StateKeyword) {c : Cursor}
    (hc : z.Ends c) (more : c.kind ≠ .endOfText) :
    InStepAt z c (stateReferenceOf expr d keyword) (stateReferenceOf expr' d keyword) := by
  refine .advance hc more fun t apart => InStep.kind.bind fun k => ?_
  split
  · exact (inStep_parenthesized h).bind fun args =>
      InStep.previousEnd.bind fun stop => inStep_selections h _
  · exact .placeholder apart

theorem inStepAt_specWord {word : String} {c : Cursor} (hc : z.Ends c)
    (hk : c.kind = .specWord word) :
    InStepAt z c (specWord registry expr word) (specWord registry expr' word) := by
  have more : c.kind ≠ .endOfText := by rw [hk]; nofun
  unfold specWord
  split
  · exact .advance hc more fun _ _ => .pure _
  · split
    · exact inStepAt_stateReferenceOf h _ _ hc more
    · exact .advance hc more fun _ apart => .placeholder apart

theorem inStep_primary : InStep z (primary registry expr) (primary registry expr') := by
  refine fun c hc => .kind hc ?_
  split
  · next hk =>
    refine .clauseKeyword? hc (.advance hc (by rw [hk]; nofun) fun t apart => ?_)
    split
    · exact .placeholder apart
    · exact .pure _
  · next hk => exact .advance hc (by rw [hk]; nofun) fun _ _ => .pure _
  · next hk => exact .advance hc (by rw [hk]; nofun) fun _ _ => .pure _
  · next hk => exact .advance hc (by rw [hk]; nofun) fun _ _ => .pure _
  · next hk =>
    refine .advance hc (by rw [hk]; nofun) fun _ _ => h.bind fun e => ?_
    exact (InStep.expectSymbol _).bind fun _ => .pure e
  · next hk => exact inStepAt_specWord h hc hk
  · exact InStep.failHere _ c hc

theorem inStep_selected : InStep z (selected registry expr) (selected registry expr') :=
  (inStep_primary h).bind fun e => inStep_selections h e

/-- So it is at every level of the ladder. -/
theorem inStep_ladder (levels : List (List (Symbol × BinaryOp))) :
    InStep z (levels.foldr chain (prefixed (selected registry expr)))
      (levels.foldr chain (prefixed (selected registry expr'))) := by
  induction levels with
  | nil => exact inStep_prefixed (inStep_selected h)
  | cons level levels ih => exact inStep_chain ih level

theorem inStep_implication : InStep z (implication registry expr) (implication registry expr') := by
  refine (inStep_ladder h ladder).bind fun left => (InStep.accept _).bind fun found => ?_
  split
  · exact h.bind fun right => .pure _
  · exact .pure _

end

theorem inStep_expression : InStep z (expression registry) (expression registry) :=
  .recur_unit fun _ _ hagain => inStep_implication hagain

theorem inStep_initialiser : InStep z (initialiser registry) (initialiser registry) := by
  refine (InStep.accept _).bind fun found => ?_
  split
  · exact inStep_expression.bind fun e => .pure _
  · exact .pure _

/-! ### Statements -/

theorem inStepAt_specClause (d : Descriptor) {c : Cursor} (hc : z.Ends c)
    (more : c.kind ≠ .endOfText) :
    InStepAt z c (specClause registry d) (specClause registry d) := by
  refine .advance hc more fun t _ => (inStep_expression.withReserving false).bind fun e => ?_
  exact (InStep.expectSymbol _).bind fun _ => InStep.previousEnd.bind fun stop => .pure _

theorem inStep_variableDeclaration :
    InStep z (variableDeclaration registry) (variableDeclaration registry) := by
  refine InStep.typeName.bind fun type => (InStep.expectName _).bind fun name => ?_
  refine inStep_initialiser.bind fun init => (InStep.expectSymbol _).bind fun _ => ?_
  exact InStep.previousEnd.bind fun stop => .pure _

theorem inStep_assignment : InStep z (assignment registry) (assignment registry) := by
  refine (InStep.expectName _).bind fun target => (InStep.expectSymbol _).bind fun _ => ?_
  refine inStep_expression.bind fun value => (InStep.expectSymbol _).bind fun _ => ?_
  exact InStep.previousEnd.bind fun stop => .pure _

theorem inStepAt_leaveStatement {c : Cursor} (hc : z.Ends c) (more : c.kind ≠ .endOfText) :
    InStepAt z c (leaveStatement registry) (leaveStatement registry) := by
  refine .advance hc more fun t _ => InStep.kind.bind fun k => ?_
  have finish (value : Option Expr) : InStep (α := Statement) z
      (do let _ ← expectSymbol .semicolon; return .leave value ⟨t.span.start, ← previousEnd⟩)
      (do let _ ← expectSymbol .semicolon; return .leave value ⟨t.span.start, ← previousEnd⟩) :=
    (InStep.expectSymbol _).bind fun _ => InStep.previousEnd.bind fun stop => .pure _
  split
  · exact .bind (.pure none) finish
  · exact .bind (inStep_expression.map some) finish

theorem inStep_expressionStatement :
    InStep z (expressionStatement registry) (expressionStatement registry) :=
  inStep_expression.bind fun _ => (InStep.expectSymbol _).bind fun _ => .pure _

theorem inStepAt_clauseStatement (d : Descriptor) {c : Cursor} (hc : z.Ends c)
    (more : c.kind ≠ .endOfText) :
    InStepAt z c (clauseStatement registry d) (clauseStatement registry d) := by
  unfold clauseStatement
  split
  · exact (inStepAt_specClause d hc more).bind fun c => .pure _
  · exact .advance hc more fun _ _ => inStep_variableDeclaration.bind fun v => .pure _
  · exact InStep.failHere _ c hc

section

variable {statement statement' : Parser Statement} (h : InStep z statement statement')

include h

/-- The placeholder of a statement starts at a token that is left, so it is the same. -/
theorem inStepAt_statementOrPlaceholder {c : Cursor} (hc : z.Ends c)
    (more : c.kind ≠ .endOfText) :
    InStepAt z c (statementOrPlaceholder statement) (statementOrPlaceholder statement') := by
  refine .span ?_
  rw [hc.span more]
  refine (h c hc).outcome (fun s => .pure s) fun e => ?_
  refine (InStep.report e).bind fun _ => InStep.skipThroughTerminator.bind fun _ => ?_
  exact InStep.previousEnd.bind fun stop => .pure _

theorem inStep_statementsOf : InStep z (statementsOf statement) (statementsOf statement') := by
  refine .recur_unit fun again again' hagain c hc => .kind hc ?_
  split
  · exact InStep.pure _ c hc
  · exact InStep.pure _ c hc
  · next hk => exact .advance hc (by rw [hk]; nofun) fun _ _ => hagain
  · next more _ =>
    exact (inStepAt_statementOrPlaceholder h hc more).bind fun s => hagain.bind fun ss => .pure _

theorem inStep_blockOf : InStep z (blockOf statement) (blockOf statement') := by
  refine (InStep.expectSymbol _).bind fun t => (inStep_statementsOf h).bind fun ss => ?_
  exact (InStep.expectSymbol _).bind fun t' => .pure _

theorem inStep_labeledStatement :
    InStep z (labeledStatement statement) (labeledStatement statement') := by
  refine (InStep.expectName _).bind fun label => (InStep.expectSymbol _).bind fun _ => ?_
  exact h.bind fun body => InStep.previousEnd.bind fun stop => .pure _

theorem inStep_plainStatement :
    InStep z (plainStatement registry statement) (plainStatement registry statement') := by
  refine fun c hc => .kind hc (.secondKind hc ?_)
  split
  · exact inStep_labeledStatement h c hc
  · exact (inStep_variableDeclaration c hc).bind fun v => .pure _
  · exact inStep_assignment c hc
  · exact inStep_expressionStatement c hc

theorem inStep_statementOf :
    InStep z (statementOf registry statement) (statementOf registry statement') := by
  refine fun c hc => .kind hc ?_
  split
  · exact (inStep_blockOf h c hc).bind fun b => .pure _
  · next hk => exact inStepAt_leaveStatement hc (by rw [hk]; nofun)
  · refine .clauseKeyword? hc ?_
    split
    · next hd => exact inStepAt_clauseStatement _ hc (ne_end_of_keyword? hd)
    · exact inStep_plainStatement h c hc

end

theorem inStep_statement : InStep z (statement registry) (statement registry) :=
  .recur_unit fun _ _ hagain => inStep_statementOf hagain

theorem inStep_block : InStep z (block registry) (block registry) := inStep_blockOf inStep_statement

/-! ### Clauses of a class -/

theorem inStep_frame : InStep z frame frame := by
  refine fun c hc => .kind hc ?_
  split
  · next hk =>
    refine .advance hc (by rw [hk]; nofun) fun _ _ d hd => .kind hd ?_
    split
    · next hk => exact .advance hd (by rw [hk]; nofun) fun t _ => .pure _
    · exact (inStep_commaSeparated (.nameOr _) d hd).bind fun names => .pure _
  · exact InStep.pure _ c hc

theorem inStep_typeClauseBody (d : Descriptor) :
    InStep z (typeClauseBody registry d) (typeClauseBody registry d) := by
  refine inStep_expression.bind fun e => ?_
  split
  · exact inStep_frame.bind fun found => .pure _
  · exact .pure _

/-- The place of a clause that went wrong is that of an error. -/
theorem inStep_brokenTypeClause (d : Descriptor) (start : Nat) {place place' : Span}
    (h : z.relocate ⟨.badConstruct d.keyword, place⟩ = ⟨.badConstruct d.keyword, place'⟩) :
    InStep z (brokenTypeClause d start place) (brokenTypeClause d start place') := by
  have reported := InStep.report (z := z) ⟨.badConstruct d.keyword, place⟩
  rw [h] at reported
  refine reported.bind fun _ => InStep.skipThroughTerminator.bind fun _ => ?_
  exact InStep.previousEnd.bind fun stop => .pure _

theorem inStepAt_typeClause (d : Descriptor) {c : Cursor} (hc : z.Ends c)
    (more : c.kind ≠ .endOfText) :
    InStepAt z c (typeClause registry d) (typeClause registry d) := by
  refine .advance hc more fun t _ c hc => ?_
  refine ((inStep_typeClauseBody d).withReserving false c hc).outcome (fun body => ?_) fun e => ?_
  · refine (InStep.accept _).bind fun found => ?_
    split
    · exact InStep.previousEnd.bind fun stop => .pure _
    · exact fun c hc => .span (inStep_brokenTypeClause d _ (hc.relocate_here _) c hc)
  · exact inStep_brokenTypeClause d _ (z.relocate_fault _ e)

/-! ### Members -/

theorem inStep_fieldBehind (type name : Name) :
    InStep z (fieldBehind registry type name) (fieldBehind registry type name) := by
  refine inStep_initialiser.bind fun init => (InStep.expectSymbol _).bind fun _ => ?_
  exact InStep.previousEnd.bind fun stop => .pure _

theorem inStepAt_ghostField (d : Descriptor) {c : Cursor} (hc : z.Ends c)
    (more : c.kind ≠ .endOfText) :
    InStepAt z c (ghostField registry d) (ghostField registry d) := by
  refine .advance hc more fun t _ => InStep.typeName.bind fun type => ?_
  refine (InStep.expectName _).bind fun name => ?_
  exact (inStep_fieldBehind type name).bind fun x => .pure _

theorem inStep_param : InStep z param param :=
  InStep.typeName.bind fun _ => (InStep.expectName _).bind fun _ => .pure _

theorem inStep_methodBehind (cases : List SpecCase) (type name : Name) :
    InStep z (methodBehind registry cases type name) (methodBehind registry cases type name) := by
  refine (inStep_parenthesized inStep_param).bind fun params => ?_
  exact inStep_block.bind fun body => InStep.previousEnd.bind fun stop => .pure _

theorem inStep_specClauses : InStep z (specClauses registry) (specClauses registry) := by
  refine .recur_unit fun again again' hagain c hc => .clauseKeyword? hc ?_
  split
  · next hd =>
    have more := ne_end_of_keyword? (Option.eq_some_of_filter_eq_some hd)
    exact (inStepAt_specClause _ hc more).bind fun x => hagain.bind fun xs => .pure _
  · exact InStep.pure _ c hc

/-- At the end of a text there is no clause. -/
theorem specCase_of_end {c : Cursor} (hend : c.kind = .endOfText) :
    specCase registry c = failHere .expectedSpecClause c := by
  have keyword : c.kind.keyword? registry c.reserving = none := by
    rw [hend]
    cases c.reserving <;> rfl
  have clauses : specClauses registry c = .ok [] c := by
    rw [specClauses, recur_eq, specClauses.step, bind_apply, clauseKeyword?_apply, keyword]
    rfl
  simp only [specCase, bind_apply, span, clauses]
  rfl

theorem inStep_specCase : InStep z (specCase registry) (specCase registry) := by
  intro c hc
  by_cases more : c.kind = .endOfText
  · have more' : (c.openEnd z).kind = .endOfText := hc.kind.trans more
    exact .congr (specCase_of_end more) (specCase_of_end more') (InStep.failHere _ c hc)
  · refine .span ?_
    rw [hc.span more]
    refine (inStep_specClauses c hc).bind fun clauses => ?_
    split
    · exact .failHere _
    · exact InStep.previousEnd.bind fun stop => .pure _

theorem inStep_specCases : InStep z (specCases registry) (specCases registry) := by
  refine .recur_unit fun again again' hagain => inStep_specCase.bind fun x => ?_
  refine fun c hc => .kind hc ?_
  split
  · next hk => exact .advance hc (by rw [hk]; nofun) fun _ _ => hagain.bind fun xs => .pure _
  · exact InStep.pure _ c hc

theorem inStep_specifiedMethod :
    InStep z (specifiedMethod registry) (specifiedMethod registry) := by
  refine inStep_specCases.bind fun cases => InStep.typeName.bind fun type => ?_
  refine (InStep.expectName _).bind fun name => InStep.kind.bind fun k => ?_
  split
  · exact inStep_methodBehind cases type name
  · exact .failHere _

theorem inStepAt_clauseMember (d : Descriptor) {c : Cursor} (hc : z.Ends c)
    (more : c.kind ≠ .endOfText) :
    InStepAt z c (clauseMember registry d) (clauseMember registry d) := by
  unfold clauseMember
  split
  · exact (inStepAt_typeClause d hc more).bind fun x => .pure _
  · exact (inStep_specifiedMethod c hc).bind fun x => .pure _
  · exact (inStepAt_ghostField d hc more).bind fun x => .pure _
  · exact InStep.failHere _ c hc

theorem inStep_plainMember : InStep z (plainMember registry) (plainMember registry) := by
  refine InStep.typeName.bind fun type => (InStep.expectName _).bind fun name => ?_
  refine InStep.kind.bind fun k => ?_
  split
  · exact (inStep_methodBehind [] type name).bind fun x => .pure _
  · exact (inStep_fieldBehind type name).bind fun x => .pure _

theorem inStep_member : InStep z (member registry) (member registry) := by
  refine fun c hc => .clauseKeyword? hc ?_
  split
  · next hd => exact inStepAt_clauseMember _ hc (ne_end_of_keyword? hd)
  · refine (InStep.reserving c hc).bind fun on => InStep.kind.bind fun k => ?_
    split
    · exact .failHere _
    · exact inStep_plainMember

/-! ### Classes -/

theorem inStep_memberOrSkip : InStep z (memberOrSkip registry) (memberOrSkip registry) := by
  refine fun c hc => (inStep_member c hc).outcome (fun x => .pure _) fun e => ?_
  exact (InStep.report e).bind fun _ => InStep.skipMember.bind fun _ => .pure _

theorem inStep_members : InStep z (members registry) (members registry) := by
  refine .recur_unit fun again again' hagain c hc => .kind hc ?_
  split
  · exact InStep.pure _ c hc
  · exact InStep.pure _ c hc
  · next hk => exact .advance hc (by rw [hk]; nofun) fun _ _ => hagain
  · exact (inStep_memberOrSkip c hc).bind fun found => hagain.bind fun rest => .pure _

theorem inStepAt_classDeclaration {c : Cursor} (hc : z.Ends c) (more : c.kind ≠ .endOfText) :
    InStepAt z c (classDeclaration registry) (classDeclaration registry) := by
  refine .advance hc more fun t _ => (InStep.expectName _).bind fun name => ?_
  refine (InStep.expectSymbol _).bind fun _ => inStep_members.bind fun members => ?_
  have finish : InStep z
      (do return Class.mk name members ⟨t.span.start, ← previousEnd⟩)
      (do return Class.mk name members ⟨t.span.start, ← previousEnd⟩) :=
    InStep.previousEnd.bind fun stop => .pure _
  refine fun c hc => (InStep.expectSymbol _ c hc).outcome (fun _ => finish) fun e => ?_
  exact (InStep.report e).bind fun _ => finish

theorem inStepAt_classOrSkip {c : Cursor} (hc : z.Ends c) (more : c.kind ≠ .endOfText) :
    InStepAt z c (classOrSkip registry) (classOrSkip registry) := by
  refine (inStepAt_classDeclaration hc more).outcome (fun x => .pure _) fun e => ?_
  exact (InStep.report e).bind fun _ => InStep.skipToClass.bind fun _ => .pure _

theorem inStep_classes : InStep z (classes registry) (classes registry) := by
  refine .recur_unit fun again again' hagain c hc => .kind hc ?_
  split
  · exact InStep.pure _ c hc
  · next hk =>
    refine (inStepAt_classOrSkip hc (by rw [hk]; nofun)).bind fun found => ?_
    exact hagain.bind fun rest => .pure _
  · next more _ =>
    refine .span ?_
    rw [← hc.relocate_here]
    refine .report (.advance hc more fun _ _ => ?_)
    exact InStep.skipToClass.bind fun _ => hagain

end Parser

/-! ### Units -/

namespace Cursor

/-- A unit without the token that ends the text has the same tree, and its errors are those of
the whole, with those at the end moved. -/
theorem parseUnit_openEnd {z : TextEnd} {c : Cursor} (hc : z.Ends c) (registry : Registry) :
    ((c.openEnd z).parseUnit registry).unit = (c.parseUnit registry).unit ∧
      ((c.openEnd z).parseUnit registry).errors =
        (c.parseUnit registry).errors.map z.relocate := by
  have inStep : Parser.InStep z (Parser.classes registry) (Parser.classes registry) :=
    Parser.inStep_classes
  have run := (inStep c hc).run
  unfold parseUnit
  rw [run]
  cases Parser.classes registry c with
  | ok classes d => exact ⟨rfl, rfl⟩
  | error e d =>
    refine ⟨rfl, ?_⟩
    simp only [Parser.opened, openEnd, List.map_append, List.map_singleton]

end Cursor

/-! ### The tokens of a text -/

/-- No piece is an end, and each one covers something. -/
theorem Divided.apart {start : Nat} {cs : List Char} {parts : List Part}
    (h : Divided start cs parts) {p : Part} (hp : p ∈ parts) :
    p.kind ≠ .token .endOfText ∧ p.span.start < p.span.stop := by
  induction h with
  | nil => nomatch hp
  | @cons start kind text rest parts nonempty piece _ ih =>
    rcases List.mem_cons.1 hp with rfl | hp
    · constructor
      · rintro rfl
        cases piece with
        | token _ _ gives => nomatch gives
      · obtain ⟨c, cs, rfl⟩ := List.exists_cons_of_ne_nil nonempty
        have size := c.utf8Size_pos
        simp only [byteLength]
        omega
    · exact ih hp

/-- The tokens of a text stand for something, all but the last one, which ends the text. -/
theorem tokens_of_lex {source : String} {tokens : List Token} (h : lex source = .ok tokens) :
    ∃ ts, tokens = ts ++ [⟨.endOfText, ⟨source.utf8ByteSize, source.utf8ByteSize⟩⟩] ∧
      ∀ t ∈ ts, t.kind ≠ .endOfText ∧ t.span.start < t.span.stop := by
  obtain ⟨parts, divided, -, -, same⟩ := lex_division source
  rw [same] at h
  split at h
  · refine ⟨_, (Except.ok.inj h).symm, fun t ht => ?_⟩
    obtain ⟨p, hp, found⟩ := List.mem_filterMap.1 ht
    obtain ⟨kind, hkind, rfl⟩ := Option.map_eq_some_iff.1 found
    obtain ⟨notEnd, covers⟩ := divided.apart hp
    refine ⟨?_, covers⟩
    rintro rfl
    cases hpart : p.kind with
    | token k =>
      rw [hpart] at hkind
      exact notEnd (hpart.trans (congrArg _ (Option.some.inj hkind)))
    | blank => rw [hpart] at hkind; nomatch hkind
    | comment => rw [hpart] at hkind; nomatch hkind
    | fault f => rw [hpart] at hkind; nomatch hkind
  · nomatch h

theorem closed_of_apart {place : Span} {ts : List Token}
    (h : ∀ t ∈ ts, t.kind ≠ .endOfText ∧ t.span ≠ place) (previous : Span) :
    TextEnd.Closed ⟨place, (ts.getLast?.map (·.span)).getD previous⟩ previous
      (ts ++ [⟨.endOfText, place⟩]) := by
  induction ts generalizing previous with
  | nil => exact .done rfl
  | cons t ts ih =>
    obtain ⟨⟨kind, apart⟩, others⟩ := List.forall_mem_cons.1 h
    have behind := ih others t.span
    have last : ((t :: ts).getLast?.map (·.span)).getD previous =
        (ts.getLast?.map (·.span)).getD t.span := by
      cases ts with
      | nil => rfl
      | cons u us => rw [List.getLast?_cons_cons, List.getLast?_cons]; rfl
    rw [last]
    exact .more kind apart behind

/-- The same error, so with the same message, help and code, in the same place; or an error at
the end of a text, which is located at the last token instead. -/
def SyntaxError.Retreats (place : Span) (last : Option Token) (e e' : SyntaxError) : Prop :=
  e'.fault = e.fault ∧
    if e.span = place then last.map (·.span) = some e'.span else e'.span = e.span

theorem retreats_relocate {place : Span} {last : Token} {e : SyntaxError} :
    e.Retreats place (some last) ((TextEnd.mk place last.span).relocate e) := by
  by_cases h : e.span = place
  · rw [TextEnd.relocate, if_pos h]
    exact ⟨rfl, by rw [if_pos h]; rfl⟩
  · rw [TextEnd.relocate, if_neg h]
    exact ⟨rfl, by rw [if_neg h]⟩

/-- So it is for any tokens that stand for something, with an end behind them. -/
theorem retreats_parseUnit (registry : Registry) {place : Span} {ts : List Token}
    (h : ∀ t ∈ ts, t.kind ≠ .endOfText ∧ t.span ≠ place) :
    let whole := ({ rest := ts ++ [⟨.endOfText, place⟩] } : Cursor).parseUnit registry
    let short := ({ rest := ts } : Cursor).parseUnit registry
    short.unit = whole.unit ∧
      List.Forall₂ (SyntaxError.Retreats place ts.getLast?) whole.errors short.errors := by
  intro whole short
  have closed := closed_of_apart h .origin
  have opened : ({ rest := ts ++ [⟨.endOfText, place⟩] } : Cursor).openEnd
      ⟨place, (ts.getLast?.map (·.span)).getD .origin⟩ = { rest := ts } := by
    rw [Cursor.openEnd, List.dropLast_concat]
    rfl
  obtain ⟨unit, errors⟩ := Cursor.parseUnit_openEnd (c := { rest := _ }) closed registry
  rw [opened] at unit errors
  refine ⟨unit, ?_⟩
  cases hlast : ts.getLast? with
  | none =>
    -- Without a token nothing is read and nothing is reported.
    obtain rfl := List.getLast?_eq_none_iff.1 hlast
    have clean : whole.errors = [] := List.map_eq_nil_iff.1 errors.symm
    rw [clean]
    exact .nil
  | some last =>
    rw [hlast] at errors
    have same : short.errors = whole.errors.map (TextEnd.mk place last.span).relocate := errors
    rw [same, List.forall₂_map_right_iff]
    exact List.forall₂_same.2 fun _ _ => retreats_relocate

/-- The token that ends a text may be left out. The tokens of a text without it give the same
unit, spans included, and the same errors in the same order; only an error at the end is located
at the last token, and no token stands there that it could be taken for. -/
theorem parseUnit_dropLast (registry : Registry) (source : String) (tokens : List Token)
    (h : lex source = .ok tokens) :
    let place : Span := ⟨source.utf8ByteSize, source.utf8ByteSize⟩
    let whole := ({ rest := tokens } : Cursor).parseUnit registry
    let short := ({ rest := tokens.dropLast } : Cursor).parseUnit registry
    tokens.getLast? = some ⟨.endOfText, place⟩ ∧ (∀ t ∈ tokens.dropLast, t.span ≠ place) ∧
      short.unit = whole.unit ∧
      List.Forall₂ (SyntaxError.Retreats place tokens.dropLast.getLast?) whole.errors
        short.errors := by
  obtain ⟨ts, rfl, apart⟩ := tokens_of_lex h
  have distinct : ∀ t ∈ ts, t.kind ≠ .endOfText ∧
      t.span ≠ ⟨source.utf8ByteSize, source.utf8ByteSize⟩ := fun t ht => by
    obtain ⟨kind, covers⟩ := apart t ht
    refine ⟨kind, fun same => ?_⟩
    rw [same] at covers
    exact absurd covers (Nat.lt_irrefl _)
  rw [List.dropLast_concat]
  exact ⟨List.getLast?_concat, fun t ht => (distinct t ht).2, retreats_parseUnit registry distinct⟩

/-- That a class is not closed is told at the end, or else at its opening brace. -/
theorem parseUnit_dropLast_unclosed :
    lex "class A \x7b" = .ok [⟨.reserved .classWord, ⟨0, 5⟩⟩, ⟨.identifier "A", ⟨6, 7⟩⟩,
        ⟨.symbol .leftBrace, ⟨8, 9⟩⟩, ⟨.endOfText, ⟨9, 9⟩⟩] ∧
      List.Forall₂ (SyntaxError.Retreats ⟨9, 9⟩ (some ⟨.symbol .leftBrace, ⟨8, 9⟩⟩))
        [⟨.expectedToken (.symbol .rightBrace) .endOfText, ⟨9, 9⟩⟩]
        [⟨.expectedToken (.symbol .rightBrace) .endOfText, ⟨8, 9⟩⟩] := by
  have h : lex "class A \x7b" = .ok [⟨.reserved .classWord, ⟨0, 5⟩⟩, ⟨.identifier "A", ⟨6, 7⟩⟩,
      ⟨.symbol .leftBrace, ⟨8, 9⟩⟩, ⟨.endOfText, ⟨9, 9⟩⟩] := by
    decide +kernel
  refine ⟨h, ?_⟩
  obtain ⟨-, -, -, errors⟩ := parseUnit_dropLast .standard "class A \x7b" _ h
  exact errors

end Contracts
