import Contracts.Proofs.Grammar.Recast
import Contracts.Proofs.Parsing.Sound

/-! Parsers under a registry with other descriptors. What is read is told by keywords and kinds of
descriptors, and the rest of a descriptor is only put into the tree. So where another registry has
the same words, with descriptors that differ in nothing else than arities and capabilities, the same
errors are reported, and the tree is the same but for the descriptors (`parseUnit_recast`). -/

namespace Contracts

/-- The same change to every descriptor of a tree. -/
abbrev Recast.uniform (change : Descriptor → Descriptor) : Recast where
  state := change
  clause := change

/-- A change that leaves keywords and kinds takes the descriptors of a registry to those of another
one, word by word. -/
structure Registry.Recasts (change : Descriptor → Descriptor) (r r' : Registry) : Prop where
  get? (word : String) : r'.get? word = (r.get? word).map change
  keyword (d : Descriptor) : (change d).keyword = d.keyword
  kind (d : Descriptor) : (change d).kind = d.kind

namespace Parser

variable {α α' β β' γ γ' : Type}

/-- The second parser reads like the first one, and changes the result. -/
def Maps (g : α → α') (p : Parser α) (q : Parser α') : Prop := q = g <$> p

theorem map_apply_congr {g : α → α'} {p p' : Parser α} {c : Cursor} (h : p c = p' c) :
    (g <$> p) c = (g <$> p') c := by
  rw [map_eq_pure_bind, map_eq_pure_bind, bind_apply, bind_apply, h]

/-! ### Rules -/

namespace Maps

variable {g : α → α'} {i : β → β'} {p : Parser α} {q : Parser α'}

theorem pure {a : α} {a' : α'} (h : g a = a') : Maps g (Pure.pure a) (Pure.pure a') := by
  rw [Maps, map_pure, h]

theorem bind {f : α → Parser β} {f' : α' → Parser β'} (hp : Maps g p q)
    (hf : ∀ a, Maps i (f a) (f' (g a))) : Maps i (p >>= f) (q >>= f') := by
  have parts : (fun a => f' (g a)) = fun a => i <$> f a := funext hf
  rw [Maps, map_bind, ← parts, show q = g <$> p from hp, bind_map_left]

/-- What both parsers read in the same way. -/
theorem both {p : Parser α} {f : α → Parser β} {f' : α → Parser β'}
    (hf : ∀ a, Maps i (f a) (f' a)) : Maps i (p >>= f) (p >>= f') := by
  have parts : f' = fun a => i <$> f a := funext hf
  rw [Maps, map_bind, parts]

theorem map {f : α → β} {f' : α' → β'} (hp : Maps g p q) (hf : ∀ a, i (f a) = f' (g a)) :
    Maps i (f <$> p) (f' <$> q) := by
  rw [map_eq_pure_bind, map_eq_pure_bind]
  exact hp.bind fun a => .pure (hf a)

theorem failHere (fault : SyntaxFault) :
    Maps g (Parser.failHere fault) (Parser.failHere fault) := rfl

theorem outcome (hp : Maps g p q) : Maps (Except.map g) (outcome p) (outcome q) := by
  rw [show q = g <$> p from hp]
  funext c
  rw [map_eq_pure_bind, map_eq_pure_bind, bind_apply]
  unfold Parser.outcome
  rw [bind_apply]
  cases p c <;> rfl

theorem withReserving (on : Bool) (hp : Maps g p q) :
    Maps g (withReserving on p) (withReserving on q) := by
  rw [show q = g <$> p from hp]
  funext c
  rw [map_eq_pure_bind, map_eq_pure_bind, bind_apply]
  unfold Parser.withReserving
  rw [bind_apply]
  cases p { c with reserving := on } <;> rfl

/-- A repetition is changed when each entry is, given that the entries behind it are. -/
theorem recur {a : γ → γ'} {step : (γ → Parser α) → γ → Parser α}
    {step' : (γ' → Parser α') → γ' → Parser α'}
    (hstep : ∀ again again', (∀ b, Maps g (again b) (again' (a b))) →
      ∀ b, Maps g (step again b) (step' again' (a b))) (b : γ) :
    Maps g (recur step b) (recur step' (a b)) := by
  suffices ∀ c, Parser.recur step' (a b) c = (g <$> Parser.recur step b) c from funext this
  exact recur_induction₂ (k := id) (i := a) (M := fun _ c p q => q c = (g <$> p) c) (fun _ => rfl)
    (fun hp hq same => hq.trans (same.trans (map_apply_congr hp).symm)) (fun _ _ => rfl)
    (fun again again' hagain b c =>
      congrFun (hstep again again' (fun b => funext (hagain b)) b) c) b

/-- The same where the entries have no argument. -/
theorem recur_unit {step : (Unit → Parser α) → Parser α} {step' : (Unit → Parser α') → Parser α'}
    (hstep : ∀ again again', Maps g (again ()) (again' ()) → Maps g (step again) (step' again')) :
    Maps g (Parser.recur (fun again _ => step again) ())
      (Parser.recur (fun again _ => step' again) ()) :=
  recur (a := fun u => u) (fun _ _ hagain _ => hstep _ _ (hagain ())) ()

end Maps

/-! ### Expressions -/

section

variable {g : α → α'} {item : Parser α} {item' : Parser α'} (h : Maps g item item')

include h

theorem maps_commaSeparated : Maps (List.map g) (commaSeparated item) (commaSeparated item') := by
  refine .recur_unit fun again again' hagain => ?_
  refine h.bind fun a => .both fun found => ?_
  split
  · exact hagain.bind fun as => .pure rfl
  · exact .pure rfl

theorem maps_parenthesized : Maps (List.map g) (parenthesized item) (parenthesized item') := by
  refine .both fun _ => .both fun k => ?_
  have finish (as : List α) : Maps (List.map g)
      (do let _ ← expectSymbol .rightParen; return as)
      (do let _ ← expectSymbol .rightParen; return as.map g) := .both fun _ => .pure rfl
  split
  · exact .bind (.pure rfl) finish
  · exact (maps_commaSeparated h).bind finish

end

section

variable {k : Recast} {expr expr' : Parser Expr} (h : Maps (Expr.recast k) expr expr')

include h

omit h in
theorem recast_joined (k : Recast) (op : BinaryOp) (left right : Expr) :
    (joined op left right).recast k = joined op (left.recast k) (right.recast k) := by
  rw [joined, joined, Expr.recast_binary, Expr.span_recast, Expr.span_recast]

theorem maps_chain (level : List (Symbol × BinaryOp)) :
    Maps (Expr.recast k) (chain level expr) (chain level expr') := by
  refine h.bind fun left => .recur (fun again again' hagain left => ?_) left
  refine .both fun kind => ?_
  split
  · exact .pure rfl
  · next op _ =>
    refine .both fun _ => h.bind fun right => ?_
    rw [← recast_joined]
    exact hagain _

theorem maps_prefixed : Maps (Expr.recast k) (prefixed expr) (prefixed expr') := by
  refine .recur_unit fun again again' hagain => .both fun kind => ?_
  split
  · exact h
  · exact .both fun t => hagain.bind fun e =>
      .pure (by rw [Expr.recast_unary, Expr.span_recast])

theorem maps_selections (e : Expr) :
    Maps (Expr.recast k) (selections expr e) (selections expr' (e.recast k)) := by
  refine .recur (fun again again' hagain e => ?_) e
  refine .both fun kind => ?_
  split
  · refine (maps_parenthesized h).bind fun args => .both fun stop => ?_
    have call := Expr.recast_call k e args ⟨e.span.start, stop⟩
    rw [Expr.span_recast, ← call]
    exact hagain _
  · refine .both fun _ => .both fun n => ?_
    have field := Expr.recast_field k e n (e.span.union n.span)
    rw [Expr.span_recast, ← field]
    exact hagain _
  · exact .pure rfl

end

section

variable {change : Descriptor → Descriptor} {r r' : Registry} (recasts : r.Recasts change r')

include recasts

theorem maps_clauseKeyword? :
    Maps (Option.map change) (clauseKeyword? r) (clauseKeyword? r') := by
  refine .both fun on => .both fun kind => ?_
  split
  · exact .pure (recasts.get? _).symm
  · exact .pure rfl

/-- A word refers to an earlier state under both registries or under none. -/
theorem stateWord_recast (word : String) :
    ((r'.get? word).bind fun d => d.stateKeyword?.map (d, ·)) =
      ((r.get? word).bind fun d => d.stateKeyword?.map (d, ·)).map fun x => (change x.1, x.2) := by
  rw [recasts.get?]
  cases r.get? word with
  | none => rfl
  | some d =>
    simp only [Option.map_some, Option.bind_some, Descriptor.stateKeyword?, recasts.kind,
      Option.map_map, Function.comp_def]

section

variable {expr expr' : Parser Expr} (h : Maps (Expr.recast (.uniform change)) expr expr')

include h

theorem maps_stateReferenceOf (d : Descriptor) (keyword : StateKeyword) :
    Maps (Expr.recast (.uniform change)) (stateReferenceOf expr d keyword)
      (stateReferenceOf expr' (change d) keyword) := by
  unfold stateReferenceOf
  rw [recasts.keyword]
  refine .both fun t => .both fun kind => ?_
  split
  · refine (maps_parenthesized h).bind fun args => .both fun stop => ?_
    have behind := maps_selections h
      (.state ⟨d, keyword, [], t.span, ⟨t.span.start, stop⟩⟩ args none)
    rw [Expr.recast_state] at behind
    exact behind
  · exact .both fun _ => .pure rfl

theorem maps_specWord (word : String) :
    Maps (Expr.recast (.uniform change)) (specWord r expr word) (specWord r' expr' word) := by
  unfold specWord
  split
  · exact .both fun t => .pure rfl
  · rw [stateWord_recast recasts]
    cases (r.get? word).bind fun d => d.stateKeyword?.map (d, ·) with
    | none => exact .both fun t => .both fun _ => .pure rfl
    | some x => exact maps_stateReferenceOf recasts h x.1 x.2

theorem maps_primary :
    Maps (Expr.recast (.uniform change)) (primary r expr) (primary r' expr') := by
  refine .both fun kind => ?_
  split
  · refine (maps_clauseKeyword? recasts).bind fun found => .both fun t => ?_
    cases found with
    | none => exact .pure rfl
    | some d =>
      dsimp only [Option.map_some]
      rw [recasts.keyword]
      exact .both fun _ => .pure rfl
  · exact .both fun t => .pure rfl
  · exact .both fun t => .pure rfl
  · exact .both fun t => .pure rfl
  · exact .both fun _ => h.bind fun e => .both fun _ => .pure rfl
  · exact maps_specWord recasts h _
  · exact .failHere _

theorem maps_selected :
    Maps (Expr.recast (.uniform change)) (selected r expr) (selected r' expr') :=
  (maps_primary recasts h).bind fun e => maps_selections h e

/-- So it is at every level of the ladder. -/
theorem maps_ladder (levels : List (List (Symbol × BinaryOp))) :
    Maps (Expr.recast (.uniform change)) (levels.foldr chain (prefixed (selected r expr)))
      (levels.foldr chain (prefixed (selected r' expr'))) := by
  induction levels with
  | nil => exact maps_prefixed (maps_selected recasts h)
  | cons level levels ih => exact maps_chain ih level

theorem maps_implication :
    Maps (Expr.recast (.uniform change)) (implication r expr) (implication r' expr') := by
  refine (maps_ladder recasts h ladder).bind fun left => .both fun found => ?_
  split
  · exact h.bind fun right => .pure (recast_joined _ _ _ _)
  · exact .pure rfl

end

theorem maps_expression :
    Maps (Expr.recast (.uniform change)) (expression r) (expression r') :=
  .recur_unit fun _ _ hagain => maps_implication recasts hagain

theorem maps_initialiser :
    Maps (Option.map (Expr.recast (.uniform change))) (initialiser r) (initialiser r') := by
  refine .both fun found => ?_
  split
  · exact (maps_expression recasts).bind fun e => .pure rfl
  · exact .pure rfl

/-! ### Statements -/

theorem maps_specClause (d : Descriptor) :
    Maps (SpecClause.recast (.uniform change)) (specClause r d) (specClause r' (change d)) := by
  refine .both fun t => ((maps_expression recasts).withReserving false).bind fun e => ?_
  exact .both fun _ => .both fun stop => .pure rfl

theorem maps_variableDeclaration :
    Maps (Variable.recast (.uniform change)) (variableDeclaration r) (variableDeclaration r') := by
  refine .both fun type => .both fun name => (maps_initialiser recasts).bind fun init => ?_
  exact .both fun _ => .both fun stop => .pure rfl

theorem maps_assignment :
    Maps (Statement.recast (.uniform change)) (assignment r) (assignment r') := by
  refine .both fun target => .both fun _ => (maps_expression recasts).bind fun value => ?_
  exact .both fun _ => .both fun stop => .pure rfl

theorem maps_leaveStatement :
    Maps (Statement.recast (.uniform change)) (leaveStatement r) (leaveStatement r') := by
  refine .both fun t => .both fun kind => ?_
  have finish (value : Option Expr) : Maps (Statement.recast (.uniform change))
      (do let _ ← expectSymbol .semicolon; return .leave value ⟨t.span.start, ← previousEnd⟩)
      (do
        let _ ← expectSymbol .semicolon
        return .leave (value.map (Expr.recast (.uniform change))) ⟨t.span.start, ← previousEnd⟩) :=
    .both fun _ => .both fun stop => .pure rfl
  split
  · exact .bind (.pure rfl) finish
  · refine .bind ?_ finish
    exact (maps_expression recasts).map fun _ => rfl

theorem maps_expressionStatement :
    Maps (Statement.recast (.uniform change)) (expressionStatement r) (expressionStatement r') :=
  (maps_expression recasts).bind fun _ => .both fun _ => .pure rfl

theorem maps_clauseStatement (d : Descriptor) :
    Maps (Statement.recast (.uniform change)) (clauseStatement r d)
      (clauseStatement r' (change d)) := by
  unfold clauseStatement
  rw [recasts.kind, recasts.keyword]
  split
  · exact (maps_specClause recasts d).bind fun c => .pure rfl
  · exact .both fun _ => (maps_variableDeclaration recasts).bind fun v => .pure rfl
  · exact .failHere _

end

section

variable {k : Recast} {statement statement' : Parser Statement}
  (h : Maps (Statement.recast k) statement statement')

include h

theorem maps_statementOrPlaceholder :
    Maps (Statement.recast k) (statementOrPlaceholder statement)
      (statementOrPlaceholder statement') := by
  refine .both fun place => h.outcome.bind fun result => ?_
  cases result with
  | ok s => exact .pure rfl
  | error e => exact .both fun _ => .both fun _ => .both fun stop => .pure rfl

theorem maps_statementsOf :
    Maps (List.map (Statement.recast k)) (statementsOf statement) (statementsOf statement') := by
  refine .recur_unit fun again again' hagain => .both fun kind => ?_
  split
  · exact .pure rfl
  · exact .pure rfl
  · exact .both fun _ => hagain
  · exact (maps_statementOrPlaceholder h).bind fun s => hagain.bind fun ss => .pure rfl

theorem maps_blockOf : Maps (Block.recast k) (blockOf statement) (blockOf statement') := by
  refine .both fun t => (maps_statementsOf h).bind fun ss => ?_
  exact .both fun t' => .pure rfl

theorem maps_labeledStatement :
    Maps (Statement.recast k) (labeledStatement statement) (labeledStatement statement') := by
  refine .both fun label => .both fun _ => h.bind fun body => ?_
  exact .both fun stop => .pure rfl

end

section

variable {change : Descriptor → Descriptor} {r r' : Registry} (recasts : r.Recasts change r')

include recasts

section

variable {statement statement' : Parser Statement}
  (h : Maps (Statement.recast (.uniform change)) statement statement')

include h

theorem maps_plainStatement :
    Maps (Statement.recast (.uniform change)) (plainStatement r statement)
      (plainStatement r' statement') := by
  refine .both fun kind => .both fun second => ?_
  split
  · exact maps_labeledStatement h
  · exact (maps_variableDeclaration recasts).bind fun v => .pure rfl
  · exact maps_assignment recasts
  · exact maps_expressionStatement recasts

theorem maps_statementOf :
    Maps (Statement.recast (.uniform change)) (statementOf r statement)
      (statementOf r' statement') := by
  refine .both fun kind => ?_
  split
  · refine (maps_blockOf h).bind fun b => .pure ?_
    rw [Statement.recast_block]
    rfl
  · exact maps_leaveStatement recasts
  · refine (maps_clauseKeyword? recasts).bind fun found => ?_
    cases found with
    | none => exact maps_plainStatement recasts h
    | some d => exact maps_clauseStatement recasts d

end

theorem maps_statement :
    Maps (Statement.recast (.uniform change)) (statement r) (statement r') :=
  .recur_unit fun _ _ hagain => maps_statementOf recasts hagain

theorem maps_block : Maps (Block.recast (.uniform change)) (block r) (block r') :=
  maps_blockOf (maps_statement recasts)

/-! ### Clauses of a class -/

/-- What stands between the keyword and the terminator. -/
theorem maps_typeClauseBody (d : Descriptor) :
    Maps (fun body : Expr × Option Frame => (body.1.recast (.uniform change), body.2))
      (typeClauseBody r d) (typeClauseBody r' (change d)) := by
  unfold typeClauseBody
  rw [recasts.kind]
  refine (maps_expression recasts).bind fun e => ?_
  split
  · exact .both fun found => .pure rfl
  · exact .pure rfl

theorem maps_brokenTypeClause (d : Descriptor) (start : Nat) (place : Span) :
    Maps (TypeClause.recast (.uniform change)) (brokenTypeClause d start place)
      (brokenTypeClause (change d) start place) := by
  unfold brokenTypeClause
  rw [recasts.keyword]
  exact .both fun _ => .both fun _ => .both fun stop => .pure rfl

theorem maps_typeClause (d : Descriptor) :
    Maps (TypeClause.recast (.uniform change)) (typeClause r d) (typeClause r' (change d)) := by
  refine .both fun t => ?_
  refine (((maps_typeClauseBody recasts d).withReserving false).outcome).bind fun result => ?_
  cases result with
  | error e => exact maps_brokenTypeClause recasts d t.span.start e.span
  | ok body =>
    refine .both fun found => ?_
    split
    · exact .both fun stop => .pure rfl
    · exact .both fun place => maps_brokenTypeClause recasts d t.span.start place

/-! ### Members -/

theorem maps_fieldBehind (type name : Name) :
    Maps (Field.recast (.uniform change)) (fieldBehind r type name) (fieldBehind r' type name) := by
  refine (maps_initialiser recasts).bind fun init => .both fun _ => ?_
  exact .both fun stop => .pure rfl

theorem maps_ghostField (d : Descriptor) :
    Maps (Field.recast (.uniform change)) (ghostField r d) (ghostField r' (change d)) := by
  refine .both fun t => .both fun type => .both fun name => ?_
  exact (maps_fieldBehind recasts type name).bind fun x => .pure rfl

theorem maps_methodBehind (cases : List SpecCase) (type name : Name) :
    Maps (Method.recast (.uniform change)) (methodBehind r cases type name)
      (methodBehind r' (cases.map (·.recast (.uniform change))) type name) := by
  refine .both fun params => (maps_block recasts).bind fun body => .both fun stop => .pure ?_
  cases cases <;> rfl

theorem maps_specClauses :
    Maps (List.map (SpecClause.recast (.uniform change))) (specClauses r) (specClauses r') := by
  refine .recur_unit fun again again' hagain => (maps_clauseKeyword? recasts).bind fun found => ?_
  have same : (found.map change).filter (·.kind.isMethodSpec) =
      (found.filter (·.kind.isMethodSpec)).map change := by
    cases found with
    | none => rfl
    | some d =>
      simp only [Option.map_some, Option.filter_some, recasts.kind]
      split <;> rfl
  rw [same]
  cases found.filter (·.kind.isMethodSpec) with
  | none => exact .pure rfl
  | some d => exact (maps_specClause recasts d).bind fun c => hagain.bind fun cs => .pure rfl

theorem maps_specCase :
    Maps (SpecCase.recast (.uniform change)) (specCase r) (specCase r') := by
  refine .both fun place => (maps_specClauses recasts).bind fun clauses => ?_
  rw [List.isEmpty_map]
  split
  · exact .failHere _
  · exact .both fun stop => .pure rfl

theorem maps_specCases :
    Maps (List.map (SpecCase.recast (.uniform change))) (specCases r) (specCases r') := by
  refine .recur_unit fun again again' hagain => ?_
  refine (maps_specCase recasts).bind fun c => .both fun kind => ?_
  split
  · exact .both fun _ => hagain.bind fun cs => .pure rfl
  · exact .pure rfl

theorem maps_specifiedMethod :
    Maps (Method.recast (.uniform change)) (specifiedMethod r) (specifiedMethod r') := by
  refine (maps_specCases recasts).bind fun cases => .both fun type => .both fun name => ?_
  refine .both fun kind => ?_
  split
  · exact maps_methodBehind recasts cases type name
  · exact .failHere _

theorem maps_clauseMember (d : Descriptor) :
    Maps (Member.recast (.uniform change)) (clauseMember r d) (clauseMember r' (change d)) := by
  unfold clauseMember
  rw [recasts.kind, recasts.keyword]
  split
  · exact (maps_typeClause recasts d).bind fun c => .pure rfl
  · exact (maps_specifiedMethod recasts).bind fun x => .pure rfl
  · exact (maps_ghostField recasts d).bind fun x => .pure rfl
  · exact .failHere _

theorem maps_plainMember :
    Maps (Member.recast (.uniform change)) (plainMember r) (plainMember r') := by
  refine .both fun type => .both fun name => .both fun kind => ?_
  split
  · exact (maps_methodBehind recasts [] type name).bind fun x => .pure rfl
  · exact (maps_fieldBehind recasts type name).bind fun x => .pure rfl

theorem maps_member : Maps (Member.recast (.uniform change)) (member r) (member r') := by
  refine (maps_clauseKeyword? recasts).bind fun found => ?_
  cases found with
  | some d => exact maps_clauseMember recasts d
  | none =>
    refine .both fun on => .both fun kind => ?_
    split
    · exact .failHere _
    · exact maps_plainMember recasts

/-! ### Classes -/

theorem maps_memberOrSkip :
    Maps (Option.map (Member.recast (.uniform change))) (memberOrSkip r) (memberOrSkip r') := by
  refine (maps_member recasts).outcome.bind fun result => ?_
  cases result with
  | ok x => exact .pure rfl
  | error e => exact .both fun _ => .both fun _ => .pure rfl

theorem maps_members :
    Maps (List.map (Member.recast (.uniform change))) (members r) (members r') := by
  refine .recur_unit fun again again' hagain => .both fun kind => ?_
  split
  · exact .pure rfl
  · exact .pure rfl
  · exact .both fun _ => hagain
  · refine (maps_memberOrSkip recasts).bind fun found => hagain.bind fun rest => .pure ?_
    cases found <;> rfl

theorem maps_classDeclaration :
    Maps (Class.recast (.uniform change)) (classDeclaration r) (classDeclaration r') := by
  refine .both fun t => .both fun name => .both fun _ => ?_
  refine (maps_members recasts).bind fun members => .both fun result => ?_
  cases result with
  | ok _ => exact .both fun stop => .pure rfl
  | error e => exact .both fun _ => .both fun stop => .pure rfl

theorem maps_classOrSkip :
    Maps (Option.map (Class.recast (.uniform change))) (classOrSkip r) (classOrSkip r') := by
  refine (maps_classDeclaration recasts).outcome.bind fun result => ?_
  cases result with
  | ok x => exact .pure rfl
  | error e => exact .both fun _ => .both fun _ => .pure rfl

theorem maps_classes :
    Maps (List.map (Class.recast (.uniform change))) (classes r) (classes r') := by
  refine .recur_unit fun again again' hagain => .both fun kind => ?_
  split
  · exact .pure rfl
  · refine (maps_classOrSkip recasts).bind fun found => hagain.bind fun rest => .pure ?_
    cases found <;> rfl
  · exact .both fun place => .both fun _ => .both fun _ => .both fun _ => hagain

end

end Parser

/-- A text is read in the same way, with the same errors, and the descriptors in the tree are those
of the other registry. -/
theorem parseUnit_recast {change : Descriptor → Descriptor} {r r' : Registry}
    (recasts : r.Recasts change r') (source : String) :
    parseUnit r' source =
      ⟨(parseUnit r source).unit.recast (.uniform change), (parseUnit r source).errors⟩ := by
  have cursor (c : Cursor) : c.parseUnit r' =
      ⟨(c.parseUnit r).unit.recast (.uniform change), (c.parseUnit r).errors⟩ := by
    have classes : Parser.classes r' = _ <$> Parser.classes r := Parser.maps_classes recasts
    unfold Cursor.parseUnit
    rw [classes, map_eq_pure_bind, Parser.bind_apply]
    cases Parser.classes r c <;> rfl
  unfold parseUnit
  cases lex source with
  | ok tokens => exact cursor _
  | error errors => rfl

end Contracts
