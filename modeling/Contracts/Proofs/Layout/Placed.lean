import Contracts.Proofs.Layout.Placing

/-! Every parser places what it reads. A tree starts where its first token starts, or the tree
that it begins with, and ends where a token behind all its parts ends; a placeholder covers what
was skipped. So the trees that are read are nested, also after errors, and no error has a span
that runs backwards (`Cursor.nested_parseUnit`). -/

namespace Contracts

namespace Parser

open Cursor

variable {α : Type} {registry : Registry}

/-- Whole expressions. -/
abbrev PlacesExpr : Parser Expr → Prop := Places (fun e => [e.span]) Expr.Nested

/-- The expression stands between the two offsets, with its parts in it. -/
abbrev Sits (lo hi : Nat) (e : Expr) : Prop := Laid lo [e.span] hi ∧ e.Nested

/-! ### Lists -/

section

variable {span : α → Span} {good : α → Prop} {item : Parser α}
  (h : Places (fun a => [span a]) good item)

include h

theorem places_commaSeparated :
    Places (List.map span) (fun as => ∀ a ∈ as, good a) (commaSeparated item) := by
  refine .recur fun again hagain c hc => ?_
  refine (h c hc).bind fun a d hd _ ha => ?_
  refine (PlacesAt.accept hd _).bind fun found e he hde _ => ?_
  split
  · refine (hagain e he).bind fun as x hx _ has => .pure hx ⟨?_, ?_⟩
    · exact ha.1.append (has.1.mono hde.stop le_rfl)
    · exact List.forall_mem_cons.2 ⟨ha.2, has.2⟩
  · exact .pure he ⟨ha.1.mono le_rfl hde.stop, List.forall_mem_singleton.2 ha.2⟩

theorem places_parenthesized :
    Places (List.map span) (fun as => ∀ a ∈ as, good a) (parenthesized item) := fun c hc => by
  refine (PlacesAt.expectSymbol hc _).bind fun _ d hd hcd _ => .kind ?_
  have finish (as : List α) (e : Cursor) (he : e.Tidy)
      (has : Laid c.previous.stop (as.map span) e.previous.stop ∧ ∀ a ∈ as, good a) :
      PlacesAt e (fun stop as => Laid c.previous.stop (as.map span) stop ∧ ∀ a ∈ as, good a)
        (do let _ ← expectSymbol .rightParen; return as) := by
    refine (PlacesAt.expectSymbol he _).bind fun _ x hx hex _ => .pure hx ⟨?_, has.2⟩
    exact has.1.mono le_rfl hex.stop
  split
  · exact finish [] d hd ⟨hcd.stop, fun _ ha => nomatch ha⟩
  · refine (places_commaSeparated h d hd).bind fun as e he _ has => ?_
    exact finish as e he ⟨has.1.mono hcd.stop le_rfl, has.2⟩

end

/-! ### Expressions -/

theorem sits_joined {lo mid hi : Nat} {left right : Expr} (op : BinaryOp) (hl : Sits lo mid left)
    (hr : Sits mid hi right) : Sits lo hi (joined op left right) := by
  obtain ⟨whole, parts⟩ := (hl.1.append hr.1).union
  exact ⟨whole, parts, hl.2, hr.2⟩

section

variable {expr : Parser Expr} (h : PlacesExpr expr)

include h

theorem places_chain (level : List (Symbol × BinaryOp)) : PlacesExpr (chain level expr) := by
  intro c hc
  refine (h c hc).bind fun left d hd _ hleft => ?_
  refine PlacesAt.recur (I := fun e d => Sits c.previous.stop d.previous.stop e)
    (R := fun _ stop e => Sits c.previous.stop stop e) (fun again hagain left d hd hleft => ?_)
    hd hleft
  refine .kind ?_
  split
  · exact .pure hd hleft
  · next op hop =>
    have more : d.kind ≠ .endOfText := fun last => by rw [last] at hop; nomatch hop
    refine (PlacesAt.advance hd more).bind fun _ e he hde _ => ?_
    refine (h e he).bind fun right x hx _ hright => ?_
    exact hagain _ x hx (sits_joined op ⟨hleft.1.mono le_rfl hde.stop, hleft.2⟩ hright)

theorem places_prefixed : PlacesExpr (prefixed expr) := by
  refine .recur fun again hagain c hc => .kind ?_
  split
  · exact h c hc
  · next op hop =>
    have more : c.kind ≠ .endOfText := fun last => by rw [last] at hop; nomatch hop
    refine (PlacesAt.advance hc more).bind fun t d hd _ ht => ?_
    refine (hagain d hd).bind fun e x hx _ he => .pure hx ?_
    obtain ⟨-, first, ordered, last⟩ := ht
    obtain ⟨behind, ordered', last'⟩ := he.1
    have start : t.span.start ≤ e.span.start := ordered.trans (Nat.le_trans last behind)
    exact ⟨.mk first (start.trans ordered') last', ⟨start, ordered', le_rfl⟩, he.2⟩

theorem placesAt_selections {lo : Nat} {e : Expr} {c : Cursor} (hc : c.Tidy)
    (he : Sits lo c.previous.stop e) :
    PlacesAt c (fun stop e => Sits lo stop e) (selections expr e) := by
  refine PlacesAt.recur (I := fun e c => Sits lo c.previous.stop e)
    (R := fun _ stop e => Sits lo stop e) (fun again hagain e c hc he => .kind ?_) hc he
  split
  · refine (places_parenthesized h c hc).bind fun args d hd hcd hargs => .previousEnd ?_
    obtain ⟨first, ordered, last⟩ := he.1
    have stop : e.span.stop ≤ d.previous.stop := Nat.le_trans last hcd.stop
    refine hagain _ d hd ⟨.mk first (ordered.trans stop) le_rfl, ⟨le_rfl, ordered, ?_⟩, he.2, ?_⟩
    · exact hargs.1.mono last le_rfl
    · exact Expr.listNested_of_forall hargs.2
  · next hk =>
    refine (PlacesAt.advance hc (by rw [hk]; nofun)).bind fun _ d hd hcd _ => ?_
    refine (PlacesAt.expectName hd _).bind fun n x hx _ hn => ?_
    obtain ⟨whole, parts⟩ := ((he.1.mono le_rfl hcd.stop).append hn).union
    exact hagain _ x hx ⟨whole, parts, he.2⟩
  · exact .pure hc he

theorem placesAt_stateReferenceOf (d : Descriptor) (keyword : StateKeyword) {c : Cursor}
    (hc : c.Tidy) (more : c.kind ≠ .endOfText) :
    PlacesAt c (fun stop e => Sits c.previous.stop stop e) (stateReferenceOf expr d keyword) := by
  refine (PlacesAt.advance hc more).bind fun t x hx _ ht => .kind ?_
  obtain ⟨-, first, ordered, last⟩ := ht
  split
  · refine (places_parenthesized h x hx).bind fun args y hy hxy hargs => .previousEnd ?_
    have stop : t.span.stop ≤ y.previous.stop := Nat.le_trans last hxy.stop
    refine placesAt_selections h hy ⟨.mk first (ordered.trans stop) le_rfl, ?_, ?_⟩
    · exact ⟨le_rfl, ordered, hargs.1.mono last le_rfl⟩
    · exact Expr.listNested_of_forall hargs.2
  · exact .placeholder hx ordered ⟨⟨first, ordered, last⟩, ordered⟩

theorem placesAt_specWord {word : String} {c : Cursor} (hc : c.Tidy)
    (hk : c.kind = .specWord word) :
    PlacesAt c (fun stop e => Sits c.previous.stop stop e) (specWord registry expr word) := by
  have more : c.kind ≠ .endOfText := by rw [hk]; nofun
  unfold specWord
  split
  · exact (PlacesAt.advance hc more).bind fun t d hd _ ht => .pure hd ⟨ht.2, ht.2.2.1⟩
  · split
    · exact placesAt_stateReferenceOf h _ _ hc more
    · refine (PlacesAt.advance hc more).bind fun t d hd _ ht => ?_
      exact .placeholder hd ht.2.2.1 ⟨ht.2, ht.2.2.1⟩

theorem places_primary : PlacesExpr (primary registry expr) := by
  intro c hc
  refine .kind ?_
  split
  · next hk =>
    refine .clauseKeyword? ((PlacesAt.advance hc (by rw [hk]; nofun)).bind fun t d hd _ ht => ?_)
    split
    · exact .placeholder hd ht.2.2.1 ⟨ht.2, ht.2.2.1⟩
    · exact .pure hd ⟨ht.2, ht.2.2.1⟩
  · next hk =>
    refine (PlacesAt.advance hc (by rw [hk]; nofun)).bind fun t d hd _ ht => ?_
    exact .pure hd ⟨ht.2, ht.2.2.1⟩
  · next hk =>
    refine (PlacesAt.advance hc (by rw [hk]; nofun)).bind fun t d hd _ ht => ?_
    exact .pure hd ⟨ht.2, ht.2.2.1⟩
  · next hk =>
    refine (PlacesAt.advance hc (by rw [hk]; nofun)).bind fun t d hd _ ht => ?_
    exact .pure hd ⟨ht.2, ht.2.2.1⟩
  · next hk =>
    refine (PlacesAt.advance hc (by rw [hk]; nofun)).bind fun _ d hd hcd _ => ?_
    refine (h d hd).bind fun e x hx _ he => ?_
    refine (PlacesAt.expectSymbol hx _).bind fun _ y hy hxy _ => .pure hy ⟨?_, he.2⟩
    exact he.1.mono hcd.stop hxy.stop
  · next hk => exact placesAt_specWord h hc hk
  · exact .failHere hc _

theorem places_selected : PlacesExpr (selected registry expr) := by
  intro c hc
  exact (places_primary h c hc).bind fun e d hd _ he => placesAt_selections h hd he

/-- So it is at every level of the ladder. -/
theorem places_ladder (levels : List (List (Symbol × BinaryOp))) :
    PlacesExpr (levels.foldr chain (prefixed (selected registry expr))) := by
  induction levels with
  | nil => exact places_prefixed (places_selected h)
  | cons level levels ih => exact places_chain ih level

theorem places_implication : PlacesExpr (implication registry expr) := by
  intro c hc
  refine (places_ladder h ladder c hc).bind fun left d hd _ hleft => ?_
  refine (PlacesAt.accept hd _).bind fun found e he hde _ => ?_
  have hleft' : Sits c.previous.stop e.previous.stop left :=
    ⟨hleft.1.mono le_rfl hde.stop, hleft.2⟩
  split
  · exact (h e he).bind fun right x hx _ hright => .pure hx (sits_joined .implies hleft' hright)
  · exact .pure he hleft'

end

theorem places_expression (registry : Registry) : PlacesExpr (expression registry) :=
  .recur fun _ hagain => places_implication hagain

theorem places_initialiser (registry : Registry) :
    Places initSpans (fun init => ∀ e ∈ init, e.Nested) (initialiser registry) := by
  intro c hc
  refine (PlacesAt.accept hc _).bind fun found d hd hcd _ => ?_
  split
  · refine (places_expression registry d hd).bind fun e x hx _ he => .pure hx ⟨?_, ?_⟩
    · exact he.1.mono hcd.stop le_rfl
    · exact fun _ found => Option.some.inj found ▸ he.2
  · exact .pure hd ⟨hcd.stop, fun _ found => nomatch found⟩

/-! ### Statements -/

/-- Whole statements. -/
abbrev PlacesStatement : Parser Statement → Prop := Places (fun s => [s.span]) Statement.Nested

/-- A clause starts with its keyword. -/
theorem placesAt_specClause (d : Descriptor) {c : Cursor} (hc : c.Tidy)
    (more : c.kind ≠ .endOfText) :
    PlacesAt c (fun stop x => (Laid c.previous.stop [x.span] stop ∧ x.Nested) ∧
      x.span.start = c.span.start) (specClause registry d) := by
  refine (PlacesAt.advance hc more).bind fun t x hx _ ht => ?_
  refine (PlacesAt.withReserving false (places_expression registry _ (hx.inMode false))).bind ?_
  intro e y hy _ he
  refine (PlacesAt.expectSymbol hy _).bind fun _ z hz hyz _ => .previousEnd (.pure hz ?_)
  obtain ⟨whole, parts⟩ := (ht.2.append he.1).cover_behind hyz.stop
  refine ⟨⟨whole, parts, he.2⟩, ?_⟩
  change t.span.start = _
  rw [ht.1]

theorem places_variableDeclaration (registry : Registry) :
    Places (fun v => [v.span]) Variable.Nested (variableDeclaration registry) := by
  intro c hc
  refine (PlacesAt.typeName hc).bind fun type x hx _ htype => ?_
  refine (PlacesAt.expectName hx _).bind fun name y hy _ hname => ?_
  refine (places_initialiser registry y hy).bind fun init z hz _ hinit => ?_
  refine (PlacesAt.expectSymbol hz _).bind fun _ e he hze _ => .previousEnd (.pure he ?_)
  obtain ⟨whole, parts⟩ := (htype.append (hname.append hinit.1)).cover hze.stop
  exact ⟨whole, parts, hinit.2⟩

theorem places_assignment (registry : Registry) : PlacesStatement (assignment registry) := by
  intro c hc
  refine (PlacesAt.expectName hc _).bind fun target x hx _ htarget => ?_
  refine (PlacesAt.expectSymbol hx _).bind fun _ y hy hxy _ => ?_
  refine (places_expression registry y hy).bind fun value z hz _ hvalue => ?_
  refine (PlacesAt.expectSymbol hz _).bind fun _ e he hze _ => .previousEnd (.pure he ?_)
  obtain ⟨whole, parts⟩ := (htarget.append (hvalue.1.mono hxy.stop le_rfl)).cover hze.stop
  exact ⟨whole, parts, hvalue.2⟩

theorem placesAt_leaveStatement (registry : Registry) {c : Cursor} (hc : c.Tidy)
    (more : c.kind ≠ .endOfText) :
    PlacesAt c (fun stop s => Laid c.previous.stop [s.span] stop ∧ s.Nested)
      (leaveStatement registry) := by
  refine (PlacesAt.advance hc more).bind fun t x hx _ ht => .kind ?_
  have finish (value : Option Expr) (y : Cursor) (hy : y.Tidy)
      (hvalue : Laid x.previous.stop (initSpans value) y.previous.stop ∧ ∀ e ∈ value, e.Nested) :
      PlacesAt y (fun stop (s : Statement) => Laid c.previous.stop [s.span] stop ∧ s.Nested)
        (do
          let _ ← expectSymbol .semicolon
          return Statement.leave value ⟨t.span.start, ← previousEnd⟩) := by
    refine (PlacesAt.expectSymbol hy _).bind fun _ z hz hyz _ => .previousEnd (.pure hz ?_)
    obtain ⟨whole, parts⟩ := (ht.2.append hvalue.1).cover_behind hyz.stop
    exact ⟨whole, parts, hvalue.2⟩
  split
  · exact finish none x hx ⟨le_rfl, fun _ found => nomatch found⟩
  · have value : PlacesAt x (fun stop value => Laid x.previous.stop (initSpans value) stop ∧
        ∀ e ∈ value, e.Nested) (some <$> expression registry) := by
      rw [map_eq_pure_bind]
      refine (places_expression registry x hx).bind fun e y hy _ he => .pure hy ⟨he.1, ?_⟩
      exact fun _ found => Option.some.inj found ▸ he.2
    exact value.bind fun value y hy _ hvalue => finish value y hy hvalue

theorem places_expressionStatement (registry : Registry) :
    PlacesStatement (expressionStatement registry) := by
  intro c hc
  refine (places_expression registry c hc).bind fun e x hx _ he => ?_
  refine (PlacesAt.expectSymbol hx _).bind fun _ y hy hxy _ => .pure hy ⟨?_, he.2⟩
  exact he.1.mono le_rfl hxy.stop

theorem placesAt_clauseStatement (d : Descriptor) {c : Cursor} (hc : c.Tidy)
    (more : c.kind ≠ .endOfText) :
    PlacesAt c (fun stop s => Laid c.previous.stop [s.span] stop ∧ s.Nested)
      (clauseStatement registry d) := by
  unfold clauseStatement
  split
  · exact (placesAt_specClause d hc more).bind fun x e he _ hx => .pure he hx.1
  · refine (PlacesAt.advance hc more).bind fun _ x hx hcx _ => ?_
    refine (places_variableDeclaration registry x hx).bind fun v y hy _ hv => .pure hy ⟨?_, hv.2⟩
    exact hv.1.mono hcx.stop le_rfl
  · exact .failHere hc _

section

variable {statement : Parser Statement} (h : PlacesStatement statement)

include h

/-- A placeholder covers what was skipped, which is not nothing. -/
theorem placesAt_statementOrPlaceholder {c : Cursor} (hc : c.Tidy) (goes : ¬c.kind.Closes) :
    PlacesAt c (fun stop s => Laid c.previous.stop [s.span] stop ∧ s.Nested)
      (statementOrPlaceholder statement) := by
  have more : c.kind ≠ .endOfText := fun last => goes (.inr last)
  refine .span ((h c hc).outcome.bind fun r d hd hcd hr => ?_)
  cases r with
  | ok s => exact .pure hd hr
  | error e =>
    have tidy := hd.report (e := e) hr
    refine .report ((PlacesAt.skipThroughTerminator tidy).bind fun _ x hx hdx skipped => ?_)
    refine .previousEnd (.pure hx ?_)
    have reached : c.span.stop ≤ x.previous.stop := hcd.reached goes hdx.stop skipped
    have onward : c.span.start ≤ x.previous.stop := hc.span_le.trans reached
    rw [max_eq_left onward]
    exact ⟨.mk (hc.stop_le more) onward le_rfl, onward⟩

theorem places_statementsOf :
    Places (List.map Statement.span) (fun ss => ∀ s ∈ ss, s.Nested) (statementsOf statement) := by
  refine .recur fun again hagain c hc => .kind ?_
  split
  · exact .pure hc ⟨le_rfl, fun _ hs => nomatch hs⟩
  · exact .pure hc ⟨le_rfl, fun _ hs => nomatch hs⟩
  · next hk =>
    refine (PlacesAt.advance hc (by rw [hk]; nofun)).bind fun _ d hd hcd _ => ?_
    exact (hagain d hd).mono fun stop ss hss => ⟨hss.1.mono hcd.stop le_rfl, hss.2⟩
  · next brace last _ =>
    refine (placesAt_statementOrPlaceholder h hc ?_).bind fun s d hd _ hs => ?_
    · rintro (hk | hk)
      · exact brace hk
      · exact last hk
    · refine (hagain d hd).bind fun ss e he _ hss => .pure he ⟨hs.1.append hss.1, ?_⟩
      exact List.forall_mem_cons.2 ⟨hs.2, hss.2⟩

theorem places_blockOf : Places (fun b => [b.span]) Block.Nested (blockOf statement) := by
  intro c hc
  refine (PlacesAt.expectSymbol hc _).bind fun t x hx _ ht => ?_
  refine (places_statementsOf h x hx).bind fun ss y hy _ hss => ?_
  refine (PlacesAt.expectSymbol hy _).bind fun t' z hz _ ht' => .pure hz ?_
  obtain ⟨behind, ordered, last⟩ := ht'
  obtain ⟨whole, parts⟩ := (ht.append hss.1).cover_behind (behind.trans ordered)
  exact ⟨whole.mono le_rfl last, parts, Statement.listNested_of_forall hss.2⟩

theorem places_labeledStatement : PlacesStatement (labeledStatement statement) := by
  intro c hc
  refine (PlacesAt.expectName hc _).bind fun label x hx _ hlabel => ?_
  refine (PlacesAt.expectSymbol hx _).bind fun _ y hy hxy _ => ?_
  refine (h y hy).bind fun body z hz _ hbody => .previousEnd (.pure hz ?_)
  obtain ⟨whole, parts⟩ := (hlabel.append (hbody.1.mono hxy.stop le_rfl)).cover le_rfl
  exact ⟨whole, parts, hbody.2⟩

theorem places_plainStatement : PlacesStatement (plainStatement registry statement) := by
  intro c hc
  refine .kind (.look (a := c.secondKind) rfl ?_)
  split
  · exact places_labeledStatement h c hc
  · exact (places_variableDeclaration registry c hc).bind fun v d hd _ hv => .pure hd hv
  · exact places_assignment registry c hc
  · exact places_expressionStatement registry c hc

theorem places_statementOf : PlacesStatement (statementOf registry statement) := by
  intro c hc
  refine .kind ?_
  split
  · refine (places_blockOf h c hc).bind fun b d hd _ hb => .pure hd ⟨hb.1, ?_⟩
    exact ⟨hb.2.parts, hb.2.statements⟩
  · next hk => exact placesAt_leaveStatement registry hc (by rw [hk]; nofun)
  · refine .clauseKeyword? ?_
    split
    · next d found =>
      exact placesAt_clauseStatement d hc (ne_end_of_keyword? found)
    · exact places_plainStatement h c hc

end

theorem places_statement (registry : Registry) : PlacesStatement (statement registry) :=
  .recur fun _ hagain => places_statementOf hagain

theorem places_block (registry : Registry) :
    Places (fun b => [b.span]) Block.Nested (block registry) :=
  places_blockOf (places_statement registry)

/-! ### Clauses of a class -/

theorem places_frame : Places frameSpans (fun _ => True) frame := by
  intro c hc
  refine .kind ?_
  split
  · next hk =>
    refine (PlacesAt.advance hc (by rw [hk]; nofun)).bind fun _ d hd hcd _ => .kind ?_
    split
    · next hk' =>
      refine (PlacesAt.advance hd (by rw [hk']; nofun)).bind fun t x hx _ ht => .pure hx ?_
      exact ⟨ht.2.mono hcd.stop le_rfl, trivial⟩
    · have names : Places (fun n => [n.span]) (fun _ => True) frameMethod := fun d hd =>
        (PlacesAt.nameOr hd _).mono fun _ _ h => ⟨h, trivial⟩
      refine (places_commaSeparated names d hd).bind fun ns x hx _ hns => .pure hx ?_
      exact ⟨hns.1.mono hcd.stop le_rfl, trivial⟩
  · exact .pure hc ⟨le_rfl, trivial⟩

theorem places_typeClauseBody (registry : Registry) (d : Descriptor) :
    Places (fun p => p.1.span :: frameSpans p.2) (fun p => p.1.Nested)
      (typeClauseBody registry d) := by
  intro c hc
  refine (places_expression registry c hc).bind fun e x hx _ he => ?_
  split
  · exact (places_frame x hx).bind fun f y hy _ hf => .pure hy ⟨he.1.append hf.1, he.2⟩
  · exact .pure hx he

theorem placesAt_brokenTypeClause (d : Descriptor) {lo start : Nat} {place : Span} {c : Cursor}
    (hc : c.Tidy) (hplace : place.start ≤ place.stop) (first : lo ≤ start)
    (reached : start ≤ c.previous.stop) :
    PlacesAt c (fun stop x => Laid lo [x.span] stop ∧ x.Nested)
      (brokenTypeClause d start place) := by
  refine .report ((PlacesAt.skipThroughTerminator (hc.report hplace)).bind fun _ x hx hcx _ => ?_)
  refine .previousEnd (.pure hx ?_)
  have onward : start ≤ x.previous.stop := Nat.le_trans reached hcx.stop
  rw [max_eq_left onward]
  exact ⟨.mk first onward le_rfl, ⟨le_rfl, onward, le_rfl⟩, onward⟩

theorem placesAt_typeClause (d : Descriptor) {c : Cursor} (hc : c.Tidy)
    (more : c.kind ≠ .endOfText) :
    PlacesAt c (fun stop x => Laid c.previous.stop [x.span] stop ∧ x.Nested)
      (typeClause registry d) := by
  refine (PlacesAt.advance hc more).bind fun t x hx _ ht => ?_
  obtain ⟨first, ordered, last⟩ := ht.2
  have reached : t.span.start ≤ x.previous.stop := ordered.trans last
  have body := places_typeClauseBody registry d _ (hx.inMode false)
  refine (PlacesAt.withReserving false body).outcome.bind fun r y hy hxy hr => ?_
  cases r with
  | error e => exact placesAt_brokenTypeClause d hy hr first (reached.trans hxy.stop)
  | ok found =>
    refine (PlacesAt.accept hy _).bind fun closed z hz hyz _ => ?_
    split
    · refine .previousEnd (.pure hz ?_)
      obtain ⟨whole, parts⟩ := (ht.2.append hr.1).cover_behind hyz.stop
      exact ⟨whole, parts, hr.2⟩
    · refine .span (placesAt_brokenTypeClause d hz hz.span_le first ?_)
      exact reached.trans (hxy.stop.trans hyz.stop)

/-! ### Fields -/

theorem placesAt_fieldBehind (registry : Registry) {type name : Name} {lo : Nat} {c : Cursor}
    (hc : c.Tidy) (h : Laid lo [type.span, name.span] c.previous.stop) :
    PlacesAt c (fun stop x => Laid lo [x.span] stop ∧ x.Nested)
      (fieldBehind registry type name) := by
  refine (places_initialiser registry c hc).bind fun init x hx _ hinit => ?_
  refine (PlacesAt.expectSymbol hx _).bind fun _ y hy hxy _ => .previousEnd (.pure hy ?_)
  obtain ⟨whole, parts⟩ := (h.append hinit.1).cover hxy.stop
  exact ⟨whole, parts, hinit.2⟩

theorem placesAt_ghostField (d : Descriptor) {c : Cursor} (hc : c.Tidy)
    (more : c.kind ≠ .endOfText) :
    PlacesAt c (fun stop x => Laid c.previous.stop [x.span] stop ∧ x.Nested)
      (ghostField registry d) := by
  refine (PlacesAt.advance hc more).bind fun t x hx _ ht => ?_
  refine (PlacesAt.typeName hx).bind fun type y hy _ htype => ?_
  refine (PlacesAt.expectName hy _).bind fun name z hz _ hname => ?_
  refine (placesAt_fieldBehind registry hz (htype.append hname)).bind fun f e he _ hf => .pure he ?_
  obtain ⟨-, first, last⟩ := ht
  obtain ⟨behind, ordered, within⟩ := hf.1
  have start : t.span.start ≤ f.span.start := last.1.trans (Nat.le_trans last.2 behind)
  exact ⟨.mk first (start.trans ordered) within, hf.2.parts.mono start le_rfl, hf.2.init⟩

/-! ### Methods -/

theorem places_param : Places (fun p => [p.span]) Param.Nested param := by
  intro c hc
  refine (PlacesAt.typeName hc).bind fun type x hx _ htype => ?_
  refine (PlacesAt.expectName hx _).bind fun name y hy _ hname => .pure hy ?_
  exact (htype.append hname).union

theorem placesAt_methodBehind (registry : Registry) {cases : List SpecCase} {type name : Name}
    {lo : Nat} {c : Cursor} (hc : c.Tidy)
    (h : Laid lo (cases.map (·.span) ++ [type.span, name.span]) c.previous.stop)
    (hcases : ∀ x ∈ cases, x.Nested) :
    PlacesAt c (fun stop m => Laid lo [m.span] stop ∧ m.Nested)
      (methodBehind registry cases type name) := by
  refine (places_parenthesized places_param c hc).bind fun params x hx _ hparams => ?_
  refine (places_block registry x hx).bind fun body y hy _ hbody => .previousEnd (.pure hy ?_)
  have laid := h.append (hparams.1.append hbody.1)
  rw [List.append_assoc] at laid
  cases cases with
  | nil =>
    obtain ⟨whole, parts⟩ := laid.cover le_rfl
    exact ⟨whole, parts, hcases, hparams.2, hbody.2⟩
  | cons first others =>
    obtain ⟨whole, parts⟩ := laid.cover le_rfl
    exact ⟨whole, parts, hcases, hparams.2, hbody.2⟩

/-- The first clause starts where the clauses do. -/
theorem placesAt_specClauses (registry : Registry) {c : Cursor} (hc : c.Tidy) :
    PlacesAt c (fun stop (xs : List SpecClause) =>
      (Laid c.previous.stop (xs.map (·.span)) stop ∧ ∀ x ∈ xs, x.Nested) ∧
        ∀ x ∈ xs.head?, x.span.start = c.span.start) (specClauses registry) := by
  refine PlacesAt.recur (I := fun _ _ => True)
    (R := fun c stop (xs : List SpecClause) =>
      (Laid c.previous.stop (xs.map (·.span)) stop ∧ ∀ x ∈ xs, x.Nested) ∧
        ∀ x ∈ xs.head?, x.span.start = c.span.start)
    (fun again hagain _ c hc _ => .clauseKeyword? ?_) hc trivial
  split
  · next d found =>
    have more := ne_end_of_keyword? (Option.filter_eq_some_iff.1 found).1
    refine (placesAt_specClause d hc more).bind fun x y hy _ hx => ?_
    refine (hagain () y hy trivial).bind fun xs z hz _ hxs => .pure hz ⟨⟨?_, ?_⟩, ?_⟩
    · exact hx.1.1.append hxs.1.1
    · exact List.forall_mem_cons.2 ⟨hx.1.2, hxs.1.2⟩
    · exact fun _ found => Option.some.inj found ▸ hx.2
  · exact .pure hc ⟨⟨le_rfl, fun _ h => nomatch h⟩, fun _ h => nomatch h⟩

theorem places_specCase (registry : Registry) :
    Places (fun x => [x.span]) SpecCase.Nested (specCase registry) := by
  intro c hc
  refine .span ((placesAt_specClauses registry hc).bind fun xs x hx _ hxs => ?_)
  cases xs with
  | nil => exact .failHere hx _
  | cons first others =>
    refine .previousEnd (.pure hx ?_)
    obtain ⟨whole, parts⟩ := hxs.1.1.cover le_rfl
    rw [hxs.2 first rfl] at whole parts
    exact ⟨whole, parts, hxs.1.2⟩

theorem places_specCases (registry : Registry) :
    Places (List.map SpecCase.span) (fun xs => ∀ x ∈ xs, x.Nested) (specCases registry) := by
  refine .recur fun again hagain c hc => ?_
  refine (places_specCase registry c hc).bind fun x d hd _ hx => .kind ?_
  split
  · next hk =>
    refine (PlacesAt.advance hd (by rw [hk]; nofun)).bind fun _ y hy hdy _ => ?_
    refine (hagain y hy).bind fun xs z hz _ hxs => .pure hz ⟨?_, ?_⟩
    · exact hx.1.append (hxs.1.mono hdy.stop le_rfl)
    · exact List.forall_mem_cons.2 ⟨hx.2, hxs.2⟩
  · exact .pure hd ⟨hx.1, List.forall_mem_singleton.2 hx.2⟩

theorem places_specifiedMethod (registry : Registry) :
    Places (fun m => [m.span]) Method.Nested (specifiedMethod registry) := by
  intro c hc
  refine (places_specCases registry c hc).bind fun xs x hx _ hxs => ?_
  refine (PlacesAt.typeName hx).bind fun type y hy _ htype => ?_
  refine (PlacesAt.expectName hy _).bind fun name z hz _ hname => .kind ?_
  split
  · exact placesAt_methodBehind registry hz (hxs.1.append (htype.append hname)) hxs.2
  · exact .failHere hz _

/-! ### Members -/

/-- Whole members. -/
abbrev PlacesMember : Parser Member → Prop := Places (fun m => [m.span]) Member.Nested

theorem placesAt_clauseMember (d : Descriptor) {c : Cursor} (hc : c.Tidy)
    (more : c.kind ≠ .endOfText) :
    PlacesAt c (fun stop m => Laid c.previous.stop [m.span] stop ∧ m.Nested)
      (clauseMember registry d) := by
  unfold clauseMember
  split
  · exact (placesAt_typeClause d hc more).bind fun _ x hx _ h => .pure hx h
  · exact (places_specifiedMethod registry c hc).bind fun _ x hx _ h => .pure hx h
  · exact (placesAt_ghostField d hc more).bind fun _ x hx _ h => .pure hx h
  · exact .failHere hc _

theorem places_plainMember (registry : Registry) : PlacesMember (plainMember registry) := by
  intro c hc
  refine (PlacesAt.typeName hc).bind fun type x hx _ htype => ?_
  refine (PlacesAt.expectName hx _).bind fun name y hy _ hname => .kind ?_
  have laid := htype.append hname
  split
  · have unspecified : ∀ x ∈ ([] : List SpecCase), x.Nested := fun _ h => nomatch h
    refine (placesAt_methodBehind registry hy laid unspecified).bind ?_
    exact fun _ z hz _ h => .pure hz h
  · exact (placesAt_fieldBehind registry hy laid).bind fun _ z hz _ h => .pure hz h

theorem places_member (registry : Registry) : PlacesMember (member registry) := by
  intro c hc
  refine .clauseKeyword? ?_
  split
  · next d found => exact placesAt_clauseMember d hc (ne_end_of_keyword? found)
  · refine .look (a := c.reserving) rfl (.kind ?_)
    split
    · exact .failHere hc _
    · exact places_plainMember registry c hc

/-! ### Recovery -/

section

variable {span : α → Span} {good : α → Prop} {item : Parser α} {skip : Parser Unit}

/-- One entry, or nothing where it had to be skipped. -/
theorem placesAt_orSkip {c : Cursor} {f : Except SyntaxError α → Parser (Option α)}
    (h : PlacesAt c (fun stop a => Laid c.previous.stop [span a] stop ∧ good a) item)
    (hskip : ∀ d, d.Tidy → PlacesAt d (fun _ _ => True) skip)
    (found : ∀ a, f (.ok a) = pure (some a))
    (lost : ∀ e, f (.error e) = do report e; skip; return none) :
    PlacesAt c (fun stop a => Laid c.previous.stop (a.toList.map span) stop ∧
      ∀ x ∈ a.toList, good x) (outcome item >>= f) := by
  refine h.outcome.bind fun r d hd hcd hr => ?_
  cases r with
  | ok a =>
    rw [found]
    exact .pure hd ⟨hr.1, List.forall_mem_singleton.2 hr.2⟩
  | error e =>
    rw [lost]
    refine .report ((hskip _ (hd.report hr)).bind fun _ x hx hdx _ => .pure hx ⟨?_, ?_⟩)
    · exact Nat.le_trans hcd.stop hdx.stop
    · exact fun _ h => nomatch h

end

theorem places_members (registry : Registry) :
    Places (List.map Member.span) (fun ms => ∀ m ∈ ms, m.Nested) (members registry) := by
  refine .recur fun again hagain c hc => .kind ?_
  split
  · exact .pure hc ⟨le_rfl, fun _ h => nomatch h⟩
  · exact .pure hc ⟨le_rfl, fun _ h => nomatch h⟩
  · next hk =>
    refine (PlacesAt.advance hc (by rw [hk]; nofun)).bind fun _ d hd hcd _ => ?_
    exact (hagain d hd).mono fun stop ms hms => ⟨hms.1.mono hcd.stop le_rfl, hms.2⟩
  · have one : PlacesAt c _ (memberOrSkip registry) :=
      placesAt_orSkip (places_member registry c hc) (fun _ hd => .skipMember hd)
        (fun _ => rfl) fun _ => rfl
    refine one.bind fun m d hd _ hm => ?_
    refine (hagain d hd).bind fun ms x hx _ hms => .pure hx ⟨?_, ?_⟩
    · rw [List.map_append]
      exact hm.1.append hms.1
    · exact List.forall_mem_append.2 ⟨hm.2, hms.2⟩

theorem placesAt_classDeclaration (registry : Registry) {c : Cursor} (hc : c.Tidy)
    (more : c.kind ≠ .endOfText) :
    PlacesAt c (fun stop x => Laid c.previous.stop [x.span] stop ∧ x.Nested)
      (classDeclaration registry) := by
  refine (PlacesAt.advance hc more).bind fun t x hx _ ht => ?_
  refine (PlacesAt.expectName hx _).bind fun name y hy _ hname => ?_
  refine (PlacesAt.expectSymbol hy _).bind fun _ z hz hyz _ => ?_
  refine (places_members registry z hz).bind fun ms e he _ hms => ?_
  have parts := ht.2.append (hname.append (hms.1.mono hyz.stop le_rfl))
  refine (PlacesAt.expectSymbol he _).outcome.bind fun r f hf hef hr => ?_
  have finish (g : Cursor) (hg : g.Tidy) (hfg : f.previous.stop ≤ g.previous.stop) :
      PlacesAt g (fun stop (x : Class) => Laid c.previous.stop [x.span] stop ∧ x.Nested)
        (do return ⟨name, ms, ⟨t.span.start, ← previousEnd⟩⟩) := by
    refine .previousEnd (.pure hg ?_)
    obtain ⟨whole, parts⟩ := parts.cover_behind (hef.stop.trans hfg)
    exact ⟨whole, parts, hms.2⟩
  cases r with
  | ok _ => exact finish f hf le_rfl
  | error e => exact .report (finish _ (hf.report hr) le_rfl)

theorem places_classes (registry : Registry) :
    Places (List.map Class.span) (fun cs => ∀ c ∈ cs, c.Nested) (classes registry) := by
  refine .recur fun again hagain c hc => .kind ?_
  split
  · exact .pure hc ⟨le_rfl, fun _ h => nomatch h⟩
  · next hk =>
    have one : PlacesAt c _ (classOrSkip registry) :=
      placesAt_orSkip (placesAt_classDeclaration registry hc (by rw [hk]; nofun))
        (fun _ hd => .skipToClass hd) (fun _ => rfl) fun _ => rfl
    refine one.bind fun x d hd _ hx => ?_
    refine (hagain d hd).bind fun xs y hy _ hxs => .pure hy ⟨?_, ?_⟩
    · rw [List.map_append]
      exact hx.1.append hxs.1
    · exact List.forall_mem_append.2 ⟨hx.2, hxs.2⟩
  · next last _ =>
    refine .span (.report ?_)
    refine (PlacesAt.advance (hc.report hc.span_le) last).bind fun _ d hd hcd _ => ?_
    refine (PlacesAt.skipToClass hd).bind fun _ x hx hdx _ => ?_
    refine (hagain x hx).mono fun stop xs hxs => ⟨hxs.1.mono ?_ le_rfl, hxs.2⟩
    exact Nat.le_trans hcd.stop hdx.stop

end Parser

/-- The tree of a unit is nested, and no error has a span that runs backwards. -/
theorem Cursor.nested_parseUnit (registry : Registry) {c : Cursor} (hc : c.Tidy)
    (start : c.previous = .origin) :
    (c.parseUnit registry).unit.Nested ∧
      ∀ e ∈ (c.parseUnit registry).errors, e.span.start ≤ e.span.stop := by
  have placed := Parser.places_classes registry c hc
  have tidy := placed.tidy
  unfold parseUnit
  split
  · next classes d run =>
    rw [Parser.after_of_ok run] at tidy
    obtain ⟨laid, nested⟩ := placed.result _ _ run
    rw [start] at laid
    exact ⟨⟨⟨_, laid⟩, nested⟩, tidy.errors⟩
  · next e d run =>
    rw [Parser.after_of_error run] at tidy
    have ordered := placed.failure e d run
    refine ⟨⟨⟨0, le_rfl⟩, fun _ h => nomatch h⟩, ?_⟩
    exact List.forall_mem_append.2 ⟨tidy.errors, List.forall_mem_singleton.2 ordered⟩

end Contracts
