import Contracts.Proofs.Layout.Placed
import Contracts.Proofs.Parsing.Charged
import Contracts.Proofs.Parsing.Mended
import Contracts.Proofs.Parsing.UnitComplete

/-! Where a clause of a class ends. Neither an expression nor a frame reads a terminator or a
closing brace, so from wherever reading went wrong, the rest of the clause is skipped to the same
place. A clause is read as it stands when its tokens are an expression, a frame where one may
stand and the terminator, misplaced words in the expression mended (`Parser.IsBody`); any other
one is reported once, behind what was reported within it. -/

namespace Contracts

/-- Tokens that delimit clauses. -/
def TokenKind.Delimits (k : TokenKind) : Prop := k = .symbol .semicolon ∨ k.Closes

/-- The tokens are those through the first terminator or, where a brace closes or the text ends
before, those up to there; `next` is the kind of the token behind them. -/
def Delimited (ts : List Token) (next : TokenKind) : Prop :=
  (∃ w t, ts = w ++ [t] ∧ t.kind = .symbol .semicolon ∧ ∀ u ∈ w, ¬u.kind.Delimits) ∨
    (∀ u ∈ ts, ¬u.kind.Delimits) ∧ next.Closes

theorem not_delimits_of_isInner {k : TokenKind} (h : k.isInner = true) : ¬k.Delimits := by
  rintro (rfl | rfl | rfl) <;> nomatch h

theorem Delimited.prepend {ts w : List Token} {next : TokenKind} (h : Delimited ts next)
    (hw : ∀ u ∈ w, ¬u.kind.Delimits) : Delimited (w ++ ts) next := by
  rcases h with ⟨v, t, rfl, ends, hv⟩ | ⟨hts, closes⟩
  · refine .inl ⟨w ++ v, t, (List.append_assoc ..).symm, ends, ?_⟩
    exact List.forall_mem_append.2 ⟨hw, hv⟩
  · exact .inr ⟨List.forall_mem_append.2 ⟨hw, hts⟩, closes⟩

namespace Cursor

/-- Recovery skips to where a clause ends. -/
theorem delimited_terminatorDistance (ts : List Token) :
    Delimited (ts.take (terminatorDistance ts))
      (firstKind ((ts.drop (terminatorDistance ts)).map (·.kind))) := by
  induction ts with
  | nil => exact .inr ⟨List.forall_mem_nil _, .inr rfl⟩
  | cons t ts ih =>
    unfold terminatorDistance
    split
    · next hk => exact .inr ⟨List.forall_mem_nil _, .inr hk⟩
    · next hk => exact .inr ⟨List.forall_mem_nil _, .inl hk⟩
    · next hk => exact .inl ⟨[], t, rfl, hk, List.forall_mem_nil _⟩
    · next more open_ goes =>
      refine ih.prepend (w := [t]) (List.forall_mem_singleton.2 ?_)
      rintro (hk | hk | hk)
      · exact goes hk
      · exact open_ hk
      · exact more hk

/-! ### What is consumed -/

/-- Between the cursors these tokens were consumed, and these errors were reported. -/
structure Consumes (c : Cursor) (w : List Token) (es : List SyntaxError) (d : Cursor) : Prop where
  rest : c.rest = w ++ d.rest
  previous : d.previous = (w.getLast?.map (·.span)).getD c.previous
  errors : d.errors = c.errors ++ es
  reserving : d.reserving = c.reserving

variable {c d e : Cursor} {v w : List Token} {es fs : List SyntaxError}

theorem Consumes.nil (c : Cursor) : c.Consumes [] [] c :=
  ⟨rfl, rfl, (List.append_nil _).symm, rfl⟩

theorem Consumes.append (h : c.Consumes v es d) (k : d.Consumes w fs e) :
    c.Consumes (v ++ w) (es ++ fs) e where
  rest := by rw [h.rest, k.rest, List.append_assoc]
  previous := by
    rw [k.previous, h.previous, List.getLast?_append]
    cases w.getLast? <;> rfl
  errors := by rw [k.errors, h.errors, List.append_assoc]
  reserving := k.reserving.trans h.reserving

theorem Consumes.advance (more : c.kind ≠ .endOfText) : c.Consumes [c.current] [] c.advance where
  rest := rest_advance more
  previous := previous_advance more
  errors := by rw [advance_errors, List.append_nil]
  reserving := advance_reserving c

theorem Consumes.report (c : Cursor) (e : SyntaxError) : c.Consumes [] [e] (c.report e) :=
  ⟨rfl, rfl, rfl, rfl⟩

/-- What is consumed in another mode is consumed, and the mode is restored. -/
theorem Consumes.of_inMode {on : Bool} (h : (c.inMode on).Consumes w es d) :
    c.Consumes w es (d.inMode c.reserving) := ⟨h.rest, h.previous, h.errors, rfl⟩

theorem exists_consumes_skip (n : Nat) (c : Cursor) : ∃ w, c.Consumes w [] (c.skip n) := by
  induction n generalizing c with
  | zero => exact ⟨[], .nil c⟩
  | succ n ih =>
    by_cases hend : c.kind = .endOfText
    · rw [skip, advance_of_end hend]
      exact ih c
    · obtain ⟨w, hw⟩ := ih c.advance
      exact ⟨_, (Consumes.advance hend).append hw⟩

/-- What is skipped for recovery ends where a clause ends. -/
theorem exists_delimited_skip (c : Cursor) :
    ∃ w, c.Consumes w [] (c.skip (terminatorDistance c.rest)) ∧
      Delimited w (c.skip (terminatorDistance c.rest)).kind := by
  obtain ⟨w, hw⟩ := exists_consumes_skip (terminatorDistance c.rest) c
  have behind := rest_skip (skippable_terminatorDistance c.rest)
  have same : w = c.rest.take (terminatorDistance c.rest) := by
    have parts := (List.take_append_drop (terminatorDistance c.rest) c.rest).trans hw.rest
    rw [behind] at parts
    exact (List.append_cancel_right parts).symm
  refine ⟨w, hw, ?_⟩
  rw [kind_eq_firstKind, kinds, behind, same]
  exact delimited_terminatorDistance c.rest

theorem Walks.exists_rest {admitted : TokenKind → Bool} (h : c.Walks admitted d) :
    ∃ w, c.rest = w ++ d.rest ∧ ∀ u ∈ w, admitted u.kind = true := by
  refine h.lift (R := fun c d => ∃ w, c.rest = w ++ d.rest ∧ ∀ u ∈ w, admitted u.kind = true)
    (fun c => ⟨[], rfl, List.forall_mem_nil _⟩) ?_ fun step => ?_
  · rintro c d e ⟨v, hv, first⟩ ⟨w, hw, second⟩
    exact ⟨v ++ w, by rw [hv, hw, List.append_assoc], List.forall_mem_append.2 ⟨first, second⟩⟩
  · cases step with
    | advance here more => exact ⟨_, rest_advance more, List.forall_mem_singleton.2 here⟩
    | report e => exact ⟨[], rfl, List.forall_mem_nil _⟩

/-- A run that reports only slips reports each at a token that it consumes. -/
theorem Strides.exists_consumes (h : Strides false c d) (off : c.reserving = false) :
    ∃ w es, c.Consumes w es d ∧
      ∀ e ∈ es, e.fault.isSlip false = true ∧ ∃ t ∈ w, e.span = t.span := by
  induction h with
  | refl => exact ⟨[], [], .nil c, List.forall_mem_nil _⟩
  | @tail x y _ step ih =>
    obtain ⟨w, es, hw, hes⟩ := ih
    have before : ∀ e ∈ es, e.fault.isSlip false = true ∧ ∃ t ∈ w ++ [x.current], e.span = t.span :=
      fun e he => (hes e he).imp_right fun ⟨t, ht, place⟩ => ⟨t, List.mem_append_left _ ht, place⟩
    cases step with
    | advance more =>
      refine ⟨w ++ [x.current], es ++ [], hw.append (.advance more), ?_⟩
      rwa [List.append_nil]
    | slip more slip =>
      refine ⟨w ++ ([x.current] ++ []), es ++ ([] ++ [_]),
        hw.append ((Consumes.advance more).append (.report _ _)), ?_⟩
      rw [hw.reserving, off] at slip
      have here : x.current ∈ w ++ [x.current] := List.mem_append_right _ List.mem_cons_self
      exact List.forall_mem_append.2
        ⟨before, List.forall_mem_singleton.2 ⟨slip, x.current, here, rfl⟩⟩
    | failure fault h => nomatch h

end Cursor

namespace Parser

open Cursor

variable {registry : Registry} {d : Descriptor} {c : Cursor} {e : Expr} {found : Option Frame}

/-! ### Frames -/

theorem eq_separated_of_commas {α : Type} {f : α → List TokenKind} {w : List TokenKind}
    {as : List α} (h : Commas (fun w a => w = f a) w as) : w = separated (.symbol .comma) f as := by
  induction h with
  | none => rfl
  | one item => exact item
  | more item _ ih => rw [item, ih, separated]

theorem sound_frame {on : Bool} :
    Sound on (fun w found => w = (found.map Frame.words).getD []) frame := fun c hc => by
  refine .look (a := c.kind) rfl ?_
  split
  · next hk =>
    refine (soundAt_advance hk nofun).bind fun _ x hx => .look (a := x.kind) rfl ?_
    split
    · next hk' =>
      refine (soundAt_advance hk' nofun).bind fun _ y _ => .of_ok rfl ?_
      rintro _ ⟨rfl, -⟩ _ ⟨rfl, -⟩
      rfl
    · refine (sound_commaSeparated (sound_nameOr _) x (hx.trans hc)).bind fun names y _ =>
        .of_ok rfl ?_
      rintro w ⟨-, hw⟩ _ ⟨rfl, -⟩
      simp [Frame.words, eq_separated_of_commas hw]
  · exact .of_ok rfl rfl

/-- Nothing is reported by a list of names. -/
theorem runsAt_frameMethods {b : Cursor} (hc : c.errors = b.errors) :
    RunsAt c (fun _ d => d.errors = b.errors) (fun d => d.errors = b.errors)
      (commaSeparated frameMethod) := by
  refine .loop (I := fun _ d => d.errors = b.errors) (fun _ _ h => h)
    (fun again hagain _ d hd => ?_) hc
  have name : d.advance.errors = b.errors := (advance_errors d).trans hd
  refine .nameOr hd fun word _ => .accept (fun _ => ?_) (.pure name)
  exact (hagain () _ ((advance_errors _).trans name)).bind (fun _ h => h) fun _ _ h => .pure h

theorem runsAt_frame (c : Cursor) :
    RunsAt c (fun _ d => d.errors = c.errors) (fun d => d.errors = c.errors) frame := by
  have word : c.advance.errors = c.errors := advance_errors c
  refine .after rfl ?_
  split
  · refine .after rfl (.after rfl ?_)
    split
    · exact .after rfl (.pure ((advance_errors _).trans word))
    · exact (runsAt_frameMethods word).bind (fun _ h => h) fun _ _ h => .pure h
  · exact .pure rfl

theorem reads_frame {x : Cursor} (run : frame c = .ok found x) :
    c.Reads ((found.map Frame.words).getD []) x := by
  obtain ⟨w, reads, rfl⟩ :=
    (sound_frame c rfl).reads found x run ((runsAt_frame c).ok found x run)
  exact reads

/-! ### Bodies -/

/-- The words are the body of a clause: an expression, misplaced words in it mended, then a frame
where one may stand, and the terminator. -/
def IsBody (registry : Registry) (d : Descriptor) (w : List TokenKind) (e : Expr)
    (found : Option Frame) : Prop :=
  ∃ v, w = v ++ (found.map Frame.words).getD [] ++ [.symbol .semicolon] ∧
    Derives registry false .implication (mendedWords registry v) e ∧
    ∀ g ∈ found, d.kind = .typeClause .constraint ∧ g.Nonempty

theorem reads_typeClauseBody {y : Cursor}
    (run : typeClauseBody registry d c = .ok (e, found) y) :
    ∃ x, expression registry c = .ok e x ∧ x.Reads ((found.map Frame.words).getD []) y := by
  unfold typeClauseBody at run
  rw [bind_apply] at run
  split at run
  · next e' x hx =>
    refine ⟨x, ?_⟩
    split at run
    · rw [bind_apply] at run
      split at run
      · next found' y' hy =>
        injection run with result cursor
        injection result with he hfound
        exact ⟨he ▸ hx, hfound ▸ cursor ▸ reads_frame hy⟩
      · nomatch run
    · injection run with result cursor
      injection result with he hfound
      exact ⟨he ▸ hx, hfound ▸ cursor ▸ .nil x⟩
  · nomatch run

theorem exists_kinds_of_kind {k : TokenKind} (h : c.kind = k) (more : k ≠ .endOfText) :
    c.kinds = k :: c.advance.kinds := by
  subst h
  rw [kinds, rest_advance more, List.map_cons, kinds]
  rfl

/-- What is read before a terminator is a body. -/
theorem isBody_of_ok {y : Cursor} {w : List TokenKind} (off : c.reserving = false)
    (run : typeClauseBody registry d c = .ok (e, found) y) (ends : y.kind = .symbol .semicolon)
    (hw : c.kinds = w ++ y.kinds) :
    IsBody registry d (w ++ [.symbol .semicolon]) e.mended found := by
  obtain ⟨x, read, framed⟩ := reads_typeClauseBody run
  have next : ¬x.kind.Continues := by
    rw [kind_eq_firstKind, framed.kinds, exists_kinds_of_kind ends nofun]
    exact not_continues_frame found
  obtain ⟨v, words, derived⟩ := derives_mended off read next
  rw [words, framed.kinds, ← List.append_assoc, List.append_cancel_right_eq] at hw
  refine ⟨v, by rw [hw], derived, ?_⟩
  exact ((steady_typeClauseBody registry d c).result _ _ run).2

/-- A body is read, up to its terminator. -/
theorem exists_ok_of_isBody {w k : List TokenKind} (off : c.reserving = false)
    (hc : c.kinds = w ++ k) (body : IsBody registry d w e found) :
    ∃ e' found' y, typeClauseBody registry d c = .ok (e', found') y ∧
      y.kind = .symbol .semicolon := by
  obtain ⟨v, rfl, derived, hframe⟩ := body
  rw [List.append_assoc, List.append_assoc] at hc
  obtain ⟨e', x, read, words, off'⟩ :=
    exists_expression_of_mended off hc derived (not_continues_frame found)
  obtain ⟨found', y, framed, -, behind⟩ :=
    parses_frame (fun g hg => (hframe g hg).2) x x.errors ⟨words, off', rfl⟩
  unfold typeClauseBody
  rw [bind_apply, read]
  dsimp only
  by_cases constraint : d.kind = .typeClause .constraint
  · rw [if_pos constraint, bind_apply, framed]
    exact ⟨e', found', y, rfl, behind.kind⟩
  · have plain : found = none := Option.eq_none_iff_forall_ne_some.2 fun g hg =>
      constraint (hframe g hg).1
    rw [if_neg constraint]
    refine ⟨e', none, x, rfl, ?_⟩
    rw [kind_eq_firstKind, words, plain]
    rfl

/-! ### Whole clauses -/

theorem typeClause_apply (registry : Registry) (d : Descriptor) (c : Cursor) :
    typeClause registry d c =
      match typeClauseBody registry d (c.advance.inMode false) with
      | .ok (e, found) y =>
        if y.kind = .symbol .semicolon then
          .ok ⟨d, e, found, ⟨c.span.start, y.advance.previous.stop⟩⟩
            (y.advance.inMode c.reserving)
        else brokenTypeClause d c.span.start y.span (y.inMode c.reserving)
      | .error e y => brokenTypeClause d c.span.start e.span (y.inMode c.reserving) := by
  unfold typeClause
  rw [bind_apply, advance]
  dsimp only
  rw [bind_apply, outcome, Steady.withReserving_apply, advance_reserving]
  cases run : typeClauseBody registry d (c.advance.inMode false) with
  | error e y => rfl
  | ok result y =>
    obtain ⟨e, found⟩ := result
    dsimp only
    rw [bind_apply, accept_apply]
    by_cases ends : y.kind = .symbol .semicolon
    · have ends' : (y.inMode c.reserving).kind = .symbol .semicolon := ends
      rw [if_pos ends, if_pos ends', advance_inMode]
      rfl
    · have ends' : ¬(y.inMode c.reserving).kind = .symbol .semicolon := ends
      rw [if_neg ends, if_neg ends']
      rfl

/-- The clause is read where its body ends at a terminator. -/
theorem typeClause_of_ok {y : Cursor}
    (run : typeClauseBody registry d (c.advance.inMode false) = .ok (e, found) y)
    (ends : y.kind = .symbol .semicolon) :
    typeClause registry d c =
      .ok ⟨d, e, found, ⟨c.span.start, y.advance.previous.stop⟩⟩
        (y.inMode c.reserving).advance := by
  rw [typeClause_apply, run]
  dsimp only
  rw [if_pos ends, advance_inMode]

/-- Elsewhere it is broken. -/
theorem exists_brokenTypeClause_of_not_ok
    (bad : ¬∃ e found y, typeClauseBody registry d (c.advance.inMode false) = .ok (e, found) y ∧
      y.kind = .symbol .semicolon) :
    ∃ place, typeClause registry d c = brokenTypeClause d c.span.start place
      (((typeClauseBody registry d).after (c.advance.inMode false)).inMode c.reserving) := by
  rw [typeClause_apply]
  cases run : typeClauseBody registry d (c.advance.inMode false) with
  | error e y => exact ⟨e.span, by rw [after_of_error run]⟩
  | ok result y =>
    obtain ⟨e, found⟩ := result
    dsimp only
    rw [if_neg fun ends => bad ⟨e, found, y, run, ends⟩]
    exact ⟨y.span, by rw [after_of_ok run]⟩

/-- A run of the body: what it consumes ends before a delimiter, and what it reports are slips at
tokens of the body. -/
theorem exists_consumes_typeClauseBody (registry : Registry) (d : Descriptor)
    (off : c.reserving = false) :
    ∃ w es, c.Consumes w es ((typeClauseBody registry d).after c) ∧
      (∀ u ∈ w, ¬u.kind.Delimits) ∧
      ∀ e ∈ es, e.fault.isSlip false = true ∧ ∃ t ∈ w, e.span = t.span := by
  have strides : c.Strides false ((typeClauseBody registry d).after c) := by
    have runs := charges_typeClauseBody registry d c
    cases run : typeClauseBody registry d c with
    | ok a y => exact after_of_ok run ▸ (runs.ok a y run).1.strides
    | error e y => exact after_of_error run ▸ (runs.error e y run).2.strides
  obtain ⟨w, es, hw, hes⟩ := strides.exists_consumes off
  obtain ⟨w', hw', inner⟩ := (steady_typeClauseBody registry d c).walks.exists_rest
  obtain rfl : w = w' := List.append_cancel_right (hw.rest.symm.trans hw')
  exact ⟨w, es, hw, fun u hu => not_delimits_of_isInner (inner u hu), hes⟩

/-- What went wrong is reported, and the rest of the clause is skipped. -/
theorem exists_brokenTypeClause (d : Descriptor) (start : Nat) (place : Span) (c : Cursor) :
    ∃ (z : Cursor) (covered : Span) (w : List Token), covered = ⟨start, max z.previous.stop start⟩ ∧
      brokenTypeClause d start place c = .ok ⟨d, .missing covered, none, covered⟩ z ∧
      c.Consumes w [⟨.badConstruct d.keyword, place⟩] z ∧ Delimited w z.kind := by
  obtain ⟨w, skipped, ends⟩ := exists_delimited_skip (c.report ⟨.badConstruct d.keyword, place⟩)
  exact ⟨_, _, w, rfl, rfl, (Consumes.report c _).append skipped, ends⟩

/-- Where a clause of a class ends, and what is reported for it. From its keyword on, it ends
right behind the first terminator, or before the brace or the end of the text that comes first.
What is reported within its body are slips. If it was read as it stands, it is that body, and
nothing else is reported; if it has no such body, that is reported once, behind the slips, and a
placeholder without a frame is left, from the keyword to the token that was consumed last. -/
theorem typeClause_recovers (registry : Registry) (d : Descriptor) {word : String}
    (here : c.kind = .identifier word) :
    ∃ (clause : TypeClause) (c' : Cursor) (read : List Token) (slips reported : List SyntaxError),
      typeClause registry d c = .ok clause c' ∧
      c.Consumes (c.current :: read) reported c' ∧ Delimited read c'.kind ∧
      (∀ e ∈ slips, e.fault.isSlip false = true ∧ ∃ t ∈ read, e.span = t.span) ∧
      clause.descriptor = d ∧
      ((IsBody registry d (read.map (·.kind)) clause.expr.mended clause.frame ∧ reported = slips ∧
          clause.span = ⟨c.span.start, c'.previous.stop⟩) ∨
        (∀ e found, ¬IsBody registry d (read.map (·.kind)) e found) ∧
          (∃ place, reported = slips ++ [⟨.badConstruct d.keyword, place⟩]) ∧
          clause.expr = .missing clause.span ∧ clause.frame = none ∧
          clause.span = ⟨c.span.start, max c'.previous.stop c.span.start⟩ ∧
          (c.Tidy → clause.span.stop = c'.previous.stop)) := by
  have more : c.kind ≠ .endOfText := by rw [here]; nofun
  have keyword : c.Consumes [c.current] [] c.advance := .advance more
  obtain ⟨w, slips, body, inner, hslips⟩ :=
    exists_consumes_typeClauseBody registry d (c := c.advance.inMode false) rfl
  have read := keyword.append body.of_inMode
  rw [advance_reserving] at read
  have within (v : List Token) : ∀ e ∈ slips, e.fault.isSlip false = true ∧
      ∃ t ∈ w ++ v, e.span = t.span := fun e he =>
    (hslips e he).imp_right fun ⟨t, ht, place⟩ => ⟨t, List.mem_append_left _ ht, place⟩
  by_cases good : ∃ e found y,
      typeClauseBody registry d (c.advance.inMode false) = .ok (e, found) y ∧
        y.kind = .symbol .semicolon
  · obtain ⟨e, found, y, run, ends⟩ := good
    rw [after_of_ok run] at read body
    have closed : c.Consumes ([c.current] ++ w ++ [y.current]) ([] ++ slips ++ [])
        (y.inMode c.reserving).advance := read.append (.advance (ends.trans_ne nofun))
    have words : IsBody registry d ((w ++ [y.current]).map (·.kind)) e.mended found := by
      rw [List.map_append, List.map_singleton, show y.current.kind = .symbol .semicolon from ends]
      exact isBody_of_ok rfl run ends (by rw [kinds, body.rest, List.map_append, kinds])
    refine ⟨_, _, w ++ [y.current], slips, slips, typeClause_of_ok run ends, ?_,
      .inl ⟨w, y.current, rfl, ends, inner⟩, within _, rfl, .inl ⟨words, rfl, ?_⟩⟩
    · simpa using closed
    · rw [advance_inMode]
      rfl
  · obtain ⟨place, run⟩ := exists_brokenTypeClause_of_not_ok good
    obtain ⟨z, covered, skipped, hcovered, broken, rest, ends⟩ :=
      exists_brokenTypeClause d c.span.start place
        (((typeClauseBody registry d).after (c.advance.inMode false)).inMode c.reserving)
    rw [broken] at run
    have whole := read.append rest
    refine ⟨_, z, w ++ skipped, slips, slips ++ [⟨.badConstruct d.keyword, place⟩], run, ?_,
      ends.prepend inner, within _, rfl, .inr ⟨fun e found words => ?_, ⟨place, rfl⟩, rfl, rfl,
        hcovered, fun tidy => ?_⟩⟩
    · simpa using whole
    · have behind : ((typeClauseBody registry d).after (c.advance.inMode false)).rest =
          skipped ++ z.rest := rest.rest
      refine good (exists_ok_of_isBody (k := z.kinds) rfl ?_ words)
      rw [kinds, body.rest, behind, ← List.append_assoc, List.map_append, kinds]
    · obtain ⟨-, -, last⟩ := ((placesAt_typeClause d tidy more).result _ _ run).1
      rw [hcovered] at last ⊢
      exact Nat.le_antisymm last (Nat.le_max_left _ _)

/-- A constraint with an unknown word and half a frame. -/
theorem typeClause_recovers_half_frame :
    let place (k : TokenKind) : Token := ⟨k, .origin⟩
    let c : Cursor := { rest := [.identifier "constraint", .specWord "\\unknown",
      .identifier "for", .symbol .semicolon, .symbol .rightBrace].map place }
    let d := Descriptor.ofKind (.typeClause .constraint)
    c.kind = .identifier "constraint" ∧
      ∃ (clause : TypeClause) (c' : Cursor) (read : List Token) (reported : List SyntaxError),
        typeClause .standard d c = .ok clause c' ∧
          c.Consumes (c.current :: read) reported c' ∧ Delimited read c'.kind := by
  intro place c d
  obtain ⟨clause, c', read, slips, reported, run, whole, ends, -⟩ :=
    typeClause_recovers .standard d (rfl : c.kind = .identifier "constraint")
  exact ⟨rfl, clause, c', read, reported, run, whole, ends⟩

end Parser

end Contracts
