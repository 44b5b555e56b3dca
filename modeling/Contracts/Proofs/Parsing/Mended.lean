import Contracts.Proofs.Parsing.StatementComplete

/-! Reading past misplaced words. A backslash word that the registry does not know, or that
stands without arguments, is reported, and a placeholder takes its place. Mended, such a word is
the word for the value of a method (`mendedWords`), and the placeholder is that value. Where no
words are reserved, an expression is read from the mended tokens as it is from the tokens
themselves, and nothing is reported then (`mends_expression`). -/

namespace Contracts

/-! ### Words -/

/-- The word refers to earlier states. -/
def Registry.refersBack (registry : Registry) (word : String) : Bool :=
  ((registry.get? word).bind (·.stateKeyword?)).isSome

theorem Registry.refersBack_eq (registry : Registry) (word : String) :
    registry.refersBack word =
      ((registry.get? word).bind fun d => d.stateKeyword?.map (d, ·)).isSome := by
  cases h : registry.get? word <;> simp [refersBack, h]

/-- The kind of a token before one of the kind `next`, mended. -/
def TokenKind.mended (registry : Registry) (k next : TokenKind) : TokenKind :=
  match k with
  | specWord word =>
    if registry.refersBack word ∧ next = .symbol .leftParen then specWord word
    else specWord Parser.resultWord
  | k => k

/-- A word where every misplaced backslash word is mended. -/
def mendedWords (registry : Registry) : List TokenKind → List TokenKind
  | [] => []
  | k :: ks => k.mended registry (firstKind ks) :: mendedWords registry ks

variable {registry : Registry}

theorem TokenKind.mended_eq_symbol {k next : TokenKind} {s : Symbol} :
    k.mended registry next = .symbol s ↔ k = .symbol s := by
  cases k with
  | specWord word =>
    rw [mended]
    split <;> simp
  | _ => exact Iff.rfl

/-- Only arguments behind a word can keep it from being mended. -/
theorem TokenKind.mended_congr {next next' : TokenKind}
    (h : next = .symbol .leftParen ↔ next' = .symbol .leftParen) (k : TokenKind) :
    k.mended registry next = k.mended registry next' := by
  cases k with
  | specWord word => simp only [mended, h]
  | _ => rfl

@[simp] theorem length_mendedWords (w : List TokenKind) :
    (mendedWords registry w).length = w.length := by
  induction w with
  | nil => rfl
  | cons k w ih => rw [mendedWords, List.length_cons, ih, List.length_cons]

/-- Parts are mended one by one where the second one does not start with arguments. -/
theorem mendedWords_append {w : List TokenKind} (h : firstKind w ≠ .symbol .leftParen)
    (v : List TokenKind) :
    mendedWords registry (v ++ w) = mendedWords registry v ++ mendedWords registry w := by
  induction v with
  | nil => rfl
  | cons k v ih =>
    have next : firstKind (v ++ w) = .symbol .leftParen ↔ firstKind v = .symbol .leftParen := by
      cases v with
      | nil => exact iff_of_false h nofun
      | cons x v => exact Iff.rfl
    rw [List.cons_append, mendedWords, ih, TokenKind.mended_congr next, mendedWords,
      List.cons_append]

theorem not_continues_mendedWords {w : List TokenKind} (h : ¬(firstKind w).Continues) :
    ¬(firstKind (mendedWords registry w)).Continues := by
  cases w with
  | nil => exact h
  | cons k w =>
    simpa only [mendedWords, firstKind_cons, TokenKind.Continues, TokenKind.mended_eq_symbol]
      using h

/-! ### Trees -/

namespace Expr

/-- The tree with the value of the method for every placeholder. -/
def mended : Expr → Expr
  | name n => name n
  | int value s => int value s
  | bool value s => bool value s
  | result s => result s
  | binary op left right s => binary op left.mended right.mended s
  | unary op operand s => unary op operand.mended s
  | field base n s => field base.mended n s
  | call callee args s => call callee.mended (mendedList args) s
  | state head args recorded => state head (mendedList args) recorded
  | missing s => result s
where
  mendedList : List Expr → List Expr
    | [] => []
    | e :: es => e.mended :: mendedList es

theorem mendedList_eq (es : List Expr) : mended.mendedList es = es.map mended := by
  induction es with
  | nil => rfl
  | cons e es ih => rw [mended.mendedList, ih, List.map_cons]

theorem span_mended (e : Expr) : e.mended.span = e.span := by
  cases e <;> rfl

theorem mended_call (callee : Expr) (args : List Expr) (s : Span) :
    (call callee args s).mended = call callee.mended (args.map mended) s := by
  rw [mended, mendedList_eq]

theorem mended_state (head : StateHead) (args : List Expr) (recorded : Option Ty) :
    (state head args recorded).mended = state head (args.map mended) recorded := by
  rw [mended, mendedList_eq]

theorem mended_joined (op : BinaryOp) (left right : Expr) :
    (Parser.joined op left right).mended = Parser.joined op left.mended right.mended := by
  rw [Parser.joined, Parser.joined, mended, span_mended, span_mended]

end Expr

/-! ### Cursors -/

namespace Cursor

/-- The cursor before the mended tokens, with nothing reported. -/
def mended (registry : Registry) (c : Cursor) : Cursor :=
  { c with
    rest := c.rest.zipWith (fun t k => ⟨k, t.span⟩) (mendedWords registry c.kinds)
    errors := [] }

variable (registry) (c : Cursor)

theorem kinds_mended : (c.mended registry).kinds = mendedWords registry c.kinds := by
  obtain ⟨rest, previous, errors, reserving⟩ := c
  induction rest with
  | nil => rfl
  | cons t ts ih => exact congrArg (_ :: ·) ih

@[simp] theorem length_mended : (c.mended registry).rest.length = c.rest.length := by
  have same := congrArg List.length (c.kinds_mended registry)
  rwa [length_mendedWords, kinds, kinds, List.length_map, List.length_map] at same

theorem kind_mended : (c.mended registry).kind = c.kind.mended registry c.secondKind := by
  obtain ⟨rest, previous, errors, reserving⟩ := c
  rcases rest with _ | ⟨_, _ | _⟩ <;> rfl

theorem span_mended : (c.mended registry).span = c.span := by
  obtain ⟨rest, previous, errors, reserving⟩ := c
  cases rest <;> rfl

theorem advance_mended : (c.mended registry).advance = c.advance.mended registry := by
  obtain ⟨rest, previous, errors, reserving⟩ := c
  cases rest with
  | nil => rfl
  | cons t ts =>
    obtain ⟨k, s⟩ := t
    cases k with
    | specWord word =>
      simp only [mended, kinds, List.map_cons, mendedWords, List.zipWith_cons_cons, advance,
        TokenKind.mended]
      split <;> rfl
    | _ => rfl

end Cursor

namespace Parser

open Cursor

variable {α β γ : Type} {g : α → α} {i : β → β}

/-- From this cursor the first parser keeps the mode, and from the mended cursor the second one
ends where the first one does: with the changed result, or by a failure like that one. -/
structure MendsAt (registry : Registry) (g : α → α) (c : Cursor) (p q : Parser α) : Prop where
  mode : (p.after c).reserving = c.reserving
  ok : ∀ a d, p c = .ok a d → q (c.mended registry) = .ok (g a) (d.mended registry)
  error : ∀ e d, p c = .error e d → ∃ e', q (c.mended registry) = .error e' (d.mended registry)

/-- So it is from every cursor where no words are reserved. -/
def Mends (registry : Registry) (g : α → α) (p q : Parser α) : Prop :=
  ∀ c : Cursor, c.reserving = false → MendsAt registry g c p q

/-! ### Rules -/

namespace MendsAt

variable {c d : Cursor} {p q : Parser α} {a : α}

theorem of_ok (hp : p c = .ok a d) (mode : d.reserving = c.reserving)
    (hq : q (c.mended registry) = .ok (g a) (d.mended registry)) : MendsAt registry g c p q := by
  refine ⟨after_of_ok hp ▸ mode, fun b d' hb => ?_, fun e d' he => ?_⟩
  · rw [hp] at hb
    injection hb with hb hd
    exact hb ▸ hd ▸ hq
  · rw [hp] at he
    nomatch he

theorem of_error {e e' : SyntaxError} (hp : p c = .error e c)
    (hq : q (c.mended registry) = .error e' (c.mended registry)) : MendsAt registry g c p q := by
  refine ⟨by rw [after_of_error hp], fun b d hb => ?_, fun e d he => ?_⟩
  · rw [hp] at hb
    nomatch hb
  · rw [hp] at he
    injection he with _ hd
    exact hd ▸ ⟨e', hq⟩

theorem congr {p' q' : Parser α} (hp : p c = p' c)
    (hq : q (c.mended registry) = q' (c.mended registry)) (h : MendsAt registry g c p' q') :
    MendsAt registry g c p q := by
  refine ⟨?_, fun a d ha => hq ▸ h.ok a d (hp ▸ ha), fun e d he => hq ▸ h.error e d (hp ▸ he)⟩
  rw [after, hp]
  exact h.mode

theorem bind {f f' : α → Parser β} (hc : c.reserving = false) (hp : MendsAt registry g c p q)
    (hf : ∀ a, Mends registry i (f a) (f' (g a))) :
    MendsAt registry i c (p >>= f) (q >>= f') := by
  have mode := hp.mode
  cases hrun : p c with
  | error e d =>
    rw [after_of_error hrun] at mode
    have run : (p >>= f) c = .error e d := by rw [bind_apply, hrun]
    refine ⟨after_of_error run ▸ mode, fun b d' hb => ?_, fun e' d' he => ?_⟩
    · rw [run] at hb
      nomatch hb
    · rw [run] at he
      injection he with _ hd
      obtain ⟨e'', hq⟩ := hp.error e d hrun
      exact ⟨e'', by rw [bind_apply, hq, hd]⟩
  | ok a d =>
    rw [after_of_ok hrun] at mode
    have run : (p >>= f) c = f a d := by rw [bind_apply, hrun]
    have run' : (q >>= f') (c.mended registry) = f' (g a) (d.mended registry) := by
      rw [bind_apply, hp.ok a d hrun]
    have behind := hf a d (mode.trans hc)
    refine ⟨?_, fun b d' hb => ?_, fun e d' he => ?_⟩
    · rw [after_bind_of_ok hrun]
      exact behind.mode.trans mode
    · rw [run']
      exact behind.ok b d' (run ▸ hb)
    · rw [run']
      exact behind.error e d' (run ▸ he)

/-- Looking ahead takes no step. -/
theorem look {p q : Parser β} {f f' : β → Parser α} {b b' : β} (hp : p c = .ok b c)
    (hq : q (c.mended registry) = .ok b' (c.mended registry))
    (hf : MendsAt registry g c (f b) (f' b')) : MendsAt registry g c (p >>= f) (q >>= f') :=
  have run : (p >>= f) c = f b c := by rw [bind_apply, hp]
  have run' : (q >>= f') (c.mended registry) = f' b' (c.mended registry) := by rw [bind_apply, hq]
  .congr run run' hf

/-- Where no words are reserved, no word is a keyword. -/
theorem clauseKeyword? {f f' : Option Descriptor → Parser α} (hc : c.reserving = false)
    (hf : MendsAt registry g c (f none) (f' none)) :
    MendsAt registry g c (Parser.clauseKeyword? registry >>= f)
      (Parser.clauseKeyword? registry >>= f') := by
  have off : (c.mended registry).reserving = false := hc
  refine .look ?_ ?_ hf
  · rw [clauseKeyword?_apply, hc]
    rfl
  · rw [clauseKeyword?_apply, off]
    rfl

/-- A word is looked at as it is, or it is mended. -/
theorem kind {f f' : TokenKind → Parser α}
    (same : ∀ k, c.kind = k → k.mended registry c.secondKind = k →
      MendsAt registry g c (f k) (f' k))
    (slip : ∀ word, c.kind = .specWord word →
      ¬(registry.refersBack word ∧ c.secondKind = .symbol .leftParen) →
      MendsAt registry g c (f (.specWord word)) (f' (.specWord resultWord))) :
    MendsAt registry g c (Parser.kind >>= f) (Parser.kind >>= f') := by
  suffices MendsAt registry g c (f c.kind) (f' (c.mended registry).kind) from
    ⟨this.mode, this.ok, this.error⟩
  rw [kind_mended]
  cases hk : c.kind with
  | specWord word =>
    by_cases back : registry.refersBack word ∧ c.secondKind = .symbol .leftParen
    · rw [TokenKind.mended, if_pos back]
      exact same _ hk (if_pos back)
    · rw [TokenKind.mended, if_neg back]
      exact slip word hk back
  | _ => exact same _ hk rfl

theorem advance {f f' : Token → Parser α}
    (hf : MendsAt registry g c.advance (f c.current) (f' (c.mended registry).current)) :
    MendsAt registry g c (Parser.advance >>= f) (Parser.advance >>= f') := by
  have run : (Parser.advance >>= f') (c.mended registry) =
      f' (c.mended registry).current (c.advance.mended registry) := by
    rw [bind_apply, Parser.advance, advance_mended]
  refine ⟨hf.mode.trans (advance_reserving c), fun a d ha => ?_, fun e d he => ?_⟩
  · rw [run]
    exact hf.ok a d ha
  · rw [run]
    exact hf.error e d he

end MendsAt

namespace Mends

variable {p q : Parser α} {a b : α}

theorem pure (hab : g a = b) : Mends registry g (Pure.pure a) (Pure.pure b) := fun _ _ =>
  .of_ok rfl rfl (by rw [hab]; rfl)

theorem bind {f f' : α → Parser β} (hp : Mends registry g p q)
    (hf : ∀ a, Mends registry i (f a) (f' (g a))) : Mends registry i (p >>= f) (q >>= f') :=
  fun c hc => (hp c hc).bind hc hf

theorem failHere (fault fault' : SyntaxFault) :
    Mends registry g (Parser.failHere fault) (Parser.failHere fault') := fun _ _ =>
  .of_error rfl rfl

theorem previousEnd : Mends registry (fun n => n) previousEnd previousEnd := fun _ _ =>
  .of_ok rfl rfl rfl

/-- Of what is moved over, the place is the same. -/
theorem advance {f f' : Token → Parser α}
    (hf : ∀ t t', t'.span = t.span → Mends registry g (f t) (f' t')) :
    Mends registry g (Parser.advance >>= f) (Parser.advance >>= f') := fun c hc =>
  .advance (hf _ _ (span_mended registry c) c.advance ((advance_reserving c).trans hc))

/-- Of a token that stands alone, only the place is kept. -/
theorem token {f : Span → α} (hf : ∀ s, g (f s) = f s) :
    Mends registry g (do return f (← Parser.advance).span)
      (do return f (← Parser.advance).span) :=
  advance fun _ _ same => pure (by rw [same, hf])

theorem expectSymbol {s : Symbol} {f f' : Token → Parser α}
    (hf : ∀ t t', Mends registry g (f t) (f' t')) :
    Mends registry g (Parser.expectSymbol s >>= f) (Parser.expectSymbol s >>= f') := fun c hc => by
  by_cases hk : c.kind = .symbol s
  · have hk' : (c.mended registry).kind = .symbol s := by
      rw [kind_mended, hk]
      rfl
    have run : (Parser.expectSymbol s >>= f) c = (Parser.advance >>= f) c := by
      rw [bind_apply, Parser.expectSymbol, expect_apply, if_pos hk]
      rfl
    have run' : (Parser.expectSymbol s >>= f') (c.mended registry) =
        (Parser.advance >>= f') (c.mended registry) := by
      rw [bind_apply, Parser.expectSymbol, expect_apply, if_pos hk']
      rfl
    exact .congr run run' (advance (fun t t' _ => hf t t') c hc)
  · have hk' : ¬(c.mended registry).kind = .symbol s := by
      rwa [kind_mended, TokenKind.mended_eq_symbol]
    have run : (Parser.expectSymbol s >>= f) c =
        .error ⟨.expectedToken (.symbol s) c.kind, c.span⟩ c := by
      rw [bind_apply, Parser.expectSymbol, expect_apply, if_neg hk]
    have run' : (Parser.expectSymbol s >>= f') (c.mended registry) =
        .error ⟨.expectedToken (.symbol s) (c.mended registry).kind, (c.mended registry).span⟩
          (c.mended registry) := by
      rw [bind_apply, Parser.expectSymbol, expect_apply, if_neg hk']
    exact .of_error run run'

theorem accept (s : Symbol) : Mends registry (fun found => found) (accept s) (accept s) :=
  fun c hc => .kind
    (fun k _ _ => by
      split
      · exact advance (fun _ _ _ => pure rfl) c hc
      · exact pure rfl c hc)
    fun _ _ _ => pure rfl c hc

theorem expectName (role : NameRole) :
    Mends registry (fun n => n) (expectName role) (expectName role) := fun c hc => .kind
  (fun k _ _ => by
    split
    · exact advance (fun _ _ same => pure (by rw [same])) c hc
    · exact failHere _ _ c hc)
  fun _ _ _ => failHere _ _ c hc

/-! ### Repetition -/

/-- Repetitions are alike when their entries are, given that the entries behind them are. -/
theorem recur {j : γ → γ} {step step' : (γ → Parser α) → γ → Parser α}
    (hstep : ∀ again again', (∀ b, Mends registry g (again b) (again' (j b))) →
      ∀ b, Mends registry g (step again b) (step' again' (j b))) (b : γ) :
    Mends registry g (recur step b) (recur step' (j b)) :=
  recur_induction₂ (M := fun _ c p q => c.reserving = false → MendsAt registry g c p q)
    (length_mended registry) (fun hp hq hm hc => .congr hp hq (hm hc))
    (fun _ c hc => failHere _ _ c hc) hstep b

/-- The same where the entries have no argument. -/
theorem recur_unit {step step' : (Unit → Parser α) → Parser α}
    (hstep : ∀ again again', Mends registry g (again ()) (again' ()) →
      Mends registry g (step again) (step' again')) :
    Mends registry g (Parser.recur (fun again _ => step again) ())
      (Parser.recur (fun again _ => step' again) ()) :=
  recur (j := fun u => u) (fun _ _ hagain _ => hstep _ _ (hagain ())) ()

end Mends

/-! ### Expressions -/

/-- Whole expressions. -/
abbrev MendsExpr (registry : Registry) : Parser Expr → Parser Expr → Prop :=
  Mends registry Expr.mended

section

variable {item item' : Parser α} (h : Mends registry g item item')

include h

theorem mends_commaSeparated :
    Mends registry (List.map g) (commaSeparated item) (commaSeparated item') := by
  refine .recur_unit fun again again' hagain => ?_
  refine h.bind fun a => (Mends.accept _).bind fun found => ?_
  split
  · exact hagain.bind fun as => .pure rfl
  · exact .pure rfl

theorem mends_parenthesized :
    Mends registry (List.map g) (parenthesized item) (parenthesized item') := by
  refine .expectSymbol fun _ _ c hc => ?_
  have finish (as : List α) : Mends registry (List.map g)
      (do let _ ← expectSymbol .rightParen; return as)
      (do let _ ← expectSymbol .rightParen; return as.map g) := .expectSymbol fun _ _ => .pure rfl
  refine .kind (fun k _ _ => ?_) fun word _ _ => (mends_commaSeparated h).bind finish c hc
  split
  · exact (Mends.pure (g := List.map g) rfl).bind finish c hc
  · exact (mends_commaSeparated h).bind finish c hc

end

section

variable {expr expr' : Parser Expr} (h : MendsExpr registry expr expr')

include h

theorem mends_chain (level : List (Symbol × BinaryOp)) :
    MendsExpr registry (chain level expr) (chain level expr') := by
  refine h.bind fun left => .recur (fun again again' hagain left c hc => ?_) left
  refine .kind (fun k _ _ => ?_) fun word _ _ => Mends.pure rfl c hc
  split
  · exact Mends.pure rfl c hc
  · next op _ =>
    refine Mends.advance (fun _ _ _ => h.bind fun right => ?_) c hc
    rw [← Expr.mended_joined]
    exact hagain _

theorem mends_prefixed : MendsExpr registry (prefixed expr) (prefixed expr') := by
  refine .recur_unit fun again again' hagain c hc => ?_
  refine .kind (fun k _ _ => ?_) fun word _ _ => h c hc
  split
  · exact h c hc
  · refine Mends.advance (fun t t' same => ?_) c hc
    dsimp only
    rw [same]
    exact hagain.bind fun e => .pure (by rw [Expr.mended, Expr.span_mended])

theorem mends_selections (e : Expr) :
    MendsExpr registry (selections expr e) (selections expr' e.mended) := by
  refine .recur (fun again again' hagain e c hc => ?_) e
  refine .kind (fun k _ _ => ?_) fun word _ _ => Mends.pure rfl c hc
  split
  · refine ((mends_parenthesized h).bind fun args => Mends.previousEnd.bind fun stop => ?_) c hc
    rw [Expr.span_mended, ← Expr.mended_call]
    exact hagain _
  · refine Mends.advance (fun _ _ _ => (Mends.expectName _).bind fun n => ?_) c hc
    rw [Expr.span_mended]
    exact hagain (.field e n (e.span.union n.span))
  · exact Mends.pure rfl c hc

/-- A reference to an earlier state with its arguments. -/
theorem mendsAt_stateReferenceOf (d : Descriptor) (keyword : StateKeyword) {c : Cursor}
    (hc : c.reserving = false) (more : c.kind ≠ .endOfText)
    (opens : c.secondKind = .symbol .leftParen) :
    MendsAt registry Expr.mended c (stateReferenceOf expr d keyword)
      (stateReferenceOf expr' d keyword) := by
  have off : c.advance.reserving = false := (advance_reserving c).trans hc
  have paren : c.advance.kind = .symbol .leftParen := (kind_advance more).trans opens
  refine .advance (.kind (fun k hk _ => ?_) fun word hk _ => ?_)
  · rw [if_pos (hk.symm.trans paren), if_pos (hk.symm.trans paren)]
    refine ((mends_parenthesized h).bind fun args => Mends.previousEnd.bind fun stop => ?_) _ off
    dsimp only [Cursor.current]
    rw [span_mended, ← Expr.mended_state]
    exact mends_selections h _
  · exact absurd (hk.symm.trans paren) nofun

omit h in
/-- A misplaced word is reported, and a placeholder takes its place. -/
theorem exists_specWord_of_slip {word : String} {c : Cursor} (hk : c.kind = .specWord word)
    (slip : ¬(registry.refersBack word ∧ c.secondKind = .symbol .leftParen))
    (other : word ≠ resultWord) :
    ∃ fault, specWord registry expr word c =
      .ok (.missing c.span) (c.advance.report ⟨fault, c.span⟩) := by
  unfold specWord
  rw [if_neg other]
  rw [registry.refersBack_eq] at slip
  cases found : (registry.get? word).bind fun d => d.stateKeyword?.map (d, ·) with
  | none => exact ⟨.unknownSpecWord word, rfl⟩
  | some x =>
    have closed : ¬c.advance.kind = .symbol .leftParen := fun opens =>
      slip ⟨by rw [found]; rfl, (kind_advance (by rw [hk]; nofun)).symm.trans opens⟩
    refine ⟨.argumentsRequired x.1.keyword, ?_⟩
    simp only [stateReferenceOf, bind_apply, Parser.advance, Parser.kind, if_neg closed]
    rfl

theorem mendsAt_specWord {word : String} {c : Cursor} (hc : c.reserving = false)
    (hk : c.kind = .specWord word)
    (same : (TokenKind.specWord word).mended registry c.secondKind = .specWord word) :
    MendsAt registry Expr.mended c (specWord registry expr word)
      (specWord registry expr' word) := by
  unfold specWord
  by_cases result : word = resultWord
  · rw [if_pos result, if_pos result]
    exact Mends.token (f := Expr.result) (fun _ => rfl) c hc
  · rw [if_neg result, if_neg result]
    have back : registry.refersBack word ∧ c.secondKind = .symbol .leftParen := by
      refine Decidable.byContradiction fun misplaced => ?_
      rw [TokenKind.mended, if_neg misplaced] at same
      exact result (TokenKind.specWord.inj same).symm
    rw [registry.refersBack_eq] at back
    cases found : (registry.get? word).bind fun d => d.stateKeyword?.map (d, ·) with
    | none =>
      rw [found] at back
      exact absurd back.1 nofun
    | some x => exact mendsAt_stateReferenceOf h x.1 x.2 hc (by rw [hk]; nofun) back.2

theorem mends_primary : MendsExpr registry (primary registry expr) (primary registry expr') := by
  intro c hc
  refine .kind (fun k hk same => ?_) fun word hk slip => ?_
  · split
    · next word =>
      refine .clauseKeyword? hc ?_
      exact Mends.token (f := fun place => Expr.name ⟨word, place⟩) (fun _ => rfl) c hc
    · next value => exact Mends.token (f := Expr.int value) (fun _ => rfl) c hc
    · exact Mends.token (f := Expr.bool true) (fun _ => rfl) c hc
    · exact Mends.token (f := Expr.bool false) (fun _ => rfl) c hc
    · exact Mends.advance (fun _ _ _ => h.bind fun e => .expectSymbol fun _ _ => .pure rfl) c hc
    · exact mendsAt_specWord h hc hk same
    · exact Mends.failHere _ _ c hc
  · by_cases result : word = resultWord
    · rw [result]
      exact Mends.token (f := Expr.result) (fun _ => rfl) c hc
    · obtain ⟨fault, run⟩ := exists_specWord_of_slip hk slip result
      refine .of_ok run (advance_reserving c) ?_
      dsimp only
      rw [specWord, if_pos rfl, bind_apply, Parser.advance, advance_mended, current, span_mended]
      rfl

theorem mends_selected : MendsExpr registry (selected registry expr) (selected registry expr') :=
  (mends_primary h).bind fun e => mends_selections h e

/-- So it is at every level of the ladder. -/
theorem mends_ladder (levels : List (List (Symbol × BinaryOp))) :
    MendsExpr registry (levels.foldr chain (prefixed (selected registry expr)))
      (levels.foldr chain (prefixed (selected registry expr'))) := by
  induction levels with
  | nil => exact mends_prefixed (mends_selected h)
  | cons level levels ih => exact mends_chain ih level

theorem mends_implication :
    MendsExpr registry (implication registry expr) (implication registry expr') := by
  refine (mends_ladder h ladder).bind fun left => (Mends.accept _).bind fun found => ?_
  split
  · exact h.bind fun right => .pure (Expr.mended_joined _ _ _)
  · exact .pure rfl

end

theorem mends_expression (registry : Registry) :
    MendsExpr registry (expression registry) (expression registry) :=
  .recur_unit fun _ _ hagain => mends_implication hagain

/-! ### Exactness -/

variable {c x : Cursor} {e : Expr} {v k : List TokenKind}

/-- What is read as an expression is derived, once it is mended. -/
theorem derives_mended (off : c.reserving = false) (run : expression registry c = .ok e x)
    (next : ¬x.kind.Continues) :
    ∃ v, c.kinds = v ++ x.kinds ∧
      Derives registry false .implication (mendedWords registry v) e.mended := by
  have passes := (sound_expression registry false c off).passes
  rw [after_of_ok run] at passes
  obtain ⟨v, reads⟩ := passes.exists_reads
  have mended := (mends_expression registry c off).ok e x run
  obtain ⟨u, reads', derived⟩ :=
    (sound_expression registry false (c.mended registry) off).reads _ _ mended rfl
  -- No arguments start behind the expression, so its words are mended on their own.
  have closed : firstKind x.kinds ≠ .symbol .leftParen := fun opens =>
    next (.inl (x.kind_eq_firstKind.trans opens))
  have words := reads'.kinds
  rw [kinds_mended, kinds_mended, reads.kinds, mendedWords_append closed,
    List.append_cancel_right_eq] at words
  exact ⟨v, reads.kinds, words ▸ derived⟩

/-- What is derived once it is mended is read. -/
theorem exists_expression_of_mended (off : c.reserving = false) (hc : c.kinds = v ++ k)
    (derived : Derives registry false .implication (mendedWords registry v) e)
    (next : ¬(firstKind k).Continues) :
    ∃ e' x, expression registry c = .ok e' x ∧ x.kinds = k ∧ x.reserving = false := by
  have before : (c.mended registry).Before false []
      (mendedWords registry v ++ mendedWords registry k) :=
    ⟨by rw [kinds_mended, hc, mendedWords_append fun opens => next (.inl opens)], off, rfl⟩
  obtain ⟨_, _, read, -, left⟩ := parses_derived derived (not_continues_mendedWords next) _ _ before
  have alike := mends_expression registry c off
  have passes := (sound_expression registry false c off).passes
  cases run : expression registry c with
  | error fault x =>
    obtain ⟨fault', failed⟩ := alike.error fault x run
    rw [failed] at read
    nomatch read
  | ok e' x =>
    rw [after_of_ok run] at passes
    rw [alike.ok e' x run] at read
    injection read with _ cursor
    -- As many tokens are left as words behind the expression.
    have length := congrArg List.length (cursor ▸ left.kinds)
    rw [kinds_mended, length_mendedWords, length_mendedWords] at length
    have words : x.kinds <:+ k :=
      List.suffix_of_suffix_length_le (passes.rest.map _) ⟨v, hc.symm⟩ (Nat.le_of_eq length)
    exact ⟨e', x, rfl, words.eq_of_length length, passes.reserving.trans off⟩

end Parser

end Contracts
