import Contracts.Proofs.Lexing.Division
import Contracts.Proofs.Printing.Unit

/-! What is kept of the tokens of a text: all but terminators, parentheses and the end of the
text. An expression is derived from words that have, up to these tokens, just the words that it
is written with, at whichever level that is (`Derives.content_eq`). -/

namespace Contracts

/-- Whether a tree keeps tokens of the kind. Terminators and parentheses only say where
something ends. -/
def TokenKind.isContent : TokenKind → Bool
  | symbol s => !(s == .semicolon || s == .leftParen || s == .rightParen)
  | endOfText => false
  | _ => true

/-- The kinds without terminators, parentheses and the end of the text. -/
def content (w : List TokenKind) : List TokenKind := w.filter (·.isContent)

/-! ### Rules -/

@[simp] theorem isContent_semicolon : (TokenKind.symbol .semicolon).isContent = false := rfl

@[simp] theorem isContent_leftParen : (TokenKind.symbol .leftParen).isContent = false := rfl

@[simp] theorem isContent_rightParen : (TokenKind.symbol .rightParen).isContent = false := rfl

@[simp] theorem content_nil : content [] = [] := rfl

@[simp] theorem content_append (v w : List TokenKind) :
    content (v ++ w) = content v ++ content w := List.filter_append ..

@[simp] theorem content_cons (k : TokenKind) (w : List TokenKind) :
    content (k :: w) = (if k.isContent then [k] else []) ++ content w := by
  rw [content, List.filter_cons, content]
  split <;> rfl

@[simp] theorem content_parens (w : List TokenKind) : content (parens w) = content w := by
  simp [parens]

/-- At a tighter level there are only further parentheses. -/
@[simp] theorem content_enclosed (l m : Level) (w : List TokenKind) :
    content (enclosed l m w) = content w := by
  unfold enclosed
  split
  · rfl
  · exact content_parens w

theorem Commas.content_separated {α : Type} {D : List TokenKind → α → Prop}
    {f : α → List TokenKind} (hD : ∀ w a, D w a → content w = content (f a)) {w : List TokenKind}
    {as : List α} (h : Commas D w as) : content w = content (separated (.symbol .comma) f as) := by
  induction h with
  | none => rfl
  | one item => exact hD _ _ item
  | more item _ ih =>
    rw [separated, content_append, content_append, content_cons, content_cons, hD _ _ item, ih]

/-! ### Expressions -/

mutual

/-- The words of an expression are those that it is written with. -/
theorem Derives.content_eq {registry : Registry} {on : Bool} :
    ∀ {l : Level} {w : List TokenKind} {e : Expr}, Derives registry on l w e →
      ∀ m, content w = content (e.words m)
  | _, _, _, .loosen _ inner, m => inner.content_eq m
  | _, _, _, .implies left right, m => by
    simp [Expr.words, BinaryOp.sign, left.content_eq BinaryOp.implies.leftLevel,
      right.content_eq BinaryOp.implies.rightLevel]
  | _, _, .binary op _ _ _, .binary _ _ _ left right, m => by
    simp [Expr.words, left.content_eq op.leftLevel, right.content_eq op.rightLevel]
  | _, _, _, .unary operand, m => by simp [Expr.words, operand.content_eq .prefixed]
  | _, _, _, .field base, m => by simp [Expr.words, base.content_eq .selection]
  | _, _, _, .call callee list, m => by
    simp [Expr.words, callee.content_eq .selection, list.content_eq]
  | _, _, _, .name _, m => rfl
  | _, _, _, .int, m => rfl
  | _, _, _, .true, m => rfl
  | _, _, _, .false, m => rfl
  | _, _, _, .result, m => rfl
  | _, _, _, .parens inner, m => by simp [inner.content_eq m]
  | _, _, _, .state _ registered _ list, m => by
    simp [Expr.words, list.content_eq, Registry.keyword_of_get? registered]

theorem Commas.content_eq {registry : Registry} {on : Bool} :
    ∀ {w : List TokenKind} {es : List Expr}, Commas (Derives registry on .implication) w es →
      content w = content (Expr.words.listWords es)
  | _, _, .none => rfl
  | _, _, .one item => item.content_eq .implication
  | _, _, .more item others => by
    simp [Expr.words.listWords, item.content_eq .implication, others.content_eq]

end

/-! ### Texts -/

theorem PieceKind.token?_eq_some_iff {p : PieceKind} {k : TokenKind} :
    p.token? = some k ↔ p = .token k := by
  cases p <;> simp [token?]

/-- No piece of a text is its end. -/
theorem Divided.ne_end {start : Nat} {cs : List Char} {parts : List Part}
    (h : Divided start cs parts) : ∀ p ∈ parts, p.kind ≠ .token .endOfText := by
  induction h with
  | nil => exact fun _ hp => nomatch hp
  | cons _ piece _ ih =>
    refine List.forall_mem_cons.2 ⟨?_, ih⟩
    rintro rfl
    cases piece with
    | token _ _ kind => nomatch kind

/-- The end of a text is its last token and no other one. -/
theorem exists_tokens_of_lex {source : String} {tokens : List Token}
    (h : lex source = .ok tokens) :
    ∃ body last, tokens = body ++ [last] ∧ ∀ t ∈ body, t.kind ≠ .endOfText := by
  obtain ⟨parts, divided, located⟩ := exists_divided 0 source.toList
  unfold lex at h
  dsimp only at h
  split at h
  · injection h with h
    refine ⟨_, _, h.symm, fun t ht hend => ?_⟩
    obtain ⟨piece, hpiece, hkind⟩ := List.mem_filterMap.1 ht
    rw [located] at hpiece
    obtain ⟨p, hp, rfl⟩ := List.mem_map.1 hpiece
    obtain ⟨k, hk, rfl⟩ := Option.map_eq_some_iff.1 hkind
    exact divided.ne_end p hp (PieceKind.token?_eq_some_iff.1 (hk.trans (congrArg some hend)))
  · nomatch h

end Contracts
