import Contracts.Proofs.Grammar.Expression
import Contracts.Proofs.Lexing.Spelling

/-! Printing expressions. An expression is written at a level of binding, in parentheses
where it is looser than that level; what is written at a level is derived at it
(`Expr.derives_words`). -/

namespace Contracts

/-! ### Names -/

/-- Words that can be names. -/
def IsName (word : String) : Prop := IsWord word ∧ Reserved.ofWord? word = none

instance (word : String) : Decidable (IsName word) := inferInstanceAs (Decidable (_ ∧ _))

theorem Registry.get?_keyword_kind (kind : ClauseKind) :
    standard.get? kind.keyword = some (.ofKind kind) := by
  have hmem : Descriptor.ofKind kind ∈ standard.entries := by
    rw [standard, List.mem_map]
    refine ⟨kind, ?_, rfl⟩
    cases kind with
    | declaration => decide
    | _ keyword => cases keyword <;> decide
  exact get?_keyword hmem

/-! ### Levels of trees -/

namespace BinaryOp

/-- The level at which the left operand is written. -/
def leftLevel (op : BinaryOp) : Level := if op = implies then .disjunction else op.level

/-- The level at which the right operand is written. -/
def rightLevel (op : BinaryOp) : Level :=
  if op = implies then .implication else op.level.next?.getD .primary

theorem level_of_ne_implies {op : BinaryOp} (h : op ≠ implies) :
    op.level ≠ .implication ∧ ∃ m, op.level.next? = some m := by
  cases op with
  | implies => exact absurd rfl h
  | _ => exact ⟨by decide, _, rfl⟩

end BinaryOp

/-! ### Words of trees -/

def parens (w : List TokenKind) : List TokenKind :=
  .symbol .leftParen :: (w ++ [.symbol .rightParen])

/-- A word of level `m` where one of level `l` has to stand. -/
def enclosed (l m : Level) (w : List TokenKind) : List TokenKind :=
  if l.rank ≤ m.rank then w else parens w

/-- The words of a list of items, with a token between any two of them. -/
def separated {α : Type} (between : TokenKind) (f : α → List TokenKind) : List α → List TokenKind
  | [] => []
  | [a] => f a
  | a :: b :: as => f a ++ between :: separated between f (b :: as)

namespace Expr

/-- The tokens with which the expression is written at a level. -/
def words (l : Level) : Expr → List TokenKind
  | name n => [.identifier n.text]
  | int value _ => [.integer value]
  | bool value _ => [.reserved (if value then .trueWord else .falseWord)]
  | result _ => [.specWord Parser.resultWord]
  | binary op left right _ =>
    enclosed l op.level
      (left.words op.leftLevel ++ .symbol op.sign :: right.words op.rightLevel)
  | unary op operand _ => enclosed l .prefixed (.symbol op.sign :: operand.words .prefixed)
  | field base n _ =>
    enclosed l .selection (base.words .selection ++ [.symbol .dot, .identifier n.text])
  | call callee args _ =>
    enclosed l .selection (callee.words .selection ++ parens (listWords args))
  | state head args _ => .specWord head.descriptor.keyword :: parens (listWords args)
  | missing _ => []
where
  listWords : List Expr → List TokenKind
    | [] => []
    | [e] => e.words .implication
    | e :: e' :: es => e.words .implication ++ .symbol .comma :: listWords (e' :: es)

/-- Expressions that can be written, where registered words are reserved or not. -/
def Writable (on : Bool) : Expr → Prop
  | name n => IsName n.text ∧ Registry.standard.Free on n.text
  | int value _ => value ≤ Piece.largestInteger
  | bool _ _ => True
  | result _ => True
  | binary _ left right _ => left.Writable on ∧ right.Writable on
  | unary _ operand _ => operand.Writable on
  | field base n _ => base.Writable on ∧ IsName n.text
  | call callee args _ => callee.Writable on ∧ listWritable args
  | state head args recorded =>
    head.descriptor = .ofKind (.state head.keyword) ∧ head.typeArgs = [] ∧ recorded = none ∧
      listWritable args
  | missing _ => False
where
  listWritable : List Expr → Prop
    | [] => True
    | e :: es => e.Writable on ∧ listWritable es

/-! ### What is written is derived -/

end Expr

section

variable {registry : Registry} {on : Bool} {l m : Level} {w : List TokenKind} {e : Expr}

theorem derives_enclosed (h : Derives registry on m w e) :
    Derives registry on l (enclosed l m w) e := by
  unfold enclosed
  split
  · next hrank => exact h.of_rank_le hrank
  · exact (Derives.parens (h.of_rank_le (Nat.zero_le _))).of_rank_le l.rank_le

end

namespace Expr

/-- An expression that can be written is derived from its tokens. -/
theorem derives_words {on : Bool} : ∀ (e : Expr) (l : Level), e.Writable on →
    Derives .standard on l (e.words l) e
  | name n, l, h => (Derives.name h.2).of_rank_le l.rank_le
  | int value _, l, h => Derives.int.of_rank_le l.rank_le
  | bool true _, l, h => Derives.true.of_rank_le l.rank_le
  | bool false _, l, h => Derives.false.of_rank_le l.rank_le
  | result _, l, h => Derives.result.of_rank_le l.rank_le
  | binary op left right _, l, h => by
    apply derives_enclosed
    have hleft := derives_words left op.leftLevel h.1
    have hright := derives_words right op.rightLevel h.2
    by_cases hop : op = .implies
    · subst hop
      exact .implies hleft hright
    · rw [BinaryOp.leftLevel, if_neg hop] at hleft
      rw [BinaryOp.rightLevel, if_neg hop] at hright
      obtain ⟨grouping, m, next⟩ := BinaryOp.level_of_ne_implies hop
      rw [next, Option.getD_some] at hright
      rw [BinaryOp.leftLevel, if_neg hop, BinaryOp.rightLevel, if_neg hop, next, Option.getD_some]
      exact .binary rfl grouping next hleft hright
  | unary op operand _, l, h => by
    exact derives_enclosed (.unary (derives_words operand .prefixed h))
  | field base n _, l, h => derives_enclosed (.field (derives_words base .selection h.1))
  | call callee args _, l, h =>
    derives_enclosed (.call (derives_words callee .selection h.1) (derives_listWords args h.2))
  | state ⟨descriptor, keyword, typeArgs, s, t⟩ args recorded, l, h => by
    simp only [Writable] at h
    obtain ⟨rfl, rfl, rfl, hargs⟩ := h
    refine (Derives.state ?_ (Registry.get?_keyword_kind _) rfl
      (derives_listWords args hargs)).of_rank_le l.rank_le
    cases keyword <;> decide
  | missing _, l, h => h.elim
where
  derives_listWords {on : Bool} : ∀ es : List Expr, Writable.listWritable on es →
      Commas (Derives .standard on .implication) (words.listWords es) es
    | [], _ => .none
    | [e], h => .one (derives_words e .implication h.1)
    | e :: e' :: es, h =>
      .more (derives_words e .implication h.1) (derives_listWords (e' :: es) h.2)

/-! ### What is written can be spelled -/

theorem spellable_resultWord : (TokenKind.specWord Parser.resultWord).Spellable := by
  decide

theorem spellable_stateKeyword (keyword : StateKeyword) :
    (TokenKind.specWord keyword.keyword).Spellable := by
  cases keyword <;> decide

end Expr

section

variable {l m : Level} {w : List TokenKind}

theorem spellable_parens (h : ∀ k ∈ w, k.Spellable) : ∀ k ∈ parens w, k.Spellable := by
  simp only [parens, List.forall_mem_cons, List.forall_mem_append]
  exact ⟨trivial, h, trivial, fun _ hk => nomatch hk⟩

theorem spellable_enclosed (h : ∀ k ∈ w, k.Spellable) : ∀ k ∈ enclosed l m w, k.Spellable := by
  unfold enclosed
  split
  · exact h
  · exact spellable_parens h

theorem spellable_separated {α : Type} {between : TokenKind} {f : α → List TokenKind}
    {as : List α} (hbetween : between.Spellable) (h : ∀ a ∈ as, ∀ k ∈ f a, k.Spellable) :
    ∀ k ∈ separated between f as, k.Spellable := by
  induction as with
  | nil => exact fun _ hk => nomatch hk
  | cons a as ih =>
    rw [List.forall_mem_cons] at h
    cases as with
    | nil => exact h.1
    | cons b as =>
      simp only [separated, List.forall_mem_append, List.forall_mem_cons]
      exact ⟨h.1, hbetween, ih h.2⟩

end

namespace Expr

theorem spellable_words {on : Bool} : ∀ (e : Expr) (l : Level), e.Writable on →
    ∀ k ∈ e.words l, k.Spellable
  | name n, l, h => by
    rw [words, List.forall_mem_singleton]
    exact h.1
  | int value _, l, h => by
    rw [words, List.forall_mem_singleton]
    exact h
  | bool value _, l, h => by simp [words, TokenKind.Spellable]
  | result _, l, h => by simpa [words] using spellable_resultWord
  | binary op left right _, l, h => by
    apply spellable_enclosed
    simp only [List.forall_mem_append, List.forall_mem_cons]
    exact ⟨spellable_words left _ h.1, trivial, spellable_words right _ h.2⟩
  | unary op operand _, l, h => by
    apply spellable_enclosed
    rw [List.forall_mem_cons]
    exact ⟨trivial, spellable_words operand _ h⟩
  | field base n _, l, h => by
    apply spellable_enclosed
    simp only [List.forall_mem_append, List.forall_mem_cons]
    exact ⟨spellable_words base _ h.1, trivial, h.2, fun _ hk => nomatch hk⟩
  | call callee args _, l, h => by
    apply spellable_enclosed
    rw [List.forall_mem_append]
    exact ⟨spellable_words callee _ h.1, spellable_parens (spellable_listWords args h.2)⟩
  | state head args recorded, l, h => by
    rw [words, List.forall_mem_cons, h.1]
    exact ⟨spellable_stateKeyword _, spellable_parens (spellable_listWords args h.2.2.2)⟩
  | missing _, l, h => h.elim
where
  spellable_listWords {on : Bool} : ∀ es : List Expr, Writable.listWritable on es →
      ∀ k ∈ words.listWords es, k.Spellable
    | [], _ => fun _ hk => nomatch hk
    | [e], h => spellable_words e .implication h.1
    | e :: e' :: es, h => by
      simp only [words.listWords, List.forall_mem_append, List.forall_mem_cons]
      exact ⟨spellable_words e .implication h.1, trivial, spellable_listWords (e' :: es) h.2⟩

end Expr

end Contracts
