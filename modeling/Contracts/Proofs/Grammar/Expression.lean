import Contracts.Parser.Expression

/-! The grammar of expressions, over kinds of tokens. Levels of binding stand above one
another, `==>` loosest, and an expression of one level may stand for one of every looser
level. The grammar does not say where in a text an expression stands, so it relates words
to trees with any spans; `Expr.unspanned` is the tree without them. -/

namespace Contracts

/-! ### Trees without spans -/

def Name.unspanned (n : Name) : Name := ⟨n.text, .origin⟩

def StateHead.unspanned (h : StateHead) : StateHead :=
  ⟨h.descriptor, h.keyword, h.typeArgs.map (·.unspanned), .origin, .origin⟩

namespace Expr

/-- The tree with every span at the origin. -/
def unspanned : Expr → Expr
  | name n => name n.unspanned
  | int value _ => int value .origin
  | bool value _ => bool value .origin
  | result _ => result .origin
  | binary op left right _ => binary op left.unspanned right.unspanned .origin
  | unary op operand _ => unary op operand.unspanned .origin
  | field base n _ => field base.unspanned n.unspanned .origin
  | call callee args _ => call callee.unspanned (unspannedList args) .origin
  | state head args recorded => state head.unspanned (unspannedList args) recorded
  | missing _ => missing .origin
where
  unspannedList : List Expr → List Expr
    | [] => []
    | e :: es => e.unspanned :: unspannedList es

theorem unspannedList_eq (es : List Expr) : unspanned.unspannedList es = es.map unspanned := by
  induction es with
  | nil => rfl
  | cons e es ih => rw [unspanned.unspannedList, ih, List.map_cons]

end Expr

/-! ### Levels of binding -/

/-- The levels of binding, loosest first. -/
inductive Level
  | implication
  | disjunction
  | conjunction
  | equality
  | relation
  | sum
  | product
  | prefixed
  | selection
  | primary
deriving DecidableEq

namespace Level

/-- The level that binds one step tighter. -/
def next? : Level → Option Level
  | implication => some disjunction
  | disjunction => some conjunction
  | conjunction => some equality
  | equality => some relation
  | relation => some sum
  | sum => some product
  | product => some prefixed
  | prefixed => some selection
  | selection => some primary
  | primary => none

/-- The number of looser levels. -/
def rank : Level → Nat
  | implication => 0
  | disjunction => 1
  | conjunction => 2
  | equality => 3
  | relation => 4
  | sum => 5
  | product => 6
  | prefixed => 7
  | selection => 8
  | primary => 9

theorem rank_next {l m : Level} (h : l.next? = some m) : m.rank = l.rank + 1 := by
  cases l <;> cases h <;> rfl

theorem rank_le (l : Level) : l.rank ≤ primary.rank := by cases l <;> decide

theorem rank_injective {l m : Level} (h : l.rank = m.rank) : l = m := by
  cases l <;> cases m <;> first | rfl | cases h

end Level

namespace BinaryOp

def all : List BinaryOp :=
  [add, sub, mul, div, rem, equal, notEqual, less, atMost, greater, atLeast, and, or, implies]

theorem mem_all (op : BinaryOp) : op ∈ all := by cases op <;> decide

/-- The level of the expressions that the operator joins. -/
def level : BinaryOp → Level
  | add | sub => .sum
  | mul | div | rem => .product
  | equal | notEqual => .equality
  | less | atMost | greater | atLeast => .relation
  | and => .conjunction
  | or => .disjunction
  | implies => .implication

theorem rank_level_lt (op : BinaryOp) : op.level.rank < Level.prefixed.rank := by
  cases op <;> decide

def sign : BinaryOp → Symbol
  | add => .plus
  | sub => .minus
  | mul => .star
  | div => .slash
  | rem => .percent
  | equal => .equal
  | notEqual => .notEqual
  | less => .less
  | atMost => .atMost
  | greater => .greater
  | atLeast => .atLeast
  | and => .both
  | or => .either
  | implies => .implies

theorem spelling_sign (op : BinaryOp) : op.sign.spelling = op.symbol := by cases op <;> rfl

theorem sign_injective {op op' : BinaryOp} (h : op.sign = op'.sign) : op = op' := by
  cases op <;> cases op' <;> first | rfl | cases h

end BinaryOp

namespace UnaryOp

def sign : UnaryOp → Symbol
  | neg => .minus
  | not => .bang

theorem spelling_sign (op : UnaryOp) : op.sign.spelling = op.symbol := by cases op <;> rfl

end UnaryOp

/-! ### The grammar -/

/-- Registered words are names only where they are not reserved. -/
def Registry.Free (registry : Registry) (on : Bool) (word : String) : Prop :=
  on = true → registry.get? word = none

/-- Any number of items with commas between them. -/
inductive Commas {α : Type} (D : List TokenKind → α → Prop) : List TokenKind → List α → Prop
  | none : Commas D [] []
  | one {w : List TokenKind} {a : α} (item : D w a) : Commas D w [a]
  | more {v w : List TokenKind} {a b : α} {as : List α} (item : D v a)
      (others : Commas D w (b :: as)) : Commas D (v ++ .symbol .comma :: w) (a :: b :: as)

/-- In a mode, tokens of these kinds are an expression of the level. -/
inductive Derives (registry : Registry) (on : Bool) : Level → List TokenKind → Expr → Prop
  | loosen {l m : Level} {w : List TokenKind} {e : Expr} (next : l.next? = some m)
      (inner : Derives registry on m w e) : Derives registry on l w e
  | implies {v w : List TokenKind} {a b : Expr} {s : Span}
      (left : Derives registry on .disjunction v a)
      (right : Derives registry on .implication w b) :
      Derives registry on .implication (v ++ .symbol .implies :: w) (.binary .implies a b s)
  | binary {l m : Level} {op : BinaryOp} {v w : List TokenKind} {a b : Expr} {s : Span}
      (level : op.level = l) (grouping : l ≠ .implication) (next : l.next? = some m)
      (left : Derives registry on l v a) (right : Derives registry on m w b) :
      Derives registry on l (v ++ .symbol op.sign :: w) (.binary op a b s)
  | unary {op : UnaryOp} {w : List TokenKind} {e : Expr} {s : Span}
      (operand : Derives registry on .prefixed w e) :
      Derives registry on .prefixed (.symbol op.sign :: w) (.unary op e s)
  | field {w : List TokenKind} {e : Expr} {n : Name} {s : Span}
      (base : Derives registry on .selection w e) :
      Derives registry on .selection (w ++ [.symbol .dot, .identifier n.text]) (.field e n s)
  | call {v w : List TokenKind} {e : Expr} {args : List Expr} {s : Span}
      (callee : Derives registry on .selection v e)
      (list : Commas (Derives registry on .implication) w args) :
      Derives registry on .selection (v ++ .symbol .leftParen :: (w ++ [.symbol .rightParen]))
        (.call e args s)
  | name {n : Name} (free : registry.Free on n.text) :
      Derives registry on .primary [.identifier n.text] (.name n)
  | int {value : Nat} {s : Span} : Derives registry on .primary [.integer value] (.int value s)
  | true {s : Span} : Derives registry on .primary [.reserved .trueWord] (.bool true s)
  | false {s : Span} : Derives registry on .primary [.reserved .falseWord] (.bool false s)
  | result {s : Span} : Derives registry on .primary [.specWord Parser.resultWord] (.result s)
  | parens {w : List TokenKind} {e : Expr} (inner : Derives registry on .implication w e) :
      Derives registry on .primary (.symbol .leftParen :: (w ++ [.symbol .rightParen])) e
  | state {word : String} {d : Descriptor} {keyword : StateKeyword} {w : List TokenKind}
      {args : List Expr} {s t : Span} (other : word ≠ Parser.resultWord)
      (registered : registry.get? word = some d) (kind : d.kind = .state keyword)
      (list : Commas (Derives registry on .implication) w args) :
      Derives registry on .primary
        (.specWord word :: .symbol .leftParen :: (w ++ [.symbol .rightParen]))
        (.state ⟨d, keyword, [], s, t⟩ args none)

/-- An expression may stand for one of every looser level. -/
theorem Derives.of_rank_le {registry : Registry} {on : Bool} {l m : Level} {w : List TokenKind}
    {e : Expr} (h : Derives registry on m w e) (hrank : l.rank ≤ m.rank) :
    Derives registry on l w e := by
  obtain ⟨n, hn⟩ := Nat.exists_eq_add_of_le hrank
  induction n generalizing l with
  | zero =>
    rw [Level.rank_injective hn.symm]
    exact h
  | succ n ih =>
    obtain ⟨l', next⟩ : ∃ l', l.next? = some l' := by
      cases l with
      | primary =>
        have := Level.rank_le m
        rw [hn] at this
        exact absurd this (by simp only [Level.rank]; omega)
      | _ => exact ⟨_, rfl⟩
    have hrank' := Level.rank_next next
    exact .loosen next (ih (by omega) (by omega))

/-! ### First tokens -/

/-- Tokens with which an operand can start that has no prefix operator. -/
def TokenKind.StartsOperand (registry : Registry) (on : Bool) : TokenKind → Prop
  | identifier word => registry.Free on word
  | integer _ => True
  | specWord _ => True
  | reserved word => word = .trueWord ∨ word = .falseWord
  | symbol s => s = .leftParen
  | endOfText => False

/-- Expressions have a first token, which starts an operand unless it is a prefix operator. -/
theorem Derives.exists_first {registry : Registry} {on : Bool} :
    ∀ {l : Level} {w : List TokenKind} {e : Expr}, Derives registry on l w e →
      ∃ t u, w = t :: u ∧ (t.StartsOperand registry on ∨
        l.rank ≤ Level.prefixed.rank ∧ ∃ op : UnaryOp, t = .symbol op.sign)
  | _, _, _, .loosen next inner => by
    obtain ⟨t, u, rfl, ht⟩ := inner.exists_first
    refine ⟨t, u, rfl, ht.imp_right fun ⟨hrank, hop⟩ => ⟨?_, hop⟩⟩
    have := Level.rank_next next
    omega
  | _, _, _, .implies left _ => by
    obtain ⟨t, u, rfl, ht⟩ := left.exists_first
    exact ⟨t, _, rfl, ht.imp_right fun ⟨_, hop⟩ => ⟨by decide, hop⟩⟩
  | _, _, _, .binary _ _ _ left _ => by
    obtain ⟨t, u, rfl, ht⟩ := left.exists_first
    exact ⟨t, _, rfl, ht⟩
  | _, _, _, .unary _ => ⟨_, _, rfl, .inr ⟨Nat.le_refl _, _, rfl⟩⟩
  | _, _, _, .field base => by
    obtain ⟨t, u, rfl, ht⟩ := base.exists_first
    exact ⟨t, _, rfl, ht⟩
  | _, _, _, .call callee _ => by
    obtain ⟨t, u, rfl, ht⟩ := callee.exists_first
    exact ⟨t, _, rfl, ht⟩
  | _, _, _, .name free => ⟨_, _, rfl, .inl free⟩
  | _, _, _, .int => ⟨_, _, rfl, .inl trivial⟩
  | _, _, _, .true => ⟨_, _, rfl, .inl (.inl rfl)⟩
  | _, _, _, .false => ⟨_, _, rfl, .inl (.inr rfl)⟩
  | _, _, _, .result => ⟨_, _, rfl, .inl trivial⟩
  | _, _, _, .parens _ => ⟨_, _, rfl, .inl rfl⟩
  | _, _, _, .state _ _ _ _ => ⟨_, _, rfl, .inl trivial⟩

/-- Tokens that can continue an expression. -/
def TokenKind.Continues (k : TokenKind) : Prop :=
  k = .symbol .leftParen ∨ k = .symbol .dot ∨ ∃ op : BinaryOp, k = .symbol op.sign

/-- A word that is over behind its first token, if that is a name, or goes on as an
expression does. -/
def NameContinues (w : List TokenKind) : Prop :=
  ∀ word u, w = .identifier word :: u → u = [] ∨ ∃ t v, u = t :: v ∧ t.Continues

/-- Tokens with which an expression can start. -/
def TokenKind.StartsExpression (registry : Registry) (on : Bool) (k : TokenKind) : Prop :=
  k.StartsOperand registry on ∨ ∃ op : UnaryOp, k = .symbol op.sign

theorem startsExpression_symbol {registry : Registry} {on : Bool} {s : Symbol}
    (h : (TokenKind.symbol s).StartsExpression registry on) :
    s = .leftParen ∨ s = .minus ∨ s = .bang := by
  rcases h with h | ⟨op, h⟩
  · exact .inl h
  · injection h with h
    cases op
    · exact .inr (.inl h)
    · exact .inr (.inr h)

theorem Derives.exists_cons {registry : Registry} {on : Bool} {l : Level} {w : List TokenKind}
    {e : Expr} (h : Derives registry on l w e) :
    ∃ t u, w = t :: u ∧ t.StartsExpression registry on := by
  obtain ⟨t, u, hw, ht⟩ := h.exists_first
  exact ⟨t, u, hw, ht.imp_right And.right⟩

theorem Derives.ne_nil {registry : Registry} {on : Bool} {l : Level} {w : List TokenKind}
    {e : Expr} (h : Derives registry on l w e) : w ≠ [] := by
  obtain ⟨t, u, rfl, -⟩ := h.exists_first
  exact List.cons_ne_nil t u

theorem nameContinues_append {v w : List TokenKind} {t : TokenKind} (hv : v ≠ [])
    (ht : t.Continues) (h : NameContinues v) : NameContinues (v ++ t :: w) := by
  obtain ⟨x, u, rfl⟩ := List.exists_cons_of_ne_nil hv
  rintro word y hy
  obtain ⟨rfl, rfl⟩ := List.cons.inj hy
  rcases h word u rfl with rfl | ⟨t', v', rfl, ht'⟩
  · exact .inr ⟨t, w, rfl, ht⟩
  · exact .inr ⟨t', v' ++ t :: w, rfl, ht'⟩

/-- Behind a name at the start of an expression, the expression is over or goes on. -/
theorem Derives.nameContinues {registry : Registry} {on : Bool} :
    ∀ {l : Level} {w : List TokenKind} {e : Expr}, Derives registry on l w e → NameContinues w
  | _, _, _, .loosen _ inner => inner.nameContinues
  | _, _, _, .implies left _ =>
    nameContinues_append left.ne_nil (.inr (.inr ⟨.implies, rfl⟩)) left.nameContinues
  | _, _, _, .binary _ _ _ left _ =>
    nameContinues_append left.ne_nil (.inr (.inr ⟨_, rfl⟩)) left.nameContinues
  | _, _, _, .unary _ => fun _ _ h => by cases h
  | _, _, _, .field base =>
    nameContinues_append base.ne_nil (.inr (.inl rfl)) base.nameContinues
  | _, _, _, .call callee _ =>
    nameContinues_append callee.ne_nil (.inl rfl) callee.nameContinues
  | _, _, _, .name _ => fun _ _ h => .inl (List.cons.inj h).2.symm
  | _, _, _, .int => fun _ _ h => by cases h
  | _, _, _, .true => fun _ _ h => by cases h
  | _, _, _, .false => fun _ _ h => by cases h
  | _, _, _, .result => fun _ _ h => by cases h
  | _, _, _, .parens _ => fun _ _ h => by cases h
  | _, _, _, .state _ _ _ _ => fun _ _ h => by cases h

end Contracts
