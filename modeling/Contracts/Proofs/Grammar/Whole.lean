import Contracts.Proofs.Grammar.Expression

/-! Whole trees: nothing in them stands for a mistake, and nothing has been recorded yet. -/

namespace Contracts

namespace Expr

def Whole : Expr → Prop
  | binary _ left right _ => left.Whole ∧ right.Whole
  | unary _ operand _ => operand.Whole
  | field base _ _ => base.Whole
  | call callee args _ => callee.Whole ∧ listWhole args
  | state head args recorded => head.typeArgs = [] ∧ recorded = none ∧ listWhole args
  | missing _ => False
  | _ => True
where
  listWhole : List Expr → Prop
    | [] => True
    | e :: es => e.Whole ∧ listWhole es

end Expr

/-! ### Statements and members -/

def Variable.Whole (v : Variable) : Prop := ∀ e ∈ v.init, e.Whole

namespace Statement

def Whole : Statement → Prop
  | declare decl => decl.Whole
  | ghost _ decl => decl.Whole
  | assign _ value _ => value.Whole
  | labeled _ body _ => body.Whole
  | clause c => c.expr.Whole
  | leave value _ => ∀ e ∈ value, e.Whole
  | expr e => e.Whole
  | block statements _ => listWhole statements
  | missing _ => False
where
  listWhole : List Statement → Prop
    | [] => True
    | s :: ss => s.Whole ∧ listWhole ss

end Statement

def SpecCase.Whole (c : SpecCase) : Prop := ∀ s ∈ c.clauses, s.expr.Whole

structure Method.Whole (m : Method) : Prop where
  cases : ∀ c ∈ m.cases, c.Whole
  body : Statement.Whole.listWhole m.body.statements

def Member.Whole : Member → Prop
  | field f => ∀ e ∈ f.init, e.Whole
  | clause c => c.expr.Whole
  | method m => m.Whole

/-! ### Units -/

def Class.Whole (c : Class) : Prop := ∀ m ∈ c.members, m.Whole

def CompilationUnit.Whole (u : CompilationUnit) : Prop := ∀ c ∈ u.classes, c.Whole

/-! ### What is derived -/

mutual

/-- Derived expressions are whole. -/
theorem Derives.whole {registry : Registry} {on : Bool} :
    ∀ {l : Level} {w : List TokenKind} {e : Expr}, Derives registry on l w e → e.Whole
  | _, _, _, .loosen _ inner => inner.whole
  | _, _, _, .implies left right => ⟨left.whole, right.whole⟩
  | _, _, _, .binary _ _ _ left right => ⟨left.whole, right.whole⟩
  | _, _, _, .unary operand => operand.whole
  | _, _, _, .field base => base.whole
  | _, _, _, .call callee list => ⟨callee.whole, list.whole⟩
  | _, _, _, .name _ => trivial
  | _, _, _, .int => trivial
  | _, _, _, .true => trivial
  | _, _, _, .false => trivial
  | _, _, _, .result => trivial
  | _, _, _, .parens inner => inner.whole
  | _, _, _, .state _ _ _ list => ⟨rfl, rfl, list.whole⟩

theorem Commas.whole {registry : Registry} {on : Bool} :
    ∀ {w : List TokenKind} {es : List Expr}, Commas (Derives registry on .implication) w es →
      Expr.Whole.listWhole es
  | _, _, .none => trivial
  | _, _, .one item => ⟨item.whole, trivial⟩
  | _, _, .more item others => ⟨item.whole, others.whole⟩

end

end Contracts
