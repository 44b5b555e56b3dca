import Contracts.Proofs.Grammar.Expression
import Contracts.Proofs.Grammar.Layers
import Mathlib.Algebra.GroupWithZero.Nat

/-! What recovery leaves in a tree: placeholders, which are counted at any depth
(`CompilationUnit.placeholders`), and names, which outside the bodies of clauses are never
reserved words (`CompilationUnit.Free`). -/

namespace Contracts

/-! ### Placeholders -/

namespace Expr

/-- The number of placeholders. -/
def placeholders : Expr → Nat
  | binary _ left right _ => left.placeholders + right.placeholders
  | unary _ operand _ => operand.placeholders
  | field base _ _ => base.placeholders
  | call callee args _ => callee.placeholders + listPlaceholders args
  | state _ args _ => listPlaceholders args
  | missing _ => 1
  | _ => 0
where
  listPlaceholders : List Expr → Nat
    | [] => 0
    | e :: es => e.placeholders + listPlaceholders es

theorem listPlaceholders_eq (es : List Expr) :
    placeholders.listPlaceholders es = (es.map placeholders).sum := by
  induction es with
  | nil => rfl
  | cons e es ih => rw [placeholders.listPlaceholders, ih, List.map_cons, List.sum_cons]

end Expr

/-- The placeholders of an expression that may be absent. -/
def initPlaceholders (init : Option Expr) : Nat := (init.map Expr.placeholders).getD 0

namespace Statement

/-- The number of placeholders, for expressions and for statements. -/
def placeholders : Statement → Nat
  | declare decl => initPlaceholders decl.init
  | ghost _ decl => initPlaceholders decl.init
  | assign _ value _ => value.placeholders
  | labeled _ body _ => body.placeholders
  | clause c => c.expr.placeholders
  | leave value _ => initPlaceholders value
  | expr e => e.placeholders
  | block statements _ => listPlaceholders statements
  | missing _ => 1
where
  listPlaceholders : List Statement → Nat
    | [] => 0
    | s :: ss => s.placeholders + listPlaceholders ss

end Statement

def SpecCase.placeholders (c : SpecCase) : Nat := (c.clauses.map (·.expr.placeholders)).sum

def Method.placeholders (m : Method) : Nat :=
  (m.cases.map (·.placeholders)).sum + Statement.placeholders.listPlaceholders m.body.statements

def Member.placeholders : Member → Nat
  | field f => initPlaceholders f.init
  | clause c => c.expr.placeholders
  | method m => m.placeholders

def Class.placeholders (c : Class) : Nat := (c.members.map (·.placeholders)).sum

def CompilationUnit.placeholders (u : CompilationUnit) : Nat :=
  (u.classes.map (·.placeholders)).sum

/-! ### Names -/

variable (registry : Registry) (on : Bool)

namespace Expr

/-- Every name is free in the mode. -/
def Free : Expr → Prop
  | name n => registry.Free on n.text
  | binary _ left right _ => left.Free ∧ right.Free
  | unary _ operand _ => operand.Free
  | field base _ _ => base.Free
  | call callee args _ => callee.Free ∧ listFree args
  | state _ args _ => listFree args
  | _ => True
where
  listFree : List Expr → Prop
    | [] => True
    | e :: es => e.Free ∧ listFree es

end Expr

namespace Statement

/-- Every name outside the bodies of clauses is free in the mode. -/
def Free : Statement → Prop
  | declare decl => ∀ e ∈ decl.init, e.Free registry on
  | ghost _ decl => ∀ e ∈ decl.init, e.Free registry on
  | assign _ value _ => value.Free registry on
  | labeled _ body _ => body.Free
  | clause _ => True
  | leave value _ => ∀ e ∈ value, e.Free registry on
  | expr e => e.Free registry on
  | block statements _ => listFree statements
  | missing _ => True
where
  listFree : List Statement → Prop
    | [] => True
    | s :: ss => s.Free ∧ listFree ss

end Statement

def Member.Free : Member → Prop
  | field f => ∀ e ∈ f.init, e.Free registry on
  | clause _ => True
  | method m => Statement.Free.listFree registry on m.body.statements

def Class.Free (c : Class) : Prop := ∀ m ∈ c.members, m.Free registry on

def CompilationUnit.Free (u : CompilationUnit) : Prop := ∀ c ∈ u.classes, c.Free registry on

variable {registry on}

namespace Expr

theorem listFree_iff {es : List Expr} :
    Free.listFree registry on es ↔ ∀ e ∈ es, e.Free registry on := by
  induction es with
  | nil => exact ⟨fun _ _ h => (nomatch h), fun _ => trivial⟩
  | cons e es ih => rw [Free.listFree, ih, List.forall_mem_cons]

theorem Free.of_layer {l : Layer} {e : Expr} (h : (l.wrap e).Free registry on) :
    e.Free registry on := by
  cases l with
  | binaryLeft => exact h.1
  | binaryRight => exact h.2
  | unary => exact h
  | field => exact h
  | callee => exact h.1
  | arg called before after s =>
    exact listFree_iff.1 h.2 e (List.mem_append_right _ List.mem_cons_self)
  | stateArg head before after recorded =>
    have args : Free.listFree registry on (before ++ e :: after) := h
    exact listFree_iff.1 args e (List.mem_append_right _ List.mem_cons_self)

theorem Free.of_wrap {layers : List Layer} {e : Expr} (h : (wrap layers e).Free registry on) :
    e.Free registry on := by
  induction layers with
  | nil => exact h
  | cons l layers ih => exact ih (Free.of_layer h)

end Expr

namespace Statement

theorem listFree_iff {ss : List Statement} :
    Free.listFree registry on ss ↔ ∀ s ∈ ss, s.Free registry on := by
  induction ss with
  | nil => exact ⟨fun _ _ h => (nomatch h), fun _ => trivial⟩
  | cons s ss ih => rw [Free.listFree, ih, List.forall_mem_cons]

theorem Free.of_wrap {layers : List Layer} {s : Statement} (h : (wrap layers s).Free registry on) :
    s.Free registry on := by
  induction layers with
  | nil => exact h
  | cons l layers ih =>
    refine ih ?_
    cases l with
    | labeled label span => exact h
    | block before after span =>
      have body : Free.listFree registry on (before ++ wrap layers s :: after) := h
      exact listFree_iff.1 body _ (List.mem_append_right _ List.mem_cons_self)

end Statement

end Contracts
