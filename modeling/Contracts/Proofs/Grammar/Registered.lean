import Contracts.Clause.Registry
import Contracts.Tree.Unit

/-! Trees that agree with a registry. Every keyword in them has the descriptor that the
registry has for it, and that descriptor is of a kind that belongs in its place. Only
constraints have frames, and lists that were opened are not empty. Placeholders may stand
anywhere. -/

namespace Contracts

/-- The registry has this very descriptor for its keyword. -/
def Registry.Holds (registry : Registry) (d : Descriptor) : Prop :=
  registry.get? d.keyword = some d

theorem Registry.holds_of_get? {registry : Registry} {word : String} {d : Descriptor}
    (h : registry.get? word = some d) : registry.Holds d := by
  rw [Holds, keyword_of_get? h, h]

namespace Expr

def Registered (registry : Registry) : Expr → Prop
  | binary _ left right _ => left.Registered registry ∧ right.Registered registry
  | unary _ operand _ => operand.Registered registry
  | field base _ _ => base.Registered registry
  | call callee args _ => callee.Registered registry ∧ listRegistered registry args
  | state head args _ =>
    registry.Holds head.descriptor ∧ head.descriptor.kind = .state head.keyword ∧
      listRegistered registry args
  | _ => True
where
  listRegistered (registry : Registry) : List Expr → Prop
    | [] => True
    | e :: es => e.Registered registry ∧ listRegistered registry es

theorem listRegistered_of_forall {registry : Registry} {es : List Expr}
    (h : ∀ e ∈ es, e.Registered registry) : Registered.listRegistered registry es := by
  induction es with
  | nil => trivial
  | cons e es ih =>
    obtain ⟨head, tail⟩ := List.forall_mem_cons.1 h
    exact ⟨head, ih tail⟩

end Expr

variable (registry : Registry)

/-! ### Statements -/

structure SpecClause.Registered (c : SpecClause) : Prop where
  descriptor : registry.Holds c.descriptor
  expr : c.expr.Registered registry

def Variable.Registered (v : Variable) : Prop := ∀ e ∈ v.init, e.Registered registry

namespace Statement

def Registered : Statement → Prop
  | declare decl => decl.Registered registry
  | ghost d decl => registry.Holds d ∧ d.kind = .declaration ∧ decl.Registered registry
  | assign _ value _ => value.Registered registry
  | labeled _ body _ => body.Registered
  | clause c => c.Registered registry ∧ ∃ word, c.descriptor.kind = .statement word
  | leave value _ => ∀ e ∈ value, e.Registered registry
  | expr e => e.Registered registry
  | block statements _ => listRegistered statements
  | missing _ => True
where
  listRegistered : List Statement → Prop
    | [] => True
    | s :: ss => s.Registered ∧ listRegistered ss

end Statement

/-! ### Members -/

structure Field.Registered (f : Field) : Prop where
  ghost : ∀ d ∈ f.ghost, registry.Holds d ∧ d.kind = .declaration
  init : ∀ e ∈ f.init, e.Registered registry

/-- A frame that lists methods lists one or more. -/
def Frame.Nonempty : Frame → Prop
  | everything _ => True
  | methods names => names ≠ []

structure TypeClause.Registered (c : TypeClause) : Prop where
  descriptor : registry.Holds c.descriptor
  kind : ∃ word, c.descriptor.kind = .typeClause word
  expr : c.expr.Registered registry
  frame : ∀ f ∈ c.frame, c.descriptor.kind = .typeClause .constraint ∧ f.Nonempty

structure SpecCase.Registered (c : SpecCase) : Prop where
  nonempty : c.clauses ≠ []
  clauses : ∀ s ∈ c.clauses, s.Registered registry ∧ ∃ word, s.descriptor.kind = .methodSpec word

structure Method.Registered (m : Method) : Prop where
  cases : ∀ c ∈ m.cases, c.Registered registry
  body : Statement.Registered.listRegistered registry m.body.statements

namespace Member

def Registered : Member → Prop
  | field f => f.Registered registry
  | clause c => c.Registered registry
  | method m => m.Registered registry

end Member

/-! ### Units -/

def Class.Registered (c : Class) : Prop := ∀ m ∈ c.members, m.Registered registry

def CompilationUnit.Registered (u : CompilationUnit) : Prop :=
  ∀ c ∈ u.classes, c.Registered registry

end Contracts
