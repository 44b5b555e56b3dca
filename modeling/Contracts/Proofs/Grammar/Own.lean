import Contracts.Proofs.Grammar.Registered

/-! Trees with the descriptors of a registry. Every keyword in them has the descriptor that the
registry has for it, in whatever place it stands; trees that agree with the registry are of
this kind (`CompilationUnit.Registered.own`). -/

namespace Contracts

namespace Expr

def Own (registry : Registry) : Expr → Prop
  | binary _ left right _ => left.Own registry ∧ right.Own registry
  | unary _ operand _ => operand.Own registry
  | field base _ _ => base.Own registry
  | call callee args _ => callee.Own registry ∧ listOwn registry args
  | state head args _ => registry.Holds head.descriptor ∧ listOwn registry args
  | _ => True
where
  listOwn (registry : Registry) : List Expr → Prop
    | [] => True
    | e :: es => e.Own registry ∧ listOwn registry es

mutual

theorem Registered.own {registry : Registry} : ∀ {e : Expr}, e.Registered registry → e.Own registry
  | name _, _ => trivial
  | int _ _, _ => trivial
  | bool _ _, _ => trivial
  | result _, _ => trivial
  | binary _ _ _ _, h => ⟨Registered.own h.1, Registered.own h.2⟩
  | unary _ operand _, h => Registered.own (e := operand) h
  | field base _ _, h => Registered.own (e := base) h
  | call _ _ _, h => ⟨Registered.own h.1, listOwn_of_listRegistered h.2⟩
  | state _ _ _, h => ⟨h.1, listOwn_of_listRegistered h.2.2⟩
  | missing _, _ => trivial

theorem listOwn_of_listRegistered {registry : Registry} :
    ∀ {es : List Expr}, Registered.listRegistered registry es → Own.listOwn registry es
  | [], _ => trivial
  | _ :: _, h => ⟨Registered.own h.1, listOwn_of_listRegistered h.2⟩

end

end Expr

variable (registry : Registry)

/-! ### Statements -/

structure SpecClause.Own (c : SpecClause) : Prop where
  descriptor : registry.Holds c.descriptor
  expr : c.expr.Own registry

def Variable.Own (v : Variable) : Prop := ∀ e ∈ v.init, e.Own registry

def Statement.Own : Statement → Prop
  | .declare decl => decl.Own registry
  | .ghost d decl => registry.Holds d ∧ decl.Own registry
  | .assign _ value _ => value.Own registry
  | .labeled _ body _ => body.Own
  | .clause c => c.Own registry
  | .leave value _ => ∀ e ∈ value, e.Own registry
  | .expr e => e.Own registry
  | .block statements _ => listOwn statements
  | .missing _ => True
where
  listOwn : List Statement → Prop
    | [] => True
    | s :: ss => s.Own ∧ listOwn ss

/-! ### Members -/

structure Field.Own (f : Field) : Prop where
  ghost : ∀ d ∈ f.ghost, registry.Holds d
  init : ∀ e ∈ f.init, e.Own registry

structure TypeClause.Own (c : TypeClause) : Prop where
  descriptor : registry.Holds c.descriptor
  expr : c.expr.Own registry

structure Method.Own (m : Method) : Prop where
  cases : ∀ c ∈ m.cases, ∀ s ∈ c.clauses, s.Own registry
  body : Statement.Own.listOwn registry m.body.statements

def Member.Own : Member → Prop
  | .field f => f.Own registry
  | .clause c => c.Own registry
  | .method m => m.Own registry

/-! ### Units -/

def Class.Own (c : Class) : Prop := ∀ m ∈ c.members, m.Own registry

def CompilationUnit.Own (u : CompilationUnit) : Prop := ∀ c ∈ u.classes, c.Own registry

variable {registry : Registry}

theorem SpecClause.Registered.own {c : SpecClause} (h : c.Registered registry) : c.Own registry :=
  ⟨h.descriptor, h.expr.own⟩

mutual

theorem Statement.Registered.own : ∀ {s : Statement}, s.Registered registry → s.Own registry
  | .declare _, h => fun e he => (h e he).own
  | .ghost _ _, h => ⟨h.1, fun e he => (h.2.2 e he).own⟩
  | .assign _ value _, h => Expr.Registered.own (e := value) h
  | .labeled _ body _, h => Statement.Registered.own (s := body) h
  | .clause _, h => h.1.own
  | .leave _ _, h => fun e he => (h e he).own
  | .expr e, h => Expr.Registered.own (e := e) h
  | .block _ _, h => Statement.listOwn_of_listRegistered h
  | .missing _, _ => trivial

theorem Statement.listOwn_of_listRegistered : ∀ {ss : List Statement},
    Statement.Registered.listRegistered registry ss → Statement.Own.listOwn registry ss
  | [], _ => trivial
  | _ :: _, h => ⟨Statement.Registered.own h.1, Statement.listOwn_of_listRegistered h.2⟩

end

theorem Member.Registered.own {m : Member} (h : m.Registered registry) : m.Own registry := by
  cases m with
  | field f => exact ⟨fun d hd => (h.ghost d hd).1, fun e he => (h.init e he).own⟩
  | clause c => exact ⟨h.descriptor, h.expr.own⟩
  | method m =>
    refine ⟨fun c hc s hs => ?_, Statement.listOwn_of_listRegistered h.body⟩
    exact ((h.cases c hc).clauses s hs).1.own

theorem CompilationUnit.Registered.own {u : CompilationUnit} (h : u.Registered registry) :
    u.Own registry := fun c hc m hm => (h c hc m hm).own

end Contracts
