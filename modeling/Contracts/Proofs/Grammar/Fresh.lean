import Contracts.Proofs.Grammar.Registered
import Contracts.Proofs.Grammar.Whole
import Contracts.Proofs.Printing.Unit

/-! Trees as reading leaves them: no placeholder stands in them, no type is recorded, and
every keyword has the standard descriptor of a kind that belongs in its place. These are the
whole trees that agree with the standard registry (`CompilationUnit.Whole.fresh`). -/

namespace Contracts

namespace Expr

def Fresh : Expr → Prop
  | binary _ left right _ => left.Fresh ∧ right.Fresh
  | unary _ operand _ => operand.Fresh
  | field base _ _ => base.Fresh
  | call callee args _ => callee.Fresh ∧ listFresh args
  | state head args recorded =>
    head.descriptor = .ofKind (.state head.keyword) ∧ head.typeArgs = [] ∧ recorded = none ∧
      listFresh args
  | missing _ => False
  | _ => True
where
  listFresh : List Expr → Prop
    | [] => True
    | e :: es => e.Fresh ∧ listFresh es

end Expr

/-! ### Statements and members -/

structure SpecClause.Fresh (c : SpecClause) : Prop where
  descriptor : c.descriptor.Standard
  expr : c.expr.Fresh

def Variable.Fresh (v : Variable) : Prop := ∀ e ∈ v.init, e.Fresh

namespace Statement

def Fresh : Statement → Prop
  | declare decl => decl.Fresh
  | ghost d decl => d = .ofKind .declaration ∧ decl.Fresh
  | assign _ value _ => value.Fresh
  | labeled _ body _ => body.Fresh
  | clause c => c.Fresh ∧ ∃ word, c.descriptor.kind = .statement word
  | leave value _ => ∀ e ∈ value, e.Fresh
  | expr e => e.Fresh
  | block statements _ => listFresh statements
  | missing _ => False
where
  listFresh : List Statement → Prop
    | [] => True
    | s :: ss => s.Fresh ∧ listFresh ss

end Statement

structure Field.Fresh (f : Field) : Prop where
  ghost : ∀ d ∈ f.ghost, d = .ofKind .declaration
  init : ∀ e ∈ f.init, e.Fresh

structure TypeClause.Fresh (c : TypeClause) : Prop where
  descriptor : c.descriptor.Standard
  kind : ∃ word, c.descriptor.kind = .typeClause word
  expr : c.expr.Fresh

def SpecCase.Fresh (c : SpecCase) : Prop :=
  ∀ s ∈ c.clauses, s.Fresh ∧ ∃ word, s.descriptor.kind = .methodSpec word

structure Method.Fresh (m : Method) : Prop where
  cases : ∀ c ∈ m.cases, c.Fresh
  body : Statement.Fresh.listFresh m.body.statements

namespace Member

def Fresh : Member → Prop
  | field f => f.Fresh
  | clause c => c.Fresh
  | method m => m.Fresh

end Member

/-! ### Units -/

def Class.Fresh (c : Class) : Prop := ∀ m ∈ c.members, m.Fresh

def CompilationUnit.Fresh (u : CompilationUnit) : Prop := ∀ c ∈ u.classes, c.Fresh

/-! ### Whole trees of the standard registry -/

/-- The standard registry holds standard descriptors. -/
theorem Registry.standard_of_get? {word : String} {d : Descriptor}
    (h : standard.get? word = some d) : d.Standard := by
  obtain ⟨kind, -, rfl⟩ := List.mem_map.1 (mem_of_get? h)
  rfl

theorem Descriptor.Standard.of_eq {d : Descriptor} {kind : ClauseKind} (h : d = .ofKind kind) :
    d.Standard := by
  rw [h]
  rfl

/-- A standard descriptor is registered there. -/
theorem Descriptor.Standard.get? {d : Descriptor} (h : d.Standard) :
    Registry.standard.get? d.keyword = some d := by
  obtain ⟨kind, rfl⟩ : ∃ kind, d = .ofKind kind := ⟨_, h⟩
  exact Registry.get?_keyword_kind kind

/-- What the standard registry holds is told by its kind. -/
theorem Registry.Holds.eq_ofKind {d : Descriptor} {kind : ClauseKind}
    (h : Registry.standard.Holds d) (hkind : d.kind = kind) : d = .ofKind kind :=
  hkind ▸ Registry.standard_of_get? h

mutual

theorem Expr.Whole.fresh : ∀ {e : Expr}, e.Whole → e.Registered .standard → e.Fresh
  | .name _, _, _ => trivial
  | .int _ _, _, _ => trivial
  | .bool _ _, _, _ => trivial
  | .result _, _, _ => trivial
  | .binary _ _ _ _, whole, h => ⟨whole.1.fresh h.1, whole.2.fresh h.2⟩
  | .unary _ operand _, whole, h => Expr.Whole.fresh (e := operand) whole h
  | .field base _ _, whole, h => Expr.Whole.fresh (e := base) whole h
  | .call _ _ _, whole, h => ⟨whole.1.fresh h.1, Expr.listFresh_of_listWhole whole.2 h.2⟩
  | .state _ _ _, whole, h =>
    ⟨h.1.eq_ofKind h.2.1, whole.1, whole.2.1, Expr.listFresh_of_listWhole whole.2.2 h.2.2⟩

theorem Expr.listFresh_of_listWhole : ∀ {es : List Expr}, Expr.Whole.listWhole es →
    Expr.Registered.listRegistered .standard es → Expr.Fresh.listFresh es
  | [], _, _ => trivial
  | _ :: _, whole, h => ⟨whole.1.fresh h.1, Expr.listFresh_of_listWhole whole.2 h.2⟩

end

theorem SpecClause.Registered.fresh {c : SpecClause} (h : c.Registered .standard)
    (whole : c.expr.Whole) : c.Fresh :=
  ⟨Registry.standard_of_get? h.descriptor, whole.fresh h.expr⟩

mutual

theorem Statement.Whole.fresh : ∀ {s : Statement}, s.Whole → s.Registered .standard → s.Fresh
  | .declare _, whole, h => fun e he => (whole e he).fresh (h e he)
  | .ghost _ _, whole, h => ⟨h.1.eq_ofKind h.2.1, fun e he => (whole e he).fresh (h.2.2 e he)⟩
  | .assign _ value _, whole, h => Expr.Whole.fresh (e := value) whole h
  | .labeled _ body _, whole, h => Statement.Whole.fresh (s := body) whole h
  | .clause _, whole, h => ⟨h.1.fresh whole, h.2⟩
  | .leave _ _, whole, h => fun e he => (whole e he).fresh (h e he)
  | .expr e, whole, h => Expr.Whole.fresh (e := e) whole h
  | .block _ _, whole, h => Statement.listFresh_of_listWhole whole h

theorem Statement.listFresh_of_listWhole : ∀ {ss : List Statement},
    Statement.Whole.listWhole ss → Statement.Registered.listRegistered .standard ss →
      Statement.Fresh.listFresh ss
  | [], _, _ => trivial
  | _ :: _, whole, h => ⟨whole.1.fresh h.1, Statement.listFresh_of_listWhole whole.2 h.2⟩

end

theorem Member.Whole.fresh {m : Member} (whole : m.Whole) (h : m.Registered .standard) :
    m.Fresh := by
  cases m with
  | field f =>
    exact ⟨fun d hd => (h.ghost d hd).1.eq_ofKind (h.ghost d hd).2,
      fun e he => (whole e he).fresh (h.init e he)⟩
  | clause c =>
    exact ⟨Registry.standard_of_get? h.descriptor, h.kind,
      Expr.Whole.fresh (e := c.expr) whole h.expr⟩
  | method m =>
    refine ⟨fun c hc s hs => ?_, Statement.listFresh_of_listWhole whole.body h.body⟩
    obtain ⟨registered, kind⟩ := (h.cases c hc).clauses s hs
    exact ⟨registered.fresh (whole.cases c hc s hs), kind⟩

theorem CompilationUnit.Whole.fresh {u : CompilationUnit} (whole : u.Whole)
    (h : u.Registered .standard) : u.Fresh :=
  fun c hc m hm => (whole c hc m hm).fresh (h c hc m hm)

end Contracts
