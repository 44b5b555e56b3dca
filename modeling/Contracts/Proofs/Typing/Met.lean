import Contracts.Proofs.Grammar.Registered
import Contracts.Proofs.Typing.Snapshots

/-! The descriptors that a check comes to, in the order in which it comes to them: those of clauses
and ghost declarations in front of what stands inside, and those of references to earlier states in
front of what stands in their first argument. Whether a reference is read at all is told by the
clause around it and the labels that are open there (`Position.admits`); no registry and no type is
looked at. The first of the descriptors that a registry does not hold is why a check is given up
(`Registry.foreign?`). -/

namespace Contracts

/-! ### Positions -/

/-- What a place says about the references to earlier states that may stand in it. -/
structure Position where
  clause : Option Descriptor := none
  inMethod : Bool := false
  /-- The texts of the labels that are open. -/
  labels : List String := []

namespace Position

variable (p : Position)

/-- Inside a clause or a ghost declaration. -/
def inside (d : Descriptor) : Position := { p with clause := some d }

/-- Under one more label. -/
def label (name : Name) : Position := { p with labels := name.text :: p.labels }

/-- Behind a statement, whose labels stay open up to the end of the block. -/
def behind (s : Statement) : Position := s.ownLabels.foldl label p

theorem clause_behind (s : Statement) : (p.behind s).clause = p.clause := by
  unfold behind
  generalize s.ownLabels = labels
  induction labels generalizing p with
  | nil => rfl
  | cons name labels ih => exact ih (p.label name)

/-- Where the specification and the body of a method start. -/
def method : Position := { inMethod := true }

def isLabel (e : Expr) : Bool := p.inMethod && e.asName?.any (p.labels.contains ·.text)

/-- Nothing is wrong with the reference itself. -/
def admits (head : StateHead) (args : List Expr) : Bool :=
  head.descriptor.arity.admits args.length && (head.form args).isLegal p.clause p.inMethod &&
    (head.labelArgument? args).all p.isLabel

end Position

/-! ### What is met -/

/-- Of the arguments of a reference only the first is read, and that only if nothing is wrong with
the reference itself. -/
def Expr.met (p : Position) : Expr → List Descriptor
  | .binary _ left right _ => left.met p ++ right.met p
  | .unary _ operand _ => operand.met p
  | .field base _ _ => base.met p
  | .call callee args _ => callee.met p ++ listMet p args
  | .state head args _ => head.descriptor :: if p.admits head args then firstMet p args else []
  | _ => []
where
  listMet (p : Position) : List Expr → List Descriptor
    | [] => []
    | e :: es => e.met p ++ listMet p es
  firstMet (p : Position) : List Expr → List Descriptor
    | [] => []
    | e :: _ => e.met p

def Variable.met (p : Position) (v : Variable) : List Descriptor :=
  (v.init.map (Expr.met p)).getD []

def SpecClause.met (p : Position) (c : SpecClause) : List Descriptor :=
  c.descriptor :: c.expr.met (p.inside c.descriptor)

def Statement.met (p : Position) : Statement → List Descriptor
  | .declare decl => decl.met p
  | .ghost d decl => d :: decl.met (p.inside d)
  | .assign _ value _ => value.met p
  | .labeled label body _ => body.met (p.label label)
  | .clause c => c.met p
  | .leave value _ => (value.map (Expr.met p)).getD []
  | .expr e => e.met p
  | .block statements _ => listMet p statements
  | .missing _ => []
where
  listMet (p : Position) : List Statement → List Descriptor
    | [] => []
    | s :: ss => s.met p ++ listMet (p.behind s) ss

/-- A ghost field without an initial value is not looked at. -/
def Field.met (f : Field) : List Descriptor :=
  match f.init, f.ghost with
  | none, _ => []
  | some e, none => e.met {}
  | some e, some d => d :: e.met { clause := some d }

def TypeClause.met (c : TypeClause) : List Descriptor :=
  c.descriptor :: c.expr.met { clause := some c.descriptor }

/-- The specification is in front of the body. -/
def Method.met (m : Method) : List Descriptor :=
  m.specClauses.flatMap (·.met .method) ++ Statement.met.listMet .method m.body.statements

def Member.met : Member → List Descriptor
  | .field f => f.met
  | .clause c => c.met
  | .method m => m.met

def Class.met (c : Class) : List Descriptor := c.members.flatMap (·.met)

def CompilationUnit.met (u : CompilationUnit) : List Descriptor := u.classes.flatMap (·.met)

/-! ### The first foreign descriptor -/

namespace Registry

variable {registry : Registry} {d : Descriptor} {ds es : List Descriptor}

/-- Why a check that meets these descriptors is given up, if it is: the first of them is told that
the registry does not hold. -/
def foreign? (registry : Registry) (ds : List Descriptor) : Option CheckError :=
  (ds.find? fun d => registry.get? d.keyword ≠ some d).map (.foreignDescriptor ·.keyword)

@[simp] theorem foreign?_nil : registry.foreign? [] = none := rfl

theorem foreign?_cons_of_holds (h : registry.Holds d) :
    registry.foreign? (d :: ds) = registry.foreign? ds := by
  have holds : registry.get? d.keyword = some d := h
  simp [foreign?, holds]

theorem foreign?_cons_of_not_holds (h : ¬registry.Holds d) :
    registry.foreign? (d :: ds) = some (.foreignDescriptor d.keyword) := by
  have other : registry.get? d.keyword ≠ some d := h
  simp [foreign?, other]

theorem foreign?_append :
    registry.foreign? (ds ++ es) = (registry.foreign? ds).or (registry.foreign? es) := by
  simp [foreign?, List.find?_append, Option.map_or]

theorem foreign?_eq_none_iff : registry.foreign? ds = none ↔ ∀ d ∈ ds, registry.Holds d := by
  simp [foreign?, Holds]

/-- Descriptors that the registry holds are passed over, and the next one is told. -/
theorem foreign?_of_first (before : ∀ e ∈ ds, registry.Holds e) (h : ¬registry.Holds d) :
    registry.foreign? (ds ++ d :: es) = some (.foreignDescriptor d.keyword) := by
  rw [foreign?_append, foreign?_eq_none_iff.2 before, Option.none_or, foreign?_cons_of_not_holds h]

end Registry

/-! ### Scopes at a position -/

namespace Position

/-- The scope is one of those that are built at the position: it is in a method where the position
is, also as of earlier states, and its labels are those that are open. -/
structure Fits (p : Position) (scope : Scope) : Prop where
  inMethod : scope.env.inMethod = p.inMethod
  earlier : ∀ label, (scope.envAt label).inMethod = p.inMethod
  labels : ∀ name, scope.hasLabel name = p.labels.contains name

namespace Fits

variable {p : Position} {scope : Scope}

theorem inside (h : p.Fits scope) (d : Descriptor) : (p.inside d).Fits scope :=
  ⟨h.inMethod, h.earlier, h.labels⟩

/-- What is at hand may change, as long as it stays in the method. -/
theorem withEnv (h : p.Fits scope) {env : Env} (same : env.inMethod = p.inMethod) :
    p.Fits { scope with env } := by
  constructor
  · exact same
  · intro label
    rcases Scope.envAt_with scope env label with kept | changed
    · rw [kept, h.earlier]
    · rw [changed, same]
  · exact h.labels

theorem asOf (h : p.Fits scope) (clause : Option Descriptor) (label : StateLabel) :
    p.Fits (scope.asOf clause label) := by
  unfold Scope.asOf
  split
  · exact h
  · exact h
  · exact h.withEnv (h.earlier label)

theorem addLocal (h : p.Fits scope) (name : String) (type : Ty) :
    p.Fits (scope.addLocal name type) := h.withEnv h.inMethod

theorem addLabel (h : p.Fits scope) (name : Name) :
    (p.label name).Fits (scope.addLabel name.text) := by
  constructor
  · exact h.inMethod
  · intro label
    have earlier := h.earlier label
    cases label with
    | entry => exact earlier
    | named other =>
      simp only [Scope.envAt, Scope.addLabel, List.lookup_cons] at earlier ⊢
      split
      · exact h.inMethod
      · exact earlier
  · intro other
    have known := h.labels other
    simp only [Scope.hasLabel, Scope.addLabel, Position.label, List.lookup_cons,
      List.contains_cons] at known ⊢
    split
    · next same => simp [same]
    · next different => simp [different, known]

theorem isSome_label? (h : p.Fits scope) (e : Expr) : (scope.label? e).isSome = p.isLabel e := by
  unfold Scope.label? Position.isLabel
  rw [h.inMethod]
  cases p.inMethod with
  | false => rfl
  | true =>
    cases e.asName? with
    | none => rfl
    | some name =>
      by_cases known : name.text ∈ p.labels <;> simp [Option.filter, h.labels, known]

/-- Nothing is reported of a reference itself exactly if its position admits it. -/
theorem isEmpty_errors (h : p.Fits scope) (head : StateHead) (args : List Expr) :
    (head.errors args p.clause scope).isEmpty = p.admits head args := by
  apply Bool.eq_iff_iff.2
  rw [List.isEmpty_iff, StateHead.errors_eq_nil_iff, h.inMethod]
  simp [Position.admits, Option.all_eq_true, h.isSome_label?, and_assoc]

end Fits

end Position

end Contracts
