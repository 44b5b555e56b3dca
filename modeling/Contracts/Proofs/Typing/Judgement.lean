import Contracts.Tree.Unit
import Contracts.Typing.Diagnostic
import Mathlib.Data.List.Forall2
import Mathlib.Logic.Function.Basic

/-! When a unit is well typed, as a judgement that says nothing about how it is checked.
An expression is read at a site, which says what names mean there, and the judgement
relates it to its type and to the expression with the types of its references to earlier
states recorded. Such a reference moves the site to the variables of that state. Statements
relate the site before them to the site behind them. There is no rule that gives the type
that stands for a mistake (`HasType.ne_error`). -/

namespace Contracts

/-! ### What a unit declares -/

/-- The type that a word names in a unit. -/
inductive Denotes (u : CompilationUnit) : String → Ty → Prop
  | int : Denotes u "int" .int
  | boolean : Denotes u "boolean" .boolean
  | void : Denotes u "void" .void
  | named {c : Class} (declared : c ∈ u.classes) (other : Ty.primitive? c.name.text = none) :
    Denotes u c.name.text (.named c.name.text)

/-- The class of that name has the field, of that type. -/
def HasField (u : CompilationUnit) (owner field : String) (τ : Ty) : Prop :=
  ∃ c ∈ u.classes, c.name.text = owner ∧
    ∃ f ∈ c.fields, f.name.text = field ∧ Denotes u f.type.text τ

/-- The class of that name has the method, with these types of parameters and of the
result. -/
def HasMethod (u : CompilationUnit) (owner method : String) (params : List Ty) (result : Ty) :
    Prop :=
  ∃ c ∈ u.classes, c.name.text = owner ∧
    ∃ m ∈ c.methods, m.name.text = method ∧
      List.Forall₂ (fun p τ => Denotes u p.type.text τ) m.params params ∧
        Denotes u m.returnType.text result

theorem Denotes.ne_error {u : CompilationUnit} {word : String} {τ : Ty} (h : Denotes u word τ) :
    τ ≠ .error := by
  cases h <;> exact fun h => nomatch h

theorem ne_error_of_denotes {u : CompilationUnit} {ps : List Param} {τs : List Ty}
    (h : List.Forall₂ (fun p τ => Denotes u p.type.text τ) ps τs) : ∀ τ ∈ τs, τ ≠ .error := by
  induction h with
  | nil => exact fun _ h => nomatch h
  | cons first _ ih => exact List.forall_mem_cons.2 ⟨first.ne_error, ih⟩

/-! ### Sites -/

/-- Types of variables. -/
abbrev Vars := String → Option Ty

/-- Where an expression stands. -/
structure Site where
  /-- The enclosing class. -/
  owner : String
  /-- The type that the enclosing method returns, inside a method. -/
  returns : Option Ty := none
  /-- The visible parameters and local variables. -/
  vars : Vars := fun _ => none
  /-- The variables at the entry of the enclosing method. -/
  entry : Vars := fun _ => none
  /-- The variables at each label that is in force. -/
  labels : String → Option Vars := fun _ => none
  /-- The kind of the enclosing clause. -/
  clause : Option ClauseKind := none
  /-- Whether an earlier state is meant. -/
  earlier : Bool := false

namespace Site

def inside (Γ : Site) (clause : ClauseKind) : Site := { Γ with clause := some clause }

def declare (Γ : Site) (word : String) (τ : Ty) : Site :=
  { Γ with vars := Function.update Γ.vars word (some τ) }

/-- Puts a label in force. -/
def mark (Γ : Site) (label : String) : Site :=
  { Γ with labels := Function.update Γ.labels label (some Γ.vars) }

/-- Fixes the variables as those at the entry of the method. -/
def enter (Γ : Site) : Site := { Γ with entry := Γ.vars }

/-- The site in an earlier state. -/
def asOf (Γ : Site) (vars : Vars) : Site := { Γ with vars := vars, earlier := true }

/-- No type that the site knows of stands for a mistake. -/
structure Clean (Γ : Site) : Prop where
  returns : Γ.returns ≠ some .error
  vars : ∀ word, Γ.vars word ≠ some .error
  entry : ∀ word, Γ.entry word ≠ some .error
  labels : ∀ label vars, Γ.labels label = some vars → ∀ word, vars word ≠ some .error

theorem Clean.inside {Γ : Site} (h : Γ.Clean) (clause : ClauseKind) : (Γ.inside clause).Clean :=
  ⟨h.returns, h.vars, h.entry, h.labels⟩

theorem Clean.enter {Γ : Site} (h : Γ.Clean) : Γ.enter.Clean :=
  ⟨h.returns, h.vars, h.vars, h.labels⟩

theorem Clean.asOf {Γ : Site} {vars : Vars} (h : Γ.Clean) (hvars : ∀ word, vars word ≠ some .error) :
    (Γ.asOf vars).Clean :=
  ⟨h.returns, hvars, h.entry, h.labels⟩

theorem Clean.declare {Γ : Site} {word : String} {τ : Ty} (h : Γ.Clean) (hτ : τ ≠ .error) :
    (Γ.declare word τ).Clean := by
  refine ⟨h.returns, fun other => ?_, h.entry, h.labels⟩
  by_cases heq : other = word
  · subst heq
    simpa [Site.declare] using hτ
  · simpa [Site.declare, heq] using h.vars other

theorem Clean.mark {Γ : Site} (h : Γ.Clean) (label : String) : (Γ.mark label).Clean := by
  refine ⟨h.returns, h.vars, h.entry, fun other vars hother => ?_⟩
  by_cases heq : other = label
  · subst heq
    obtain rfl : Γ.vars = vars := by simpa [Site.mark] using hother
    exact h.vars
  · exact h.labels other vars (by simpa [Site.mark, heq] using hother)

end Site

/-! ### Names and operators -/

/-- A word names the visible variable, or else the field of the enclosing class. -/
inductive Sees (u : CompilationUnit) (Γ : Site) (word : String) (τ : Ty) : Prop
  | visible (here : Γ.vars word = some τ)
  | field (hidden : Γ.vars word = none) (here : HasField u Γ.owner word τ)

/-- The type of both operands and of the result. -/
inductive BinaryOp.Takes : BinaryOp → Ty → Ty → Prop
  | arithmetic {op : BinaryOp} (h : op ∈ [add, sub, mul, div, rem]) : Takes op .int .int
  | comparison {op : BinaryOp} (h : op ∈ [less, atMost, greater, atLeast]) : Takes op .int .boolean
  | logic {op : BinaryOp} (h : op ∈ [and, or, implies]) : Takes op .boolean .boolean
  | equality {op : BinaryOp} {τ : Ty} (h : op ∈ [equal, notEqual]) : Takes op τ .boolean

/-- The type of the operand and of the result. -/
inductive UnaryOp.Takes : UnaryOp → Ty → Prop
  | neg : Takes neg .int
  | not : Takes not .boolean

/-! ### References to earlier states -/

/-- Where references of each form may stand: outside all clauses, in clauses of a class, in
postconditions, in clauses among statements, and in ghost variables of methods. -/
inductive Admits (inMethod : Prop) : Option ClauseKind → StateForm → Prop
  | outside : Admits inMethod none .unlabeled
  | typeClause {word : TypeClauseKeyword} : Admits inMethod (some (.typeClause word)) .unlabeled
  | ensures {form : StateForm} (h : form ≠ .labeled) :
    Admits inMethod (some (.methodSpec .ensures)) form
  | statement {word : StatementKeyword} {form : StateForm} :
    Admits inMethod (some (.statement word)) form
  | ghost {form : StateForm} (inside : inMethod) (h : form ≠ .entry) :
    Admits inMethod (some .declaration) form

/-- The variables of the state that a keyword means, with these arguments behind the
expression. -/
inductive Refers (Γ : Site) : StateKeyword → List Expr → Vars → Prop
  | entry (admitted : Admits Γ.returns.isSome Γ.clause .entry) : Refers Γ .pre [] Γ.entry
  | unlabeled {word : StateKeyword} (other : word ≠ .pre)
    (admitted : Admits Γ.returns.isSome Γ.clause .unlabeled) : Refers Γ word [] Γ.entry
  | labeled {word : StateKeyword} {label : Name} {vars : Vars} (other : word ≠ .pre)
    (admitted : Admits Γ.returns.isSome Γ.clause .labeled)
    (inForce : Γ.labels label.text = some vars) : Refers Γ word [.name label] vars

/-! ### Expressions -/

mutual

/-- At the site the expression has the type, and with its types recorded it is the last
expression. -/
inductive HasType (u : CompilationUnit) : Site → Expr → Ty → Expr → Prop
  | name {Γ : Site} {n : Name} {τ : Ty} (seen : Sees u Γ n.text τ) :
    HasType u Γ (.name n) τ (.name n)
  | int {Γ : Site} {value : Nat} {s : Span} : HasType u Γ (.int value s) .int (.int value s)
  | bool {Γ : Site} {value : Bool} {s : Span} :
    HasType u Γ (.bool value s) .boolean (.bool value s)
  | result {Γ : Site} {τ : Ty} {s : Span} (clause : Γ.clause = some (.methodSpec .ensures))
    (now : Γ.earlier = false) (returns : Γ.returns = some τ) (value : τ ≠ .void) :
    HasType u Γ (.result s) τ (.result s)
  | binary {Γ : Site} {op : BinaryOp} {left right left' right' : Expr} {σ τ : Ty} {s : Span}
    (takes : op.Takes σ τ) (hleft : HasType u Γ left σ left')
    (hright : HasType u Γ right σ right') :
    HasType u Γ (.binary op left right s) τ (.binary op left' right' s)
  | unary {Γ : Site} {op : UnaryOp} {operand operand' : Expr} {τ : Ty} {s : Span}
    (takes : op.Takes τ) (hoperand : HasType u Γ operand τ operand') :
    HasType u Γ (.unary op operand s) τ (.unary op operand' s)
  | field {Γ : Site} {base base' : Expr} {owner : String} {field : Name} {τ : Ty} {s : Span}
    (hbase : HasType u Γ base (.named owner) base') (declared : HasField u owner field.text τ) :
    HasType u Γ (.field base field s) τ (.field base' field s)
  | ownCall {Γ : Site} {method : Name} {args args' : List Expr} {params : List Ty} {τ : Ty}
    {s : Span} (declared : HasMethod u Γ.owner method.text params τ)
    (hargs : HasTypes u Γ args params args') :
    HasType u Γ (.call (.name method) args s) τ (.call (.name method) args' s)
  | call {Γ : Site} {base base' : Expr} {owner : String} {method : Name} {args args' : List Expr}
    {params : List Ty} {τ : Ty} {s t : Span} (hbase : HasType u Γ base (.named owner) base')
    (declared : HasMethod u owner method.text params τ)
    (hargs : HasTypes u Γ args params args') :
    HasType u Γ (.call (.field base method s) args t) τ (.call (.field base' method s) args' t)
  | state {Γ : Site} {head : StateHead} {e e' : Expr} {label : List Expr} {vars : Vars} {τ : Ty}
    (refers : Refers Γ head.keyword label vars) (hvalue : HasType u (Γ.asOf vars) e τ e') :
    HasType u Γ (.state head (e :: label) none) τ (.state head (e' :: label) (some τ))

/-- Expression by expression. -/
inductive HasTypes (u : CompilationUnit) : Site → List Expr → List Ty → List Expr → Prop
  | nil {Γ : Site} : HasTypes u Γ [] [] []
  | cons {Γ : Site} {e e' : Expr} {es es' : List Expr} {τ : Ty} {τs : List Ty}
    (first : HasType u Γ e τ e') (others : HasTypes u Γ es τs es') :
    HasTypes u Γ (e :: es) (τ :: τs) (e' :: es')

end

theorem HasTypes.length_eq {u : CompilationUnit} :
    ∀ {Γ : Site} {es es' : List Expr} {τs : List Ty}, HasTypes u Γ es τs es' →
      τs.length = es.length
  | _, _, _, _, .nil => rfl
  | _, _, _, _, .cons _ others => congrArg (· + 1) others.length_eq

/-- A value that may be left out. -/
inductive InitTyped (u : CompilationUnit) (Γ : Site) (τ : Ty) : Option Expr → Option Expr → Prop
  | none : InitTyped u Γ τ none none
  | some {e e' : Expr} (value : HasType u Γ e τ e') : InitTyped u Γ τ (some e) (some e')

/-! ### Statements -/

namespace Statement

/-- The variables that a statement declares, in source order. -/
def declared : Statement → List String
  | declare decl => [decl.name.text]
  | ghost _ decl => [decl.name.text]
  | labeled _ body _ => body.declared
  | block statements _ => listDeclared statements
  | _ => []
where
  listDeclared : List Statement → List String
    | [] => []
    | s :: ss => s.declared ++ listDeclared ss

end Statement

/-- The body of a clause is boolean. -/
inductive SpecClauseTyped (u : CompilationUnit) (Γ : Site) (c : SpecClause) : SpecClause → Prop
  | intro {e : Expr} (body : HasType u (Γ.inside c.descriptor.kind) c.expr .boolean e) :
    SpecClauseTyped u Γ c { c with expr := e }

mutual

/-- At the first site the statement is well typed, with its types recorded it is the second
statement, and the second site is the one behind it. -/
inductive StatementTyped (u : CompilationUnit) : Site → Statement → Statement → Site → Prop
  | declare {Γ : Site} {decl : Variable} {init : Option Expr} {τ : Ty}
    (type : Denotes u decl.type.text τ) (value : InitTyped u Γ τ decl.init init) :
    StatementTyped u Γ (.declare decl) (.declare { decl with init := init })
      (Γ.declare decl.name.text τ)
  | ghost {Γ : Site} {d : Descriptor} {decl : Variable} {init : Option Expr} {τ : Ty}
    (type : Denotes u decl.type.text τ)
    (value : InitTyped u (Γ.inside .declaration) τ decl.init init) :
    StatementTyped u Γ (.ghost d decl) (.ghost d { decl with init := init })
      (Γ.declare decl.name.text τ)
  | assign {Γ : Site} {target : Name} {value value' : Expr} {τ : Ty} {s : Span}
    (seen : Sees u Γ target.text τ) (hvalue : HasType u Γ value τ value') :
    StatementTyped u Γ (.assign target value s) (.assign target value' s) Γ
  | labeled {Γ Δ : Site} {label : Name} {body body' : Statement} {s : Span}
    (free : Γ.labels label.text = none)
    (hbody : StatementTyped u (Γ.mark label.text) body body' Δ) :
    StatementTyped u Γ (.labeled label body s) (.labeled label body' s) Δ
  | clause {Γ : Site} {c c' : SpecClause} (h : SpecClauseTyped u Γ c c') :
    StatementTyped u Γ (.clause c) (.clause c') Γ
  | leave {Γ : Site} {value value' : Expr} {τ : Ty} {s : Span} (returns : Γ.returns = some τ)
    (other : τ ≠ .void) (hvalue : HasType u Γ value τ value') :
    StatementTyped u Γ (.leave (some value) s) (.leave (some value') s) Γ
  | leaveVoid {Γ : Site} {s : Span} (returns : Γ.returns = some .void) :
    StatementTyped u Γ (.leave none s) (.leave none s) Γ
  | expr {Γ : Site} {e e' : Expr} {τ : Ty} (h : HasType u Γ e τ e') :
    StatementTyped u Γ (.expr e) (.expr e') Γ
  | block {Γ : Site} {statements statements' : List Statement} {s : Span}
    (h : StatementsTyped u Γ statements statements') :
    StatementTyped u Γ (.block statements s) (.block statements' s) Γ

/-- Statement by statement, each at the site behind the one before it. -/
inductive StatementsTyped (u : CompilationUnit) : Site → List Statement → List Statement → Prop
  | nil {Γ : Site} : StatementsTyped u Γ [] []
  | cons {Γ Δ : Site} {s s' : Statement} {ss ss' : List Statement}
    (first : StatementTyped u Γ s s' Δ) (others : StatementsTyped u Δ ss ss') :
    StatementsTyped u Γ (s :: ss) (s' :: ss')

end

/-! ### Members -/

/-- The site behind the parameters. -/
inductive ParamsTyped (u : CompilationUnit) : Site → List Param → Site → Prop
  | nil {Γ : Site} : ParamsTyped u Γ [] Γ
  | cons {Γ Δ : Site} {p : Param} {ps : List Param} {τ : Ty} (type : Denotes u p.type.text τ)
    (others : ParamsTyped u (Γ.declare p.name.text τ) ps Δ) : ParamsTyped u Γ (p :: ps) Δ

/-- Every clause of a specification case is well typed. -/
inductive SpecCaseTyped (u : CompilationUnit) (Γ : Site) (c : SpecCase) : SpecCase → Prop
  | intro {clauses : List SpecClause}
    (h : List.Forall₂ (SpecClauseTyped u Γ) c.clauses clauses) :
    SpecCaseTyped u Γ c { c with clauses := clauses }

/-- The parameters and the variables of a method have distinct names. Its specification is
read at its entry, where its body starts. -/
inductive MethodTyped (u : CompilationUnit) (owner : String) (m : Method) : Method → Prop
  | intro {Γ : Site} {result : Ty} {cases : List SpecCase} {statements : List Statement}
    (type : Denotes u m.returnType.text result)
    (params : ParamsTyped u { owner, returns := some result } m.params Γ)
    (distinct :
      (m.params.map (·.name.text) ++ Statement.declared.listDeclared m.body.statements).Nodup)
    (spec : List.Forall₂ (SpecCaseTyped u Γ.enter) m.cases cases)
    (body : StatementsTyped u Γ.enter m.body.statements statements) :
    MethodTyped u owner m
      { m with cases := cases, body := { m.body with statements := statements } }

/-- The methods that a frame names belong to the class. -/
def FrameTyped (u : CompilationUnit) (owner : String) : Option Frame → Prop
  | some (.methods names) => ∀ n ∈ names, ∃ params result, HasMethod u owner n.text params result
  | _ => True

inductive MemberTyped (u : CompilationUnit) (owner : String) : Member → Member → Prop
  | field {f : Field} {init : Option Expr} {τ : Ty} (type : Denotes u f.type.text τ)
    (value : InitTyped u { owner, clause := f.ghost.map (·.kind) } τ f.init init) :
    MemberTyped u owner (.field f) (.field { f with init := init })
  | clause {c : TypeClause} {e : Expr}
    (body : HasType u { owner, clause := some c.descriptor.kind } c.expr .boolean e)
    (frame : FrameTyped u owner c.frame) :
    MemberTyped u owner (.clause c) (.clause { c with expr := e })
  | method {m m' : Method} (h : MethodTyped u owner m m') :
    MemberTyped u owner (.method m) (.method m')

/-! ### Units -/

/-- The fields of a class have distinct names, and so have its methods. -/
inductive ClassTyped (u : CompilationUnit) (c : Class) : Class → Prop
  | intro {members : List Member} (fields : (c.fields.map (·.name.text)).Nodup)
    (methods : (c.methods.map (·.name.text)).Nodup)
    (h : List.Forall₂ (MemberTyped u c.name.text) c.members members) :
    ClassTyped u c { c with members := members }

/-- The first unit is well typed, and with its types recorded it is the second one. -/
structure WellTyped (u u' : CompilationUnit) : Prop where
  distinct : (u.classes.map (·.name.text)).Nodup
  classes : List.Forall₂ (ClassTyped u) u.classes u'.classes

/-! ### Types that stand for a mistake -/

theorem HasField.ne_error {u : CompilationUnit} {owner field : String} {τ : Ty}
    (h : HasField u owner field τ) : τ ≠ .error := by
  obtain ⟨_, _, _, _, _, _, hτ⟩ := h
  exact hτ.ne_error

theorem HasMethod.result_ne_error {u : CompilationUnit} {owner method : String} {params : List Ty}
    {result : Ty} (h : HasMethod u owner method params result) : result ≠ .error := by
  obtain ⟨_, _, _, _, _, _, _, hresult⟩ := h
  exact hresult.ne_error

theorem HasMethod.params_ne_error {u : CompilationUnit} {owner method : String} {params : List Ty}
    {result : Ty} (h : HasMethod u owner method params result) : ∀ τ ∈ params, τ ≠ .error := by
  obtain ⟨_, _, _, _, _, _, hparams, _⟩ := h
  exact ne_error_of_denotes hparams

theorem Sees.ne_error {u : CompilationUnit} {Γ : Site} {word : String} {τ : Ty}
    (h : Sees u Γ word τ) (clean : Γ.Clean) : τ ≠ .error := by
  cases h with
  | visible here =>
    rintro rfl
    exact clean.vars word here
  | field _ here => exact here.ne_error

theorem Refers.clean {Γ : Site} {word : StateKeyword} {label : List Expr} {vars : Vars}
    (h : Refers Γ word label vars) (clean : Γ.Clean) : (Γ.asOf vars).Clean := by
  cases h with
  | entry => exact clean.asOf clean.entry
  | unlabeled => exact clean.asOf clean.entry
  | labeled _ _ inForce => exact clean.asOf (clean.labels _ _ inForce)

/-- Outside methods a site knows no types. -/
theorem Site.clean_outside (owner : String) (clause : Option ClauseKind) :
    ({ owner, clause } : Site).Clean :=
  ⟨by simp, by simp, by simp, by simp⟩

theorem Site.clean_method (owner : String) {result : Ty} (h : result ≠ .error) :
    ({ owner, returns := some result } : Site).Clean :=
  ⟨by simpa using h, by simp, by simp, by simp⟩

theorem ParamsTyped.clean {u : CompilationUnit} {Γ Δ : Site} {ps : List Param}
    (h : ParamsTyped u Γ ps Δ) (clean : Γ.Clean) : Δ.Clean := by
  induction h with
  | nil => exact clean
  | cons type _ ih => exact ih (clean.declare type.ne_error)

/-- At a clean site no expression has the type that stands for a mistake. -/
theorem HasType.ne_error {u : CompilationUnit} :
    ∀ {Γ : Site} {e e' : Expr} {τ : Ty}, HasType u Γ e τ e' → Γ.Clean → τ ≠ .error
  | _, _, _, _, .name seen, clean => seen.ne_error clean
  | _, _, _, _, .int, _ => fun h => nomatch h
  | _, _, _, _, .bool, _ => fun h => nomatch h
  | _, _, _, _, .result _ _ returns _, clean => fun h => clean.returns (h ▸ returns)
  | _, _, _, _, .binary takes _ _, _ => by cases takes <;> exact fun h => nomatch h
  | _, _, _, _, .unary takes _, _ => by cases takes <;> exact fun h => nomatch h
  | _, _, _, _, .field _ declared, _ => declared.ne_error
  | _, _, _, _, .ownCall declared _, _ => declared.result_ne_error
  | _, _, _, _, .call _ declared _, _ => declared.result_ne_error
  | _, _, _, _, .state refers hvalue, clean => hvalue.ne_error (refers.clean clean)

end Contracts
