import Contracts.Typing.Checker

/-! A checker with everything that it holds. A check of a unit runs on one workspace from start
to end: the labels of a method and the environment of its entry are put down in it and are
looked up there, a block takes back its labels when it ends, and a fault stays until it is taken
out behind the class. A workspace outlives its checks. -/

namespace Contracts

structure Workspace where
  rules : Rules
  contexts : ContextStack := {}
  /-- Type errors found and not delivered yet. -/
  errors : List TypeError := []
  /-- The first reason to give the check at hand up. -/
  fault : Option CheckError := none
  /-- The environment at the entry of the method at hand. -/
  entry : Option Env := none
  /-- The environments at the labels in force, the latest first. -/
  labels : List (String × Env) := []
  /-- The labels in force in the order in which they were set. -/
  labelOrder : List String := []
  /-- Every parameter and variable that the method at hand has declared. -/
  names : List String := []

abbrev Work := StateM Workspace

namespace Env

/-- Forgets the variables behind the first ones. -/
def truncate (env : Env) (count : Nat) : Env :=
  { env with locals := env.locals.drop (env.locals.length - count) }

end Env

namespace Work

variable {α : Type}

/-- Runs a check that looks up the classes. -/
def perform (check : Rules → Check α) : Work α := fun w =>
  let (a, s) := (check w.rules).run
    { contexts := w.contexts, errors := w.errors, fault := w.fault, names := w.names }
  (a, { w with contexts := s.contexts, errors := s.errors, fault := s.fault, names := s.names })

/-- Runs a check at a program point, with the entry and the labels that are put down. -/
def inScope (env : Env) (check : Rules → Scope → Check α) : Work α := do
  let w ← get
  perform fun rules => check rules { env, entry := w.entry, labels := w.labels }

/-! ### Statements -/

/-- Puts the environment down under a label that is not in force yet. -/
def declareLabel (env : Env) (label : Name) : Work Unit := do
  if ((← get).labels.lookup label.text).isSome then
    perform fun _ => Check.report (.duplicate label.text) label.span
  else
    modify fun w =>
      { w with
        labels := (label.text, env) :: w.labels
        labelOrder := w.labelOrder ++ [label.text] }

/-- Takes back the labels that were set behind the first ones. -/
def dropLabels (count : Nat) : Work Unit :=
  modify fun w =>
    { w with
      labels := w.labels.filter fun entry => !(w.labelOrder.drop count).contains entry.1
      labelOrder := w.labelOrder.take count }

/-- Runs the statements of a block; variables and labels of the block end with it. -/
def inBlock (env : Env) (statements : Work (List Statement × Env)) :
    Work (List Statement × Env) := do
  let count := (← get).labelOrder.length
  let (statements, inner) ← statements
  dropLabels count
  return (statements, inner.truncate env.locals.length)

mutual

/-- Checks a statement; gives it with its types recorded, and the environment behind it. -/
def statement (env : Env) : Statement → Work (Statement × Env)
  | .labeled label body span => do
    declareLabel env label
    let (body, env) ← statement env body
    return (.labeled label body span, env)
  | .block body span => do
    let (body, env) ← inBlock env (statements env body)
    return (.block body span, env)
  | s => do
    let (s, scope) ← inScope env fun rules scope => Check.checkStatement rules scope s
    return (s, scope.env)

def statements (env : Env) : List Statement → Work (List Statement × Env)
  | [] => return ([], env)
  | s :: ss => do
    let (s, env) ← statement env s
    let (ss, env) ← statements env ss
    return (s :: ss, env)

end

/-! ### Members -/

def declareParams (env : Env) (params : List Param) : Work Env := do
  return (← inScope env fun rules scope => Check.declareParams rules scope params).env

/-- Checks the specification and the body of a method, with its entry put down. -/
def methodBody (entry : Env) (m : Method) : Work Method := do
  modify fun w => { w with entry := some entry }
  let cases ← inScope entry fun rules scope => Check.checkCases rules scope m.cases
  let (statements, _) ← inBlock entry (statements entry m.body.statements)
  modify fun w => { w with entry := none, labels := [] }
  return { m with cases := cases, body := { m.body with statements := statements } }

/-- Checks a method on an empty set of labels and names, and leaves no labels. -/
def method (className : String) (m : Method) : Work Method := do
  modify fun w => { w with labels := [], labelOrder := [], names := [] }
  let returnType := Check.declaredType (← get).rules m.returnType
  let entry ← declareParams { className, returnType := some returnType } m.params
  methodBody entry m

def member (className : String) : Member → Work Member
  | .field f =>
    return .field (← inScope { className } fun rules scope => Check.checkField rules scope f)
  | .clause c =>
    return .clause (← inScope { className } fun rules scope => Check.checkTypeClause rules scope c)
  | .method m => return .method (← method className m)

def members (className : String) : List Member → Work (List Member)
  | [] => return []
  | m :: ms => do
    let m ← member className m
    return m :: (← members className ms)

/-! ### Units -/

/-- Takes the fault out and decides whether the check has to be given up behind a class. -/
def stopBehind (c : Class) : Work (Option CheckError) := do
  let w ← get
  set { w with fault := none }
  match w.fault with
  | some e => return some e
  | none =>
    let depth := w.contexts.depth
    return if depth = 0 then none else some (.unbalancedContext c.name.text depth)

/-- Checks classes up to the first one behind which the check is given up. -/
def classes : List Class → Work (Option CheckError × List Class)
  | [] => return (none, [])
  | c :: cs => do
    let members ← members c.name.text c.members
    let checked := { c with members := members }
    match ← stopBehind c with
    | some e => return (some e, checked :: cs)
    | none =>
      let (stop, rest) ← classes cs
      return (stop, checked :: rest)

/-- Checks a unit; gives the type errors, unless the check is given up, and the unit with its types
recorded. The errors of a check that is given up stay for the next one. -/
def check (unit : CompilationUnit) :
    Work (Except CheckError (List TypeError) × CompilationUnit) := do
  let table ← perform fun rules => Check.collect rules unit
  modify fun w => { w with rules := { w.rules with classes := table } }
  let (stop, checked) ← classes unit.classes
  match stop with
  | some e => return (.error e, ⟨checked⟩)
  | none =>
    let w ← get
    set { w with errors := [] }
    return (.ok w.errors, ⟨checked⟩)

end Work

end Contracts
