import Contracts.Typing.Diagnostic
import Contracts.Typing.Scope

/-! The state of a check: the context stack, the type errors found so far, the
first internal fault, and the names that the method at hand has declared. -/

namespace Contracts

structure CheckState where
  contexts : ContextStack := {}
  errors : List TypeError := []
  /-- The first reason to give the check up. -/
  fault : Option CheckError := none
  /-- Every parameter and variable that the method at hand has declared. -/
  names : List String := []

abbrev Check := StateM CheckState

namespace Check

variable {α : Type}

def reportAll (errors : List TypeError) : Check Unit :=
  modify fun s => { s with errors := s.errors ++ errors }

@[simp] theorem run_reportAll (errors : List TypeError) (s : CheckState) :
    (reportAll errors).run s = ((), { s with errors := s.errors ++ errors }) := rfl

def report (fault : TypeFault) (span : Span) : Check Unit := reportAll [⟨fault, span⟩]

@[simp] theorem run_report (fault : TypeFault) (span : Span) (s : CheckState) :
    (report fault span).run s = ((), { s with errors := s.errors ++ [⟨fault, span⟩] }) := rfl

def context : Check Context := return (← get).contexts.current

@[simp] theorem run_context (s : CheckState) : context.run s = (s.contexts.current, s) := rfl

/-- Runs a check in a frame of its own, inside the given clause if there is one. -/
def within (clause : Option Descriptor) (check : Check α) : Check α := do
  modify fun s => { s with contexts := s.contexts.enter clause }
  let a ← check
  modify fun s => { s with contexts := s.contexts.pop }
  return a

theorem run_within (clause : Option Descriptor) (check : Check α) (s : CheckState) :
    (within clause check).run s =
      let r := check.run { s with contexts := s.contexts.enter clause }
      (r.1, { r.2 with contexts := r.2.contexts.pop }) := rfl

def setLabel (label : StateLabel) : Check Unit :=
  modify fun s => { s with contexts := s.contexts.setLabel label }

@[simp] theorem run_setLabel (label : StateLabel) (s : CheckState) :
    (setLabel label).run s = ((), { s with contexts := s.contexts.setLabel label }) := rfl

/-- Whether the registry has this very descriptor for its keyword; if not, the
check is to be given up. -/
def isRegistered (rules : Rules) (d : Descriptor) : Check Bool := do
  if rules.registry.get? d.keyword = some d then
    return true
  else
    modify fun s => { s with fault := s.fault.or (some (.foreignDescriptor d.keyword)) }
    return false

theorem run_isRegistered (rules : Rules) (d : Descriptor) (s : CheckState) :
    (isRegistered rules d).run s =
      if rules.registry.get? d.keyword = some d then (true, s)
      else (false, { s with fault := s.fault.or (some (.foreignDescriptor d.keyword)) }) := by
  unfold isRegistered
  split <;> rfl

/-! ### Names -/

/-- The type that a written type names. -/
def resolveType (rules : Rules) (name : Name) : Check Ty := do
  match rules.classes.type? name.text with
  | some type => return type
  | none =>
    report (.unknownType name.text) name.span
    return .error

def resolveTypes (rules : Rules) : List Name → Check (List Ty)
  | [] => return []
  | name :: names => do
    let type ← resolveType rules name
    return type :: (← resolveTypes rules names)

def variableType (rules : Rules) (env : Env) (name : Name) : Check Ty := do
  match env.typeOf? rules.classes name.text with
  | some type => return type
  | none =>
    report (.unknownSymbol name.text) name.span
    return .error

/-- Adds a variable under a name that the method has not declared anywhere
before. -/
def declare (scope : Scope) (name : Name) (type : Ty) : Check Scope := do
  if (← get).names.contains name.text then
    report (.duplicate name.text) name.span
    return scope
  else
    modify fun s => { s with names := name.text :: s.names }
    return scope.addLocal name.text type

/-! ### Types -/

/-- Compares the type of an expression with the type that its place asks for. -/
def require (expected : Option Ty) (found : Ty) (span : Span) : Check Unit := do
  match expected with
  | none => return
  | some wanted =>
    if found.isError || wanted.isError || found == wanted then
      return
    else
      report (.incompatibleTypes wanted found) span

end Check

end Contracts
