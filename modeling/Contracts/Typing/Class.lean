import Contracts.Typing.Statement

/-! Checking classes: first what every class declares is collected, so that the
order of declarations does not matter, then the members are checked one by one. -/

namespace Contracts.Check

/-! ### Collecting declarations -/

/-- Enters the names of classes; a name that is known already is a duplicate. -/
def declareClasses (table : ClassTable) : List Class → Check ClassTable
  | [] => return table
  | c :: cs => do
    if table.contains c.name.text then
      report (.duplicate c.name.text) c.name.span
      declareClasses table cs
    else
      declareClasses (table.insert c.name.text {}) cs

/-- Adds an entry; of entries of one name the last one counts. -/
def declareMember {α : Type} (table : List (String × α)) (name : Name) (entry : α) :
    Check (List (String × α)) := do
  if (table.lookup name.text).isSome then
    report (.duplicate name.text) name.span
  return (name.text, entry) :: table

def collectFields (rules : Rules) (table : List (String × Ty)) :
    List Field → Check (List (String × Ty))
  | [] => return table
  | f :: fs => do
    let type ← resolveType rules f.type
    let table ← declareMember table f.name type
    collectFields rules table fs

def collectMethods (rules : Rules) (table : List (String × Signature)) :
    List Method → Check (List (String × Signature))
  | [] => return table
  | m :: ms => do
    let params ← resolveTypes rules (m.params.map (·.type))
    let result ← resolveType rules m.returnType
    let table ← declareMember table m.name ⟨params, result⟩
    collectMethods rules table ms

def collectClass (rules : Rules) (c : Class) : Check ClassInfo := do
  let fields ← collectFields rules [] c.fields
  let methods ← collectMethods rules [] c.methods
  return ⟨fields, methods⟩

/-- Collects the classes of a unit; of classes of one name only the first. -/
def collectClasses (rules : Rules) (table : ClassTable) (seen : List String) :
    List Class → Check ClassTable
  | [] => return table
  | c :: cs => do
    if seen.contains c.name.text then
      collectClasses rules table seen cs
    else
      let info ← collectClass rules c
      collectClasses rules (table.insert c.name.text info) (c.name.text :: seen) cs

/-- The table of classes extended by those of a unit. -/
def collect (rules : Rules) (unit : CompilationUnit) : Check ClassTable := do
  let declared ← declareClasses rules.classes unit.classes
  collectClasses { rules with classes := declared } declared [] unit.classes

/-! ### Members -/

/-- The type that a written type names; a wrong one was reported when it was
collected. -/
def declaredType (rules : Rules) (name : Name) : Ty := (rules.classes.type? name.text).getD .error

def checkField (rules : Rules) (scope : Scope) (f : Field) : Check Field := do
  let type := declaredType rules f.type
  match f.init, f.ghost with
  | none, _ => return f
  | some e, none =>
    let init ← inferInit rules scope type (some e)
    return { f with init := init }
  | some e, some d =>
    if ← isRegistered rules d then
      let init ← within (some d) (inferInit rules scope type (some e))
      return { f with init := init }
    else
      return f

/-- The methods of a frame that the class does not have. -/
def unknownMethods (rules : Rules) (className : String) : Option Frame → List TypeError
  | some (.methods names) =>
    (names.filter fun n => (rules.classes.method? className n.text).isNone).map fun n =>
      ⟨.unknownFrameMethod n.text, n.span⟩
  | _ => []

def checkTypeClause (rules : Rules) (scope : Scope) (c : TypeClause) : Check TypeClause := do
  if ← isRegistered rules c.descriptor then
    let e ← inferClause rules scope c.descriptor c.expr
    reportAll (unknownMethods rules scope.env.className c.frame)
    return { c with expr := e }
  else
    return c

def declareParams (rules : Rules) (scope : Scope) : List Param → Check Scope
  | [] => return scope
  | p :: ps => do
    let scope ← declare scope p.name (declaredType rules p.type)
    declareParams rules scope ps

def checkSpecClauses (rules : Rules) (scope : Scope) : List SpecClause → Check (List SpecClause)
  | [] => return []
  | c :: cs => do
    let c ← checkSpecClause rules scope c
    return c :: (← checkSpecClauses rules scope cs)

def checkCases (rules : Rules) (scope : Scope) : List SpecCase → Check (List SpecCase)
  | [] => return []
  | c :: cs => do
    let clauses ← checkSpecClauses rules scope c.clauses
    return { c with clauses := clauses } :: (← checkCases rules scope cs)

/-- Checks a method. Its specification is read in the scope of its entry. -/
def checkMethod (rules : Rules) (className : String) (m : Method) : Check Method := do
  modify fun s => { s with names := [] }
  let start : Scope := { env := { className, returnType := some (declaredType rules m.returnType) } }
  let scope ← declareParams rules start m.params
  let scope := { scope with entry := some scope.env }
  let cases ← checkCases rules scope m.cases
  let statements ← checkStatements rules scope m.body.statements
  return { m with cases := cases, body := { m.body with statements := statements } }

def checkMember (rules : Rules) (className : String) : Member → Check Member
  | .field f => return .field (← checkField rules { env := { className } } f)
  | .clause c => return .clause (← checkTypeClause rules { env := { className } } c)
  | .method m => return .method (← checkMethod rules className m)

def checkMembers (rules : Rules) (className : String) : List Member → Check (List Member)
  | [] => return []
  | m :: ms => do
    let m ← checkMember rules className m
    return m :: (← checkMembers rules className ms)

def checkClass (rules : Rules) (c : Class) : Check Class := do
  return { c with members := ← checkMembers rules c.name.text c.members }

/-- Why a check has to be given up behind a class, if it has to. -/
def stopBehind (c : Class) : Check (Option CheckError) := do
  let s ← get
  match s.fault with
  | some e => return some e
  | none =>
    let depth := s.contexts.depth
    return if depth = 0 then none else some (.unbalancedContext c.name.text depth)

/-- Checks classes up to the first one behind which the check is given up. -/
def checkClasses (rules : Rules) : List Class → Check (Option CheckError × List Class)
  | [] => return (none, [])
  | c :: cs => do
    let checked ← checkClass rules c
    match ← stopBehind c with
    | some e => return (some e, checked :: cs)
    | none =>
      let (stop, rest) ← checkClasses rules cs
      return (stop, checked :: rest)

end Contracts.Check
