import Contracts.Clause.Registry
import Contracts.Tree.Unit
import Contracts.Typing.Context

/-! What names mean at a program point: the classes of the program with their
fields and methods, the variables of the method at hand, and the environments
that its entry and its labels have fixed. -/

namespace Contracts

/-! ### Classes -/

structure Signature where
  params : List Ty
  result : Ty
deriving DecidableEq

/-- What other classes see of a class; of entries of one name the first counts. -/
structure ClassInfo where
  fields : List (String × Ty) := []
  methods : List (String × Signature) := []
deriving DecidableEq

/-- Known classes; of entries of one name the first counts. -/
structure ClassTable where
  entries : List (String × ClassInfo) := []
deriving DecidableEq

namespace ClassTable

def find? (t : ClassTable) (name : String) : Option ClassInfo := t.entries.lookup name

def contains (t : ClassTable) (name : String) : Bool := (t.find? name).isSome

def insert (t : ClassTable) (name : String) (info : ClassInfo) : ClassTable :=
  ⟨(name, info) :: t.entries⟩

def field? (t : ClassTable) (name field : String) : Option Ty :=
  (t.find? name).bind (·.fields.lookup field)

def method? (t : ClassTable) (name method : String) : Option Signature :=
  (t.find? name).bind (·.methods.lookup method)

/-- The type that a word names. -/
def type? (t : ClassTable) (word : String) : Option Ty :=
  (Ty.primitive? word).or (if t.contains word then some (.named word) else none)

theorem find?_insert (t : ClassTable) (name other : String) (info : ClassInfo) :
    (t.insert name info).find? other = if other = name then some info else t.find? other := by
  simp only [find?, insert, List.lookup_cons]
  split <;> simp_all

end ClassTable

/-- What checking looks things up in. -/
structure Rules where
  registry : Registry
  /-- Whether the body of a clause has to be boolean. -/
  booleanClauses : Bool := true
  classes : ClassTable := {}

/-! ### Variables and labels -/

/-- Variables at one program point. -/
structure Env where
  className : String
  /-- The type that the enclosing method returns, inside a method. -/
  returnType : Option Ty := none
  /-- Parameters and local variables, the latest first. -/
  locals : List (String × Ty) := []
deriving DecidableEq

namespace Env

def inMethod (env : Env) : Bool := env.returnType.isSome

/-- The type of a variable: a local one, or else a field of the class. -/
def typeOf? (classes : ClassTable) (env : Env) (name : String) : Option Ty :=
  (env.locals.lookup name).or (classes.field? env.className name)

end Env

/-- An environment with the earlier ones that can be referred to from it. -/
structure Scope where
  env : Env
  /-- The environment at the entry of the enclosing method. -/
  entry : Option Env := none
  /-- The environments at the labels that are in force, the latest first. -/
  labels : List (String × Env) := []
deriving DecidableEq

namespace Scope

def hasLabel (s : Scope) (label : String) : Bool := (s.labels.lookup label).isSome

/-- An expression read as a label of the enclosing method. -/
def label? (s : Scope) (e : Expr) : Option Name :=
  if s.env.inMethod then e.asName?.filter (s.hasLabel ·.text) else none

/-- The environment that was in force at a label. -/
def envAt (s : Scope) : StateLabel → Env
  | .entry => s.entry.getD s.env
  | .named label => (s.labels.lookup label.text).getD s.env

/-- Fixes the environment under a label. -/
def addLabel (s : Scope) (label : String) : Scope :=
  { s with labels := (label, s.env) :: s.labels }

def addLocal (s : Scope) (name : String) (type : Ty) : Scope :=
  { s with env := { s.env with locals := (name, type) :: s.env.locals } }

end Scope

end Contracts
