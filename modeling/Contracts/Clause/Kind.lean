/-! The closed set of clause kinds: references to earlier states, clauses of a
class, clauses of a method's specification, clauses among statements, and ghost
declarations. Every kind has a keyword of its own. -/

namespace Contracts

/-- The words that refer to a value as of an earlier state. -/
inductive StateKeyword
  | old
  | pre
  | past
deriving DecidableEq

namespace StateKeyword

def all : List StateKeyword := [old, pre, past]

def keyword : StateKeyword → String
  | old => "\\old"
  | pre => "\\pre"
  | past => "\\past"

def variant : StateKeyword → String
  | old => "Old"
  | pre => "Pre"
  | past => "Past"

def ofKeyword? (word : String) : Option StateKeyword := all.find? (·.keyword == word)

/-- Whether the word always refers to the entry of the enclosing method. -/
def isEntry : StateKeyword → Bool
  | pre => true
  | _ => false

end StateKeyword

/-- Clauses of a class. -/
inductive TypeClauseKeyword
  | invariant
  | constraint
  | axiomatic
  | initially
deriving DecidableEq

namespace TypeClauseKeyword

def all : List TypeClauseKeyword := [invariant, constraint, axiomatic, initially]

def keyword : TypeClauseKeyword → String
  | invariant => "invariant"
  | constraint => "constraint"
  | axiomatic => "axiom"
  | initially => "initially"

def variant : TypeClauseKeyword → String
  | invariant => "Invariant"
  | constraint => "Constraint"
  | axiomatic => "Axiom"
  | initially => "Initially"

def ofKeyword? (word : String) : Option TypeClauseKeyword := all.find? (·.keyword == word)

end TypeClauseKeyword

/-- Clauses of a method's specification. -/
inductive MethodSpecKeyword
  | requires
  | ensures
deriving DecidableEq

namespace MethodSpecKeyword

def all : List MethodSpecKeyword := [requires, ensures]

def keyword : MethodSpecKeyword → String
  | requires => "requires"
  | ensures => "ensures"

def variant : MethodSpecKeyword → String
  | requires => "Requires"
  | ensures => "Ensures"

def ofKeyword? (word : String) : Option MethodSpecKeyword := all.find? (·.keyword == word)

end MethodSpecKeyword

/-- Clauses among the statements of a method body. -/
inductive StatementKeyword
  | assert
  | assume
deriving DecidableEq

namespace StatementKeyword

def all : List StatementKeyword := [assert, assume]

def keyword : StatementKeyword → String
  | assert => "assert"
  | assume => "assume"

def variant : StatementKeyword → String
  | assert => "Assert"
  | assume => "Assume"

def ofKeyword? (word : String) : Option StatementKeyword := all.find? (·.keyword == word)

end StatementKeyword

inductive ClauseKind
  | state (keyword : StateKeyword)
  | typeClause (keyword : TypeClauseKeyword)
  | methodSpec (keyword : MethodSpecKeyword)
  | statement (keyword : StatementKeyword)
  /-- Ghost fields, and ghost variables of method bodies. -/
  | declaration
deriving DecidableEq

namespace ClauseKind

/-- Every kind, in the order in which the standard registry lists them. -/
def all : List ClauseKind :=
  StateKeyword.all.map state ++ TypeClauseKeyword.all.map typeClause ++
    MethodSpecKeyword.all.map methodSpec ++ StatementKeyword.all.map statement ++ [declaration]

def keyword : ClauseKind → String
  | state word => word.keyword
  | typeClause word => word.keyword
  | methodSpec word => word.keyword
  | statement word => word.keyword
  | declaration => "ghost"

/-- The kind with its group, as the table of keywords shows it. -/
def variant : ClauseKind → String
  | state word => s!"State({word.variant})"
  | typeClause word => s!"TypeClause({word.variant})"
  | methodSpec word => s!"MethodSpec({word.variant})"
  | statement word => s!"Statement({word.variant})"
  | declaration => "Declaration"

def ofKeyword? (word : String) : Option ClauseKind := all.find? (·.keyword == word)

def isMethodSpec : ClauseKind → Bool
  | methodSpec _ => true
  | _ => false

def isDeclaration : ClauseKind → Bool
  | declaration => true
  | _ => false

def stateKeyword? : ClauseKind → Option StateKeyword
  | state word => some word
  | _ => none

theorem nodup_keywords : (all.map keyword).Nodup := by decide

end ClauseKind

end Contracts
