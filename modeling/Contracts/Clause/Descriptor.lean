import Contracts.Clause.Kind

/-! What a registry says about a clause keyword: its kind, the number of
arguments it takes, and which references to earlier states its body admits. -/

namespace Contracts

/-- How many arguments follow a keyword. -/
inductive Arity
  | exactly (count : Nat)
  | between (least most : Nat)
  /-- The keyword opens a declaration, which has a body and no argument list. -/
  | declaration
deriving DecidableEq

namespace Arity

def admits (count : Nat) : Arity → Bool
  | exactly n => count == n
  | between least most => least ≤ count && count ≤ most
  | declaration => true

def describe : Arity → String
  | exactly 1 => "one argument"
  | exactly n => s!"{n} arguments"
  | between least most => s!"{least} or {most} arguments"
  | declaration => "a declaration body"

end Arity

/-- Which references to earlier states a clause admits in its body. -/
structure Capabilities where
  /-- A reference without a label. -/
  unlabeled : Bool
  /-- A reference to the entry of the enclosing method. -/
  entry : Bool
  /-- A reference to a label. -/
  labeled : Bool
deriving DecidableEq

namespace Capabilities

def empty : Capabilities := ⟨false, false, false⟩

def all : Capabilities := ⟨true, true, true⟩

/-- Each capability with its name, in the order in which they are listed. -/
def flags (c : Capabilities) : List (String × Bool) :=
  [("UNLABELED_PREV", c.unlabeled), ("PREV_ENTRY", c.entry), ("LABELED_PREV", c.labeled)]

/-- The names of the capabilities that are present. -/
def names (c : Capabilities) : List String := (c.flags.filter (·.2)).map (·.1)

/-- The capabilities with the given names. -/
def ofNames (names : List String) : Capabilities :=
  ⟨names.contains "UNLABELED_PREV", names.contains "PREV_ENTRY", names.contains "LABELED_PREV"⟩

theorem ofNames_names (c : Capabilities) : ofNames c.names = c := by
  obtain ⟨u, e, l⟩ := c
  cases u <;> cases e <;> cases l <;> decide

end Capabilities

namespace ClauseKind

def defaultCapabilities : ClauseKind → Capabilities
  | typeClause _ => ⟨true, false, false⟩
  | methodSpec .ensures => ⟨true, true, false⟩
  | statement _ => .all
  | _ => .empty

def defaultArity : ClauseKind → Arity
  | state .pre => .exactly 1
  | state _ => .between 1 2
  | _ => .declaration

end ClauseKind

/-- An entry of a registry. -/
structure Descriptor where
  keyword : String
  kind : ClauseKind
  arity : Arity
  capabilities : Capabilities
deriving DecidableEq

namespace Descriptor

/-- The standard entry of a kind. -/
def ofKind (kind : ClauseKind) : Descriptor :=
  ⟨kind.keyword, kind, kind.defaultArity, kind.defaultCapabilities⟩

def stateKeyword? (d : Descriptor) : Option StateKeyword := d.kind.stateKeyword?

end Descriptor

end Contracts
