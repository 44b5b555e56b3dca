import Contracts.Parser.Class

/-! Whole units. Reading a unit always gives a tree, with every syntax error that
was recovered from on the way. -/

namespace Contracts

structure ParsedUnit where
  unit : CompilationUnit
  errors : List SyntaxError

namespace ParsedUnit

def hasErrors (p : ParsedUnit) : Bool := !p.errors.isEmpty

/-- The unit, for callers that refuse partial trees. -/
def toExcept (p : ParsedUnit) : Except (List SyntaxError) CompilationUnit :=
  if p.errors.isEmpty then .ok p.unit else .error p.errors

end ParsedUnit

namespace Cursor

/-- Reads classes to the end of the tokens. -/
def parseUnit (registry : Registry) (c : Cursor) : ParsedUnit :=
  match Parser.classes registry c with
  | .ok classes c' => ⟨⟨classes⟩, c'.errors⟩
  | .error e c' => ⟨⟨[]⟩, c'.errors ++ [e]⟩

end Cursor

/-- Reads a source text. A text that has no tokens has no classes. -/
def parseUnit (registry : Registry) (source : String) : ParsedUnit :=
  match lex source with
  | .ok tokens => ({ rest := tokens } : Cursor).parseUnit registry
  | .error errors => ⟨⟨[]⟩, errors.map .ofLexError⟩

end Contracts
