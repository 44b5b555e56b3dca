import Contracts.Parser.Unit
import Contracts.Typing.Checker

/-! Reports: what is wrong with one source text. A text is checked also after
syntax errors, over the tree that was recovered. A limit on the number of errors
keeps syntax errors first and counts what it leaves out. -/

namespace Contracts

structure Options where
  /-- Whether the body of a clause has to be boolean. -/
  booleanClauses : Bool := true
  /-- The largest number of errors that a report shows. -/
  maxErrors : Option Nat := none
deriving DecidableEq

structure Report where
  path : String
  syntaxErrors : List SyntaxError
  typeErrors : List TypeError
  /-- The number of errors left out. -/
  suppressed : Nat
deriving DecidableEq

/-- An error as it is shown: a message, a marked range with its caption, and help. -/
structure Diagnostic where
  message : String
  caption : String
  offset : Nat
  length : Nat
  help : Option String
deriving DecidableEq

namespace Diagnostic

def ofSyntaxError (e : SyntaxError) : Diagnostic :=
  ⟨e.message, e.code?.getD "syntax error", e.span.start, e.span.length, e.help?⟩

def ofTypeError (e : TypeError) : Diagnostic :=
  ⟨e.message, e.code, e.span.start, e.span.length, e.help?⟩

end Diagnostic

namespace Report

/-- The number of errors, with those left out. -/
def errorCount (r : Report) : Nat := r.syntaxErrors.length + r.typeErrors.length + r.suppressed

def isClean (r : Report) : Bool := r.errorCount == 0

def diagnostics (r : Report) : List Diagnostic :=
  r.syntaxErrors.map .ofSyntaxError ++ r.typeErrors.map .ofTypeError

/-- Keeps at most so many errors, the first ones. -/
def limit (max : Option Nat) (r : Report) : Report :=
  match max with
  | none => r
  | some n =>
    let syntaxErrors := r.syntaxErrors.take n
    let typeErrors := r.typeErrors.take (n - syntaxErrors.length)
    { r with
      syntaxErrors, typeErrors
      suppressed := r.errorCount - syntaxErrors.length - typeErrors.length }

end Report

/-- Parses and checks a source text. -/
def checkSource (registry : Registry) (path source : String) (options : Options) :
    Except CheckError Report := do
  let parsed := parseUnit registry source
  let typeErrors ← checkUnit registry options.booleanClauses parsed.unit
  return Report.limit options.maxErrors ⟨path, parsed.errors, typeErrors, 0⟩

end Contracts
