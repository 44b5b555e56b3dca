import Contracts.CommandLine.Request
import Contracts.FileReport

/-! What the program answers on a command line: its exit status, its standard
output, and on standard error the lines that tell of unread files and of errors
left out. -/

namespace Contracts.CommandLine

structure Output where
  exit : Nat
  stdout : String := ""
  stderr : String := ""
deriving DecidableEq

def success : Nat := 0

def failure : Nat := 1

def usageError : Nat := 2

/-- The name and the version of the program. -/
def versionLine : String := "specfront 0.1.0"

/-- Lines of text, each with its end. -/
def unlines (lines : List String) : String := .join (lines.map (· ++ "\n"))

/-! ### The table of keywords -/

/-- A text with blanks behind it up to a width. -/
def padded (width : Nat) (text : String) : String :=
  text ++ .ofList (.replicate (width - text.length) ' ')

def keywordRow (keyword kind arity capabilities : String) : String :=
  s!"{padded 12 keyword} {padded 30 kind} {padded 18 arity} {capabilities}"

def keywordRowOf (d : Descriptor) : String :=
  let names := d.capabilities.names
  let capabilities := if names.isEmpty then "-" else " | ".intercalate names
  keywordRow d.keyword d.kind.variant d.arity.describe capabilities

/-- The clause keywords of a registry in order, under a heading. -/
def keywordTable (registry : Registry) : List String :=
  keywordRow "keyword" "kind" "arity" "capabilities" :: registry.entries.map keywordRowOf

/-! ### Reports on files -/

/-- The line on standard output about one file. -/
def statusLine? : Except FileError Report → Option String
  | .error _ => none
  | .ok r => if r.isClean then some s!"{r.path}: ok" else some s!"{r.path}: {r.errorCount} error(s)"

/-- The line on standard error about one file. -/
def noticeLine? : Except FileError Report → Option String
  | .error e => some s!"error: {e.message}"
  | .ok r =>
    if r.suppressed = 0 then none else some s!"{r.path}: {r.suppressed} more diagnostic(s) not shown"

def isFailure : Except FileError Report → Bool
  | .error _ => true
  | .ok r => !r.isClean

def ofResults (results : List (Except FileError Report)) : Output where
  exit := if results.any isFailure then failure else success
  stdout := unlines (results.filterMap statusLine?)
  stderr := unlines (results.filterMap noticeLine?)

/-! ### Requests -/

def answer (read : Reader) : Request → Output
  | .check paths options => ofResults (checkFiles .standard read options paths)
  | .keywords => { exit := success, stdout := unlines (keywordTable .standard) }
  | .version => { exit := success, stdout := unlines [versionLine] }
  | .help => { exit := success }

/-- The answer to a command line. -/
def run (read : Reader) (args : List String) : Output :=
  match Request.ofArguments? args with
  | some request => answer read request
  | none => { exit := usageError }

end Contracts.CommandLine
