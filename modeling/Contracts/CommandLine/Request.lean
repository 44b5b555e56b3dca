import Contracts.Report

/-! What a command line asks for. Arguments are read from left to right, and the
first one that does not fit makes the whole line a usage error. -/

namespace Contracts.CommandLine

inductive Request
  | check (paths : List String) (options : Options)
  /-- The table of clause keywords. -/
  | keywords
  | version
  | help
deriving DecidableEq

/-- An argument by its form. -/
inductive Argument
  /-- Two hyphens: all arguments behind them are words. -/
  | escape
  | long (name : String) (value : Option String)
  /-- A hyphen and letters, the first of which decides. -/
  | short (letter : Char)
  | word (text : String)
deriving DecidableEq

namespace Argument

def ofString (text : String) : Argument :=
  match text.toList with
  | ['-', '-'] => escape
  | '-' :: '-' :: cs =>
    let name := .ofList (cs.takeWhile (· != '='))
    match cs.dropWhile (· != '=') with
    | [] => long name none
    | _ :: value => long name (some (.ofList value))
  | '-' :: letter :: _ => short letter
  | _ => word text

end Argument

/-! ### Numbers -/

/-- The largest number of errors that can be asked for, one less than the 64th power
of two. -/
def largestCount : Nat := 18446744073709551615

/-- Decimal digits, perhaps behind a plus sign. -/
def count? (text : String) : Option Nat :=
  let digits := match text.toList with
    | '+' :: cs => cs
    | cs => cs
  if digits.isEmpty || !digits.all Char.isDigit then none
  else
    let value := Piece.decimalValue digits
    if value ≤ largestCount then some value else none

/-! ### Checking -/

/-- What has been read of a line that asks for a check. -/
structure CheckLine where
  paths : List String := []
  maxErrors : Option Nat := none
  allowNonBoolean : Bool := false
  verbose : Bool := false
deriving DecidableEq

namespace CheckLine

/-- A check needs a path, and no path is empty. -/
def finish (line : CheckLine) : Option Request :=
  if line.paths.isEmpty || line.paths.any (·.isEmpty) then none
  else some (.check line.paths ⟨!line.allowNonBoolean, line.maxErrors⟩)

def addPath (line : CheckLine) (path : String) : CheckLine :=
  { line with paths := line.paths ++ [path] }

/-- Sets the limit on errors, which can be given once. -/
def setMaxErrors (line : CheckLine) (text : String) : Option CheckLine :=
  match line.maxErrors, count? text with
  | none, some n => some { line with maxErrors := some n }
  | _, _ => none

def setAllowNonBoolean (line : CheckLine) : Option CheckLine :=
  if line.allowNonBoolean then none else some { line with allowNonBoolean := true }

def setVerbose (line : CheckLine) : Option CheckLine :=
  if line.verbose then none else some { line with verbose := true }

/-- Asks for help, unless what was read before is wrong. -/
def help (line : CheckLine) : Option Request :=
  if line.paths.any (·.isEmpty) then none else some .help

/-- Reads the arguments of a check. -/
def read (line : CheckLine) : List String → Option Request
  | [] => line.finish
  | arg :: rest =>
    match Argument.ofString arg with
    | .escape => (rest.foldl addPath line).finish
    | .long "max-errors" (some value) => (line.setMaxErrors value).bind (·.read rest)
    | .long "max-errors" none =>
      match rest with
      | [] => none
      | value :: rest =>
        match Argument.ofString value with
        | .word text => (line.setMaxErrors text).bind (·.read rest)
        | _ => none
    | .long "allow-non-boolean" none => line.setAllowNonBoolean.bind (·.read rest)
    | .long "verbose" none => line.setVerbose.bind (·.read rest)
    | .long "help" none => line.help
    | .short 'h' => line.help
    | .word path => (line.addPath path).read rest
    | _ => none

end CheckLine

/-! ### Other requests -/

/-- Reads the arguments of a request for the table of keywords. -/
def readKeywords (verbose : Bool) : List String → Option Request
  | [] => some .keywords
  | arg :: rest =>
    match Argument.ofString arg with
    | .escape => if rest.isEmpty then some .keywords else none
    | .long "verbose" none => if verbose then none else readKeywords true rest
    | .long "help" none => some .help
    | .short 'h' => some .help
    | _ => none

/-- Reads the words behind a request for help, which name at most one command. -/
def readHelp : List String → Option Request
  | [] => some .help
  | [word] => if word = "check" ∨ word = "keywords" ∨ word = "help" then some .help else none
  | _ => none

/-- Reads a whole command line; a usage error gives nothing. -/
def readLine (verbose : Bool) : List String → Option Request
  | [] => none
  | arg :: rest =>
    match Argument.ofString arg with
    | .word "check" => CheckLine.read {} rest
    | .word "keywords" => readKeywords false rest
    | .word "help" => readHelp rest
    | .long "verbose" none => if verbose then none else readLine true rest
    | .long "version" none => some .version
    | .short 'V' => some .version
    | .long "help" none => some .help
    | .short 'h' => some .help
    | _ => none

/-- What a command line asks for, unless it is a usage error. -/
def Request.ofArguments? (args : List String) : Option Request := readLine false args

end Contracts.CommandLine
