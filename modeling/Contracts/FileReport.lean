import Contracts.FileTree
import Contracts.Report

/-! Reports on files, in the order in which the files are named. -/

namespace Contracts

/-- Gives the text of the file at a path. -/
abbrev Reader := String → Except ReadError String

/-- Why there is no report on a file. -/
inductive FileError
  | unreadable (path : String) (cause : ReadError)
  | unchecked (path : String) (cause : CheckError)
deriving DecidableEq

namespace FileError

def message : FileError → String
  | unreadable path cause => s!"failed to read {path}: {cause.message}"
  | unchecked path cause => s!"internal error while checking {path}: {cause.message}"

end FileError

def checkFile (registry : Registry) (read : Reader) (options : Options) (path : String) :
    Except FileError Report := do
  let source ← (read path).mapError (.unreadable path)
  (checkSource registry path source options).mapError (.unchecked path)

/-- One report for each path, or the reason why there is none. -/
def checkFiles (registry : Registry) (read : Reader) (options : Options) (paths : List String) :
    List (Except FileError Report) :=
  paths.map (checkFile registry read options)

end Contracts
