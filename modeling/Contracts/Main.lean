import Contracts.CommandLine.Output

/-! The program: reads the files that the command line names and prints the
answer. -/

namespace Contracts.CommandLine

/-- The refusal of the system that an error tells of. -/
def refusal : IO.Error → ReadError
  | .noFileOrDirectory .. => .notFound
  | .inappropriateType _ 21 _ => .isADirectory
  | .inappropriateType .. => .notADirectory
  | .permissionDenied .. => .system "Permission denied" 13
  | e => .system (toString e) 0

/-- The text of a file, or why there is none. -/
def readText (path : String) : IO (Except ReadError String) := do
  try
    let content ← IO.FS.readBinFile path
    match String.fromUTF8? content with
    | some text => return .ok text
    | none => return .error .notText
  catch e => return .error (refusal e)

/-- The files that a command line names. -/
def namedPaths (args : List String) : List String :=
  match Request.ofArguments? args with
  | some (.check paths _) => paths
  | _ => []

end Contracts.CommandLine

open Contracts.CommandLine

def main (args : List String) : IO UInt32 := do
  let texts ← (namedPaths args).mapM fun path => return (path, ← readText path)
  let output := run (fun path => (texts.lookup path).getD (.error .notFound)) args
  IO.print output.stdout
  IO.eprint output.stderr
  return output.exit.toUInt32
