import Contracts.CommandLine.Output
import Contracts.Proofs.Typing.Spotless

/-! A limit on the number of errors touches only what is shown. The report on a text with a limit
lists the first errors of the report without one and counts the rest, so that the status line of a
file and the exit status stay as they are. On a command line, the option that sets the limit may
stand anywhere behind the name of the command (`limit_display`). -/

namespace Contracts

/-! ### Reports -/

namespace Report

end Report

namespace CommandLine

/-! ### Answers -/

namespace Argument

end Argument

namespace CheckLine

variable {line next : CheckLine} {arg text : String} {option before after rest args : List String}
  {paths : List String} {options : Options} {booleanClauses : Bool} {n : Nat}

/-- What an argument does to the line that stands by itself and sets no limit. -/
def turn (line : CheckLine) : Argument → Option CheckLine
  | .long "allow-non-boolean" none => line.setAllowNonBoolean
  | .long "verbose" none => line.setVerbose
  | .word path => some (line.addPath path)
  | _ => none

end CheckLine

end CommandLine

end Contracts
