import Contracts.Typing.Class

/-! Checkers. A checker lives through any number of checks and carries from one to
the next its table of classes, its context stack, and the type errors of checks
that were given up, which the next completed check delivers. -/

namespace Contracts

structure Checker where
  rules : Rules
  contexts : ContextStack := {}
  /-- Type errors found and not delivered yet. -/
  pending : List TypeError := []

namespace Checker

/-- A checker that knows no classes. -/
def new (registry : Registry) (booleanClauses : Bool) : Checker :=
  { rules := { registry, booleanClauses } }

/-- What a check gives: the type errors, unless it was given up, and the unit with
its types recorded. -/
structure Outcome where
  checker : Checker
  result : Except CheckError (List TypeError)
  unit : CompilationUnit

/-- Checks a unit. -/
def check (k : Checker) (unit : CompilationUnit) : Outcome :=
  let start : CheckState := { contexts := k.contexts, errors := k.pending }
  let (table, collected) := (Check.collect k.rules unit).run start
  let rules := { k.rules with classes := table }
  let ((stop, classes), finished) := (Check.checkClasses rules unit.classes).run collected
  match stop with
  | some e => ⟨⟨rules, finished.contexts, finished.errors⟩, .error e, ⟨classes⟩⟩
  | none => ⟨⟨rules, finished.contexts, []⟩, .ok finished.errors, ⟨classes⟩⟩

end Checker

/-- Checks a unit on a checker of its own. -/
def checkUnit (registry : Registry) (booleanClauses : Bool) (unit : CompilationUnit) :
    Except CheckError (List TypeError) :=
  ((Checker.new registry booleanClauses).check unit).result

end Contracts
