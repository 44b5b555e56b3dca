import Contracts.Typing.Diagnostic
import Contracts.Typing.Embedding
import Contracts.Typing.Scope

/-! References to earlier states: what can be wrong with one in its place, which
state it means, and the scope in which its first argument is read. -/

namespace Contracts

namespace StateForm

/-- Whether a reference of this form may stand in a clause, or outside all
clauses. Ghost variables of methods may refer to labels and to the entry. -/
def isLegal (clause : Option Descriptor) (inMethod : Bool) (form : StateForm) : Bool :=
  match form, clause with
  | entry, none => false
  | entry, some d => d.capabilities.entry
  | unlabeled, none => true
  | unlabeled, some d => d.capabilities.unlabeled || (d.kind.isDeclaration && inMethod)
  | labeled, none => false
  | labeled, some d => d.capabilities.labeled || (d.kind.isDeclaration && inMethod)

end StateForm

namespace StateHead

/-- The number of arguments is not one that the descriptor admits. -/
def arityError? (head : StateHead) (args : List Expr) : Option TypeError :=
  let d := head.descriptor
  if d.arity.admits args.length then none
  else if head.keyword.isEntry then some ⟨.oneArgument d.keyword args.length, head.span⟩
  else some ⟨.wrongArgumentCount d.keyword d.arity args.length, head.span⟩

def form (head : StateHead) (args : List Expr) : StateForm :=
  .ofArguments head.keyword args.length

/-- The enclosing clause does not admit the reference. -/
def placeError? (head : StateHead) (args : List Expr) (clause : Option Descriptor)
    (inMethod : Bool) : Option TypeError :=
  let form := head.form args
  if form.isLegal clause inMethod then none
  else some ⟨.misplacedState form head.keyword (clause.map (·.keyword)), head.keywordSpan⟩

/-- The argument that has to be a label. -/
def labelArgument? (head : StateHead) (args : List Expr) : Option Expr :=
  match args with
  | [_, label] => if head.keyword.isEntry then none else some label
  | _ => none

/-- The argument that has to be a label is none. -/
def labelError? (head : StateHead) (args : List Expr) (scope : Scope) : Option TypeError :=
  match head.labelArgument? args with
  | none => none
  | some e =>
    match scope.label? e with
    | some _ => none
    | none => some ⟨.notALabel ((e.asName?.map (·.text)).getD "expression"), e.span⟩

/-- Everything that is wrong with the reference itself. -/
def errors (head : StateHead) (args : List Expr) (clause : Option Descriptor) (scope : Scope) :
    List TypeError :=
  (head.arityError? args).toList ++ (head.placeError? args clause scope.env.inMethod).toList ++
    (head.labelError? args scope).toList

/-- The state that the reference means. -/
def label (head : StateHead) (args : List Expr) (scope : Scope) : StateLabel :=
  match (head.labelArgument? args).bind scope.label? with
  | some label => .named label
  | none => .entry

end StateHead

namespace Scope

/-- The scope in which an expression as of an earlier state is read. Clauses of a
specification are read in the scope of the method's entry as it is. -/
def asOf (scope : Scope) (clause : Option Descriptor) (label : StateLabel) : Scope :=
  match Embedding.classify scope.env.inMethod (clause.map (·.kind)) with
  | .topLevel => scope
  | .specClause => scope
  | .methodBody => { scope with env := scope.envAt label }

end Scope

end Contracts
