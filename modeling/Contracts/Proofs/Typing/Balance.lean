import Contracts.Proofs.Typing.Inference
import Contracts.Proofs.Typing.Locality
import Mathlib.Logic.Relation

/-! Every frame that a check opens is closed again, whatever the unit is like and
however the check ends, so a checker comes back with the stack that it had, but for the
counts (`check_contexts`). Around checks, frames are opened and closed from outside. In a
run of such steps the counts differ by the number of open frames, and when all frames of
the run are closed the stack is the one of the start (`Session.Reaches`). -/

namespace Contracts

namespace Check

open CheckState

/-! ### What every part keeps -/

section

variable (rules : Rules) (scope : Scope)

theorem keeps_resolveType (name : Name) : Keeps Extends (resolveType rules name) :=
  (local_resolveType name).extending

theorem keeps_resolveTypes (names : List Name) : Keeps Extends (resolveTypes rules names) :=
  (local_resolveTypes names).extending

theorem keeps_variableType (env : Env) (name : Name) : Keeps Extends (variableType rules env name) :=
  (local_variableType env name).extending

theorem keeps_require (expected : Option Ty) (found : Ty) (span : Span) :
    Keeps Extends (require expected found span) :=
  (local_require expected found span).extending

theorem keeps_binaryType (op : BinaryOp) (left right : Ty) (span : Span) :
    Keeps Extends (binaryType op left right span) :=
  (local_binaryType op left right span).extending

theorem keeps_unaryType (op : UnaryOp) (operand : Ty) (span : Span) :
    Keeps Extends (unaryType op operand span) :=
  (local_unaryType op operand span).extending

theorem keeps_fieldType (owner : Ty) (field : Name) : Keeps Extends (fieldType rules owner field) :=
  (local_fieldType owner field).extending

theorem keeps_resultType (env : Env) (span : Span) : Keeps Extends (resultType env span) :=
  (local_resultType env span).extending

theorem keeps_callSignature (owner : Ty) (method : Name) (args : List Expr) (span : Span) :
    Keeps Extends (callSignature rules owner method args span) :=
  (local_callSignature owner method args span).extending

theorem keeps_infer (e : Expr) : Keeps Extends (infer rules scope e) :=
  (local_infer scope False.elim).extending

theorem keeps_inferArgs (params : List Ty) (es : List Expr) :
    Keeps Extends (inferArgs rules scope params es) :=
  ((local_infer_all rules).2.2 scope params es False.elim).extending

theorem keeps_inferPayload (typeArgs : List Name) (es : List Expr) :
    Keeps Extends (inferPayload rules scope typeArgs es) :=
  ((local_infer_all rules).2.1 scope typeArgs es False.elim).extending

theorem keeps_inferAs (expected : Option Ty) (e : Expr) :
    Keeps Extends (inferAs rules scope expected e) :=
  (local_inferAs scope expected False.elim).extending

theorem keeps_inferInit (expected : Ty) (init : Option Expr) :
    Keeps Extends (inferInit rules scope expected init) :=
  (local_inferInit scope expected False.elim).extending

theorem keeps_inferClause (d : Descriptor) (e : Expr) :
    Keeps Extends (inferClause rules scope d e) :=
  (local_inferClause scope d False.elim).extending

theorem keeps_declare (name : Name) (type : Ty) : Keeps Grows (declare scope name type) :=
  (local_declare scope name type).grows

theorem keeps_checkVariable (v : Variable) : Keeps Grows (checkVariable rules scope v) :=
  (local_checkVariable scope False.elim).grows

theorem keeps_checkSpecClause (c : SpecClause) : Keeps Extends (checkSpecClause rules scope c) :=
  (local_checkSpecClause scope False.elim).extending

theorem keeps_declareLabel (label : Name) : Keeps Extends (declareLabel scope label) :=
  (local_declareLabel scope label).extending

theorem keeps_checkLeave (value : Option Expr) (span : Span) :
    Keeps Extends (checkLeave rules scope value span) :=
  (local_checkLeave scope span False.elim).extending

theorem keeps_checkStatement (s : Statement) : Keeps Grows (checkStatement rules scope s) :=
  (local_checkStatement rules scope s False.elim).grows

theorem keeps_checkStatements (ss : List Statement) :
    Keeps Grows (checkStatements rules scope ss) :=
  (local_checkStatements rules scope ss False.elim).grows

theorem keeps_declareClasses (table : ClassTable) (cs : List Class) :
    Keeps Grows (declareClasses table cs) :=
  (local_declareClasses table cs).grows

theorem keeps_declareMember {α : Type} (table : List (String × α)) (name : Name) (entry : α) :
    Keeps Grows (declareMember table name entry) :=
  (local_declareMember table name entry).grows

theorem keeps_collectFields (table : List (String × Ty)) (fs : List Field) :
    Keeps Grows (collectFields rules table fs) :=
  (local_collectFields table fs).grows

theorem keeps_collectMethods (table : List (String × Signature)) (ms : List Method) :
    Keeps Grows (collectMethods rules table ms) :=
  (local_collectMethods table ms).grows

theorem keeps_collectClass (c : Class) : Keeps Grows (collectClass rules c) :=
  (local_collectClass c).grows

theorem keeps_collectClasses (table : ClassTable) (seen : List String) (cs : List Class) :
    Keeps Grows (collectClasses rules table seen cs) :=
  (local_collectClasses table seen cs).grows

theorem keeps_collect (unit : CompilationUnit) : Keeps Grows (collect rules unit) :=
  (local_collect unit).grows

theorem keeps_checkField (f : Field) : Keeps Grows (checkField rules scope f) :=
  (local_checkField scope False.elim).grows

theorem keeps_checkTypeClause (c : TypeClause) : Keeps Grows (checkTypeClause rules scope c) :=
  (local_checkTypeClause scope False.elim).grows

theorem keeps_declareParams (ps : List Param) : Keeps Grows (declareParams rules scope ps) :=
  (local_declareParams scope ps).grows

theorem keeps_checkSpecClauses (cs : List SpecClause) :
    Keeps Extends (checkSpecClauses rules scope cs) :=
  (local_checkSpecClauses scope False.elim).extending

theorem keeps_checkCases (cs : List SpecCase) : Keeps Extends (checkCases rules scope cs) :=
  (local_checkCases scope False.elim).extending

theorem keeps_checkMethod (className : String) (m : Method) :
    Keeps Grows (checkMethod rules className m) :=
  (local_checkMethod className False.elim).grows

theorem keeps_checkMember (className : String) (m : Member) :
    Keeps Grows (checkMember rules className m) :=
  (local_checkMember className False.elim).grows

theorem keeps_checkMembers (className : String) (ms : List Member) :
    Keeps Grows (checkMembers rules className ms) :=
  (local_checkMembers className False.elim).grows

theorem keeps_checkClass (c : Class) : Keeps Grows (checkClass rules c) :=
  (local_checkClass False.elim).grows

end

/-- Deciding whether to go on looks at the state and leaves it as it is. -/
theorem state_stopBehind (c : Class) (s : CheckState) : ((stopBehind c).run s).2 = s := by
  unfold stopBehind
  rw [run_bind]
  dsimp only
  split <;> rfl

theorem keeps_stopBehind (c : Class) : Keeps Grows (stopBehind c) := fun s => by
  rw [state_stopBehind]
  exact .refl s

theorem keeps_checkClasses (rules : Rules) (cs : List Class) :
    Keeps Grows (checkClasses rules cs) := by
  induction cs with
  | nil => exact .pure _
  | cons c cs ih =>
    refine .bind (keeps_checkClass _ _) fun _ => .bind (keeps_stopBehind _) fun stop => ?_
    cases stop with
    | some e => exact .pure _
    | none => exact .bind ih fun _ => .pure _

end Check

/-! ### Checkers -/

namespace Checker

/-- What is collected before the classes are checked: the table and the state. -/
def collected (k : Checker) (unit : CompilationUnit) : ClassTable × CheckState :=
  (Check.collect k.rules unit).run { contexts := k.contexts, errors := k.pending }

/-- What is known when the classes are checked. -/
def rulesFor (k : Checker) (unit : CompilationUnit) : Rules :=
  { k.rules with classes := (k.collected unit).1 }

/-- What checking the classes gives: why it stopped, the classes, and the state. -/
def checked (k : Checker) (unit : CompilationUnit) : (Option CheckError × List Class) × CheckState :=
  (Check.checkClasses (k.rulesFor unit) unit.classes).run (k.collected unit).2

theorem check_eq (k : Checker) (unit : CompilationUnit) :
    k.check unit =
      match (k.checked unit).1.1 with
      | some e =>
        ⟨⟨k.rulesFor unit, (k.checked unit).2.contexts, (k.checked unit).2.errors⟩, .error e,
          ⟨(k.checked unit).1.2⟩⟩
      | none =>
        ⟨⟨k.rulesFor unit, (k.checked unit).2.contexts, []⟩, .ok (k.checked unit).2.errors,
          ⟨(k.checked unit).1.2⟩⟩ := rfl

/-- A check gives back the stack that it was started with, but for the counts. -/
theorem check_contexts (k : Checker) (unit : CompilationUnit) :
    ∃ n, (k.check unit).checker.contexts = k.contexts.cycled n := by
  have collected := Check.keeps_collect k.rules unit { contexts := k.contexts, errors := k.pending }
  have checked := Check.keeps_checkClasses (k.rulesFor unit) unit.classes (k.collected unit).2
  obtain ⟨n, hn⟩ := (collected.trans checked).contexts
  refine ⟨n, ?_⟩
  rw [check_eq]
  split <;> exact hn

end Checker

/-! ### Sessions -/

/-- A checker in the middle of its work, with the number of frames that are open around
the next check. -/
structure Session where
  checker : Checker
  depth : Nat := 0

namespace Session

/-- What can be done with a checker from outside: a unit is checked, a frame is opened, what
the innermost frame says is changed, and the innermost frame is closed. -/
inductive Step : Session → Session → Prop
  | check (k : Checker) (depth : Nat) (unit : CompilationUnit) :
    Step ⟨k, depth⟩ ⟨(k.check unit).checker, depth⟩
  | enter (k : Checker) (depth : Nat) (clause : Option Descriptor) :
    Step ⟨k, depth⟩ ⟨{ k with contexts := k.contexts.enter clause }, depth + 1⟩
  | change (k : Checker) (depth : Nat) (f : Context → Context) :
    Step ⟨k, depth + 1⟩ ⟨{ k with contexts := k.contexts.modifyTop f }, depth + 1⟩
  | leave (k : Checker) (depth : Nat) :
    Step ⟨k, depth + 1⟩ ⟨{ k with contexts := k.contexts.pop }, depth⟩

/-- Any number of steps. -/
def Reaches : Session → Session → Prop := Relation.ReflTransGen Step

/-- The stack is the one of the start, with `depth` more frames above it and the counts
advanced by the frames that were opened and closed. -/
def Balanced (start : ContextStack) (s : Session) : Prop :=
  ∃ opened n, opened.length = s.depth ∧
    s.checker.contexts =
      { base := start.base
        frames := opened ++ start.frames
        pushes := start.pushes + opened.length + n
        pops := start.pops + n }

theorem Balanced.step {start : ContextStack} {s t : Session} (h : Balanced start s)
    (hst : Step s t) : Balanced start t := by
  obtain ⟨opened, n, hlen, hs⟩ := h
  cases hst with
  | check k depth unit =>
    obtain ⟨m, hm⟩ := k.check_contexts unit
    dsimp only at hlen hs
    refine ⟨opened, n + m, hlen, ?_⟩
    rw [hm, hs, ContextStack.cycled]
    simp only [Nat.add_assoc]
  | enter k depth clause =>
    dsimp only at hlen hs
    obtain ⟨top, htop⟩ := k.contexts.enter_eq clause
    refine ⟨top :: opened, n, by simp [hlen], ?_⟩
    dsimp only
    rw [htop, hs, List.length_cons, List.cons_append]
    simp only [ContextStack.mk.injEq, true_and, and_true]
    omega
  | change k depth f =>
    obtain ⟨top, outer, rfl⟩ := List.exists_cons_of_length_eq_add_one hlen
    dsimp only at hlen hs
    refine ⟨f top :: outer, n, hlen, ?_⟩
    dsimp only
    rw [hs]
    rfl
  | leave k depth =>
    obtain ⟨top, outer, rfl⟩ := List.exists_cons_of_length_eq_add_one hlen
    dsimp only at hlen hs
    refine ⟨outer, n + 1, by simpa using hlen, ?_⟩
    dsimp only
    rw [hs, List.length_cons, List.cons_append, ContextStack.pop]
    simp only [ContextStack.mk.injEq, true_and]
    omega

theorem balanced_of_reaches {k : Checker} {s : Session} (h : Reaches ⟨k, 0⟩ s) :
    Balanced k.contexts s := by
  induction h with
  | refl => exact ⟨[], 0, rfl, rfl⟩
  | tail _ hst ih => exact ih.step hst

end Session

/-- Frames are closed as they were opened. A check leaves the stack as it was but for equal
numbers of openings and closings, also where it is given up. In every state of a session on
a new checker the openings are the closings and the frames that are open, and with no frame
open from outside the stack is the one of the start. Attribution of an expression, with or
without a type that is asked for, adds errors and counts, perhaps a first fault, and recorded
types. -/
theorem contexts_preserved :
    (∀ (k : Checker) (unit : CompilationUnit), ∃ n,
      (k.check unit).checker.contexts =
        { k.contexts with pushes := k.contexts.pushes + n, pops := k.contexts.pops + n }) ∧
    (∀ (registry : Registry) (booleanClauses : Bool) (s : Session),
      Session.Reaches ⟨.new registry booleanClauses, 0⟩ s →
        s.checker.contexts.pushes = s.checker.contexts.pops + s.checker.contexts.depth) ∧
    (∀ (k : Checker) (s : Session), Session.Reaches ⟨k, 0⟩ s → s.depth = 0 →
      ∃ n, s.checker.contexts = k.contexts.cycled n) ∧
    ∀ (rules : Rules) (scope : Scope) (expected : Option Ty) (e : Expr) (s : CheckState),
      s.Extends ((Check.inferAs rules scope expected e).run s).2 ∧
        e.Resolves ((Check.inferAs rules scope expected e).run s).1.2 := by
  refine ⟨Checker.check_contexts, fun registry booleanClauses s h => ?_, fun k s h closed => ?_,
    fun rules scope expected e s => ⟨?_, ?_⟩⟩
  · obtain ⟨opened, n, -, hs⟩ := Session.balanced_of_reaches h
    rw [hs]
    simp only [Checker.new, ContextStack.depth, List.append_nil]
    omega
  · obtain ⟨opened, n, hlen, hs⟩ := Session.balanced_of_reaches h
    obtain rfl := List.length_eq_zero_iff.1 (hlen.trans closed)
    exact ⟨n, hs⟩
  · exact Check.keeps_inferAs rules scope expected e s
  · exact Check.resolves_inferAs rules scope expected e s

/-- A clause of a class under the descriptor of a reference to an earlier state, checked
inside a frame that was opened from outside. -/
theorem contexts_preserved_foreign :
    let start := Checker.new .standard true
    let foreign : TypeClause := ⟨.ofKind (.state .old), .missing .origin, none, .origin⟩
    let unit : CompilationUnit := ⟨[⟨⟨"A", .origin⟩, [.clause foreign], .origin⟩]⟩
    let clause := some (Descriptor.ofKind (.methodSpec .ensures))
    let inside := ({ start with contexts := start.contexts.enter clause }.check unit).checker
    inside.contexts.pushes = inside.contexts.pops + inside.contexts.depth ∧
      ∃ n, inside.contexts.pop = start.contexts.cycled n := by
  intro start foreign unit clause inside
  have entered : Session.Reaches ⟨start, 0⟩ ⟨inside, 1⟩ :=
    .tail (.single (.enter start 0 clause)) (.check _ 1 unit)
  have left : Session.Reaches ⟨start, 0⟩ ⟨{ inside with contexts := inside.contexts.pop }, 0⟩ :=
    .tail entered (.leave inside 0)
  exact ⟨contexts_preserved.2.1 _ _ _ entered, contexts_preserved.2.2.1 _ _ left rfl⟩

end Contracts
