import Contracts.Tree.Expr

/-! The context stack: which clause encloses the expression at hand and which
earlier state it is read in. Every opened frame is a copy of the frame around it
and is closed again; the stack counts both. -/

namespace Contracts

/-- The program point that a reference to an earlier state means. -/
inductive StateLabel
  /-- Entry of the enclosing method. -/
  | entry
  | named (label : Name)
deriving DecidableEq

namespace StateLabel

def isEntry : StateLabel → Bool
  | entry => true
  | named _ => false

/-- The text of the label; the entry has none. -/
def text : StateLabel → String
  | entry => ""
  | named label => label.text

end StateLabel

structure Context where
  clause : Option Descriptor := none
  /-- The earlier state; without one, expressions mean the current state. -/
  label : Option StateLabel := none
deriving DecidableEq

structure ContextStack where
  base : Context := {}
  /-- Open frames, the innermost first. -/
  frames : List Context := []
  pushes : Nat := 0
  pops : Nat := 0
deriving DecidableEq

namespace ContextStack

def current (s : ContextStack) : Context := s.frames.head?.getD s.base

def depth (s : ContextStack) : Nat := s.frames.length

/-- Opens a frame that copies the current one. -/
def push (s : ContextStack) : ContextStack :=
  { s with frames := s.current :: s.frames, pushes := s.pushes + 1 }

/-- Closes the innermost frame, if one is open. -/
def pop (s : ContextStack) : ContextStack :=
  match s.frames with
  | [] => s
  | _ :: outer => { s with frames := outer, pops := s.pops + 1 }

/-- Changes the innermost frame, or the base if no frame is open. -/
def modifyTop (f : Context → Context) (s : ContextStack) : ContextStack :=
  match s.frames with
  | [] => { s with base := f s.base }
  | top :: outer => { s with frames := f top :: outer }

def setLabel (label : StateLabel) (s : ContextStack) : ContextStack :=
  s.modifyTop fun c => { c with label := some label }

/-- Opens a frame, inside the given clause if there is one. -/
def enter (clause : Option Descriptor) (s : ContextStack) : ContextStack :=
  match clause with
  | none => s.push
  | some d => s.push.modifyTop fun c => { c with clause := some d }

@[simp] theorem depth_push (s : ContextStack) : s.push.depth = s.depth + 1 := rfl

/-- Closing undoes opening, but for the counts. -/
theorem pop_push (s : ContextStack) :
    s.push.pop = { s with pushes := s.pushes + 1, pops := s.pops + 1 } := rfl

theorem pop_enter (clause : Option Descriptor) (s : ContextStack) :
    (s.enter clause).pop = { s with pushes := s.pushes + 1, pops := s.pops + 1 } := by
  cases clause <;> rfl

end ContextStack

end Contracts
