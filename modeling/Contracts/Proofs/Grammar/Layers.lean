import Contracts.Tree.Unit

/-! What stands around a part of a tree. An expression stands in layers of expressions, the
outermost of them in a slot of a statement or of a member; a statement stands in layers of
labels and blocks. Filling a slot and wrapping layers around a part give the tree back. -/

namespace Contracts

/-! ### Expressions -/

namespace Expr

/-- What stands directly around an expression in another one. -/
inductive Layer
  | binaryLeft (op : BinaryOp) (right : Expr) (span : Span)
  | binaryRight (op : BinaryOp) (left : Expr) (span : Span)
  | unary (op : UnaryOp) (span : Span)
  | field (field : Name) (span : Span)
  | callee (args : List Expr) (span : Span)
  | arg (called : Expr) (before after : List Expr) (span : Span)
  | stateArg (head : StateHead) (before after : List Expr) (recorded : Option Ty)

namespace Layer

def wrap : Layer → Expr → Expr
  | binaryLeft op right s, e => .binary op e right s
  | binaryRight op left s, e => .binary op left e s
  | unary op s, e => .unary op e s
  | field n s, e => .field e n s
  | callee args s, e => .call e args s
  | arg called before after s, e => .call called (before ++ e :: after) s
  | stateArg head before after recorded, e => .state head (before ++ e :: after) recorded

/-- The place behind the comma of a reference to a labelled state. -/
def isLabel : Layer → Bool
  | stateArg head [_] [] _ => !head.keyword.isEntry
  | _ => false

end Layer

/-- An expression inside layers, the outermost first. -/
def wrap (layers : List Layer) (e : Expr) : Expr := layers.foldr Layer.wrap e

@[simp] theorem wrap_nil (e : Expr) : wrap [] e = e := rfl

@[simp] theorem wrap_cons (l : Layer) (layers : List Layer) (e : Expr) :
    wrap (l :: layers) e = l.wrap (wrap layers e) := rfl

/-- The innermost layer asks for a label. -/
def AtLabel (layers : List Layer) : Prop := layers.getLast?.any Layer.isLabel = true

end Expr

/-! ### Statements -/

namespace Statement

/-- What stands directly around a statement in another one. -/
inductive Layer
  | labeled (label : Name) (span : Span)
  | block (before after : List Statement) (span : Span)

def Layer.wrap : Layer → Statement → Statement
  | labeled label span, s => .labeled label s span
  | block before after span, s => .block (before ++ s :: after) span

/-- A statement inside layers, the outermost first. -/
def wrap (layers : List Layer) (s : Statement) : Statement := layers.foldr Layer.wrap s

@[simp] theorem wrap_nil (s : Statement) : wrap [] s = s := rfl

@[simp] theorem wrap_cons (l : Layer) (layers : List Layer) (s : Statement) :
    wrap (l :: layers) s = l.wrap (wrap layers s) := rfl

/-- A block stands around each of its statements. -/
theorem wrap_get (ss : List Statement) (i : Fin ss.length) (span : Span) :
    wrap [.block (ss.take i) (ss.drop (i + 1)) span] (ss.get i) = .block ss span := by
  simp [Layer.wrap]

/-- The places for an expression directly in a statement. -/
inductive Slot
  | declare (type name : Name) (span : Span)
  | ghost (descriptor : Descriptor) (type name : Name) (span : Span)
  | assign (target : Name) (span : Span)
  | clause (descriptor : Descriptor) (span : Span)
  | leave (span : Span)
  | expr

def Slot.fill : Slot → Expr → Statement
  | declare type name span, e => .declare ⟨type, name, some e, span⟩
  | ghost d type name span, e => .ghost d ⟨type, name, some e, span⟩
  | assign target span, e => .assign target e span
  | clause d span, e => .clause ⟨d, e, span⟩
  | leave span, e => .leave (some e) span
  | expr, e => .expr e

end Statement

/-! ### Members and units -/

/-- The places for an expression in a member, outside other expressions. What else the member
holds is given beside them. -/
inductive Member.Slot
  | field (field : Field)
  | clause (clause : TypeClause)
  | spec (method : Method) (casesBefore casesAfter : List SpecCase) (specCase : SpecCase)
    (before after : List SpecClause) (clause : SpecClause)
  | body (method : Method) (before after : List Statement) (layers : List Statement.Layer)
    (slot : Statement.Slot)

def Member.Slot.fill : Member.Slot → Expr → Member
  | field f, e => .field { f with init := some e }
  | clause c, e => .clause { c with expr := e }
  | spec m casesBefore casesAfter k before after c, e =>
    .method { m with
      cases := casesBefore ++
        { k with clauses := before ++ { c with expr := e } :: after } :: casesAfter }
  | body m before after layers slot, e =>
    .method { m with
      body := { m.body with
        statements := before ++ Statement.wrap layers (slot.fill e) :: after } }

/-- A place for an expression in a unit, outside other expressions. -/
structure CompilationUnit.Slot where
  classesBefore : List Class := []
  classesAfter : List Class := []
  /-- The class around the place; its members are given beside it. -/
  owner : Class
  before : List Member := []
  after : List Member := []
  member : Member.Slot

namespace CompilationUnit.Slot

/-- The class around the place, with an expression there. -/
def fillClass (slot : Slot) (e : Expr) : Class :=
  { slot.owner with members := slot.before ++ slot.member.fill e :: slot.after }

def fill (slot : Slot) (e : Expr) : CompilationUnit :=
  ⟨slot.classesBefore ++ slot.fillClass e :: slot.classesAfter⟩

end CompilationUnit.Slot

end Contracts
