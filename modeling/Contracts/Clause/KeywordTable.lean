import Contracts.Clause.Registry
import Std.Data.HashMap

/-! Keywords in a hash map. The descriptors of a registry are kept under their keywords in a map,
which has no order, and their keywords in a list, in the order of registration. A builder fills
both, one call behind the other; a call that fails leaves it to further calls. -/

namespace Contracts

/-- Collects descriptors before their table is frozen. -/
structure RegistryBuilder where
  byKeyword : Std.HashMap String Descriptor := {}
  order : List String := []

/-- The table that keywords are looked up in. It does not change any more. -/
structure KeywordTable where
  byKeyword : Std.HashMap String Descriptor
  order : List String

namespace RegistryBuilder

/-- Enters a descriptor in both, unless its keyword is taken. -/
def register (d : Descriptor) : StateM RegistryBuilder (Except RegistryError Unit) := do
  if (← get).byKeyword.contains d.keyword then
    return .error (.duplicateKeyword d.keyword)
  else
    modify fun b =>
      { byKeyword := b.byKeyword.insert d.keyword d, order := b.order ++ [d.keyword] }
    return .ok ()

theorem run_register (d : Descriptor) (b : RegistryBuilder) :
    (register d).run b =
      if b.byKeyword.contains d.keyword then (.error (.duplicateKeyword d.keyword), b)
      else (.ok (), ⟨b.byKeyword.insert d.keyword d, b.order ++ [d.keyword]⟩) := by
  rw [register, StateT.run_bind, StateT.run_get, pure_bind]
  split <;> rfl

/-- The builder behind calls for these descriptors, which go on when one fails. -/
def registerEach (b : RegistryBuilder) (ds : List Descriptor) : RegistryBuilder :=
  ds.foldl (fun b d => ((register d).run b).2) b

def build (b : RegistryBuilder) : KeywordTable := ⟨b.byKeyword, b.order⟩

end RegistryBuilder

namespace KeywordTable

/-- The descriptor registered under a word. -/
def get? (t : KeywordTable) (word : String) : Option Descriptor := t.byKeyword[word]?

def lookup (t : KeywordTable) (word : String) : Except RegistryError Descriptor :=
  match t.get? word with
  | some d => .ok d
  | none => .error (.notFound word)

/-- The descriptors in the order of their registration. -/
def descriptors (t : KeywordTable) : List Descriptor := t.order.filterMap t.get?

def length (t : KeywordTable) : Nat := t.order.length

def isEmpty (t : KeywordTable) : Bool := t.order.isEmpty

/-- Every kind under its own keyword. -/
def standard : KeywordTable := (RegistryBuilder.registerEach {} (ClauseKind.all.map .ofKind)).build

end KeywordTable

end Contracts
