import Contracts.Proofs.Grammar.Expression

/-! Other words for names. A change of words goes to every name in a tree, and to every
identifier among tokens. Where no words are reserved the grammar looks at no name, so what it
derives in any mode is derived there with other names, registered keywords among them
(`Derives.mapWords`). -/

namespace Contracts

variable (f : String → String)

def TokenKind.mapWord : TokenKind → TokenKind
  | identifier word => identifier (f word)
  | k => k

def Name.mapWord (n : Name) : Name := ⟨f n.text, n.span⟩

/-- The tree with another word for every name and every selected field. -/
def Expr.mapWords : Expr → Expr
  | name n => name (n.mapWord f)
  | binary op left right s => binary op left.mapWords right.mapWords s
  | unary op operand s => unary op operand.mapWords s
  | field base n s => field base.mapWords (n.mapWord f) s
  | call callee args s => call callee.mapWords (mapList args) s
  | state head args recorded => state head (mapList args) recorded
  | e => e
where
  mapList : List Expr → List Expr
    | [] => []
    | e :: es => e.mapWords :: mapList es

variable {f} {registry : Registry} {on : Bool}

theorem Registry.free_false (word : String) : registry.Free false word := nofun

mutual

/-- What is derived stays so with other names, where no words are reserved. -/
theorem Derives.mapWords : ∀ {l : Level} {w : List TokenKind} {e : Expr},
    Derives registry on l w e → Derives registry false l (w.map (·.mapWord f)) (e.mapWords f)
  | _, _, _, .loosen next inner => .loosen next inner.mapWords
  | _, _, _, .implies left right => by
    rw [List.map_append, List.map_cons]
    exact .implies left.mapWords right.mapWords
  | _, _, _, .binary level grouping next left right => by
    rw [List.map_append, List.map_cons]
    exact .binary level grouping next left.mapWords right.mapWords
  | _, _, _, .unary operand => .unary operand.mapWords
  | _, _, _, .field (n := n) base => by
    rw [List.map_append]
    exact .field (n := n.mapWord f) base.mapWords
  | _, _, _, .call callee list => by
    rw [List.map_append, List.map_cons, List.map_append]
    exact .call callee.mapWords list.mapWords
  | _, _, _, .name (n := n) _ => .name (n := n.mapWord f) (Registry.free_false _)
  | _, _, _, .int => .int
  | _, _, _, .true => .true
  | _, _, _, .false => .false
  | _, _, _, .result => .result
  | _, _, _, .parens inner => by
    rw [List.map_cons, List.map_append]
    exact .parens inner.mapWords
  | _, _, _, .state other registered kind list => by
    rw [List.map_cons, List.map_cons, List.map_append]
    exact .state other registered kind list.mapWords

theorem Commas.mapWords : ∀ {w : List TokenKind} {es : List Expr},
    Commas (Derives registry on .implication) w es →
      Commas (Derives registry false .implication) (w.map (·.mapWord f))
        (Expr.mapWords.mapList f es)
  | _, _, .none => .none
  | _, _, .one item => .one item.mapWords
  | _, _, .more item others => by
    rw [List.map_append, List.map_cons]
    exact .more item.mapWords others.mapWords

end

end Contracts
