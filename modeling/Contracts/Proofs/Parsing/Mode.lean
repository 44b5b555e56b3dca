import Contracts.Proofs.Grammar.Renamed
import Contracts.Proofs.Parsing.Charged
import Contracts.Proofs.Parsing.UnitComplete
import Contracts.Proofs.Parsing.UnitSound

/-! Where clause keywords are reserved. Every parser gives back the mode that it was entered in
(`Parser.ModeKept`), so the words of a registry are names in the body of a clause and nowhere
else, also behind a clause that could not be read; and there each of them is a name. -/

namespace Contracts

namespace Statement.Slot

/-- The place is the body of a clause among statements. -/
def InClause (registry : Registry) : Slot → Prop
  | clause d _ => registry.Holds d ∧ ∃ word, d.kind = .statement word
  | _ => False

variable {registry : Registry} {on : Bool} {e : Expr}

theorem inClause_or_free (slot : Slot) (h : (slot.fill e).Registered registry)
    (free : (slot.fill e).Free registry on) : slot.InClause registry ∨ e.Free registry on := by
  cases slot with
  | declare => exact .inr (free e rfl)
  | ghost => exact .inr (free e rfl)
  | assign => exact .inr free
  | clause d => exact .inl ⟨h.1.descriptor, h.2⟩
  | leave => exact .inr (free e rfl)
  | expr => exact .inr free

end Statement.Slot

namespace Statement

variable {registry : Registry}

theorem forall_of_listRegistered {ss : List Statement}
    (h : Registered.listRegistered registry ss) : ∀ s ∈ ss, s.Registered registry := by
  induction ss with
  | nil => exact List.forall_mem_nil _
  | cons s ss ih => exact List.forall_mem_cons.2 ⟨h.1, ih h.2⟩

theorem Registered.of_wrap {layers : List Layer} {s : Statement}
    (h : (wrap layers s).Registered registry) : s.Registered registry := by
  induction layers with
  | nil => exact h
  | cons l layers ih =>
    refine ih ?_
    cases l with
    | labeled label span => exact h
    | block before after span =>
      exact forall_of_listRegistered h _ (List.mem_append_right _ List.mem_cons_self)

end Statement

namespace Member.Slot

/-- The place is the body of a clause: of the class, of a method's specification, or among the
statements of a method. -/
def InClause (registry : Registry) : Slot → Prop
  | field _ => False
  | clause c => registry.Holds c.descriptor ∧ ∃ word, c.descriptor.kind = .typeClause word
  | spec _ _ _ _ _ _ c => registry.Holds c.descriptor ∧ ∃ word, c.descriptor.kind = .methodSpec word
  | body _ _ _ _ slot => slot.InClause registry

variable {registry : Registry} {on : Bool} {e : Expr}

theorem inClause_or_free (slot : Slot) (h : (slot.fill e).Registered registry)
    (free : (slot.fill e).Free registry on) : slot.InClause registry ∨ e.Free registry on := by
  cases slot with
  | field f => exact .inr (free e rfl)
  | clause c => exact .inl ⟨h.descriptor, h.kind⟩
  | spec m casesBefore casesAfter k before after c =>
    obtain ⟨-, clauses⟩ := h.cases _ (List.mem_append_right _ List.mem_cons_self)
    obtain ⟨clause, kind⟩ := clauses _ (List.mem_append_right _ List.mem_cons_self)
    exact .inl ⟨clause.descriptor, kind⟩
  | body m before after layers slot =>
    have here : Statement.wrap layers (slot.fill e) ∈
        before ++ Statement.wrap layers (slot.fill e) :: after :=
      List.mem_append_right _ List.mem_cons_self
    exact slot.inClause_or_free (.of_wrap (Statement.forall_of_listRegistered h.body _ here))
      (.of_wrap (Statement.listFree_iff.1 free _ here))

end Member.Slot

namespace Parser

variable {α : Type} {registry : Registry}

/-- The parser gives back the mode that it was entered in, on success and on failure. -/
def KeepsMode (p : Parser α) : Prop := ∀ c : Cursor, (p.after c).reserving = c.reserving

theorem KeepsMode.of_sound {D : List TokenKind → α → Prop} {p : Parser α}
    (h : ∀ on, Sound on D p) : KeepsMode p := fun c => (h c.reserving c rfl).passes.reserving

theorem yields_stateReference {on : Bool} (d : Descriptor) (keyword : StateKeyword) :
    Yields on (fun _ => True) (stateReference registry d keyword) := by
  refine .next .advance fun t => .next .kind fun k => ?_
  split
  · refine .next (.parenthesized yields_expression) fun args => .next .previousEnd fun _ => ?_
    exact (sound_selections (sound_expression registry on) _).mono fun _ _ _ => trivial
  · exact sound_placeholder _

theorem yields_arguments {on : Bool} : Yields on (fun _ => True) (arguments registry) :=
  .parenthesized yields_expression

/-- Every part of a unit is read so. -/
structure ModeKept (registry : Registry) : Prop where
  classes : KeepsMode (classes registry)
  classDeclaration : KeepsMode (classDeclaration registry)
  members : KeepsMode (members registry)
  member : KeepsMode (member registry)
  specCases : KeepsMode (specCases registry)
  specClause : ∀ d, KeepsMode (specClause registry d)
  typeClause : ∀ d, KeepsMode (typeClause registry d)
  frame : KeepsMode frame
  block : KeepsMode (block registry)
  statement : KeepsMode (statement registry)
  expression : KeepsMode (expression registry)
  arguments : KeepsMode (arguments registry)
  trailers : ∀ e, KeepsMode (trailers registry e)
  stateReference : ∀ d keyword, KeepsMode (stateReference registry d keyword)

theorem modeKept (registry : Registry) : ModeKept registry where
  classes := .of_sound fun _ => yields_classes
  classDeclaration := .of_sound fun _ => yields_classDeclaration
  members := .of_sound fun _ => yields_members
  member := .of_sound fun _ => yields_member
  specCases := .of_sound fun _ => yields_specCases
  specClause d := .of_sound fun _ => yields_specClause d
  typeClause d := .of_sound fun _ => yields_typeClause d
  frame := .of_sound fun _ => yields_frame
  block := .of_sound fun _ => yields_blockOf yields_statement
  statement := .of_sound fun _ => yields_statement
  expression := .of_sound fun _ => yields_expression
  arguments := .of_sound fun _ => yields_arguments
  trailers e c :=
    (sound_selections (sound_expression registry c.reserving) e c rfl).passes.reserving
  stateReference d keyword := .of_sound fun _ => yields_stateReference d keyword

end Parser

/-- In the tree of a text, a name that is a registered keyword stands in the body of a clause. -/
theorem inClause_of_reserved {registry : Registry} {source : String}
    {slot : CompilationUnit.Slot} {layers : List Expr.Layer} {n : Name}
    (tree : (parseUnit registry source).unit = slot.fill (Expr.wrap layers (.name n)))
    (reserved : registry.get? n.text ≠ none) : slot.member.InClause registry := by
  have registered := registered_parseUnit registry source
  have free : (parseUnit registry source).unit.Free registry true := by
    unfold parseUnit
    split
    · next tokens _ =>
      obtain ⟨-, -, -, free⟩ := Cursor.exists_ledger_parseUnit registry { rest := tokens }
      exact free
    · exact List.forall_mem_nil _
  rw [tree] at registered free
  have class_ : slot.fillClass (Expr.wrap layers (.name n)) ∈
      (slot.fill (Expr.wrap layers (.name n))).classes :=
    List.mem_append_right _ List.mem_cons_self
  have member : slot.member.fill (Expr.wrap layers (.name n)) ∈
      (slot.fillClass (Expr.wrap layers (.name n))).members :=
    List.mem_append_right _ List.mem_cons_self
  refine (slot.member.inClause_or_free (registered _ class_ _ member)
    (free _ class_ _ member)).resolve_right fun all => ?_
  exact reserved (Expr.Free.of_wrap all rfl)

/-- The discipline of keywords. Every part of a unit is read in the mode that was found and
leaves it in force, also where it fails. So in the tree of a text, whatever is wrong with it, a
name that is a registered keyword stands in the body of a clause of a class, of a specification
or among statements. There every word may be a name: with any words for its names, keywords of
the registry among them, a body that is derived in either mode is read, and so is a frame. -/
theorem keyword_discipline (registry : Registry) :
    Parser.ModeKept registry ∧
    (∀ (source : String) (slot : CompilationUnit.Slot) (layers : List Expr.Layer) (n : Name),
      (parseUnit registry source).unit = slot.fill (Expr.wrap layers (.name n)) →
        registry.get? n.text ≠ none → slot.member.InClause registry) ∧
    ∀ (f : String → String) (on : Bool) (w : List TokenKind) (e : Expr),
      Derives registry on .implication w e →
        ∀ (mode : Bool) (d : Descriptor) (keyword : String) (k : List TokenKind),
          Parser.Parses mode (Parser.specClause registry d)
            (.identifier keyword :: (w.map (·.mapWord f) ++ [.symbol .semicolon])) k
            (·.unspanned = ⟨d, (e.mapWords f).unspanned, .origin⟩) ∧
          ∀ frame : Option Frame,
            (∀ g ∈ frame, d.kind = .typeClause .constraint ∧ g.Nonempty) →
            Parser.Parses mode (Parser.typeClause registry d)
              (.identifier keyword ::
                (w.map (·.mapWord f) ++ (frame.map (·.words)).getD [] ++ [.symbol .semicolon])) k
              (·.unspanned = ⟨d, (e.mapWords f).unspanned, frame.map (·.unspanned), .origin⟩) :=
  ⟨Parser.modeKept registry, fun _ _ _ _ => inClause_of_reserved,
    fun f _ _ _ derived _ d _ _ =>
      ⟨Parser.parses_specClause_derived d (derived.mapWords (f := f)),
        fun _ hframe => Parser.parses_typeClause_derived (derived.mapWords (f := f)) hframe⟩⟩

end Contracts
