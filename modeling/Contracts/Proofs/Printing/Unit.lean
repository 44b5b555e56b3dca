import Contracts.Parser.Unit
import Contracts.Proofs.Printing.Expression

/-! Printing units. Each part of a unit has the tokens that it is written with and the
condition that it can be written: names are words of the language, outside clauses names
that are read as such are no clause keywords, and every clause carries the standard
descriptor of a kind that belongs in its place. -/

namespace Contracts

/-- Names that are no clause keywords. -/
def IsFreeName (word : String) : Prop := IsName word ∧ Registry.standard.get? word = none

instance (word : String) : Decidable (IsFreeName word) := inferInstanceAs (Decidable (_ ∧ _))

/-- The descriptor is the standard one of its kind. -/
def Descriptor.Standard (d : Descriptor) : Prop := d = .ofKind d.kind

/-- The value behind `=`, if there is one. -/
def initWords : Option Expr → List TokenKind
  | none => []
  | some e => .symbol .assign :: e.words .implication

/-- The value is written where clause keywords are reserved. -/
def InitWritable (init : Option Expr) : Prop := ∀ e ∈ init, e.Writable true

/-! ### Variables and clauses -/

namespace Variable

def unspanned (v : Variable) : Variable :=
  ⟨v.type.unspanned, v.name.unspanned, v.init.map (·.unspanned), .origin⟩

def words (v : Variable) : List TokenKind :=
  .identifier v.type.text :: .identifier v.name.text :: (initWords v.init ++ [.symbol .semicolon])

structure Writable (v : Variable) : Prop where
  type : IsFreeName v.type.text
  name : IsName v.name.text
  init : InitWritable v.init

end Variable

namespace SpecClause

def unspanned (c : SpecClause) : SpecClause := ⟨c.descriptor, c.expr.unspanned, .origin⟩

def words (c : SpecClause) : List TokenKind :=
  .identifier c.descriptor.keyword :: (c.expr.words .implication ++ [.symbol .semicolon])

/-- In its body, clause keywords are names. -/
structure Writable (c : SpecClause) : Prop where
  descriptor : c.descriptor.Standard
  expr : c.expr.Writable false

end SpecClause

/-! ### Statements -/

namespace Statement

def unspanned : Statement → Statement
  | declare decl => declare decl.unspanned
  | ghost d decl => ghost d decl.unspanned
  | assign target value _ => assign target.unspanned value.unspanned .origin
  | labeled label body _ => labeled label.unspanned body.unspanned .origin
  | clause c => clause c.unspanned
  | leave value _ => leave (value.map (·.unspanned)) .origin
  | expr e => expr e.unspanned
  | block statements _ => block (listUnspanned statements) .origin
  | missing _ => missing .origin
where
  listUnspanned : List Statement → List Statement
    | [] => []
    | s :: ss => s.unspanned :: listUnspanned ss

theorem listUnspanned_eq (ss : List Statement) :
    unspanned.listUnspanned ss = ss.map unspanned := by
  induction ss with
  | nil => rfl
  | cons s ss ih => rw [unspanned.listUnspanned, ih, List.map_cons]

def words : Statement → List TokenKind
  | declare decl => decl.words
  | ghost d decl => .identifier d.keyword :: decl.words
  | assign target value _ =>
    .identifier target.text :: .symbol .assign ::
      (value.words .implication ++ [.symbol .semicolon])
  | labeled label body _ => .identifier label.text :: .symbol .colon :: body.words
  | clause c => c.words
  | leave value _ =>
    .reserved .returnWord ::
      ((value.map (·.words .implication)).getD [] ++ [.symbol .semicolon])
  | expr e => e.words .implication ++ [.symbol .semicolon]
  | block statements _ => .symbol .leftBrace :: (listWords statements ++ [.symbol .rightBrace])
  | missing _ => []
where
  listWords : List Statement → List TokenKind
    | [] => []
    | s :: ss => s.words ++ listWords ss

def Writable : Statement → Prop
  | declare decl => decl.Writable
  | ghost d decl => d = .ofKind .declaration ∧ decl.Writable
  | assign target value _ => IsFreeName target.text ∧ value.Writable true
  | labeled label body _ => IsFreeName label.text ∧ body.Writable
  | clause c => c.Writable ∧ ∃ keyword, c.descriptor.kind = .statement keyword
  | leave value _ => InitWritable value
  | expr e => e.Writable true
  | block statements _ => listWritable statements
  | missing _ => False
where
  listWritable : List Statement → Prop
    | [] => True
    | s :: ss => s.Writable ∧ listWritable ss

end Statement

namespace Block

def unspanned (b : Block) : Block := ⟨b.statements.map (·.unspanned), .origin⟩

def words (b : Block) : List TokenKind :=
  .symbol .leftBrace :: (Statement.words.listWords b.statements ++ [.symbol .rightBrace])

end Block

/-! ### Members -/

namespace Field

def unspanned (f : Field) : Field :=
  ⟨f.type.unspanned, f.name.unspanned, f.init.map (·.unspanned), f.ghost, .origin⟩

def words (f : Field) : List TokenKind :=
  (f.ghost.map fun d => TokenKind.identifier d.keyword).toList ++
    .identifier f.type.text :: .identifier f.name.text ::
      (initWords f.init ++ [.symbol .semicolon])

structure Writable (f : Field) : Prop where
  ghost : ∀ d ∈ f.ghost, d = .ofKind .declaration
  type : IsFreeName f.type.text
  also : f.type.text ≠ Parser.alsoWord
  name : IsName f.name.text
  init : InitWritable f.init

end Field

namespace Frame

def unspanned : Frame → Frame
  | everything _ => everything .origin
  | methods names => methods (names.map (·.unspanned))

def words : Frame → List TokenKind
  | everything _ => [.identifier Parser.frameWord, .specWord Parser.everythingWord]
  | methods names =>
    .identifier Parser.frameWord ::
      separated (.symbol .comma) (fun n => [.identifier n.text]) names

def Writable : Frame → Prop
  | everything _ => True
  | methods names => names ≠ [] ∧ ∀ n ∈ names, IsName n.text

end Frame

namespace TypeClause

def unspanned (c : TypeClause) : TypeClause :=
  ⟨c.descriptor, c.expr.unspanned, c.frame.map (·.unspanned), .origin⟩

def words (c : TypeClause) : List TokenKind :=
  .identifier c.descriptor.keyword ::
    (c.expr.words .implication ++ (c.frame.map (·.words)).getD [] ++ [.symbol .semicolon])

/-- In its body, clause keywords are names; only a constraint has a frame. -/
structure Writable (c : TypeClause) : Prop where
  descriptor : c.descriptor.Standard
  kind : ∃ keyword, c.descriptor.kind = .typeClause keyword
  expr : c.expr.Writable false
  frame : ∀ f ∈ c.frame, f.Writable ∧ c.descriptor.kind = .typeClause .constraint

end TypeClause

namespace Param

def unspanned (p : Param) : Param := ⟨p.type.unspanned, p.name.unspanned, .origin⟩

def words (p : Param) : List TokenKind := [.identifier p.type.text, .identifier p.name.text]

structure Writable (p : Param) : Prop where
  type : IsFreeName p.type.text
  name : IsName p.name.text

end Param

namespace SpecCase

def unspanned (c : SpecCase) : SpecCase := ⟨c.clauses.map (·.unspanned), .origin⟩

def words (c : SpecCase) : List TokenKind := c.clauses.flatMap (·.words)

structure Writable (c : SpecCase) : Prop where
  nonempty : c.clauses ≠ []
  clauses : ∀ s ∈ c.clauses, s.Writable ∧ ∃ keyword, s.descriptor.kind = .methodSpec keyword

end SpecCase

namespace Method

def unspanned (m : Method) : Method :=
  ⟨m.returnType.unspanned, m.name.unspanned, m.params.map (·.unspanned),
    m.cases.map (·.unspanned), m.body.unspanned, .origin⟩

def words (m : Method) : List TokenKind :=
  separated (.identifier Parser.alsoWord) (·.words) m.cases ++
    .identifier m.returnType.text :: .identifier m.name.text ::
      (parens (separated (.symbol .comma) (·.words) m.params) ++ m.body.words)

structure Writable (m : Method) : Prop where
  returnType : IsFreeName m.returnType.text
  also : m.returnType.text ≠ Parser.alsoWord
  name : IsName m.name.text
  params : ∀ p ∈ m.params, p.Writable
  cases : ∀ c ∈ m.cases, c.Writable
  body : Statement.Writable.listWritable m.body.statements

end Method

namespace Member

def unspanned : Member → Member
  | field f => field f.unspanned
  | clause c => clause c.unspanned
  | method m => method m.unspanned

def words : Member → List TokenKind
  | field f => f.words
  | clause c => c.words
  | method m => m.words

def Writable : Member → Prop
  | field f => f.Writable
  | clause c => c.Writable
  | method m => m.Writable

end Member

/-! ### Units -/

namespace Class

def unspanned (c : Class) : Class := ⟨c.name.unspanned, c.members.map (·.unspanned), .origin⟩

def words (c : Class) : List TokenKind :=
  .reserved .classWord :: .identifier c.name.text :: .symbol .leftBrace ::
    (c.members.flatMap (·.words) ++ [.symbol .rightBrace])

structure Writable (c : Class) : Prop where
  name : IsName c.name.text
  members : ∀ m ∈ c.members, m.Writable

end Class

namespace CompilationUnit

def unspanned (u : CompilationUnit) : CompilationUnit := ⟨u.classes.map (·.unspanned)⟩

def words (u : CompilationUnit) : List TokenKind := u.classes.flatMap (·.words)

def Writable (u : CompilationUnit) : Prop := ∀ c ∈ u.classes, c.Writable

/-- The source text of the unit: its tokens with a blank behind each of them. -/
def print (u : CompilationUnit) : String := .ofList (spaced u.words)

end CompilationUnit

/-! ### What is written can be spelled -/

theorem spellable_keyword {kind : ClauseKind} (h : kind.stateKeyword? = none) :
    (TokenKind.identifier kind.keyword).Spellable := by
  cases kind with
  | state => cases h
  | declaration => decide
  | _ keyword => cases keyword <;> decide

/-- A standard descriptor has the keyword of its kind. -/
theorem Descriptor.Standard.keyword {d : Descriptor} (h : d.Standard) :
    d.keyword = d.kind.keyword := by
  rw [h]
  rfl

theorem spellable_initWords {init : Option Expr} (h : InitWritable init) :
    ∀ k ∈ initWords init, k.Spellable := by
  cases init with
  | none => exact fun _ hk => nomatch hk
  | some e =>
    rw [initWords, List.forall_mem_cons]
    exact ⟨trivial, e.spellable_words _ (h e rfl)⟩

theorem Variable.Writable.spellable {v : Variable} (h : v.Writable) :
    ∀ k ∈ v.words, k.Spellable := by
  simp only [Variable.words, List.forall_mem_cons, List.forall_mem_append]
  exact ⟨h.type.1, h.name, spellable_initWords h.init, trivial, fun _ hk => nomatch hk⟩

theorem SpecClause.Writable.spellable {c : SpecClause} (h : c.Writable)
    (hkind : c.descriptor.kind.stateKeyword? = none) : ∀ k ∈ c.words, k.Spellable := by
  simp only [SpecClause.words, List.forall_mem_cons, List.forall_mem_append]
  refine ⟨?_, c.expr.spellable_words _ h.expr, trivial, fun _ hk => nomatch hk⟩
  rw [h.descriptor.keyword]
  exact spellable_keyword hkind

namespace Statement

theorem spellable_words : ∀ s : Statement, s.Writable → ∀ k ∈ s.words, k.Spellable
  | declare decl, h => Variable.Writable.spellable h
  | ghost d decl, h => by
    rw [words, List.forall_mem_cons, h.1]
    exact ⟨@spellable_keyword .declaration rfl, h.2.spellable⟩
  | assign target value _, h => by
    simp only [words, List.forall_mem_cons, List.forall_mem_append]
    exact ⟨h.1.1, trivial, value.spellable_words _ h.2, trivial, fun _ hk => nomatch hk⟩
  | labeled label body _, h => by
    simp only [words, List.forall_mem_cons]
    exact ⟨h.1.1, trivial, spellable_words body h.2⟩
  | clause c, h => by
    obtain ⟨hc, keyword, hkind⟩ := h
    exact hc.spellable (by rw [hkind]; rfl)
  | leave value _, h => by
    simp only [words, List.forall_mem_cons, List.forall_mem_append]
    refine ⟨trivial, ?_, trivial, fun _ hk => nomatch hk⟩
    cases value with
    | none => exact fun _ hk => nomatch hk
    | some e => exact e.spellable_words _ (h e rfl)
  | expr e, h => by
    simp only [words, List.forall_mem_cons, List.forall_mem_append]
    exact ⟨e.spellable_words _ h, trivial, fun _ hk => nomatch hk⟩
  | block statements _, h => by
    simp only [words, List.forall_mem_cons, List.forall_mem_append]
    exact ⟨trivial, spellable_listWords statements h, trivial, fun _ hk => nomatch hk⟩
  | missing _, h => h.elim
where
  spellable_listWords : ∀ ss : List Statement, Writable.listWritable ss →
      ∀ k ∈ words.listWords ss, k.Spellable
    | [], _ => fun _ hk => nomatch hk
    | s :: ss, h => by
      rw [words.listWords, List.forall_mem_append]
      exact ⟨spellable_words s h.1, spellable_listWords ss h.2⟩

end Statement

theorem Field.Writable.spellable {f : Field} (h : f.Writable) : ∀ k ∈ f.words, k.Spellable := by
  simp only [Field.words, List.forall_mem_cons, List.forall_mem_append]
  refine ⟨?_, h.type.1, h.name, spellable_initWords h.init, trivial, fun _ hk => nomatch hk⟩
  intro k hk
  obtain ⟨d, hd, rfl⟩ := Option.map_eq_some_iff.1 (Option.mem_toList.1 hk)
  rw [h.ghost d hd]
  exact @spellable_keyword .declaration rfl

theorem Frame.Writable.spellable {f : Frame} (h : f.Writable) : ∀ k ∈ f.words, k.Spellable := by
  have hfor : (TokenKind.identifier Parser.frameWord).Spellable := by decide
  cases f with
  | everything _ =>
    simp only [Frame.words, List.forall_mem_cons]
    exact ⟨hfor, by decide, fun _ hk => nomatch hk⟩
  | methods names =>
    rw [Frame.words, List.forall_mem_cons]
    refine ⟨hfor, spellable_separated trivial fun n hn => ?_⟩
    rw [List.forall_mem_singleton]
    exact h.2 n hn

theorem TypeClause.Writable.spellable {c : TypeClause} (h : c.Writable) :
    ∀ k ∈ c.words, k.Spellable := by
  obtain ⟨keyword, hkind⟩ := h.kind
  simp only [TypeClause.words, List.forall_mem_cons, List.forall_mem_append]
  refine ⟨?_, ⟨c.expr.spellable_words _ h.expr, ?_⟩, trivial, fun _ hk => nomatch hk⟩
  · rw [h.descriptor.keyword, hkind]
    exact spellable_keyword rfl
  · cases hframe : c.frame with
    | none => exact fun _ hk => nomatch hk
    | some f => exact (h.frame f hframe).1.spellable

theorem SpecCase.Writable.spellable {c : SpecCase} (h : c.Writable) :
    ∀ k ∈ c.words, k.Spellable := by
  intro k hk
  obtain ⟨s, hs, hk⟩ := List.mem_flatMap.1 hk
  obtain ⟨hwritable, keyword, hkind⟩ := h.clauses s hs
  exact hwritable.spellable (by rw [hkind]; rfl) k hk

theorem Method.Writable.spellable {m : Method} (h : m.Writable) : ∀ k ∈ m.words, k.Spellable := by
  have halso : (TokenKind.identifier Parser.alsoWord).Spellable := by decide
  simp only [Method.words, Block.words, List.forall_mem_cons, List.forall_mem_append]
  refine ⟨spellable_separated halso fun c hc => (h.cases c hc).spellable, h.returnType.1, h.name,
    spellable_parens (spellable_separated trivial fun p hp => ?_), trivial,
    Statement.spellable_words.spellable_listWords _ h.body, trivial, fun _ hk => nomatch hk⟩
  simp only [Param.words, List.forall_mem_cons]
  exact ⟨(h.params p hp).type.1, (h.params p hp).name, fun _ hk => nomatch hk⟩

theorem Member.Writable.spellable : ∀ {m : Member}, m.Writable → ∀ k ∈ m.words, k.Spellable
  | .field _, h => Field.Writable.spellable h
  | .clause _, h => TypeClause.Writable.spellable h
  | .method _, h => Method.Writable.spellable h

theorem Class.Writable.spellable {c : Class} (h : c.Writable) : ∀ k ∈ c.words, k.Spellable := by
  simp only [Class.words, List.forall_mem_cons, List.forall_mem_append]
  refine ⟨trivial, h.name, trivial, ?_, trivial, fun _ hk => nomatch hk⟩
  intro k hk
  obtain ⟨m, hm, hk⟩ := List.mem_flatMap.1 hk
  exact (h.members m hm).spellable k hk

theorem CompilationUnit.Writable.spellable {u : CompilationUnit} (h : u.Writable) :
    ∀ k ∈ u.words, k.Spellable := by
  intro k hk
  obtain ⟨c, hc, hk⟩ := List.mem_flatMap.1 hk
  exact (h c hc).spellable k hk

end Contracts
