import Contracts.Proofs.Typing.Balance

/-! Types that are filled in. One tree fills another when it is the same with more types
recorded. A check fills the tree that it is given, and changes nothing else of it, so between
a tree and what a check makes of it stand the trees in which only some of the types that the
check finds are recorded. -/

namespace Contracts

/-! ### Statements -/

inductive Variable.Fills : Variable → Variable → Prop
  | intro (type name : Name) {init init' : Option Expr} (span : Span) :
    Option.Rel Expr.Fills init init' →
      Variable.Fills ⟨type, name, init, span⟩ ⟨type, name, init', span⟩

inductive SpecClause.Fills : SpecClause → SpecClause → Prop
  | intro (d : Descriptor) {e e' : Expr} (span : Span) : e.Fills e' →
    SpecClause.Fills ⟨d, e, span⟩ ⟨d, e', span⟩

/-- The second statement is the first with more types recorded. -/
inductive Statement.Fills : Statement → Statement → Prop
  | declare {v v' : Variable} : v.Fills v' → Statement.Fills (.declare v) (.declare v')
  | ghost (d : Descriptor) {v v' : Variable} : v.Fills v' →
    Statement.Fills (.ghost d v) (.ghost d v')
  | assign (target : Name) {e e' : Expr} (span : Span) : e.Fills e' →
    Statement.Fills (.assign target e span) (.assign target e' span)
  | labeled (label : Name) {s s' : Statement} (span : Span) : Statement.Fills s s' →
    Statement.Fills (.labeled label s span) (.labeled label s' span)
  | clause {c c' : SpecClause} : c.Fills c' → Statement.Fills (.clause c) (.clause c')
  | leave {value value' : Option Expr} (span : Span) : Option.Rel Expr.Fills value value' →
    Statement.Fills (.leave value span) (.leave value' span)
  | expr {e e' : Expr} : e.Fills e' → Statement.Fills (.expr e) (.expr e')
  | block {ss ss' : List Statement} (span : Span) : List.Forall₂ Statement.Fills ss ss' →
    Statement.Fills (.block ss span) (.block ss' span)
  | missing (span : Span) : Statement.Fills (.missing span) (.missing span)

/-! ### Members -/

inductive Field.Fills : Field → Field → Prop
  | intro (type name : Name) {init init' : Option Expr} (ghost : Option Descriptor) (span : Span) :
    Option.Rel Expr.Fills init init' →
      Field.Fills ⟨type, name, init, ghost, span⟩ ⟨type, name, init', ghost, span⟩

inductive TypeClause.Fills : TypeClause → TypeClause → Prop
  | intro (d : Descriptor) {e e' : Expr} (frame : Option Frame) (span : Span) : e.Fills e' →
    TypeClause.Fills ⟨d, e, frame, span⟩ ⟨d, e', frame, span⟩

inductive SpecCase.Fills : SpecCase → SpecCase → Prop
  | intro {cs cs' : List SpecClause} (span : Span) : List.Forall₂ SpecClause.Fills cs cs' →
    SpecCase.Fills ⟨cs, span⟩ ⟨cs', span⟩

inductive Method.Fills : Method → Method → Prop
  | intro (returnType name : Name) (params : List Param) {cases cases' : List SpecCase}
    {ss ss' : List Statement} (bodySpan span : Span) : List.Forall₂ SpecCase.Fills cases cases' →
      List.Forall₂ Statement.Fills ss ss' →
      Method.Fills ⟨returnType, name, params, cases, ⟨ss, bodySpan⟩, span⟩
        ⟨returnType, name, params, cases', ⟨ss', bodySpan⟩, span⟩

inductive Member.Fills : Member → Member → Prop
  | field {f f' : Field} : f.Fills f' → Member.Fills (.field f) (.field f')
  | clause {c c' : TypeClause} : c.Fills c' → Member.Fills (.clause c) (.clause c')
  | method {m m' : Method} : m.Fills m' → Member.Fills (.method m) (.method m')

/-! ### Units -/

inductive Class.Fills : Class → Class → Prop
  | intro (name : Name) {ms ms' : List Member} (span : Span) : List.Forall₂ Member.Fills ms ms' →
    Class.Fills ⟨name, ms, span⟩ ⟨name, ms', span⟩

/-- The second unit is the first with more types recorded. -/
def CompilationUnit.Fills (u v : CompilationUnit) : Prop :=
  List.Forall₂ Class.Fills u.classes v.classes

/-! ### Both ways -/

section

variable {α : Type} {R : α → α → Prop}

theorem optionRel_refl (h : ∀ a, R a a) : ∀ o : Option α, Option.Rel R o o
  | none => .none
  | some a => .some (h a)

theorem optionRel_antisymm (h : ∀ {a b}, R a b → R b a → a = b) :
    ∀ {o o' : Option α}, Option.Rel R o o' → Option.Rel R o' o → o = o'
  | _, _, .none, _ => rfl
  | _, _, .some hab, .some hba => congrArg some (h hab hba)

theorem forall₂_antisymm (h : ∀ {a b}, R a b → R b a → a = b) :
    ∀ {as bs : List α}, List.Forall₂ R as bs → List.Forall₂ R bs as → as = bs
  | _, _, .nil, _ => rfl
  | _, _, .cons hab habs, .cons hba hbas => congrArg₂ _ (h hab hba) (forall₂_antisymm h habs hbas)

end

/-- Types that are recorded in both are the same. -/
theorem Expr.Kept.antisymm {old new : Option Ty} (h : Kept old new) (h' : Kept new old) :
    old = new := by
  cases old with
  | none =>
    cases new with
    | none => rfl
    | some type => exact h' type rfl
  | some type => exact (h type rfl).symm

mutual

theorem Expr.Fills.antisymm : ∀ {e e' : Expr}, e.Fills e' → e'.Fills e → e = e'
  | .name _, _, .name _, _ => rfl
  | .int _ _, _, .int _ _, _ => rfl
  | .bool _ _, _, .bool _ _, _ => rfl
  | .result _, _, .result _, _ => rfl
  | .binary _ _ _ _, _, .binary _ _ hl hr, .binary _ _ hl' hr' => by
    rw [hl.antisymm hl', hr.antisymm hr']
  | .unary _ _ _, _, .unary _ _ h, .unary _ _ h' => by rw [h.antisymm h']
  | .field _ _ _, _, .field _ _ h, .field _ _ h' => by rw [h.antisymm h']
  | .call _ _ _, _, .call _ h hs, .call _ h' hs' => by
    rw [h.antisymm h', Expr.Fills.antisymm_list hs hs']
  | .state _ _ _, _, .state _ h hs, .state _ h' hs' => by
    rw [h.antisymm h', Expr.Fills.antisymm_list hs hs']
  | .missing _, _, .missing _, _ => rfl

theorem Expr.Fills.antisymm_list : ∀ {es es' : List Expr}, List.Forall₂ Expr.Fills es es' →
    List.Forall₂ Expr.Fills es' es → es = es'
  | [], _, .nil, _ => rfl
  | _ :: _, _, .cons h hs, .cons h' hs' => by rw [h.antisymm h', Expr.Fills.antisymm_list hs hs']

end

theorem Variable.Fills.refl (v : Variable) : v.Fills v := .intro _ _ _ (optionRel_refl .refl _)

theorem Variable.Fills.antisymm : ∀ {v v' : Variable}, v.Fills v' → v'.Fills v → v = v'
  | _, _, .intro _ _ _ h, .intro _ _ _ h' => by rw [optionRel_antisymm Expr.Fills.antisymm h h']

theorem SpecClause.Fills.refl (c : SpecClause) : c.Fills c := .intro _ _ (.refl _)

theorem SpecClause.Fills.antisymm : ∀ {c c' : SpecClause}, c.Fills c' → c'.Fills c → c = c'
  | _, _, .intro _ _ h, .intro _ _ h' => by rw [h.antisymm h']

mutual

theorem Statement.Fills.refl : ∀ s : Statement, s.Fills s
  | .declare v => .declare (.refl v)
  | .ghost d v => .ghost d (.refl v)
  | .assign target e span => .assign target span (.refl e)
  | .labeled label s span => .labeled label span (.refl s)
  | .clause c => .clause (.refl c)
  | .leave value span => .leave span (optionRel_refl .refl value)
  | .expr e => .expr (.refl e)
  | .block ss span => .block span (Statement.Fills.refl_list ss)
  | .missing span => .missing span

theorem Statement.Fills.refl_list : ∀ ss : List Statement, List.Forall₂ Statement.Fills ss ss
  | [] => .nil
  | s :: ss => .cons (.refl s) (Statement.Fills.refl_list ss)

end

mutual

theorem Statement.Fills.antisymm : ∀ {s s' : Statement}, s.Fills s' → s'.Fills s → s = s'
  | .declare _, _, .declare h, .declare h' => by rw [h.antisymm h']
  | .ghost _ _, _, .ghost _ h, .ghost _ h' => by rw [h.antisymm h']
  | .assign _ _ _, _, .assign _ _ h, .assign _ _ h' => by rw [h.antisymm h']
  | .labeled _ _ _, _, .labeled _ _ h, .labeled _ _ h' => by rw [h.antisymm h']
  | .clause _, _, .clause h, .clause h' => by rw [h.antisymm h']
  | .leave _ _, _, .leave _ h, .leave _ h' => by rw [optionRel_antisymm Expr.Fills.antisymm h h']
  | .expr _, _, .expr h, .expr h' => by rw [h.antisymm h']
  | .block _ _, _, .block _ h, .block _ h' => by rw [Statement.Fills.antisymm_list h h']
  | .missing _, _, .missing _, _ => rfl

theorem Statement.Fills.antisymm_list : ∀ {ss ss' : List Statement},
    List.Forall₂ Statement.Fills ss ss' → List.Forall₂ Statement.Fills ss' ss → ss = ss'
  | [], _, .nil, _ => rfl
  | _ :: _, _, .cons h hs, .cons h' hs' => by
    rw [h.antisymm h', Statement.Fills.antisymm_list hs hs']

end

theorem Member.Fills.refl : ∀ m : Member, m.Fills m
  | .field _ => .field (.intro _ _ _ _ (optionRel_refl .refl _))
  | .clause _ => .clause (.intro _ _ _ (.refl _))
  | .method m => .method (.intro _ _ _ _ _
      (List.forall₂_same.2 fun _ _ => .intro _ (List.forall₂_same.2 fun _ _ => .refl _))
      (Statement.Fills.refl_list m.body.statements))

theorem SpecCase.Fills.antisymm : ∀ {c c' : SpecCase}, c.Fills c' → c'.Fills c → c = c'
  | _, _, .intro _ h, .intro _ h' => by rw [forall₂_antisymm SpecClause.Fills.antisymm h h']

theorem Member.Fills.antisymm : ∀ {m m' : Member}, m.Fills m' → m'.Fills m → m = m'
  | _, _, .field (.intro _ _ _ _ h), .field (.intro _ _ _ _ h') => by
    rw [optionRel_antisymm Expr.Fills.antisymm h h']
  | _, _, .clause (.intro _ _ _ h), .clause (.intro _ _ _ h') => by rw [h.antisymm h']
  | _, _, .method (.intro _ _ _ _ _ h k), .method (.intro _ _ _ _ _ h' k') => by
    rw [forall₂_antisymm SpecCase.Fills.antisymm h h', Statement.Fills.antisymm_list k k']

theorem Class.Fills.refl (c : Class) : c.Fills c :=
  .intro _ _ (List.forall₂_same.2 fun _ _ => .refl _)

theorem Class.Fills.antisymm : ∀ {c c' : Class}, c.Fills c' → c'.Fills c → c = c'
  | _, _, .intro _ _ h, .intro _ _ h' => by rw [forall₂_antisymm Member.Fills.antisymm h h']

theorem CompilationUnit.Fills.refl (u : CompilationUnit) : u.Fills u :=
  List.forall₂_same.2 fun _ _ => .refl _

/-! ### Checks fill trees -/

namespace Check

variable {rules : Rules}

theorem fills_inferInit (scope : Scope) (expected : Ty) (init : Option Expr) :
    Returns (Option.Rel Expr.Fills init) (inferInit rules scope expected init) := by
  cases init with
  | none => exact .pure .none
  | some e => exact .bind (fills_inferAs scope _ e) fun _ h => .pure (.some h)

theorem fills_inferClause (scope : Scope) (d : Descriptor) (e : Expr) :
    Returns e.Fills (inferClause rules scope d e) :=
  .bind (.within _ (fills_inferAs scope _ e)) fun _ h => .pure h

theorem fills_checkVariable (scope : Scope) (v : Variable) :
    Returns (fun r => v.Fills r.1) (checkVariable rules scope v) :=
  .bind (.any _) fun _ _ => .bind (fills_inferInit scope _ v.init) fun _ h =>
    .bind (.any _) fun _ _ => .pure (.intro _ _ _ h)

theorem fills_checkSpecClause (scope : Scope) (c : SpecClause) :
    Returns c.Fills (checkSpecClause rules scope c) := by
  refine .bind (.any _) fun registered _ => ?_
  split
  · exact .bind (fills_inferClause scope _ _) fun _ h => .pure (.intro _ _ h)
  · exact .pure (.refl c)

theorem fills_checkLeave (scope : Scope) (value : Option Expr) (span : Span) :
    Returns (Option.Rel Expr.Fills value) (checkLeave rules scope value span) := by
  unfold checkLeave
  cases value with
  | none =>
    dsimp only
    split
    · exact .bind (.any _) fun _ _ => .pure .none
    · exact .pure .none
  | some e =>
    dsimp only
    split
    · exact .bind (fills_infer scope e) fun _ h => .bind (.any _) fun _ _ => .pure (.some h)
    · exact .bind (fills_inferAs scope _ e) fun _ h => .pure (.some h)

mutual

theorem fills_checkStatement (rules : Rules) (scope : Scope) :
    ∀ s : Statement, Returns (fun r => s.Fills r.1) (checkStatement rules scope s)
  | .declare v => .bind (fills_checkVariable scope v) fun _ h => .pure (.declare h)
  | .ghost d v => by
    refine .bind (.any _) fun registered _ => ?_
    split
    · exact .bind (.within _ (fills_checkVariable scope v)) fun _ h => .pure (.ghost d h)
    · exact .pure (.refl _)
  | .assign target e span =>
    .bind (.any _) fun _ _ =>
      .bind (fills_inferAs scope _ e) fun _ h => .pure (.assign target span h)
  | .labeled label s span =>
    .bind (.any _) fun inner _ => .bind (fills_checkStatement rules inner s) fun _ h =>
      .pure (.labeled label span h)
  | .clause c => .bind (fills_checkSpecClause scope c) fun _ h => .pure (.clause h)
  | .leave value span => .bind (fills_checkLeave scope value span) fun _ h => .pure (.leave span h)
  | .expr e => .bind (fills_infer scope e) fun _ h => .pure (.expr h)
  | .block ss span => .bind (fills_checkStatements rules scope ss) fun _ h => .pure (.block span h)
  | .missing span => .pure (.missing span)

theorem fills_checkStatements (rules : Rules) (scope : Scope) :
    ∀ ss : List Statement,
      Returns (List.Forall₂ Statement.Fills ss) (checkStatements rules scope ss)
  | [] => .pure .nil
  | s :: ss =>
    .bind (fills_checkStatement rules scope s) fun r h =>
      .bind (fills_checkStatements rules r.2 ss) fun _ hs => .pure (.cons h hs)

end

theorem fills_checkField (scope : Scope) (f : Field) :
    Returns f.Fills (checkField rules scope f) := by
  obtain ⟨type, name, init, ghost, span⟩ := f
  unfold checkField
  cases init with
  | none => exact .pure (.intro _ _ _ _ .none)
  | some e =>
    cases ghost with
    | none => exact .bind (fills_inferInit scope _ _) fun _ h => .pure (.intro _ _ _ _ h)
    | some d =>
      refine .bind (.any _) fun registered _ => ?_
      split
      · exact .bind (.within _ (fills_inferInit scope _ _)) fun _ h => .pure (.intro _ _ _ _ h)
      · exact .pure (.intro _ _ _ _ (.some (.refl e)))

theorem fills_checkTypeClause (scope : Scope) (c : TypeClause) :
    Returns c.Fills (checkTypeClause rules scope c) := by
  refine .bind (.any _) fun registered _ => ?_
  split
  · exact .bind (fills_inferClause scope _ _) fun _ h => .bind (.any _) fun _ _ =>
      .pure (.intro _ _ _ h)
  · exact .pure (.intro _ _ _ (.refl _))

theorem fills_checkSpecClauses (scope : Scope) (cs : List SpecClause) :
    Returns (List.Forall₂ SpecClause.Fills cs) (checkSpecClauses rules scope cs) := by
  induction cs with
  | nil => exact .pure .nil
  | cons c cs ih =>
    exact .bind (fills_checkSpecClause scope c) fun _ h => .bind ih fun _ hs => .pure (.cons h hs)

theorem fills_checkCases (scope : Scope) (cs : List SpecCase) :
    Returns (List.Forall₂ SpecCase.Fills cs) (checkCases rules scope cs) := by
  induction cs with
  | nil => exact .pure .nil
  | cons c cs ih =>
    exact .bind (fills_checkSpecClauses scope c.clauses) fun _ h => .bind ih fun _ hs =>
      .pure (.cons (.intro _ h) hs)

theorem fills_checkMethod (className : String) (m : Method) :
    Returns m.Fills (checkMethod rules className m) :=
  .bind (.any _) fun _ _ => .bind (.any _) fun _ _ =>
    .bind (fills_checkCases _ m.cases) fun _ h =>
      .bind (fills_checkStatements rules _ m.body.statements) fun _ k =>
        .pure (.intro _ _ _ _ _ h k)

theorem fills_checkMember (className : String) (m : Member) :
    Returns m.Fills (checkMember rules className m) := by
  cases m with
  | field f => exact .bind (fills_checkField _ f) fun _ h => .pure (.field h)
  | clause c => exact .bind (fills_checkTypeClause _ c) fun _ h => .pure (.clause h)
  | method m => exact .bind (fills_checkMethod className m) fun _ h => .pure (.method h)

theorem fills_checkMembers (className : String) (ms : List Member) :
    Returns (List.Forall₂ Member.Fills ms) (checkMembers rules className ms) := by
  induction ms with
  | nil => exact .pure .nil
  | cons m ms ih =>
    exact .bind (fills_checkMember className m) fun _ h => .bind ih fun _ hs => .pure (.cons h hs)

theorem fills_checkClass (c : Class) : Returns c.Fills (checkClass rules c) :=
  .bind (fills_checkMembers _ c.members) fun _ h => .pure (.intro _ _ h)

theorem fills_checkClasses (cs : List Class) :
    Returns (fun r => List.Forall₂ Class.Fills cs r.2) (checkClasses rules cs) := by
  induction cs with
  | nil => exact .pure .nil
  | cons c cs ih =>
    refine .bind (fills_checkClass c) fun _ h => .bind (.any _) fun stop _ => ?_
    cases stop with
    | some e => exact .pure (.cons h (CompilationUnit.Fills.refl ⟨cs⟩))
    | none => exact .bind ih fun _ hs => .pure (.cons h hs)

end Check

/-- A check gives the unit back with more types recorded. -/
theorem Checker.fills_check (k : Checker) (u : CompilationUnit) : u.Fills (k.check u).unit := by
  rw [check_eq]
  split <;> exact Check.fills_checkClasses u.classes (k.collected u).2

end Contracts
