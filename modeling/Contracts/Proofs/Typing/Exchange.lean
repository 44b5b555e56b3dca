import Contracts.Proofs.Grammar.Fresh
import Contracts.Proofs.Typing.Recast

/-! The words `\old` and `\past`. With the standard registry nothing but a message tells one from
the other: when every `\past` of a unit is written as `\old`, the same references are wrong for the
same reasons. So of two units that differ in these words only, the same types are recorded, and
what is wrong in them is the same up to the word that is named (`exchange_old_past`). -/

namespace Contracts

/-- Every `\past` is written as `\old`. -/
def Recast.pastAsOld : Recast where
  word w := if w = .past then .old else w
  state d := if d = .ofKind (.state .past) then .ofKind (.state .old) else d

/-- The two words stand for each other in some places, and all else is the same. -/
def CompilationUnit.Exchanges (u v : CompilationUnit) : Prop :=
  u.recast .pastAsOld = v.recast .pastAsOld

/-! ### Messages -/

namespace TypeFault

/-- The fault with the names of the reference that has `\old` in the place of `\past`. -/
def pastAsOld : TypeFault → TypeFault
  | oneArgument keyword found => oneArgument (named keyword) found
  | wrongArgumentCount keyword expected found => wrongArgumentCount (named keyword) expected found
  | misplacedState form keyword clause =>
    misplacedState form (Recast.pastAsOld.word keyword) clause
  | fault => fault
where
  named (keyword : String) : String := if keyword = "\\past" then "\\old" else keyword

variable (fault : TypeFault)

theorem category_pastAsOld : fault.pastAsOld.category = fault.category := by
  cases fault <;> rfl

theorem code_pastAsOld : fault.pastAsOld.code = fault.code := by
  cases fault <;> rfl

theorem help_pastAsOld : fault.pastAsOld.help? = fault.help? := by
  cases fault <;> rfl

theorem pastAsOld_of_host (h : fault.category = .host) : fault.pastAsOld = fault := by
  cases fault with
  | oneArgument | wrongArgumentCount | misplacedState => nomatch h
  | _ => rfl

/-- The message names the reference, and it begins with the name. -/
def NamesPast : Prop :=
  ∃ rest, fault.message = "\\past" ++ rest ∧ fault.pastAsOld.message = "\\old" ++ rest

theorem namesPast_of_described {form : StateForm} (clause : Option String)
    (h : ∃ rest, form.describe .past = "\\past" ++ rest ∧ form.describe .old = "\\old" ++ rest) :
    (misplacedState form .past clause).NamesPast := by
  obtain ⟨rest, past, old⟩ := h
  refine ⟨rest ++ (" is not allowed in " ++ place clause), ?_, ?_⟩
  · show form.describe .past ++ " is not allowed in " ++ place clause = _
    rw [past, String.append_assoc, String.append_assoc]
  · show form.describe .old ++ " is not allowed in " ++ place clause = _
    rw [old, String.append_assoc, String.append_assoc]

theorem message_pastAsOld : fault.pastAsOld.message = fault.message ∨ fault.NamesPast := by
  cases fault with
  | oneArgument keyword found =>
    by_cases past : keyword = "\\past"
    · subst past
      exact .inr ⟨" expects one argument, found " ++ toString found, String.append_assoc .., by
        rw [← String.append_assoc]
        rfl⟩
    · exact .inl (by simp only [pastAsOld, pastAsOld.named, if_neg past])
  | wrongArgumentCount keyword expected found =>
    by_cases past : keyword = "\\past"
    · subst past
      refine .inr ⟨" expects " ++ expected.describe ++ ", found " ++ toString found, ?_, ?_⟩
      all_goals
        simp only [← String.append_assoc]
        rfl
    · exact .inl (by simp only [pastAsOld, pastAsOld.named, if_neg past])
  | misplacedState form keyword clause =>
    by_cases past : keyword = .past
    · subst past
      cases form with
      | entry => exact .inl rfl
      | unlabeled => exact .inr (namesPast_of_described clause ⟨" token with no label", rfl, rfl⟩)
      | labeled => exact .inr (namesPast_of_described clause ⟨" token with a label", rfl, rfl⟩)
    · exact .inl (by simp only [pastAsOld, Recast.pastAsOld, if_neg past])
  | _ => exact .inl rfl

end TypeFault

namespace TypeError

def pastAsOld (e : TypeError) : TypeError := { e with fault := e.fault.pastAsOld }

/-- Two errors of one kind at one place, whose messages begin with `\old` or `\past` where they
are not the same. -/
structure Rewords (e e' : TypeError) : Prop where
  span : e'.span = e.span
  category : e'.category = e.category
  code : e'.code = e.code
  help : e'.help? = e.help?
  message : e'.message = e.message ∨ ∃ word word' : StateKeyword, ∃ rest,
    word ≠ .pre ∧ word' ≠ .pre ∧
      e.message = word.keyword ++ rest ∧ e'.message = word'.keyword ++ rest

theorem rewords_of_pastAsOld_eq {e e' : TypeError} (h : e.pastAsOld = e'.pastAsOld) :
    e.Rewords e' := by
  obtain ⟨fault, span⟩ := e
  obtain ⟨fault', span'⟩ := e'
  obtain ⟨faults, spans⟩ := TypeError.mk.inj h
  dsimp only at faults spans
  have alike {α : Type} (f : TypeFault → α) (same : ∀ fault, f fault.pastAsOld = f fault) :
      f fault' = f fault := by
    rw [← same fault, faults, same]
  refine ⟨spans.symm, alike _ TypeFault.category_pastAsOld, alike _ TypeFault.code_pastAsOld,
    alike _ TypeFault.help_pastAsOld, ?_⟩
  show fault'.message = fault.message ∨ ∃ word word' : StateKeyword, ∃ rest,
    word ≠ .pre ∧ word' ≠ .pre ∧
      fault.message = word.keyword ++ rest ∧ fault'.message = word'.keyword ++ rest
  obtain same | ⟨rest, past, old⟩ := fault.message_pastAsOld <;>
    obtain same' | ⟨rest', past', old'⟩ := fault'.message_pastAsOld
  · exact .inl (by rw [← same, ← same', faults])
  · exact .inr ⟨.old, .past, rest', nofun, nofun, by rw [← same, faults, old']; rfl, past'⟩
  · exact .inr ⟨.past, .old, rest, nofun, nofun, past, by rw [← same', ← faults, old]; rfl⟩
  · have rests : rest = rest' := by
      rw [← String.append_right_inj "\\old", ← old, ← old', faults]
    exact .inl (by rw [past, past', rests])

end TypeError

/-! ### The exchange -/

theorem holds_pastAsOld (d : Descriptor) :
    Registry.standard.Holds (Recast.pastAsOld.state d) ↔ Registry.standard.Holds d := by
  by_cases past : d = .ofKind (.state .past)
  · subst past
    exact iff_of_true (Registry.get?_keyword_kind (.state .old))
      (Registry.get?_keyword_kind (.state .past))
  · simp only [Recast.pastAsOld, if_neg past]

namespace Recast

theorem isEntry_pastAsOld (word : StateKeyword) : (pastAsOld.word word).isEntry = word.isEntry := by
  cases word <;> rfl

theorem arity_pastAsOld (d : Descriptor) : (pastAsOld.state d).arity = d.arity := by
  by_cases past : d = .ofKind (.state .past)
  · rw [past]
    rfl
  · simp only [pastAsOld, if_neg past]

/-- The standard registry has one descriptor for the word. -/
theorem keyword_pastAsOld {d : Descriptor} (h : Registry.standard.Holds d) :
    (pastAsOld.state d).keyword = TypeFault.pastAsOld.named d.keyword := by
  by_cases past : d = .ofKind (.state .past)
  · rw [past]
    rfl
  · have other : d.keyword ≠ "\\past" := by
      intro word
      apply past
      have standard := Registry.get?_keyword_kind (.state .past)
      rw [Registry.Holds, word] at h
      exact Option.some.inj (h.symm.trans standard)
    simp only [pastAsOld, if_neg past, TypeFault.pastAsOld.named, if_neg other]

end Recast

namespace StateHead

variable {head : StateHead} (args : List Expr)

theorem arityError?_pastAsOld (h : Registry.standard.Holds head.descriptor) :
    (Recast.pastAsOld.head head).arityError? args =
      (head.arityError? args).map TypeError.pastAsOld := by
  have arity := Recast.arity_pastAsOld head.descriptor
  have keyword := Recast.keyword_pastAsOld h
  have entry := Recast.isEntry_pastAsOld head.keyword
  simp only [arityError?, Recast.head, arity, keyword, entry]
  split
  · rfl
  · split <;> rfl

theorem placeError?_pastAsOld (clause : Option Descriptor) (inMethod : Bool) :
    (Recast.pastAsOld.head head).placeError? args clause inMethod =
      (head.placeError? args clause inMethod).map TypeError.pastAsOld := by
  have form : (Recast.pastAsOld.head head).form args = head.form args := by
    simp only [StateHead.form, StateForm.ofArguments, Recast.head, Recast.isEntry_pastAsOld]
  simp only [placeError?, form]
  split <;> rfl

theorem labelError?_pastAsOld (scope : Scope) :
    (Recast.pastAsOld.head head).labelError? args scope =
      (head.labelError? args scope).map TypeError.pastAsOld := by
  have argument : (Recast.pastAsOld.head head).labelArgument? args = head.labelArgument? args := by
    simp only [labelArgument?, Recast.head, Recast.isEntry_pastAsOld]
  rw [labelError?, labelError?, argument]
  cases head.labelArgument? args with
  | none => rfl
  | some e => cases h : scope.label? e <;> simp [h, TypeError.pastAsOld, TypeFault.pastAsOld]

/-- The same is wrong with a reference that has `\old` in the place of `\past`. -/
theorem errors_pastAsOld (h : Registry.standard.Holds head.descriptor) (clause : Option Descriptor)
    (scope : Scope) :
    (Recast.pastAsOld.head head).errors args clause scope =
      (head.errors args clause scope).map TypeError.pastAsOld := by
  rw [errors, errors, arityError?_pastAsOld args h, placeError?_pastAsOld, labelError?_pastAsOld]
  simp only [List.map_append, Option.toList_map]

end StateHead

theorem keeps_pastAsOld :
    Recast.pastAsOld.Keeps False TypeError.pastAsOld .standard .standard where
  state h := (holds_pastAsOld _).2 h
  clause h := h
  kind _ := rfl
  isEntry := Recast.isEntry_pastAsOld
  errors args clause scope h _ := by
    have clauses : clause.map Recast.pastAsOld.clause = clause := Option.map_id_apply
    rw [clauses]
    exact StateHead.errors_pastAsOld args h clause scope
  host e h := congrArg (TypeError.mk · e.span) (e.fault.pastAsOld_of_host h)

/-- The words `\old` and `\past` may be exchanged in any references of a unit with the standard
descriptors. The same types are recorded, and the same errors are found in the same order; only the
word that a message begins with may be the other one. -/
theorem exchange_old_past {u v : CompilationUnit} (own : u.Own .standard) (h : u.Exchanges v)
    (booleanClauses : Bool) :
    ∃ errors errors', checkUnit .standard booleanClauses u = .ok errors ∧
      checkUnit .standard booleanClauses v = .ok errors' ∧
      List.Forall₂ TypeError.Rewords errors errors' ∧
      ((Checker.new .standard booleanClauses).check v).unit.stateTypes =
        ((Checker.new .standard booleanClauses).check u).unit.stateTypes := by
  have own_iff (w : CompilationUnit) : (w.recast .pastAsOld).Own .standard ↔ w.Own .standard :=
    w.own_recast holds_pastAsOld fun _ => Iff.rfl
  have ownBoth : (u.recast .pastAsOld).Own .standard := (own_iff u).2 own
  have own' : v.Own .standard := (own_iff v).1 (h ▸ ownBoth)
  obtain ⟨checked, -⟩ := Check.checkUnit_own own booleanClauses
  obtain ⟨checked', -⟩ := Check.checkUnit_own own' booleanClauses
  refine ⟨_, _, checked, checked', ?_⟩
  obtain ⟨result, types⟩ := Check.checkUnit_recast keeps_pastAsOld own ownBoth checked False.elim
  obtain ⟨result', types'⟩ :=
    Check.checkUnit_recast keeps_pastAsOld own' ((own_iff v).2 own') checked' False.elim
  rw [← show u.recast _ = v.recast _ from h] at result' types'
  refine ⟨?_, types'.symm.trans types⟩
  have same := Except.ok.inj (result.symm.trans result')
  rw [← List.forall₂_eq_eq_eq, List.forall₂_map_left_iff, List.forall₂_map_right_iff] at same
  exact same.imp fun _ _ => TypeError.rewords_of_pastAsOld_eq

/-- In a class with `invariant \past(\past(true), L);` the outer word is exchanged. A reference to a
label is wrong there, and so is the label; the first of the two messages names the word. -/
theorem exchange_old_past_invariant :
    let o : Span := .origin
    let reference (word : StateKeyword) (args : List Expr) : Expr :=
      .state ⟨.ofKind (.state word), word, [], o, o⟩ args none
    let inner : Expr := reference .past [.bool true o]
    let unit (word : StateKeyword) : CompilationUnit :=
      ⟨[⟨⟨"C", o⟩, [.clause ⟨.ofKind (.typeClause .invariant),
        reference word [inner, .name ⟨"L", o⟩], none, o⟩], o⟩]⟩
    let found (word : StateKeyword) : List TypeError :=
      [⟨.misplacedState .labeled word (some "invariant"), o⟩, ⟨.notALabel "L", o⟩]
    (unit .past).Own .standard ∧ (unit .past).Exchanges (unit .old) ∧
      checkUnit .standard true (unit .past) = .ok (found .past) ∧
      checkUnit .standard true (unit .old) = .ok (found .old) ∧
      List.Forall₂ TypeError.Rewords (found .past) (found .old) := by
  intro o reference inner unit found
  have own : (unit .past).Own .standard := by
    have invariant : Registry.standard.Holds (.ofKind (.typeClause .invariant)) :=
      Registry.get?_keyword_kind (.typeClause .invariant)
    have past : Registry.standard.Holds (.ofKind (.state .past)) :=
      Registry.get?_keyword_kind (.state .past)
    have expr : (reference .past [inner, .name ⟨"L", o⟩]).Own .standard :=
      ⟨past, ⟨past, trivial, trivial⟩, trivial, trivial⟩
    exact List.forall_mem_singleton.2 (List.forall_mem_singleton.2 ⟨invariant, expr⟩)
  have exchanged : (unit .past).Exchanges (unit .old) := rfl
  obtain ⟨errors, errors', checked, checked', rewords, -⟩ := exchange_old_past own exchanged true
  have past : checkUnit .standard true (unit .past) = .ok (found .past) := by decide +kernel
  have old : checkUnit .standard true (unit .old) = .ok (found .old) := by decide +kernel
  obtain rfl := Except.ok.inj (past.symm.trans checked)
  obtain rfl := Except.ok.inj (old.symm.trans checked')
  exact ⟨own, exchanged, past, old, rewords⟩

end Contracts
