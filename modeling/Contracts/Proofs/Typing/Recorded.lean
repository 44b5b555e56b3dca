import Contracts.Proofs.Typing.Judgement

/-! Types that the judgement records. In a unit that is well typed every reference to an
earlier state has a type recorded, and it is one that a rule gave (`WellTyped.recorded`). -/

namespace Contracts

/-- Every type is there and stands for no mistake. -/
def Recorded (types : List (Option Ty)) : Prop := ∀ t ∈ types, ∃ τ, t = some τ ∧ τ ≠ .error

theorem Recorded.nil : Recorded [] := fun _ h => nomatch h

theorem recorded_append {ts us : List (Option Ty)} :
    Recorded (ts ++ us) ↔ Recorded ts ∧ Recorded us := List.forall_mem_append

theorem recorded_cons {t : Option Ty} {ts : List (Option Ty)} :
    Recorded (t :: ts) ↔ (∃ τ, t = some τ ∧ τ ≠ .error) ∧ Recorded ts := List.forall_mem_cons

/-- A label refers to no earlier state. -/
theorem Refers.listTypes {Γ : Site} {word : StateKeyword} {label : List Expr} {vars : Vars}
    (h : Refers Γ word label vars) : Expr.stateTypes.listTypes label = [] := by
  cases h <;> rfl

mutual

/-- Every reference to an earlier state has its type recorded. -/
theorem HasType.recorded {u : CompilationUnit} :
    ∀ {Γ : Site} {e e' : Expr} {τ : Ty}, HasType u Γ e τ e' → Γ.Clean → Recorded e'.stateTypes
  | _, _, _, _, .name _, _ => .nil
  | _, _, _, _, .int, _ => .nil
  | _, _, _, _, .bool, _ => .nil
  | _, _, _, _, .result _ _ _ _, _ => .nil
  | _, _, _, _, .binary _ hleft hright, clean =>
    recorded_append.2 ⟨hleft.recorded clean, hright.recorded clean⟩
  | _, _, _, _, .unary _ hoperand, clean => hoperand.recorded clean
  | _, _, _, _, .field hbase _, clean => hbase.recorded clean
  | _, _, _, _, .ownCall _ hargs, clean => hargs.recorded clean
  | _, _, _, _, .call hbase _ hargs, clean =>
    recorded_append.2 ⟨hbase.recorded clean, hargs.recorded clean⟩
  | _, _, _, _, .state refers hvalue, clean => by
    have hτ := hvalue.ne_error (refers.clean clean)
    have hrest := hvalue.recorded (refers.clean clean)
    rw [Expr.stateTypes, recorded_cons, Expr.stateTypes.listTypes, refers.listTypes,
      List.append_nil]
    exact ⟨⟨_, rfl, hτ⟩, hrest⟩

theorem HasTypes.recorded {u : CompilationUnit} :
    ∀ {Γ : Site} {es es' : List Expr} {τs : List Ty}, HasTypes u Γ es τs es' → Γ.Clean →
      Recorded (Expr.stateTypes.listTypes es')
  | _, _, _, _, .nil, _ => .nil
  | _, _, _, _, .cons first others, clean =>
    recorded_append.2 ⟨first.recorded clean, others.recorded clean⟩

end

theorem InitTyped.recorded {u : CompilationUnit} {Γ : Site} {τ : Ty} {init init' : Option Expr}
    (h : InitTyped u Γ τ init init') (clean : Γ.Clean) :
    Recorded ((init'.map Expr.stateTypes).getD []) := by
  cases h with
  | none => exact .nil
  | some value => exact value.recorded clean

theorem SpecClauseTyped.recorded {u : CompilationUnit} {Γ : Site} {c c' : SpecClause}
    (h : SpecClauseTyped u Γ c c') (clean : Γ.Clean) : Recorded c'.expr.stateTypes := by
  obtain ⟨body⟩ := h
  exact body.recorded (clean.inside _)

mutual

theorem StatementTyped.recorded {u : CompilationUnit} :
    ∀ {Γ Δ : Site} {s s' : Statement}, StatementTyped u Γ s s' Δ → Γ.Clean →
      Δ.Clean ∧ Recorded s'.stateTypes
  | _, _, _, _, .declare type value, clean => ⟨clean.declare type.ne_error, value.recorded clean⟩
  | _, _, _, _, .ghost type value, clean =>
    ⟨clean.declare type.ne_error, value.recorded (clean.inside _)⟩
  | _, _, _, _, .assign _ hvalue, clean => ⟨clean, hvalue.recorded clean⟩
  | _, _, _, _, .labeled _ hbody, clean => hbody.recorded (clean.mark _)
  | _, _, _, _, .clause h, clean => ⟨clean, h.recorded clean⟩
  | _, _, _, _, .leave _ _ hvalue, clean => ⟨clean, hvalue.recorded clean⟩
  | _, _, _, _, .leaveVoid _, clean => ⟨clean, .nil⟩
  | _, _, _, _, .expr h, clean => ⟨clean, h.recorded clean⟩
  | _, _, _, _, .block h, clean => ⟨clean, h.recorded clean⟩

theorem StatementsTyped.recorded {u : CompilationUnit} :
    ∀ {Γ : Site} {ss ss' : List Statement}, StatementsTyped u Γ ss ss' → Γ.Clean →
      Recorded (Statement.stateTypes.listTypes ss')
  | _, _, _, .nil, _ => .nil
  | _, _, _, .cons first others, clean =>
    recorded_append.2 ⟨(first.recorded clean).2, others.recorded (first.recorded clean).1⟩

end

theorem Statement.listTypes_eq (ss : List Statement) :
    stateTypes.listTypes ss = ss.flatMap (·.stateTypes) := by
  induction ss with
  | nil => rfl
  | cons s ss ih => rw [stateTypes.listTypes, ih, List.flatMap_cons]

/-- What holds of each item of a list holds of what is recorded in all of them. -/
theorem recorded_flatMap {α : Type} {R : α → α → Prop} {f : α → List (Option Ty)} {as bs : List α}
    (h : List.Forall₂ R as bs) (hR : ∀ a b, R a b → Recorded (f b)) : Recorded (bs.flatMap f) := by
  induction h with
  | nil => exact .nil
  | cons first _ ih =>
    rw [List.flatMap_cons, recorded_append]
    exact ⟨hR _ _ first, ih⟩

theorem MethodTyped.recorded {u : CompilationUnit} {owner : String} {m m' : Method}
    (h : MethodTyped u owner m m') : Recorded (Member.method m').stateTypes := by
  obtain ⟨type, params, -, spec, body⟩ := h
  have clean := (params.clean (Site.clean_method owner type.ne_error)).enter
  refine recorded_append.2 ⟨?_, ?_⟩
  · rw [Method.specClauses, List.flatMap_assoc]
    refine recorded_flatMap spec fun c c' ⟨h⟩ => ?_
    exact recorded_flatMap h fun _ _ h => h.recorded clean
  · rw [← Statement.listTypes_eq]
    exact body.recorded clean

/-- In a unit that is well typed, every reference to an earlier state has a type recorded,
which stands for no mistake. -/
theorem WellTyped.recorded {u u' : CompilationUnit} (h : WellTyped u u') :
    Recorded u'.stateTypes := by
  refine recorded_flatMap h.classes fun c c' ⟨_, _, members⟩ => ?_
  apply recorded_flatMap members
  intro m m' hm
  cases hm with
  | field type value => exact value.recorded (Site.clean_outside _ _)
  | clause body _ => exact body.recorded (Site.clean_outside _ _)
  | method h => exact h.recorded

end Contracts
