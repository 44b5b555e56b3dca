import Contracts.Proofs.Layout.Independence
import Contracts.Proofs.Parsing.Recast
import Contracts.Proofs.Typing.Recast
import Contracts.Proofs.Typing.Spotless

/-! More capabilities. A clause that admits more references to earlier states makes no right
reference wrong. More errors may be found, since the argument of a reference that was refused is
read once it is admitted; but where nothing is wrong, nothing is refused. So a source without
errors stays without errors when the descriptors of its registry get further capabilities, and the
same types are recorded (`checkSource_of_enlarges`). -/

namespace Contracts

namespace Capabilities

/-- What the first admits, the second does. -/
structure Within (c c' : Capabilities) : Prop where
  unlabeled : c.unlabeled → c'.unlabeled
  entry : c.entry → c'.entry
  labeled : c.labeled → c'.labeled

def join (c c' : Capabilities) : Capabilities :=
  ⟨c.unlabeled || c'.unlabeled, c.entry || c'.entry, c.labeled || c'.labeled⟩

theorem within_join (c c' : Capabilities) : c.Within (c.join c') := by
  constructor <;> simp +contextual [join]

theorem join_of_within {c c' : Capabilities} (h : c.Within c') : c.join c' = c' := by
  obtain ⟨unlabeled, entry, labeled⟩ := c
  obtain ⟨unlabeled', entry', labeled'⟩ := c'
  obtain ⟨hunlabeled, hentry, hlabeled⟩ := h
  simp only [join, mk.injEq, Bool.or_eq_right_iff_imp]
  exact ⟨hunlabeled, hentry, hlabeled⟩

end Capabilities

/-- The other descriptor differs in nothing but further capabilities. -/
structure Descriptor.Enlarges (d' d : Descriptor) : Prop where
  keyword : d'.keyword = d.keyword
  kind : d'.kind = d.kind
  arity : d'.arity = d.arity
  capabilities : d.capabilities.Within d'.capabilities

/-- The same keywords are registered, with descriptors that have further capabilities. -/
def Registry.Enlarges (r' r : Registry) : Prop :=
  ∀ word, Option.Rel (fun d d' => d'.Enlarges d) (r.get? word) (r'.get? word)

/-! ### The change of descriptors -/

/-- The descriptor with the capabilities that the registry has for its keyword. -/
def Registry.granted (r : Registry) (d : Descriptor) : Descriptor :=
  { d with
    capabilities := ((r.get? d.keyword).map fun d' => d.capabilities.join d'.capabilities).getD
      d.capabilities }

theorem Registry.within_granted (r : Registry) (d : Descriptor) :
    d.capabilities.Within (r.granted d).capabilities := by
  unfold granted
  cases r.get? d.keyword with
  | none => exact ⟨id, id, id⟩
  | some d' => exact d.capabilities.within_join d'.capabilities

namespace Registry.Enlarges

variable {r r' : Registry} (h : r'.Enlarges r)

include h

theorem recasts : r.Recasts r'.granted r' where
  get? word := by
    have related := h word
    generalize found : r.get? word = o, found' : r'.get? word = o' at related
    cases related with
    | none => rfl
    | some more =>
      next d d' =>
      obtain rfl := keyword_of_get? found
      obtain ⟨keyword, kind, arity, capabilities⟩ := d'
      obtain ⟨rfl, rfl, rfl, wider⟩ := more
      simp only [Option.map_some, granted, found', Option.getD_some,
        Capabilities.join_of_within wider]
  keyword _ := rfl
  kind _ := rfl

theorem holds {d : Descriptor} (held : r.Holds d) : r'.Holds (r'.granted d) := by
  rw [Registry.Holds, show (r'.granted d).keyword = d.keyword from rfl, h.recasts.get?]
  exact congrArg (Option.map r'.granted) held

end Registry.Enlarges

/-- A place that admits a reference admits it with further capabilities. -/
theorem StateForm.isLegal_granted (r : Registry) {form : StateForm} {clause : Option Descriptor}
    {inMethod : Bool} (h : form.isLegal clause inMethod = true) :
    form.isLegal (clause.map r.granted) inMethod = true := by
  cases clause with
  | none => exact h
  | some d =>
    have more := r.within_granted d
    have kind : (r.granted d).kind = d.kind := rfl
    cases form with
    | entry => exact more.entry h
    | unlabeled =>
      simp only [isLegal, Option.map_some, kind, Bool.or_eq_true] at h ⊢
      exact h.imp_left more.unlabeled
    | labeled =>
      simp only [isLegal, Option.map_some, kind, Bool.or_eq_true] at h ⊢
      exact h.imp_left more.labeled

/-- What is right with a reference stays right. -/
theorem StateHead.errors_granted (r : Registry) {head : StateHead} {args : List Expr}
    {clause : Option Descriptor} {scope : Scope} (h : head.errors args clause scope = []) :
    ((Recast.uniform r.granted).head head).errors args (clause.map r.granted) scope = [] := by
  obtain ⟨arity, legal, label⟩ := errors_eq_nil_iff.1 h
  exact errors_eq_nil_iff.2 ⟨arity, StateForm.isLegal_granted r legal, label⟩

theorem Registry.Enlarges.keeps {r r' : Registry} (h : r'.Enlarges r) :
    (Recast.uniform r'.granted).Keeps True id r r' where
  state := h.holds
  clause := h.holds
  kind _ := rfl
  isEntry _ := rfl
  errors args clause scope _ clean := by
    rw [clean trivial]
    exact StateHead.errors_granted r' (clean trivial)
  host _ _ := rfl

/-! ### Sources -/

/-- Nothing is reported of a source under a registry with further capabilities, if nothing is
reported of it without them, and every reference to an earlier state has the same type recorded. -/
theorem checkSource_of_enlarges {r r' : Registry} (h : r'.Enlarges r) {path source : String}
    {options : Options} {report : Report} (checked : checkSource r path source options = .ok report)
    (clean : report.isClean) :
    checkSource r' path source options = .ok report ∧
      (recordedUnit r' options source).stateTypes = (recordedUnit r options source).stateTypes := by
  have registered := registered_parseUnit r source
  have registered' := registered_parseUnit r' source
  obtain ⟨errors, found⟩ := exists_checkUnit registered options.booleanClauses
  rw [checkSource_of_checkUnit path found] at checked
  obtain rfl := Except.ok.inj checked
  rw [Report.isClean, Report.errorCount_limit, beq_iff_eq] at clean
  simp only [Report.errorCount, Nat.add_eq_zero_iff, List.length_eq_zero_iff] at clean
  obtain ⟨⟨syntaxErrors, rfl⟩, -⟩ := clean
  have parsed := parseUnit_recast h.recasts source
  have unit : (parseUnit r' source).unit = (parseUnit r source).unit.recast _ :=
    congrArg ParsedUnit.unit parsed
  have own' := unit ▸ registered'.own
  obtain ⟨found', types⟩ :=
    Check.checkUnit_recast h.keeps registered.own own' found fun _ => rfl
  rw [← unit] at found'
  constructor
  · rw [checkSource_of_checkUnit path found', parsed]
    rfl
  · rw [recordedUnit, recordedUnit, unit, types]

/-- A class under a registry in which every clause admits every reference. -/
theorem checkSource_of_enlarges_all :
    let wide (kind : ClauseKind) : Descriptor :=
      { Descriptor.ofKind kind with capabilities := .all }
    let source := "class C \x7b int x; invariant \\old(x) == x; \x7d"
    ∃ r' : Registry, r'.entries = ClauseKind.all.map wide ∧ r'.Enlarges .standard ∧
      checkSource .standard "C" source {} = .ok ⟨"C", [], [], 0⟩ ∧
      checkSource r' "C" source {} = .ok ⟨"C", [], [], 0⟩ ∧
      (recordedUnit r' {} source).stateTypes = [some .int] := by
  intro wide source
  let r' : Registry := ⟨ClauseKind.all.map wide, by decide⟩
  have larger : r'.Enlarges .standard := by
    intro word
    rw [Registry.get?, Registry.get?, Registry.standard, List.find?_map, List.find?_map]
    have same : ((·.keyword == word) : Descriptor → Bool) ∘ Descriptor.ofKind =
        (·.keyword == word) ∘ wide := rfl
    rw [same]
    cases ClauseKind.all.find? _ with
    | none => exact .none
    | some kind => exact .some ⟨rfl, rfl, rfl, fun _ => rfl, fun _ => rfl, fun _ => rfl⟩
  have evaluated : checkSource .standard "C" source {} = .ok ⟨"C", [], [], 0⟩ ∧
      (recordedUnit .standard {} source).stateTypes = [some .int] := by
    decide +kernel
  obtain ⟨checked, types⟩ := checkSource_of_enlarges larger evaluated.1 rfl
  exact ⟨r', rfl, larger, evaluated.1, checked, types.trans evaluated.2⟩

end Contracts
