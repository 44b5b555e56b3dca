import Contracts.Proofs.Printing.Unit
import Contracts.Proofs.Typing.Gives

/-! The site that a scope stands for in a context (`Scope.site`), and what is known of every
scope that checking builds (`Scope.Fits`). A reference to an earlier state has no errors of
its own exactly when the judgement lets it refer to a state (`refers_of_errors`,
`errors_of_refers`), and the scope that its first argument is read in is the one of that
state (`site_asOf`). -/

namespace Contracts

/-- What is looked up in the rules is what the unit declares. -/
structure Rules.For (rules : Rules) (u : CompilationUnit) : Prop where
  registry : rules.registry = .standard
  booleanClauses : rules.booleanClauses = true
  type {word : String} {τ : Ty} : rules.classes.type? word = some τ ↔ Denotes u word τ
  field {owner field : String} {τ : Ty} :
    rules.classes.field? owner field = some τ ↔ HasField u owner field τ
  method {owner method : String} {params : List Ty} {result : Ty} :
    rules.classes.method? owner method = some ⟨params, result⟩ ↔
      HasMethod u owner method params result

/-- The latest entry of a table hides the others of its name. -/
theorem lookup_cons_eq_update {α : Type} (word : String) (a : α) (table : List (String × α)) :
    (fun other => ((word, a) :: table).lookup other) =
      Function.update (fun other => table.lookup other) word (some a) := by
  funext other
  by_cases h : other = word
  · subst h
    simp
  · have hne : (other == word) = false := by simpa using h
    simp [List.lookup_cons, hne, h]

def Env.vars (env : Env) : Vars := fun word => env.locals.lookup word

namespace Scope

/-- Where an expression stands that is read in the scope and the context. -/
def site (scope : Scope) (c : Context) : Site where
  owner := scope.env.className
  returns := scope.env.returnType
  vars := scope.env.vars
  entry := (scope.entry.getD scope.env).vars
  labels := fun label => (scope.labels.lookup label).map Env.vars
  clause := c.clause.map (·.kind)
  earlier := c.label.isSome

/-- What is known of a scope in a context: every state belongs to one method of one class,
and only in the body of a method there is another state than the one at hand. -/
structure Fits (scope : Scope) (c : Context) : Prop where
  standard : ∀ d ∈ c.clause, d.Standard
  alike : ∀ label, (scope.envAt label).className = scope.env.className ∧
    (scope.envAt label).returnType = scope.env.returnType
  place : Embedding.classify scope.env.inMethod (c.clause.map (·.kind)) = .methodBody ∧
      scope.entry.isSome ∨
    scope.entry.getD scope.env = scope.env ∧ scope.labels = []
  clean : (scope.site c).Clean

theorem sees_iff {rules : Rules} {u : CompilationUnit} (hrules : rules.For u) {scope : Scope}
    {c : Context} {word : String} {τ : Ty} :
    scope.env.typeOf? rules.classes word = some τ ↔ Sees u (scope.site c) word τ := by
  rw [Env.typeOf?, Option.or_eq_some_iff, hrules.field]
  constructor
  · rintro (here | ⟨hidden, here⟩)
    · exact .visible here
    · exact .field hidden here
  · rintro (here | ⟨hidden, here⟩)
    · exact .inl here
    · exact .inr ⟨hidden, here⟩

/-! ### Places of references -/

theorem isLegal_iff {clause : Option Descriptor} (h : ∀ d ∈ clause, d.Standard)
    {inMethod : Bool} {form : StateForm} :
    form.isLegal clause inMethod = true ↔ Admits inMethod (clause.map (·.kind)) form := by
  cases clause with
  | none =>
    constructor
    · intro hlegal
      cases form with
      | unlabeled => exact .outside
      | _ => nomatch hlegal
    · rintro ⟨⟩
      rfl
  | some d =>
    obtain ⟨kind, rfl⟩ : ∃ kind, d = .ofKind kind := ⟨_, h d rfl⟩
    rw [Option.map_some]
    constructor
    · intro hlegal
      cases kind with
      | state word => cases form <;> nomatch hlegal
      | typeClause word =>
        cases form with
        | unlabeled => exact .typeClause
        | _ => nomatch hlegal
      | methodSpec word =>
        cases word with
        | requires => cases form <;> nomatch hlegal
        | ensures =>
          cases form with
          | labeled => nomatch hlegal
          | _ => exact .ensures (by decide)
      | statement word => exact .statement
      | declaration =>
        cases form with
        | entry => nomatch hlegal
        | _ => exact .ghost (by
          simpa [StateForm.isLegal, Descriptor.ofKind, ClauseKind.defaultCapabilities,
            Capabilities.empty, ClauseKind.isDeclaration] using hlegal) (by decide)
    · intro hadmits
      cases hadmits with
      | typeClause => rfl
      | ensures hform => cases form <;> first | rfl | exact absurd rfl hform
      | statement => cases form <;> rfl
      | ghost inside hform =>
        cases form with
        | entry => exact absurd rfl hform
        | _ => simp [StateForm.isLegal, Descriptor.ofKind, ClauseKind.isDeclaration, inside]

/-! ### States that are meant -/

variable {scope : Scope} {c : Context}

theorem envAt_of_empty (hentry : scope.entry.getD scope.env = scope.env)
    (hlabels : scope.labels = []) (label : StateLabel) : scope.envAt label = scope.env := by
  cases label with
  | entry => exact hentry
  | named label => rw [envAt, hlabels, List.lookup_nil, Option.getD_none]

/-- The variables at a label are those of its environment. -/
theorem envAt_named {n : Name} {vars : Vars} (h : (scope.site c).labels n.text = some vars) :
    (scope.envAt (.named n)).vars = vars := by
  obtain ⟨env, hlookup, rfl⟩ := Option.map_eq_some_iff.1 h
  rw [envAt, hlookup, Option.getD_some]

/-- A name is a label exactly when the site has its variables. -/
theorem label?_eq_some_iff (fits : scope.Fits c) {e : Expr} {label : Name} :
    scope.label? e = some label ↔
      e = .name label ∧ (scope.site c).labels label.text = some (scope.envAt (.named label)).vars := by
  have hhas : scope.hasLabel label.text = true ↔
      (scope.site c).labels label.text = some (scope.envAt (.named label)).vars := by
    simp only [hasLabel, site, envAt]
    cases scope.labels.lookup label.text <;> simp
  have hname : e.asName? = some label ↔ e = .name label := by
    cases e <;> simp [Expr.asName?]
  unfold label?
  split
  · rw [Option.filter_eq_some_iff, hname, hhas]
  · next hinside =>
    apply iff_of_false (by simp)
    rintro ⟨-, hlabel⟩
    rcases fits.place with ⟨hplace, -⟩ | ⟨-, hlabels⟩
    · simp [Embedding.classify, hinside] at hplace
    · simp [site, hlabels] at hlabel

theorem asOf_eq (fits : scope.Fits c) (label : StateLabel) :
    scope.asOf c.clause label = { scope with env := scope.envAt label } := by
  unfold asOf
  rcases fits.place with ⟨hplace, -⟩ | ⟨hentry, hlabels⟩
  · rw [hplace]
  · rw [envAt_of_empty hentry hlabels]
    cases Embedding.classify scope.env.inMethod (c.clause.map (·.kind)) <;> rfl

/-- The scope of a state is the site in that state. -/
theorem site_asOf (fits : scope.Fits c) (label : StateLabel) :
    (scope.asOf c.clause label).site { c with label := some label } =
      (scope.site c).asOf (scope.envAt label).vars := by
  rw [asOf_eq fits]
  obtain ⟨hclass, hreturns⟩ := fits.alike label
  rcases fits.place with ⟨-, hentry⟩ | ⟨hentry, hlabels⟩
  · obtain ⟨entry, hentry⟩ := Option.isSome_iff_exists.1 hentry
    simp only [site, Site.asOf, hentry, Option.getD_some, hclass, hreturns, Option.isSome_some]
  · simp only [envAt_of_empty hentry hlabels, site, Site.asOf, Option.isSome_some]

/-- Another environment is one of those of the scope. -/
theorem envAt_with (scope : Scope) (env : Env) (label : StateLabel) :
    envAt { scope with env := env } label = scope.envAt label ∨
      envAt { scope with env := env } label = env := by
  cases label with
  | entry => cases h : scope.entry <;> simp [envAt, h]
  | named label => cases h : scope.labels.lookup label.text <;> simp [envAt, h]

theorem fits_asOf (fits : scope.Fits c) (label : StateLabel)
    (clean : ((scope.site c).asOf (scope.envAt label).vars).Clean) :
    (scope.asOf c.clause label).Fits { c with label := some label } := by
  rw [← site_asOf fits label] at clean
  obtain ⟨hclass, hreturns⟩ := fits.alike label
  refine ⟨fits.standard, fun other => ?_, ?_, clean⟩
  · rw [asOf_eq fits]
    rcases envAt_with scope (scope.envAt label) other with h | h
    · rw [h, (fits.alike other).1, (fits.alike other).2, hclass, hreturns]
      exact ⟨rfl, rfl⟩
    · rw [h]
      exact ⟨rfl, rfl⟩
  · rw [asOf_eq fits]
    rcases fits.place with ⟨hplace, hentry⟩ | ⟨hentry, hlabels⟩
    · refine .inl ⟨?_, hentry⟩
      rw [Env.inMethod, hreturns]
      exact hplace
    · rw [envAt_of_empty hentry hlabels]
      exact .inr ⟨hentry, hlabels⟩

end Scope

/-! ### References without errors -/

namespace StateHead

variable {scope : Scope} {c : Context} {head : StateHead} {args : List Expr}

theorem errors_eq_nil_iff {clause : Option Descriptor} :
    head.errors args clause scope = [] ↔
      head.descriptor.arity.admits args.length = true ∧
        (head.form args).isLegal clause scope.env.inMethod = true ∧
          ∀ e ∈ head.labelArgument? args, (scope.label? e).isSome := by
  rw [errors, List.append_eq_nil_iff, List.append_eq_nil_iff, and_assoc]
  refine and_congr ?_ (and_congr ?_ ?_)
  · unfold arityError?
    dsimp only
    split
    · next h => simp [h]
    · next h =>
      refine iff_of_false ?_ h
      split <;> simp
  · unfold placeError?
    dsimp only
    split
    · next h => simp [h]
    · next h => simp [h]
  · unfold labelError?
    cases head.labelArgument? args with
    | none => simp
    | some e => cases h : scope.label? e <;> simp [h]

/-- The keywords that take a label have one argument or two. -/
theorem admits_of_ne_pre {word : StateKeyword} (h : word ≠ .pre) {count : Nat} :
    (Descriptor.ofKind (.state word)).arity.admits count = true ↔ 1 ≤ count ∧ count ≤ 2 := by
  cases word with
  | pre => exact absurd rfl h
  | _ => simp [Arity.admits, Descriptor.ofKind, ClauseKind.defaultArity]

theorem isEntry_of_ne_pre {word : StateKeyword} (h : word ≠ .pre) : word.isEntry = false := by
  cases word with
  | pre => exact absurd rfl h
  | _ => rfl

/-- Behind a keyword that takes a label, a second argument is one. -/
theorem labelArgument?_pair (h : head.keyword ≠ .pre) (e l : Expr) :
    head.labelArgument? [e, l] = some l := by
  simp [labelArgument?, isEntry_of_ne_pre h]

theorem form_of_ne_pre (h : head.keyword ≠ .pre) (e : Expr) :
    head.form [e] = .unlabeled ∧ ∀ l, head.form [e, l] = .labeled := by
  simp [form, StateForm.ofArguments, isEntry_of_ne_pre h]

theorem refers_of_errors (fits : scope.Fits c)
    (hstandard : head.descriptor = .ofKind (.state head.keyword))
    (h : head.errors args c.clause scope = []) :
    ∃ e label, args = e :: label ∧
      Refers (scope.site c) head.keyword label (scope.envAt (head.label args scope)).vars := by
  obtain ⟨harity, hlegal, hlabel⟩ := errors_eq_nil_iff.1 h
  rw [Scope.isLegal_iff fits.standard] at hlegal
  rw [hstandard] at harity
  by_cases hpre : head.keyword = .pre
  · rw [hpre] at harity ⊢
    obtain ⟨e, rfl⟩ : ∃ e, args = [e] := by
      rw [← List.length_eq_one_iff]
      simpa [Arity.admits, Descriptor.ofKind, ClauseKind.defaultArity] using harity
    have hform : head.form [e] = .entry := by
      simp [form, hpre, StateForm.ofArguments, StateKeyword.isEntry]
    rw [hform] at hlegal
    exact ⟨e, [], rfl, .entry hlegal⟩
  · match args, (admits_of_ne_pre hpre).1 harity with
    | [e], _ =>
      rw [(form_of_ne_pre hpre e).1] at hlegal
      exact ⟨e, [], rfl, .unlabeled hpre hlegal⟩
    | [e, l], _ =>
      rw [(form_of_ne_pre hpre e).2 l] at hlegal
      have hargument := labelArgument?_pair hpre e l
      obtain ⟨n, hn⟩ := Option.isSome_iff_exists.1 (hlabel l hargument)
      have hmeant : head.label [e, l] scope = .named n := by
        rw [label, hargument, Option.bind_some, hn]
      obtain ⟨rfl, inForce⟩ := (Scope.label?_eq_some_iff fits).1 hn
      rw [hmeant]
      exact ⟨e, [.name n], rfl, .labeled hpre hlegal inForce⟩

theorem errors_of_refers (fits : scope.Fits c)
    (hstandard : head.descriptor = .ofKind (.state head.keyword)) {e : Expr} {label : List Expr}
    {vars : Vars} (h : Refers (scope.site c) head.keyword label vars) :
    head.errors (e :: label) c.clause scope = [] ∧
      (scope.envAt (head.label (e :: label) scope)).vars = vars := by
  rw [errors_eq_nil_iff, Scope.isLegal_iff fits.standard, hstandard]
  generalize hword : head.keyword = word at h
  cases h with
  | entry admitted =>
    have hform : head.form [e] = .entry := by
      simp [form, hword, StateForm.ofArguments, StateKeyword.isEntry]
    rw [hform]
    exact ⟨⟨rfl, admitted, fun _ h => nomatch h⟩, rfl⟩
  | unlabeled other admitted =>
    rw [← hword] at other
    rw [(form_of_ne_pre other e).1, ← hword, admits_of_ne_pre other]
    exact ⟨⟨by simp, admitted, fun _ h => nomatch h⟩, rfl⟩
  | @labeled _ n _ other admitted inForce =>
    rw [← hword] at other
    rw [(form_of_ne_pre other e).2, ← hword, admits_of_ne_pre other, labelArgument?_pair other]
    have hvars := Scope.envAt_named inForce
    have hknown : scope.label? (.name n) = some n :=
      (Scope.label?_eq_some_iff fits).2 ⟨rfl, hvars ▸ inForce⟩
    have hmeant : head.label [e, .name n] scope = .named n := by
      rw [StateHead.label, labelArgument?_pair other, Option.bind_some, hknown]
    refine ⟨⟨by simp, admitted, ?_⟩, ?_⟩
    · rintro _ ⟨⟩
      rw [hknown, Option.isSome_some]
    · rw [hmeant, hvars]

end StateHead

end Contracts
