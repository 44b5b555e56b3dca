import Contracts.Proofs.Typing.Declarations
import Contracts.Proofs.Typing.StatementTyped

/-! Checking a member finds nothing wrong exactly when it is well typed, given that the
types it is declared with have been collected. A method starts with no names, declares its
parameters, and is read at the site behind them. -/

namespace Contracts

/-! ### Scopes of classes and of methods -/

namespace Scope

/-- The scope of a class outside its methods. -/
def ofClass (className : String) : Scope := { env := { className } }

theorem site_ofClass (className : String) (c : Context) :
    (ofClass className).site c =
      { owner := className, clause := c.clause.map (·.kind), earlier := c.label.isSome } := rfl

theorem fits_ofClass (className : String) : (ofClass className).Fits {} := by
  have envAt (label : StateLabel) : (ofClass className).envAt label = (ofClass className).env :=
    envAt_of_empty rfl rfl label
  refine ⟨fun _ h => (nomatch h), fun label => ?_, .inr ⟨rfl, rfl⟩, ?_⟩
  · rw [envAt]
    exact ⟨rfl, rfl⟩
  · rw [site_ofClass]
    exact Site.clean_outside _ _

/-- Fixes the environment as the one at the entry of the method. -/
def enter (scope : Scope) : Scope := { scope with entry := some scope.env }

/-- A scope of the parameters of a method, whose entry has not been fixed yet. -/
structure Start (scope : Scope) (Γ : Site) : Prop where
  same : scope.site {} = Γ.enter
  entry : scope.entry = none
  labels : scope.labels = []
  inside : scope.env.inMethod = true

theorem Start.addLocal {scope : Scope} {Γ : Site} (h : scope.Start Γ) (word : String) (τ : Ty) :
    (scope.addLocal word τ).Start (Γ.declare word τ) := by
  refine ⟨?_, h.entry, h.labels, h.inside⟩
  have vars : scope.env.vars = Γ.vars := congrArg Site.vars h.same
  have added : (scope.addLocal word τ).site {} =
      { scope.site {} with
        vars := Function.update scope.env.vars word (some τ)
        entry := Function.update scope.env.vars word (some τ) } := by
    have update : (scope.addLocal word τ).env.vars = Function.update scope.env.vars word (some τ) :=
      lookup_cons_eq_update word τ scope.env.locals
    rw [← update]
    simp only [Scope.addLocal, Scope.site, h.entry, Option.getD_none]
  rw [added, h.same, vars]
  rfl

theorem Start.site_enter {scope : Scope} {Γ : Site} (h : scope.Start Γ) :
    scope.enter.site {} = Γ.enter := by
  rw [← h.same]
  simp only [Scope.site, enter, h.entry, Option.getD_some, Option.getD_none]

theorem Start.envAt_enter {scope : Scope} {Γ : Site} (h : scope.Start Γ) (label : StateLabel) :
    scope.enter.envAt label = scope.enter.env :=
  @envAt_of_empty scope.enter rfl h.labels label

theorem Start.body {scope : Scope} {Γ : Site} (h : scope.Start Γ) (clean : Γ.Clean) :
    scope.enter.Body := by
  refine ⟨⟨fun _ h => (nomatch h), fun label => ?_, .inl ⟨classify_body h.inside, rfl⟩, ?_⟩, rfl,
    h.inside⟩
  · rw [h.envAt_enter]
    exact ⟨rfl, rfl⟩
  · rw [h.site_enter]
    exact clean.enter

/-- The scope of a method, ahead of its parameters. -/
def ofMethod (className : String) (result : Ty) : Scope :=
  { env := { className, returnType := some result } }

theorem start_ofMethod (className : String) (result : Ty) :
    (ofMethod className result).Start { owner := className, returns := some result } :=
  ⟨rfl, rfl, rfl, rfl⟩

end Scope

namespace Check

open CheckState

variable {rules : Rules} {u : CompilationUnit} {s : CheckState}

theorem declaredType_eq (hrules : rules.For u) {name : Name} {τ : Ty} (h : Denotes u name.text τ) :
    declaredType rules name = τ := by
  rw [declaredType, hrules.type.2 h, Option.getD_some]

theorem denotes_unique (hrules : rules.For u) {word : String} {σ τ : Ty} (hσ : Denotes u word σ)
    (hτ : Denotes u word τ) : σ = τ :=
  Option.some.inj ((hrules.type.2 hσ).symm.trans (hrules.type.2 hτ))

/-! ### Fields and clauses of a class -/

theorem memberTyped_field_iff (hrules : rules.For u) {owner : String} {f f' : Field} {τ : Ty}
    (type : Denotes u f.type.text τ) :
    MemberTyped u owner (.field f) (.field f') ↔
      ∃ init, InitTyped u { owner, clause := f.ghost.map (·.kind) } τ f.init init ∧
        { f with init := init } = f' := by
  constructor
  · intro h
    cases h with
    | field type' value =>
      obtain rfl := denotes_unique hrules type type'
      exact ⟨_, value, rfl⟩
  · rintro ⟨init, value, rfl⟩
    exact .field type value

theorem gives_checkField_iff (hrules : rules.For u) {className : String} {f f' : Field} {τ : Ty}
    (fresh : f.Fresh) (type : Denotes u f.type.text τ) (hs : s.contexts.current = {}) :
    Gives (checkField rules (.ofClass className) f) s f' ↔
      MemberTyped u className (.field f) (.field f') := by
  rw [memberTyped_field_iff hrules type]
  have fits := Scope.fits_ofClass className
  obtain ⟨typeName, name, init, ghost, span⟩ := f
  unfold checkField
  dsimp only
  rw [declaredType_eq hrules type]
  cases init with
  | none =>
    rw [gives_pure_iff]
    constructor
    · exact fun h => ⟨none, .none, h⟩
    · rintro ⟨_, ⟨⟩, h⟩
      exact h
  | some e =>
    cases ghost with
    | none =>
      have value (init' : Option Expr) :
          Gives (inferInit rules (.ofClass className) τ (some e)) s init' ↔
            InitTyped u { owner := className } τ (some e) init' :=
        gives_inferInit_iff hrules fits fresh.init hs type.ne_error
      refine (gives_map_iff (keeps_inferInit _ _ _ _).grows).trans ?_
      exact exists_congr fun init' => and_congr_left fun _ => value init'
    | some d =>
      obtain rfl := fresh.ghost d rfl
      have fits := fits.inside (d := .ofKind .declaration) rfl (.inr ⟨rfl, rfl⟩)
      have entered : (s.contexts.enter (some (.ofKind .declaration))).current =
          { clause := some (.ofKind .declaration) } := by
        rw [ContextStack.current_enter, hs]
      have value (init' : Option Expr) :
          Gives (inferInit rules (.ofClass className) τ (some e))
              { s with contexts := s.contexts.enter (some (.ofKind .declaration)) } init' ↔
            InitTyped u { owner := className, clause := some .declaration } τ (some e) init' :=
        gives_inferInit_iff hrules fits fresh.init entered type.ne_error
      dsimp only
      rw [gives_isRegistered_iff (registered_of_standard hrules (.of_eq rfl)), if_pos rfl]
      refine (gives_map_iff (.within_grows _ (keeps_inferInit _ _ _ _).grows)).trans ?_
      exact exists_congr fun init' => and_congr_left fun _ => gives_within_iff.trans (value init')

theorem unknownMethods_eq_nil_iff (hrules : rules.For u) {className : String}
    {frame : Option Frame} :
    unknownMethods rules className frame = [] ↔ FrameTyped u className frame := by
  match frame with
  | none => exact iff_of_true rfl trivial
  | some (.everything _) => exact iff_of_true rfl trivial
  | some (.methods names) =>
    unfold unknownMethods FrameTyped
    rw [List.map_eq_nil_iff, List.filter_eq_nil_iff]
    apply forall₂_congr
    intro n _
    rw [Bool.not_eq_true, Option.isNone_eq_false_iff, Option.isSome_iff_exists]
    constructor
    · rintro ⟨⟨params, result⟩, h⟩
      exact ⟨params, result, hrules.method.1 h⟩
    · rintro ⟨params, result, h⟩
      exact ⟨_, hrules.method.2 h⟩

theorem gives_checkTypeClause_iff (hrules : rules.For u) {className : String}
    {cl cl' : TypeClause} (fresh : cl.Fresh) (hs : s.contexts.current = {}) :
    Gives (checkTypeClause rules (.ofClass className) cl) s cl' ↔
      MemberTyped u className (.clause cl) (.clause cl') := by
  have fits := (Scope.fits_ofClass className).inside fresh.descriptor (.inr ⟨rfl, rfl⟩)
  unfold checkTypeClause
  rw [gives_isRegistered_iff (registered_of_standard hrules fresh.descriptor), if_pos rfl]
  constructor
  · intro h
    obtain ⟨e, t, -, value, h⟩ := h.seq (keeps_inferClause _ _ _ _) fun _ =>
      .bind (.reportAll _) fun _ => .pure _
    have body := (gives_inferClause_iff hrules fits fresh.expr hs).1 value
    by_cases frame : unknownMethods rules className cl.frame = []
    · obtain ⟨_, _, _, _, h⟩ := h.seq (.reportAll _) fun _ => .pure _
      obtain rfl := gives_pure_iff.1 h
      exact .clause body ((unknownMethods_eq_nil_iff hrules).1 frame)
    · exact absurd h (not_gives_reportAll frame (.pure _))
  · intro h
    cases h with
    | clause body frame =>
      have value := (gives_inferClause_iff hrules fits fresh.expr hs).2 body
      have known := (unknownMethods_eq_nil_iff hrules).2 frame
      have silent (t : CheckState) :
          Gives (reportAll (unknownMethods rules className cl.frame)) t () := by
        rw [known]
        exact ⟨rfl, List.append_nil _, rfl⟩
      exact .bind value (.bind (silent _) (.pure _ _))

/-! ### Lists of items -/

section

variable {α β : Type} {item : α → Check β} {R : α → β → Prop}

theorem exists_of_forall₂ {as : List α} {bs : List β} (h : List.Forall₂ R as bs) :
    ∀ a ∈ as, ∃ b, R a b := by
  induction h with
  | nil => exact fun _ h => nomatch h
  | cons first _ ih => exact List.forall_mem_cons.2 ⟨⟨_, first⟩, ih⟩

/-- Items that are checked one after another, each outside clauses. -/
theorem gives_all_iff (all : List α → Check (List β)) (nil : all [] = pure [])
    (cons : ∀ a as, all (a :: as) = do
      let b ← item a
      return b :: (← all as))
    (keeps : ∀ a, Keeps Grows (item a)) (keepsAll : ∀ as, Keeps Grows (all as)) {as : List α}
    (hitem : ∀ a ∈ as, ∀ s b, s.contexts.current = {} → (Gives (item a) s b ↔ R a b))
    {s : CheckState} {bs : List β} (hs : s.contexts.current = {}) :
    Gives (all as) s bs ↔ List.Forall₂ R as bs := by
  induction as generalizing s bs with
  | nil =>
    rw [nil, gives_pure_iff, List.forall₂_nil_left_iff]
    exact eq_comm
  | cons a as ih =>
    rw [List.forall_mem_cons] at hitem
    have later : ((item a).run s).2.contexts.current = {} := (keeps a s).current.trans hs
    rw [cons]
    constructor
    · intro h
      obtain ⟨b, first, h⟩ := h.of_bind (keeps a) fun _ => .bind (keepsAll as) fun _ => .pure _
      obtain ⟨rest, others, h⟩ := h.of_bind (keepsAll as) fun _ => .pure _
      obtain rfl := gives_pure_iff.1 h
      exact .cons ((hitem.1 s b hs).1 first) ((ih hitem.2 later).1 others)
    · intro h
      cases h with
      | cons first others =>
        exact .bind ((hitem.1 s _ hs).2 first) (.bind ((ih hitem.2 later).2 others) (.pure _ _))

end

/-! ### Methods -/

theorem of_runs_declareParams (hrules : rules.For u) {scope scope' : Scope} {Γ : Site}
    {ps : List Param} {s t : CheckState} (start : scope.Start Γ)
    (types : ∀ p ∈ ps, ∃ τ, Denotes u p.type.text τ)
    (h : Runs (declareParams rules scope ps) s scope' t) :
    ∃ Δ, ParamsTyped u Γ ps Δ ∧ scope'.Start Δ ∧
      t.names = (ps.map (·.name.text)).reverse ++ s.names ∧ (s.names.Nodup → t.names.Nodup) := by
  induction ps generalizing scope Γ s with
  | nil =>
    obtain ⟨rfl, rfl⟩ := runs_pure_iff.1 h
    exact ⟨Γ, .nil, start, rfl, id⟩
  | cons p ps ih =>
    rw [List.forall_mem_cons] at types
    obtain ⟨⟨τ, type⟩, types⟩ := types
    obtain ⟨scope₁, r, _, first, h⟩ := h.of_bind (keeps_declare _ _ _) fun _ =>
      keeps_declareParams _ _ _
    rw [declaredType_eq hrules type] at first
    obtain ⟨hnew, rfl, hnames⟩ := of_runs_declare first
    obtain ⟨Δ, params, start', names, distinct⟩ := ih (start.addLocal p.name.text τ) types h
    refine ⟨Δ, .cons type params, start', ?_, fun hnodup => distinct ?_⟩
    · rw [names, hnames, List.map_cons, List.reverse_cons, List.append_assoc]
      rfl
    · rw [hnames]
      exact List.nodup_cons.2 ⟨hnew, hnodup⟩

theorem gives_declareParams (hrules : rules.For u) {Γ Δ : Site} {ps : List Param}
    (params : ParamsTyped u Γ ps Δ) {scope : Scope} {s : CheckState} (start : scope.Start Γ)
    (distinct : ((ps.map (·.name.text)).reverse ++ s.names).Nodup) :
    ∃ scope', scope'.Start Δ ∧ Gives (declareParams rules scope ps) s scope' := by
  induction params generalizing scope s with
  | nil => exact ⟨scope, start, .pure _ _⟩
  | @cons Γ Δ p ps τ type _ ih =>
    rw [List.map_cons, List.reverse_cons, List.append_assoc, List.singleton_append] at distinct
    have hnew : p.name.text ∉ s.names := (List.nodup_cons.1 (List.nodup_append.1 distinct).2.1).1
    have first : Gives (declare scope p.name (declaredType rules p.type)) s
        (scope.addLocal p.name.text τ) := by
      rw [declaredType_eq hrules type]
      exact gives_declare_iff.2 ⟨hnew, rfl⟩
    have names := (of_runs_declare (Runs.of_gives first)).2.2
    obtain ⟨scope', start', h⟩ := ih (start.addLocal p.name.text τ) (names.symm ▸ distinct)
    exact ⟨scope', start', .bind first h⟩

theorem gives_checkCases_iff (hrules : rules.For u) {scope : Scope} {cases cases' : List SpecCase}
    (body : scope.Body) (entry : scope.entry.getD scope.env = scope.env) (labels : scope.labels = [])
    (fresh : ∀ c ∈ cases, c.Fresh) (hs : s.contexts.current = {}) :
    Gives (checkCases rules scope cases) s cases' ↔
      List.Forall₂ (SpecCaseTyped u (scope.site {})) cases cases' := by
  have clauses (c : SpecCase) (hc : c.Fresh) (s : CheckState) (cs : List SpecClause)
      (hs : s.contexts.current = {}) :
      Gives (checkSpecClauses rules scope c.clauses) s cs ↔
        List.Forall₂ (SpecClauseTyped u (scope.site {})) c.clauses cs := by
    refine gives_all_iff (checkSpecClauses rules scope) rfl (fun _ _ => rfl)
      (fun _ => (keeps_checkSpecClause _ _ _).grows) (fun _ => (keeps_checkSpecClauses _ _ _).grows)
      (fun cl hcl s cl' hs => ?_) hs
    have fits := body.fits.inside (hc cl hcl).1.descriptor (.inr ⟨entry, labels⟩)
    exact gives_checkSpecClause_iff hrules fits (hc cl hcl).1 hs
  have case (c : SpecCase) : Keeps Grows (do
      let clauses ← checkSpecClauses rules scope c.clauses
      return { c with clauses := clauses }) :=
    .bind (keeps_checkSpecClauses _ _ _).grows fun _ => .pure _
  refine gives_all_iff (checkCases rules scope) rfl (fun _ _ => rfl) case
    (fun _ => (keeps_checkCases _ _ _).grows) (fun c hc s c' hs => ?_) hs
  rw [gives_map_iff (keeps_checkSpecClauses _ _ _).grows]
  constructor
  · rintro ⟨cs, hcs, rfl⟩
    exact ⟨(clauses c (fresh c hc) s cs hs).1 hcs⟩
  · rintro ⟨hcs⟩
    exact ⟨_, (clauses c (fresh c hc) s _ hs).2 hcs, rfl⟩

/-- The names of a method, as they are declared one after another. -/
theorem nodup_names_iff (m : Method) :
    ((Statement.declared.listDeclared m.body.statements).reverse ++
        (m.params.map (·.name.text)).reverse).Nodup ↔
      (m.params.map (·.name.text) ++ Statement.declared.listDeclared m.body.statements).Nodup := by
  rw [← List.reverse_append, List.nodup_reverse]

theorem gives_checkMethod_iff (hrules : rules.For u) {className : String} {m m' : Method}
    {signature : Signature} (fresh : m.Fresh) (has : m.Has u signature)
    (hs : s.contexts.current = {}) :
    Gives (checkMethod rules className m) s m' ↔ MethodTyped u className m m' := by
  have types := exists_of_forall₂ has.1
  have start := Scope.start_ofMethod className signature.result
  have clean := Site.clean_method className has.2.ne_error
  have reset : (modify fun s => { s with names := [] } : Check Unit).run s =
      ((), { s with names := [] }) := rfl
  unfold checkMethod
  rw [declaredType_eq hrules has.2, gives_step_iff reset rfl rfl]
  constructor
  · intro h
    obtain ⟨scope, r, hr, hparams, h⟩ := (Runs.of_gives h).of_bind (keeps_declareParams _ _ _)
      fun _ => .bind (keeps_checkCases _ _ _).grows fun _ =>
        .bind (keeps_checkStatements _ _ _) fun _ => .pure _
    obtain ⟨Γ, params, start', hnames, distinct⟩ := of_runs_declareParams hrules start types hparams
    have body := start'.body (params.clean clean)
    obtain ⟨cases, r', hr', hcases, h⟩ := h.of_bind (keeps_checkCases _ _ _).grows fun _ =>
      .bind (keeps_checkStatements _ _ _) fun _ => .pure _
    obtain ⟨statements, hstatements, rfl⟩ := h.of_map (keeps_checkStatements _ _ _)
    have spec := (gives_checkCases_iff hrules body rfl start'.labels fresh.cases (hr.trans hs)).1
      hcases.toGives
    have checked := checkedAll_of_runs hrules _ body fresh.body (hr'.trans (hr.trans hs)) hstatements
    have typed := checked.typed
    rw [start'.site_enter] at spec typed
    have names := hcases.names (keeps_checkCases _ _ _)
    refine .intro has.2 params ?_ spec typed
    have all := checked.distinct (names ▸ distinct .nil)
    rw [checked.names, names, hnames, List.append_nil] at all
    exact (nodup_names_iff m).1 all
  · intro h
    obtain ⟨type, params, hdistinct, spec, typed⟩ := h
    obtain rfl := denotes_unique hrules has.2 type
    rw [← nodup_names_iff] at hdistinct
    obtain ⟨scope, start', hparams⟩ := gives_declareParams hrules params (s := { s with names := [] })
      start (by rw [List.append_nil]; exact (List.nodup_append.1 hdistinct).2.1)
    obtain ⟨r, hparams⟩ : ∃ r, Runs _ _ scope r := ⟨_, .of_gives hparams⟩
    obtain ⟨_, _, _, hnames, -⟩ := of_runs_declareParams hrules start types hparams
    have body := start'.body (params.clean clean)
    rw [← start'.site_enter] at spec typed
    have entered : r.contexts.current = {} := (hparams.current (keeps_declareParams _ _ _)).trans hs
    obtain ⟨r', hcases⟩ : ∃ r', Runs (checkCases rules scope.enter m.cases) r _ r' :=
      ⟨_, .of_gives ((gives_checkCases_iff hrules body rfl start'.labels fresh.cases entered).2 spec)⟩
    have later := (hcases.current (keeps_checkCases _ _ _).grows).trans entered
    have names := (hcases.names (keeps_checkCases _ _ _)).trans (hnames.trans (List.append_nil _))
    have hstatements := gives_of_statementsTyped hrules typed _ r' body rfl fresh.body later
      (names ▸ hdistinct)
    exact hparams.bind (hcases.bind (.bind hstatements (.pure _ _)))

/-! ### Members and classes -/

theorem gives_checkMember_iff (hrules : rules.For u) {c : Class} (declares : c.Declares u)
    {m m' : Member} (hm : m ∈ c.members) (fresh : m.Fresh) (hs : s.contexts.current = {}) :
    Gives (checkMember rules c.name.text m) s m' ↔ MemberTyped u c.name.text m m' := by
  cases m with
  | field f =>
    obtain ⟨τ, type⟩ := declares.types f (Class.mem_fields.2 hm)
    refine (gives_map_iff (keeps_checkField _ _ _)).trans ?_
    constructor
    · rintro ⟨f', hf, rfl⟩
      exact (gives_checkField_iff hrules fresh type hs).1 hf
    · intro h
      cases h with
      | field type' value =>
        exact ⟨_, (gives_checkField_iff hrules fresh type hs).2 (.field type' value), rfl⟩
  | clause cl =>
    refine (gives_map_iff (keeps_checkTypeClause _ _ _)).trans ?_
    constructor
    · rintro ⟨cl', hcl, rfl⟩
      exact (gives_checkTypeClause_iff hrules fresh hs).1 hcl
    · intro h
      cases h with
      | clause body frame =>
        exact ⟨_, (gives_checkTypeClause_iff hrules fresh hs).2 (.clause body frame), rfl⟩
  | method m =>
    obtain ⟨signature, has⟩ := declares.signatures m (Class.mem_methods.2 hm)
    refine (gives_map_iff (keeps_checkMethod _ _ _)).trans ?_
    constructor
    · rintro ⟨m', hmethod, rfl⟩
      exact .method ((gives_checkMethod_iff hrules fresh has hs).1 hmethod)
    · intro h
      cases h with
      | method h => exact ⟨_, (gives_checkMethod_iff hrules fresh has hs).2 h, rfl⟩

theorem gives_checkClass_iff (hrules : rules.For u) {c c' : Class} (declares : c.Declares u)
    (fresh : c.Fresh) (hs : s.contexts.current = {}) :
    Gives (checkClass rules c) s c' ↔ ClassTyped u c c' := by
  have members (ms : List Member) :
      Gives (checkMembers rules c.name.text c.members) s ms ↔
        List.Forall₂ (MemberTyped u c.name.text) c.members ms :=
    gives_all_iff (checkMembers rules c.name.text) rfl (fun _ _ => rfl)
      (fun _ => keeps_checkMember _ _ _) (fun _ => keeps_checkMembers _ _ _)
      (fun m hm _ _ hs => gives_checkMember_iff hrules declares hm (fresh m hm) hs) hs
  refine (gives_map_iff (keeps_checkMembers _ _ _)).trans ?_
  constructor
  · rintro ⟨ms, hms, rfl⟩
    exact ⟨declares.fields, declares.methods, (members ms).1 hms⟩
  · rintro ⟨_, _, hms⟩
    exact ⟨_, (members _).2 hms, rfl⟩

end Check

end Contracts
