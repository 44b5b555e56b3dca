import Contracts.Proofs.Typing.ExpressionTyped

/-! Checking a statement finds nothing wrong exactly when it is well typed at the site of
its scope and declares only names that are new in the method. The names that have been
declared grow by those of the statement, so all of them stay distinct (`typed_of_runs`,
`runs_of_typed`). -/

namespace Contracts

/-! ### Scopes in the body of a method -/

namespace Scope

variable {scope : Scope} {c : Context}

/-- A scope of the body of a method, outside clauses. -/
structure Body (scope : Scope) : Prop where
  fits : scope.Fits {}
  entry : scope.entry.isSome
  inside : scope.env.inMethod = true

/-- Inside a clause that does not specify a method, or where there is no other state, a
scope fits as it does outside. -/
theorem Fits.inside (fits : scope.Fits c) {d : Descriptor} (hd : d.Standard)
    (place : d.kind.isMethodSpec = false ∨
      scope.entry.getD scope.env = scope.env ∧ scope.labels = []) :
    scope.Fits { c with clause := some d } := by
  refine ⟨fun _ h => Option.some.inj h ▸ hd, fits.alike, ?_, fits.clean.inside d.kind⟩
  rcases place with hkind | place
  · refine fits.place.imp_left fun ⟨hplace, hentry⟩ => ⟨?_, hentry⟩
    have inside : scope.env.inMethod = true := by
      cases hin : scope.env.inMethod with
      | true => rfl
      | false => simp [Embedding.classify, hin] at hplace
    simp [Embedding.classify, inside, hkind]
  · exact .inr place

theorem site_addLocal (hentry : scope.entry.isSome) (word : String) (τ : Ty) :
    (scope.addLocal word τ).site c = (scope.site c).declare word τ := by
  obtain ⟨entry, hentry⟩ := Option.isSome_iff_exists.1 hentry
  have vars : (scope.addLocal word τ).env.vars = Function.update scope.env.vars word (some τ) :=
    lookup_cons_eq_update word τ scope.env.locals
  simp only [site, Site.declare, vars]
  simp [addLocal, hentry]

theorem site_addLabel (label : String) :
    (scope.addLabel label).site c = (scope.site c).mark label := by
  have labels : ((scope.addLabel label).site c).labels =
      Function.update (scope.site c).labels label (some scope.env.vars) := by
    have table := lookup_cons_eq_update label scope.env scope.labels
    funext other
    show (((label, scope.env) :: scope.labels).lookup other).map Env.vars = _
    rw [congrFun table other]
    by_cases h : other = label <;> simp [h, site]
  rw [Site.mark]
  exact congrArg (fun labels => { scope.site c with labels := labels }) labels

theorem classify_body {env : Env} (h : env.inMethod = true) :
    Embedding.classify env.inMethod none = .methodBody := by
  rw [h]
  rfl

theorem Body.addLocal (body : scope.Body) (word : String) {τ : Ty} (hτ : τ ≠ .error) :
    (scope.addLocal word τ).Body := by
  refine ⟨⟨body.fits.standard, fun label => ?_, ?_, ?_⟩, body.entry, body.inside⟩
  · rcases envAt_with scope (scope.addLocal word τ).env label with h | h
    · have same := body.fits.alike label
      rw [← h] at same
      exact same
    · exact ⟨congrArg Env.className h, congrArg Env.returnType h⟩
  · exact .inl ⟨classify_body body.inside, body.entry⟩
  · rw [site_addLocal body.entry]
    exact body.fits.clean.declare hτ

theorem Body.addLabel (body : scope.Body) (label : String) : (scope.addLabel label).Body := by
  refine ⟨⟨body.fits.standard, fun other => ?_, .inl ⟨?_, body.entry⟩, ?_⟩, body.entry, body.inside⟩
  · cases other with
    | entry => exact body.fits.alike .entry
    | named other =>
      have table := congrFun (lookup_cons_eq_update label scope.env scope.labels) other.text
      have same := body.fits.alike (.named other)
      unfold envAt at same ⊢
      dsimp only [Scope.addLabel] at same table ⊢
      rw [table]
      by_cases h : other.text = label
      · simp [h]
      · simpa [h] using same
  · exact classify_body body.inside
  · rw [site_addLabel]
    exact body.fits.clean.mark label

end Scope

namespace Check

open CheckState

variable {rules : Rules} {u : CompilationUnit} {scope scope' : Scope} {c : Context}

/-! ### Parts of statements -/

theorem of_runs_checkVariable (hrules : rules.For u) {v v' : Variable} {s t : CheckState}
    (fits : scope.Fits c) (fresh : v.Fresh) (hs : s.contexts.current = c)
    (h : Runs (checkVariable rules scope v) s (v', scope') t) :
    ∃ τ init, Denotes u v.type.text τ ∧ InitTyped u (scope.site c) τ v.init init ∧
      v' = { v with init := init } ∧ scope' = scope.addLocal v.name.text τ ∧
        v.name.text ∉ s.names ∧ t.names = v.name.text :: s.names := by
  obtain ⟨τ, r, hr, htype, h⟩ := h.of_bind (keeps_resolveType _ _).grows fun _ =>
    .bind (keeps_inferInit _ _ _ _).grows fun _ => .bind (keeps_declare _ _ _) fun _ => .pure _
  obtain ⟨init, r', -, hinit, h⟩ := h.of_bind (keeps_inferInit _ _ _ _).grows fun _ =>
    .bind (keeps_declare _ _ _) fun _ => .pure _
  obtain ⟨scope'', hdeclare, heq⟩ := h.of_map (keeps_declare _ _ _)
  obtain ⟨rfl, rfl⟩ := Prod.mk.inj heq
  have denotes := hrules.type.1 (gives_resolveType_iff.1 htype.toGives)
  have typed := (gives_inferInit_iff hrules fits fresh (hr.trans hs) denotes.ne_error).1 hinit.toGives
  have names : r'.names = s.names :=
    (hinit.names (keeps_inferInit _ _ _ _)).trans (htype.names (keeps_resolveType _ _))
  obtain ⟨hnew, rfl, hnames⟩ := of_runs_declare hdeclare
  rw [names] at hnew hnames
  exact ⟨τ, init, denotes, typed, rfl, rfl, hnew, hnames⟩

theorem gives_checkVariable (hrules : rules.For u) {v : Variable} {init : Option Expr} {τ : Ty}
    {s : CheckState} (fits : scope.Fits c) (fresh : v.Fresh) (hs : s.contexts.current = c)
    (type : Denotes u v.type.text τ) (value : InitTyped u (scope.site c) τ v.init init)
    (hnew : v.name.text ∉ s.names) :
    Gives (checkVariable rules scope v) s
      ({ v with init := init }, scope.addLocal v.name.text τ) := by
  have resolved : Gives (resolveType rules v.type) s τ :=
    gives_resolveType_iff.2 (hrules.type.2 type)
  refine .bind resolved (.bind ((gives_inferInit_iff hrules fits fresh ?_ type.ne_error).2 value)
    (.bind (gives_declare_iff.2 ⟨?_, rfl⟩) (.pure _ _)))
  · exact (keeps_resolveType _ _ _).current.trans hs
  · rw [(keeps_inferInit _ _ _ _ _).names, (keeps_resolveType _ _ _).names]
    exact hnew

theorem gives_checkSpecClause_iff (hrules : rules.For u) {cl cl' : SpecClause} {s : CheckState}
    (fits : scope.Fits { c with clause := some cl.descriptor }) (fresh : cl.Fresh)
    (hs : s.contexts.current = c) :
    Gives (checkSpecClause rules scope cl) s cl' ↔ SpecClauseTyped u (scope.site c) cl cl' := by
  unfold checkSpecClause
  rw [gives_isRegistered_iff (registered_of_standard hrules fresh.descriptor), if_pos rfl,
    gives_map_iff (keeps_inferClause _ _ _ _).grows]
  constructor
  · rintro ⟨e, value, rfl⟩
    exact ⟨(gives_inferClause_iff hrules fits fresh.expr hs).1 value⟩
  · rintro ⟨body⟩
    exact ⟨_, (gives_inferClause_iff hrules fits fresh.expr hs).2 body, rfl⟩

theorem runs_declareLabel_iff {label : Name} {s t : CheckState} :
    Runs (declareLabel scope label) s scope' t ↔
      scope.hasLabel label.text = false ∧ scope' = scope.addLabel label.text ∧ s = t := by
  unfold declareLabel
  cases h : scope.hasLabel label.text with
  | true =>
    rw [if_pos rfl]
    exact iff_of_false (fun g => absurd g.toGives (not_gives_report (.pure _))) (by simp)
  | false =>
    rw [if_neg Bool.false_ne_true, runs_pure_iff]
    exact ⟨fun ⟨h, h'⟩ => ⟨rfl, h.symm, h'⟩, fun ⟨_, h, h'⟩ => ⟨h.symm, h'⟩⟩

theorem hasLabel_eq_false_iff {label : String} :
    scope.hasLabel label = false ↔ (scope.site c).labels label = none := by
  simp [Scope.hasLabel, Scope.site]

/-- A method that gives no value back has to be void. -/
theorem gives_checkLeave_none_iff {value' : Option Expr} {span : Span} {s : CheckState} {τ : Ty}
    (hτ : scope.env.returnType = some τ) (known : τ ≠ .error) :
    Gives (checkLeave rules scope none span) s value' ↔ τ = .void ∧ value' = none := by
  unfold checkLeave
  dsimp only
  rw [hτ, Option.getD_some, Ty.isError_eq_false known, Bool.not_false, Bool.and_true]
  by_cases hvoid : τ = .void
  · rw [Ty.isVoid_iff.2 hvoid, Bool.not_true, if_neg Bool.false_ne_true, gives_pure_iff,
      and_iff_right hvoid]
    exact eq_comm
  · rw [Bool.eq_false_iff.2 fun h => hvoid (Ty.isVoid_iff.1 h), Bool.not_false, if_pos rfl]
    exact iff_of_false (not_gives_report (.pure _)) fun h => hvoid h.1

/-- The value that a method gives back has the type that the method returns. -/
theorem gives_checkLeave_some_iff (hrules : rules.For u) (fits : scope.Fits {}) {e : Expr}
    {value' : Option Expr} {span : Span} {s : CheckState} {τ : Ty}
    (hτ : scope.env.returnType = some τ) (known : τ ≠ .error) (fresh : e.Fresh)
    (hs : s.contexts.current = {}) :
    Gives (checkLeave rules scope (some e) span) s value' ↔
      τ ≠ .void ∧ ∃ e', HasType u (scope.site {}) e τ e' ∧ some e' = value' := by
  unfold checkLeave
  dsimp only
  rw [hτ, Option.getD_some]
  by_cases hvoid : τ = .void
  · rw [if_pos (Ty.isVoid_iff.2 hvoid)]
    refine iff_of_false (fun h => ?_) fun h => h.1 hvoid
    obtain ⟨_, _, _, -, h⟩ := h.seq (keeps_infer _ _ _) fun _ =>
      .bind (.report _ _) fun _ => .pure _
    exact absurd h (not_gives_report (.pure _))
  · rw [if_neg fun h => hvoid (Ty.isVoid_iff.1 h), and_iff_right hvoid]
    refine (gives_map_iff (keeps_inferAs _ _ _ _).grows).trans ?_
    constructor
    · rintro ⟨⟨σ, e'⟩, given, rfl⟩
      obtain ⟨rfl, typed⟩ := (gives_inferAs_iff hrules fits fresh hs known).1 given
      exact ⟨e', typed, rfl⟩
    · rintro ⟨e', typed, rfl⟩
      exact ⟨_, (gives_inferAs_iff hrules fits fresh hs known).2 ⟨rfl, typed⟩, rfl⟩

/-- What a method gives back is checked as the judgement says. -/
theorem gives_checkLeave_iff (hrules : rules.For u) (body : scope.Body)
    {value value' : Option Expr} {span : Span} {s : CheckState} (fresh : ∀ e ∈ value, e.Fresh)
    (hs : s.contexts.current = {}) :
    Gives (checkLeave rules scope value span) s value' ↔
      StatementTyped u (scope.site {}) (.leave value span) (.leave value' span) (scope.site {}) := by
  obtain ⟨τ, hτ⟩ := Option.isSome_iff_exists.1 body.inside
  have returns : (scope.site {}).returns = some τ := hτ
  have known : τ ≠ .error := fun h => body.fits.clean.returns (h ▸ returns)
  cases value with
  | none =>
    rw [gives_checkLeave_none_iff hτ known]
    constructor
    · rintro ⟨rfl, rfl⟩
      exact .leaveVoid returns
    · intro h
      cases h with
      | leaveVoid returns' => exact ⟨Option.some.inj (returns.symm.trans returns'), rfl⟩
  | some e =>
    rw [gives_checkLeave_some_iff hrules body.fits hτ known (fresh e rfl) hs]
    constructor
    · rintro ⟨other, e', typed, rfl⟩
      exact .leave returns other typed
    · intro h
      cases h with
      | leave returns' other typed =>
        obtain rfl := Option.some.inj (returns'.symm.trans returns)
        exact ⟨other, _, typed, rfl⟩

/-! ### What is checked is well typed -/

/-- What checking a statement without finding anything wrong shows: it is well typed, the
scope behind it belongs to the body as well, and its variables have been declared under
names that were new. -/
structure Checked (u : CompilationUnit) (scope : Scope) (s : CheckState) (st st' : Statement)
    (scope' : Scope) (t : CheckState) : Prop where
  typed : StatementTyped u (scope.site {}) st st' (scope'.site {})
  body : scope'.Body
  names : t.names = st.declared.reverse ++ s.names
  distinct : s.names.Nodup → t.names.Nodup

/-- The same of the statements of a block. -/
structure CheckedAll (u : CompilationUnit) (scope : Scope) (s : CheckState)
    (ss ss' : List Statement) (t : CheckState) : Prop where
  typed : StatementsTyped u (scope.site {}) ss ss'
  names : t.names = (Statement.declared.listDeclared ss).reverse ++ s.names
  distinct : s.names.Nodup → t.names.Nodup

/-- A statement that declares nothing leaves scope and names as they are. -/
theorem Checked.of_same {s t : CheckState} {st st' : Statement} (body : scope.Body)
    (hdeclared : st.declared = []) (hnames : t.names = s.names)
    (typed : StatementTyped u (scope.site {}) st st' (scope.site {})) :
    Checked u scope s st st' scope t :=
  ⟨typed, body, by rw [hdeclared, hnames]; rfl, fun h => hnames ▸ h⟩

theorem Checked.of_declared {s t : CheckState} {st st' : Statement} {word : String} {τ : Ty}
    (body : scope.Body) (hτ : τ ≠ .error) (hdeclared : st.declared = [word])
    (hnew : word ∉ s.names) (hnames : t.names = word :: s.names)
    (typed : StatementTyped u (scope.site {}) st st' ((scope.site {}).declare word τ)) :
    Checked u scope s st st' (scope.addLocal word τ) t := by
  refine ⟨?_, body.addLocal word hτ, by rw [hdeclared, hnames]; rfl, fun h => ?_⟩
  · rwa [Scope.site_addLocal body.entry]
  · rw [hnames]
    exact List.nodup_cons.2 ⟨hnew, h⟩

mutual

theorem checked_of_runs (hrules : rules.For u) :
    ∀ (st : Statement) {scope scope' : Scope} {s t : CheckState} {st' : Statement}, scope.Body →
      st.Fresh → s.contexts.current = {} → Runs (checkStatement rules scope st) s (st', scope') t →
        Checked u scope s st st' scope' t
  | .declare decl, scope, scope', s, t, st', body, fresh, hs, h => by
    obtain ⟨⟨decl', _⟩, hvariable, heq⟩ := h.of_map (keeps_checkVariable _ _ _)
    obtain ⟨rfl, rfl⟩ := Prod.mk.inj heq
    obtain ⟨τ, init, type, value, rfl, rfl, hnew, hnames⟩ :=
      of_runs_checkVariable hrules body.fits fresh hs hvariable
    exact .of_declared body type.ne_error rfl hnew hnames (.declare type value)
  | .ghost d decl, scope, scope', s, t, st', body, ⟨hd, fresh⟩, hs, h => by
    rw [checkStatement, runs_isRegistered_iff (registered_of_standard hrules (.of_eq hd)),
      if_pos rfl] at h
    obtain ⟨⟨decl', _⟩, hwithin, heq⟩ := h.of_map (.within_grows _ (keeps_checkVariable _ _ _))
    obtain ⟨rfl, rfl⟩ := Prod.mk.inj heq
    obtain ⟨r', hvariable, rfl⟩ := runs_within_iff.1 hwithin
    subst hd
    have fits := body.fits.inside (d := .ofKind .declaration) rfl (.inl rfl)
    obtain ⟨τ, init, type, value, rfl, rfl, hnew, hnames⟩ :=
      of_runs_checkVariable hrules fits fresh (by rw [ContextStack.current_enter, hs]) hvariable
    exact .of_declared body type.ne_error rfl hnew hnames (.ghost type value)
  | .assign target value span, scope, scope', s, t, st', body, fresh, hs, h => by
    obtain ⟨τ, r, hr, hseen, h⟩ := h.of_bind (keeps_variableType _ _ _).grows fun _ =>
      .bind (keeps_inferAs _ _ _ _).grows fun _ => .pure _
    obtain ⟨⟨σ, value'⟩, hvalue, heq⟩ := h.of_map (keeps_inferAs _ _ _ _).grows
    obtain ⟨rfl, rfl⟩ := Prod.mk.inj heq
    have seen := (Scope.sees_iff hrules (c := {})).1 (gives_variableType_iff.1 hseen.toGives)
    obtain ⟨rfl, typed⟩ := (gives_inferAs_iff hrules body.fits fresh (hr.trans hs)
      (seen.ne_error body.fits.clean)).1 hvalue.toGives
    refine .of_same body rfl ?_ (.assign seen typed)
    rw [hvalue.names (keeps_inferAs _ _ _ _), hseen.names (keeps_variableType _ _ _)]
  | .labeled label inner span, scope, scope', s, t, st', body, fresh, hs, h => by
    obtain ⟨scope₁, r, hr, hlabel, h⟩ := h.of_bind (keeps_declareLabel _ _).grows fun _ =>
      .bind (keeps_checkStatement _ _ _) fun _ => .pure _
    obtain ⟨⟨inner', scope₂⟩, hinner, heq⟩ := h.of_map (keeps_checkStatement _ _ _)
    obtain ⟨rfl, rfl⟩ := Prod.mk.inj heq
    obtain ⟨hfree, rfl, rfl⟩ := runs_declareLabel_iff.1 hlabel
    have checked := checked_of_runs hrules inner (body.addLabel label.text) fresh hs hinner
    refine ⟨.labeled (hasLabel_eq_false_iff.1 hfree) ?_, checked.body, checked.names, checked.distinct⟩
    rw [← Scope.site_addLabel]
    exact checked.typed
  | .clause cl, scope, scope', s, t, st', body, ⟨fresh, word, hkind⟩, hs, h => by
    obtain ⟨cl', hclause, heq⟩ := h.of_map (keeps_checkSpecClause _ _ _).grows
    obtain ⟨rfl, rfl⟩ := Prod.mk.inj heq
    have fits := body.fits.inside fresh.descriptor (.inl (by rw [hkind]; rfl))
    refine .of_same body rfl (hclause.names (keeps_checkSpecClause _ _ _)) (.clause ?_)
    exact (gives_checkSpecClause_iff hrules fits fresh hs).1 hclause.toGives
  | .leave value span, scope, scope', s, t, st', body, fresh, hs, h => by
    obtain ⟨value', hleave, heq⟩ := h.of_map (keeps_checkLeave _ _ _ _).grows
    obtain ⟨rfl, rfl⟩ := Prod.mk.inj heq
    refine .of_same body rfl (hleave.names (keeps_checkLeave _ _ _ _)) ?_
    exact (gives_checkLeave_iff hrules body fresh hs).1 hleave.toGives
  | .expr e, scope, scope', s, t, st', body, fresh, hs, h => by
    obtain ⟨⟨τ, e'⟩, hvalue, heq⟩ := h.of_map (keeps_infer _ _ _).grows
    obtain ⟨rfl, rfl⟩ := Prod.mk.inj heq
    have typed := hasType_of_gives hrules body.fits fresh hs hvalue.toGives
    exact .of_same body rfl (hvalue.names (keeps_infer _ _ _)) (.expr typed)
  | .block statements span, scope, scope', s, t, st', body, fresh, hs, h => by
    obtain ⟨statements', hinner, heq⟩ := h.of_map (keeps_checkStatements _ _ _)
    obtain ⟨rfl, rfl⟩ := Prod.mk.inj heq
    have checked := checkedAll_of_runs hrules statements body fresh hs hinner
    exact ⟨.block checked.typed, body, checked.names, checked.distinct⟩
  | .missing span, _, _, _, _, _, _, fresh, _, _ => fresh.elim

theorem checkedAll_of_runs (hrules : rules.For u) :
    ∀ (ss : List Statement) {scope : Scope} {s t : CheckState} {ss' : List Statement}, scope.Body →
      Statement.Fresh.listFresh ss → s.contexts.current = {} →
        Runs (checkStatements rules scope ss) s ss' t → CheckedAll u scope s ss ss' t
  | [], scope, s, t, ss', body, _, hs, h => by
    obtain ⟨rfl, rfl⟩ := runs_pure_iff.1 h
    exact ⟨.nil, rfl, id⟩
  | st :: ss, scope, s, t, ss', body, fresh, hs, h => by
    obtain ⟨⟨st', scope'⟩, r, hr, hfirst, h⟩ := h.of_bind (keeps_checkStatement _ _ _) fun _ =>
      .bind (keeps_checkStatements _ _ _) fun _ => .pure _
    obtain ⟨rest, hrest, rfl⟩ := h.of_map (keeps_checkStatements _ _ _)
    have first := checked_of_runs hrules st body fresh.1 hs hfirst
    have others := checkedAll_of_runs hrules ss first.body fresh.2 (hr.trans hs) hrest
    refine ⟨.cons first.typed others.typed, ?_, others.distinct ∘ first.distinct⟩
    rw [others.names, first.names, Statement.declared.listDeclared, List.reverse_append,
      List.append_assoc]

end

/-! ### What is well typed is checked -/

mutual

theorem gives_of_statementTyped (hrules : rules.For u) :
    ∀ {Γ Δ : Site} {st st' : Statement}, StatementTyped u Γ st st' Δ →
      ∀ (scope : Scope) (s : CheckState), scope.Body → scope.site {} = Γ → st.Fresh →
        s.contexts.current = {} → (st.declared.reverse ++ s.names).Nodup →
          ∃ scope', scope'.site {} = Δ ∧ Gives (checkStatement rules scope st) s (st', scope')
  | _, _, _, _, @StatementTyped.declare _ _ decl _ _ type value, scope, s, body, hΓ, fresh, hs,
    hnew => by
    subst hΓ
    refine ⟨_, Scope.site_addLocal body.entry decl.name.text _, ?_⟩
    exact .bind (gives_checkVariable hrules body.fits fresh hs type value
      (List.nodup_cons.1 hnew).1) (.pure _ _)
  | _, _, _, _, @StatementTyped.ghost _ _ _ decl _ _ type value, scope, s, body, hΓ, ⟨hd, fresh⟩, hs,
    hnew => by
    subst hΓ hd
    refine ⟨_, Scope.site_addLocal body.entry decl.name.text _, ?_⟩
    have fits := body.fits.inside (d := .ofKind .declaration) rfl (.inl rfl)
    rw [checkStatement, gives_isRegistered_iff (registered_of_standard hrules (.of_eq rfl)),
      if_pos rfl]
    have inner := gives_within_iff.2 (gives_checkVariable hrules fits fresh
      (by rw [ContextStack.current_enter, hs]) type value (List.nodup_cons.1 hnew).1)
    exact .bind inner (.pure _ _)
  | _, _, _, _, .assign seen hvalue, scope, s, body, hΓ, fresh, hs, hnew => by
    subst hΓ
    have known := hvalue.ne_error body.fits.clean
    refine ⟨scope, rfl, .bind (gives_variableType_iff.2 ((Scope.sees_iff hrules).2 seen))
      (.bind ((gives_inferAs_iff hrules body.fits fresh ?_ known).2 ⟨rfl, hvalue⟩) (.pure _ _))⟩
    exact (keeps_variableType _ _ _ _).current.trans hs
  | _, _, _, _, @StatementTyped.labeled _ _ _ label _ _ _ free hbody, scope, s, body, hΓ, fresh, hs,
    hnew => by
    subst hΓ
    have entered : Runs (declareLabel scope label) s (scope.addLabel label.text) s :=
      runs_declareLabel_iff.2 ⟨hasLabel_eq_false_iff.2 free, rfl, rfl⟩
    obtain ⟨scope', hΔ, inner⟩ := gives_of_statementTyped hrules hbody _ s
      (body.addLabel label.text) (Scope.site_addLabel label.text) fresh hs hnew
    refine ⟨scope', hΔ, .bind entered.toGives ?_⟩
    rw [entered.state]
    exact .bind inner (.pure _ _)
  | _, _, _, _, .clause h, scope, s, body, hΓ, ⟨fresh, word, hkind⟩, hs, hnew => by
    subst hΓ
    have fits := body.fits.inside fresh.descriptor (.inl (by rw [hkind]; rfl))
    exact ⟨scope, rfl, .bind ((gives_checkSpecClause_iff hrules fits fresh hs).2 h) (.pure _ _)⟩
  | _, _, _, _, .leave returns other hvalue, scope, s, body, hΓ, fresh, hs, hnew => by
    subst hΓ
    exact ⟨scope, rfl, .bind ((gives_checkLeave_iff hrules body fresh hs).2
      (.leave returns other hvalue)) (.pure _ _)⟩
  | _, _, _, _, .leaveVoid returns, scope, s, body, hΓ, fresh, hs, hnew => by
    subst hΓ
    exact ⟨scope, rfl, .bind ((gives_checkLeave_iff hrules body fresh hs).2 (.leaveVoid returns))
      (.pure _ _)⟩
  | _, _, _, _, .expr h, scope, s, body, hΓ, fresh, hs, hnew => by
    subst hΓ
    exact ⟨scope, rfl, .bind (gives_of_hasType hrules h scope {} s body.fits rfl fresh hs)
      (.pure _ _)⟩
  | _, _, _, _, .block h, scope, s, body, hΓ, fresh, hs, hnew => by
    have inner := gives_of_statementsTyped hrules h scope s body hΓ fresh hs hnew
    exact ⟨scope, hΓ, .bind inner (.pure _ _)⟩

theorem gives_of_statementsTyped (hrules : rules.For u) :
    ∀ {Γ : Site} {ss ss' : List Statement}, StatementsTyped u Γ ss ss' →
      ∀ (scope : Scope) (s : CheckState), scope.Body → scope.site {} = Γ →
        Statement.Fresh.listFresh ss → s.contexts.current = {} →
          ((Statement.declared.listDeclared ss).reverse ++ s.names).Nodup →
            Gives (checkStatements rules scope ss) s ss'
  | _, _, _, .nil, _, _, _, _, _, _, _ => .pure _ _
  | _, _, _, .cons (s := st) first others, scope, s, body, hΓ, fresh, hs, hnew => by
    rw [Statement.declared.listDeclared, List.reverse_append, List.append_assoc] at hnew
    obtain ⟨scope', hΔ, hfirst⟩ := gives_of_statementTyped hrules first scope s body hΓ fresh.1 hs
      (List.nodup_append.1 hnew).2.1
    have checked := checked_of_runs hrules st body fresh.1 hs (.of_gives hfirst)
    refine .bind hfirst (.bind (gives_of_statementsTyped hrules others scope' _ checked.body hΔ
      fresh.2 ?_ ?_) (.pure _ _))
    · exact (keeps_checkStatement _ _ _ _).current.trans hs
    · rw [checked.names]
      exact hnew

end

end Check

end Contracts
