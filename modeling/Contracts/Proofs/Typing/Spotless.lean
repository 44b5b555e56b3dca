import Contracts.Proofs.Parsing.UnitSound
import Contracts.Proofs.Typing.Faultless
import Contracts.Proofs.Typing.Outcomes
import Contracts.Proofs.Typing.Points
import Contracts.Proofs.Typing.Recorded

/-! Units of which nothing is reported. The error type comes from a mistake that is reported
where it is made, or from the error type of a part; so where nothing is reported there is none,
and every reference to an earlier state has a type recorded (`recorded_of_spotless`). This asks for
references that have an argument, and no argument besides it but a label. -/

namespace Contracts

/-! ### Types at hand -/

theorem Ty.int_ne_error : Ty.int ≠ .error := nofun

theorem Ty.boolean_ne_error : Ty.boolean ≠ .error := nofun

theorem Ty.named_ne_error (name : String) : Ty.named name ≠ .error := nofun

theorem UnaryOp.typing_ne_error : ∀ op : UnaryOp, op.typing ≠ .error
  | .neg => Ty.int_ne_error
  | .not => Ty.boolean_ne_error

theorem BinaryOp.result?_ne_error {op : BinaryOp} {left right type : Ty}
    (h : op.result? left right = some type) : type ≠ .error := by
  unfold result? at h
  split at h
  · obtain rfl := Option.some.inj h
    cases op
    all_goals first | exact Ty.int_ne_error | exact Ty.boolean_ne_error
  · cases h

theorem ClassTable.type?_ne_error {table : ClassTable} {word : String} {type : Ty}
    (h : table.type? word = some type) : type ≠ .error := by
  rcases Option.or_eq_some_iff.1 h with primitive | ⟨-, named⟩
  · unfold Ty.primitive? at primitive
    split at primitive <;> cases primitive <;> nofun
  · split at named <;> cases named
    exact Ty.named_ne_error word

/-- References take an argument, and a label behind it if their keyword may ask for one. -/
def Registry.Regular (registry : Registry) : Prop :=
  ∀ d word, registry.Holds d → d.kind = .state word → ∀ n, d.arity.admits n = true →
    n = 1 ∨ n = 2 ∧ word.isEntry = false

/-- No member that can be looked up is of the error type. -/
structure Rules.Clean (rules : Rules) : Prop where
  fields : ∀ owner field, rules.classes.field? owner field ≠ some .error
  methods : ∀ owner method signature,
    rules.classes.method? owner method = some signature → signature.result ≠ .error

structure Env.Clean (env : Env) : Prop where
  returnType : env.returnType ≠ some .error
  locals : ∀ entry ∈ env.locals, entry.2 ≠ .error

/-- No variable is of the error type, now and in the earlier states. -/
structure Scope.Clean (scope : Scope) : Prop where
  env : scope.env.Clean
  entry : ∀ env ∈ scope.entry, env.Clean
  labels : ∀ entry ∈ scope.labels, entry.2.Clean

theorem Env.Clean.typeOf {env : Env} (h : env.Clean) {rules : Rules} (clean : rules.Clean)
    {word : String} {type : Ty} (htype : env.typeOf? rules.classes word = some type) :
    type ≠ .error := by
  rcases Option.or_eq_some_iff.1 htype with isLocal | ⟨-, isField⟩
  · exact h.locals _ (Check.mem_of_lookup isLocal)
  · rintro rfl
    exact clean.fields _ _ isField

namespace Scope.Clean

variable {scope : Scope}

theorem envAt (h : scope.Clean) (label : StateLabel) : (scope.envAt label).Clean := by
  cases label with
  | entry =>
    cases hentry : scope.entry with
    | none =>
      rw [Scope.envAt, hentry]
      exact h.env
    | some env =>
      rw [Scope.envAt, hentry]
      exact h.entry env hentry
  | named label =>
    cases hlabel : scope.labels.lookup label.text with
    | none =>
      rw [Scope.envAt, hlabel]
      exact h.env
    | some env =>
      rw [Scope.envAt, hlabel]
      exact h.labels _ (Check.mem_of_lookup hlabel)

theorem asOf (h : scope.Clean) (clause : Option Descriptor) (label : StateLabel) :
    (scope.asOf clause label).Clean := by
  unfold Scope.asOf
  split
  · exact h
  · exact h
  · exact ⟨h.envAt label, h.entry, h.labels⟩

theorem addLabel (h : scope.Clean) (label : String) : (scope.addLabel label).Clean :=
  ⟨h.env, h.entry, List.forall_mem_cons.2 ⟨h.env, h.labels⟩⟩

theorem addLocal (h : scope.Clean) (name : String) {type : Ty} (known : type ≠ .error) :
    (scope.addLocal name type).Clean :=
  ⟨⟨h.env.returnType, List.forall_mem_cons.2 ⟨known, h.env.locals⟩⟩, h.entry, h.labels⟩

end Scope.Clean

/-! ### References to earlier states -/

theorem Scope.eq_name_of_label {scope : Scope} {e : Expr} {label : Name}
    (h : scope.label? e = some label) : e = .name label := by
  unfold label? at h
  split at h
  · obtain ⟨name, -⟩ := Option.filter_eq_some_iff.1 h
    cases e with
    | name n => exact congrArg Expr.name (Option.some.inj name)
    | _ => cases name
  · cases h

/-- With a reference of which nothing is reported stands an argument that is read and, it may be, a
label behind it. -/
theorem StateHead.args_of_errors_nil {registry : Registry} (regular : registry.Regular)
    {head : StateHead} (registered : registry.Holds head.descriptor)
    (kind : head.descriptor.kind = .state head.keyword) {es : List Expr}
    {clause : Option Descriptor} {scope : Scope} (h : head.errors es clause scope = []) :
    (∃ e, es = [e]) ∨ ∃ e label, es = [e, .name label] := by
  obtain ⟨wrong, noLabel⟩ := List.append_eq_nil_iff.1 h
  obtain ⟨arity, -⟩ := List.append_eq_nil_iff.1 wrong
  have admitted : head.descriptor.arity.admits es.length = true := by
    by_contra notAdmitted
    rw [StateHead.arityError?, if_neg notAdmitted] at arity
    split at arity <;> cases arity
  rcases regular _ _ registered kind _ admitted with one | ⟨two, asks⟩
  · exact .inl (List.length_eq_one_iff.1 one)
  · obtain ⟨e, second, rfl⟩ := List.length_eq_two.1 two
    cases found : scope.label? second with
    | none => simp [StateHead.labelError?, StateHead.labelArgument?, asks, found] at noLabel
    | some label => exact .inr ⟨e, label, by rw [Scope.eq_name_of_label found]⟩

namespace Check

variable {rules : Rules}

/-! ### Expressions -/

/-- A type is known and so are the types recorded in an expression. -/
structure Known (f : Found) : Prop where
  type : f.type ≠ .error
  recorded : Recorded f.expr.stateTypes

theorem signature_ne_error (clean : rules.Clean) {owner : Ty} {method : String}
    {signature : Option Signature} (some : signature.isSome)
    (h : signature? rules owner method = signature) : resultOf signature ≠ .error := by
  obtain ⟨found, rfl⟩ := Option.isSome_iff_exists.1 some
  cases owner with
  | named name => exact clean.methods name method found h
  | _ => cases h

/-- The three parts of the mutual recursion, in its own cases. -/
theorem known_found_all (clean : rules.Clean) (regular : rules.registry.Regular) :
    (∀ scope e, ∀ c, scope.Clean → e.Whole → e.Registered rules.registry →
      (found rules ⟨scope, c⟩ e).errors = [] → Known (found rules ⟨scope, c⟩ e)) ∧
      (∀ scope typeArgs es, ∀ c, scope.Clean → Expr.Whole.listWhole es →
        Expr.Registered.listRegistered rules.registry es → es ≠ [] →
          Expr.stateTypes.listTypes es.tail = [] →
            let payload := foundPayload rules ⟨scope, c⟩ typeArgs es
            payload.2.2 = [] →
              payload.1 ≠ .error ∧ Recorded (Expr.stateTypes.listTypes payload.2.1)) ∧
      ∀ scope params es, ∀ c, scope.Clean → Expr.Whole.listWhole es →
        Expr.Registered.listRegistered rules.registry es →
          (foundArgs rules ⟨scope, c⟩ params es).2 = [] →
            Recorded (Expr.stateTypes.listTypes (foundArgs rules ⟨scope, c⟩ params es).1) := by
  refine infer.mutual_induct _ _ _ ?name ?int ?bool ?result ?binary ?unary ?field ?ownCall
    ?fieldCall ?otherCall ?state ?missing ?noPayload ?payload ?noArgs ?args
  case name =>
    intro scope n c scopeClean _ _ quiet
    rw [found_name] at quiet ⊢
    have type := (outcome_symbol rules scope.env n).of_quiet quiet id
    exact ⟨scopeClean.env.typeOf clean type, .nil⟩
  case int =>
    intro scope value span c _ _ _ _
    rw [found_int]
    exact ⟨Ty.int_ne_error, .nil⟩
  case bool =>
    intro scope value span c _ _ _ _
    rw [found_bool]
    exact ⟨Ty.boolean_ne_error, .nil⟩
  case result =>
    intro scope span c scopeClean _ _ quiet
    rw [found_result] at quiet ⊢
    have type := (outcome_result scope.env span c).of_quiet quiet id
    refine ⟨fun unknown => scopeClean.env.returnType ?_, .nil⟩
    rw [type]
    exact congrArg some unknown
  case binary =>
    intro scope op l r span left right c scopeClean whole registered quiet
    rw [found_binary] at quiet ⊢
    simp only [List.append_eq_nil_iff] at quiet
    obtain ⟨quietLeft, quietRight, quietJoin⟩ := quiet
    have left := left c scopeClean whole.1 registered.1 quietLeft
    have right := right c scopeClean whole.2 registered.2 quietRight
    have known := not_or.2 ⟨left.type, right.type⟩
    have type := (outcome_binary op _ _ span c).of_quiet quietJoin known
    exact ⟨BinaryOp.result?_ne_error type, recorded_append.2 ⟨left.recorded, right.recorded⟩⟩
  case unary =>
    intro scope op e span operand c scopeClean whole registered quiet
    rw [found_unary] at quiet ⊢
    simp only [List.append_eq_nil_iff] at quiet
    have operand := operand c scopeClean whole registered quiet.1
    have type := (outcome_unary op _ span c).of_quiet quiet.2 operand.type
    refine ⟨?_, operand.recorded⟩
    change given (unaryType op _ span) c ≠ .error
    rw [type]
    exact op.typing_ne_error
  case field =>
    intro scope e n span base c scopeClean whole registered quiet
    rw [found_field] at quiet ⊢
    simp only [List.append_eq_nil_iff] at quiet
    have base := base c scopeClean whole registered quiet.1
    obtain ⟨owner, -, type⟩ := (outcome_field rules _ n c).of_quiet quiet.2 base.type
    refine ⟨fun unknown => clean.fields owner n.text ?_, base.recorded⟩
    rw [type]
    exact congrArg some unknown
  case ownCall =>
    intro scope method es span args c scopeClean whole registered quiet
    rw [found_ownCall] at quiet ⊢
    simp only [List.append_eq_nil_iff] at quiet
    obtain ⟨found, signature⟩ :=
      (outcome_signature rules _ method es span c).of_quiet quiet.1 (Ty.named_ne_error _)
    exact ⟨signature_ne_error clean found signature,
      args _ c scopeClean whole.2 registered.2 quiet.2⟩
  case fieldCall =>
    intro scope base method calleeSpan es span first args c scopeClean whole registered quiet
    rw [found_fieldCall] at quiet ⊢
    simp only [List.append_eq_nil_iff] at quiet
    have base := first c scopeClean whole.1 registered.1 quiet.1
    obtain ⟨found, signature⟩ :=
      (outcome_signature rules _ method es span c).of_quiet quiet.2.1 base.type
    exact ⟨signature_ne_error clean found signature,
      recorded_append.2 ⟨base.recorded, args _ c scopeClean whole.2 registered.2 quiet.2.2⟩⟩
  case otherCall =>
    intro scope callee es span notName notField hcallee hargs c scopeClean whole registered quiet
    rw [found_otherCall notName notField] at quiet
    simp only [List.append_eq_nil_iff] at quiet
    -- What is called is known, so the call would have been reported.
    have callee := hcallee c scopeClean whole.1 registered.1 quiet.1
    have reported := quiet.2.2
    rw [callableErrors, Ty.isError_eq_false callee.type] at reported
    cases reported
  case state =>
    intro scope head es recorded payload c scopeClean whole registered quiet
    obtain ⟨holds, kind, registered⟩ := registered
    obtain ⟨-, rfl, whole⟩ := whole
    rw [found_state holds] at quiet ⊢
    simp only [List.append_eq_nil_iff] at quiet
    obtain ⟨own, quiet⟩ := quiet
    simp only [if_pos own] at quiet ⊢
    have args : es ≠ [] ∧ Expr.stateTypes.listTypes es.tail = [] := by
      rcases StateHead.args_of_errors_nil regular holds kind own with ⟨e, rfl⟩ | ⟨e, label, rfl⟩
      · exact ⟨List.cons_ne_nil _ _, rfl⟩
      · exact ⟨List.cons_ne_nil _ _, rfl⟩
    obtain ⟨type, others⟩ := payload _ _ (scopeClean.asOf c.clause _) whole registered args.1 args.2
      quiet
    exact ⟨type, recorded_cons.2 ⟨⟨_, rfl, type⟩, others⟩⟩
  case missing =>
    intro scope span c _ whole
    exact whole.elim
  case noPayload =>
    intro scope typeArgs c _ _ _ nonempty
    exact absurd rfl nonempty
  case payload =>
    intro scope typeArgs e es first c scopeClean whole registered _ others payload quiet
    have first := first c scopeClean whole.1 registered.1 (List.append_eq_nil_iff.1 quiet).1
    refine ⟨first.type, recorded_append.2 ⟨first.recorded, ?_⟩⟩
    rw [show Expr.stateTypes.listTypes es = [] from others]
    exact .nil
  case noArgs =>
    intro scope params c _ _ _ _
    rw [foundArgs_nil]
    exact .nil
  case args =>
    intro scope params e es first others c scopeClean whole registered quiet
    rw [foundArgs_cons] at quiet ⊢
    simp only [List.append_eq_nil_iff] at quiet
    have first := first c scopeClean whole.1 registered.1 quiet.1
    exact recorded_append.2 ⟨first.recorded, others c scopeClean whole.2 registered.2 quiet.2.2⟩

/-! ### Written types and declarations -/

theorem declaredType_ne_error {name : Name} (quiet : typeErrors rules name = []) :
    declaredType rules name ≠ .error :=
  ClassTable.type?_ne_error ((outcome_type rules name).of_quiet quiet id)

theorem clean_declare {q : Point} (scope : q.scope.Clean) (name : Name) {type : Ty}
    (known : type ≠ .error) : (q.declare name type).scope.Clean := by
  unfold Point.declare
  split
  · exact scope
  · exact scope.addLocal _ known

theorem clean_label {q : Point} (scope : q.scope.Clean) (label : Name) :
    (q.label label).scope.Clean := by
  unfold Point.label
  split
  · exact scope
  · exact scope.addLabel _

section

variable (clean : rules.Clean) (regular : rules.registry.Regular)

include clean regular

theorem known_found {p : Setting} (scope : p.scope.Clean) {e : Expr} (whole : e.Whole)
    (registered : e.Registered rules.registry) (quiet : (found rules p e).errors = []) :
    Known (found rules p e) :=
  (known_found_all clean regular).1 p.scope e p.context scope whole registered quiet

/-! ### Statements -/

theorem known_errorsAs {p : Setting} (scope : p.scope.Clean) {e : Expr} (whole : e.Whole)
    (registered : e.Registered rules.registry) {expected : Option Ty}
    (quiet : errorsAs rules p expected e = []) : Known (found rules p e) :=
  known_found clean regular scope whole registered (List.append_eq_nil_iff.1 quiet).1

theorem recorded_init {p : Setting} (scope : p.scope.Clean) {init : Option Expr}
    (whole : ∀ e ∈ init, e.Whole) (registered : ∀ e ∈ init, e.Registered rules.registry)
    {expected : Ty} (quiet : initErrors rules p expected init = []) :
    Recorded (((init.map fun e => (found rules p e).expr).map Expr.stateTypes).getD []) := by
  cases init with
  | none => exact .nil
  | some e =>
    exact (known_errorsAs clean regular scope (whole e rfl) (registered e rfl) quiet).recorded

theorem recorded_variable {q : Point} {c : Context} (scope : q.scope.Clean) {v : Variable}
    (whole : v.Whole) (registered : v.Registered rules.registry)
    (quiet : variableErrors rules q c v = []) :
    (q.behind rules v).scope.Clean ∧
      Recorded (readVariable rules (q.setting c) v).stateTypes := by
  simp only [variableErrors, List.append_eq_nil_iff] at quiet
  obtain ⟨type, init, -⟩ := quiet
  exact ⟨clean_declare scope v.name (declaredType_ne_error type),
    recorded_init clean regular (p := q.setting c) scope whole registered init⟩

theorem recorded_leave {p : Setting} (scope : p.scope.Clean) {value : Option Expr} {span : Span}
    (whole : ∀ e ∈ value, e.Whole) (registered : ∀ e ∈ value, e.Registered rules.registry)
    (quiet : leaveErrors rules p value span = []) :
    Recorded (((value.map fun e => (found rules p e).expr).map Expr.stateTypes).getD []) := by
  cases value with
  | none => exact .nil
  | some e =>
    unfold leaveErrors at quiet
    dsimp only at quiet
    split at quiet
    · exact absurd (List.append_eq_nil_iff.1 quiet).2 nofun
    · exact (known_errorsAs clean regular scope (whole e rfl) (registered e rfl) quiet).recorded

end

mutual

theorem recorded_passed (clean : rules.Clean) (regular : rules.registry.Regular) {c : Context}
    {q : Point} (scope : q.scope.Clean) : ∀ {s : Statement},
    s.Whole → s.Registered rules.registry → (passed rules c q s).errors = [] →
      (passed rules c q s).behind.scope.Clean ∧ Recorded (passed rules c q s).statement.stateTypes
  | .declare v, whole, registered, quiet => by
    rw [passed_declare] at quiet ⊢
    exact recorded_variable clean regular scope whole registered quiet
  | .ghost d v, whole, registered, quiet => by
    rw [passed_ghost registered.1] at quiet ⊢
    exact recorded_variable clean regular scope whole registered.2.2 quiet
  | .assign target e span, whole, registered, quiet => by
    rw [passed_assign] at quiet ⊢
    have e := known_errorsAs clean regular (p := q.setting c) scope whole registered
      (List.append_eq_nil_iff.1 quiet).2
    exact ⟨scope, e.recorded⟩
  | .labeled label s span, whole, registered, quiet => by
    rw [passed_labeled] at quiet ⊢
    exact recorded_passed clean regular (clean_label scope label) (s := s) whole registered
      (List.append_eq_nil_iff.1 quiet).2
  | .clause k, whole, registered, quiet => by
    rw [passed_clause registered.1.descriptor] at quiet ⊢
    have e := known_errorsAs clean regular (p := (q.setting c).inside (some k.descriptor)) scope
      whole registered.1.expr quiet
    exact ⟨scope, e.recorded⟩
  | .leave value span, whole, registered, quiet => by
    rw [passed_leave] at quiet ⊢
    exact ⟨scope, recorded_leave clean regular (p := q.setting c) scope whole registered quiet⟩
  | .expr e, whole, registered, quiet => by
    rw [passed_expr] at quiet ⊢
    exact ⟨scope,
      (known_found clean regular (p := q.setting c) scope whole registered quiet).recorded⟩
  | .block ss span, whole, registered, quiet => by
    rw [passed_block] at quiet ⊢
    exact ⟨scope, recorded_passedAll clean regular scope whole registered quiet⟩

theorem recorded_passedAll (clean : rules.Clean) (regular : rules.registry.Regular) {c : Context}
    {q : Point} (scope : q.scope.Clean) : ∀ {ss : List Statement}, Statement.Whole.listWhole ss →
      Statement.Registered.listRegistered rules.registry ss → (passedAll rules c q ss).errors = [] →
        Recorded (Statement.stateTypes.listTypes (passedAll rules c q ss).statements)
  | [], _, _, _ => by
    rw [passedAll_nil]
    exact .nil
  | s :: ss, whole, registered, quiet => by
    rw [passedAll_cons] at quiet ⊢
    simp only [List.append_eq_nil_iff] at quiet
    obtain ⟨behind, first⟩ := recorded_passed clean regular scope whole.1 registered.1 quiet.1
    have others := recorded_passedAll clean regular behind whole.2 registered.2 quiet.2
    exact recorded_append.2 ⟨first, others⟩

end

/-! ### Members -/

theorem recorded_flatMap_iff {ι : Type} {f : ι → List (Option Ty)} {is : List ι} :
    Recorded (is.flatMap f) ↔ ∀ i ∈ is, Recorded (f i) := by
  simp only [Recorded, List.mem_flatMap]
  exact ⟨fun h i hi t ht => h t ⟨i, hi, ht⟩, fun h t ⟨i, hi, ht⟩ => h i hi t ht⟩

theorem clean_outside (className : String) (c : Context) : (outside className c).scope.Clean :=
  ⟨⟨nofun, List.forall_mem_nil _⟩, nofun, List.forall_mem_nil _⟩

theorem clean_params {q : Point} (scope : q.scope.Clean) {ps : List Param}
    (types : ∀ p ∈ ps, declaredType rules p.type ≠ .error) :
    (ps.foldl (Point.param rules) q).scope.Clean := by
  induction ps generalizing q with
  | nil => exact scope
  | cons p ps ih =>
    rw [List.forall_mem_cons] at types
    exact ih (clean_declare scope p.name types.1) types.2

/-- When the types of a method are known, nothing is of the error type at its entry. -/
theorem clean_entry {m : Method} (quiet : signatureErrors rules m = []) (className : String) :
    (m.entry rules className).scope.Clean := by
  obtain ⟨params, result⟩ := List.append_eq_nil_iff.1 quiet
  have types : ∀ p ∈ m.params, declaredType rules p.type ≠ .error := fun p hp =>
    declaredType_ne_error (List.flatMap_eq_nil_iff.1 params _ (List.mem_map_of_mem hp))
  have start : (m.start rules className).scope.Clean :=
    ⟨⟨fun h => declaredType_ne_error result (Option.some.inj h), List.forall_mem_nil _⟩, nofun,
      List.forall_mem_nil _⟩
  have all := clean_params start types
  refine ⟨all.env, fun env henv => ?_, all.labels⟩
  obtain rfl := Option.some.inj henv
  exact all.env

theorem recorded_member (clean : rules.Clean) (regular : rules.registry.Regular) {m : Member}
    (whole : m.Whole) (registered : m.Registered rules.registry) (className : String) (c : Context)
    (types : ∀ m', m = .method m' → signatureErrors rules m' = [])
    (quiet : foundIn rules c className m = []) :
    Recorded (checkedMember rules c className m).stateTypes := by
  cases m with
  | field f =>
    obtain ⟨checked, found⟩ := member_field (fun d hd => (registered.ghost d hd).1) className c
    rw [found] at quiet
    rw [checked]
    exact recorded_init clean regular (p := (outside className c).inside f.ghost)
      (clean_outside className c) whole registered.init quiet
  | clause k =>
    obtain ⟨checked, found⟩ := member_clause registered.descriptor className c
    rw [found] at quiet
    rw [checked]
    exact (known_errorsAs clean regular (p := (outside className c).inside (some k.descriptor))
      (clean_outside className c) whole registered.expr (List.append_eq_nil_iff.1 quiet).1).recorded
  | method m =>
    obtain ⟨checked, found⟩ := member_method
      (fun k hk s hs => ((registered.cases k hk).clauses s hs).1.descriptor) className c
    rw [found] at quiet
    simp only [List.append_eq_nil_iff] at quiet
    obtain ⟨-, cases, body⟩ := quiet
    have entry := clean_entry (types m rfl) className
    rw [checked]
    refine recorded_append.2 ⟨?_, ?_⟩
    · simp only [Method.specClauses, recorded_flatMap_iff, List.mem_flatMap, List.mem_map]
      rintro _ ⟨_, ⟨k, hk, rfl⟩, hs⟩
      obtain ⟨s, inCase, rfl⟩ := List.mem_map.1 hs
      have quiet := List.flatMap_eq_nil_iff.1 (List.flatMap_eq_nil_iff.1 cases k hk) s inCase
      have own := ((registered.cases k hk).clauses s inCase).1.expr
      exact (known_errorsAs clean regular
        (p := ((m.entry rules className).setting c).inside (some s.descriptor)) entry
        (whole.cases k hk s inCase) own quiet).recorded
    · rw [← Statement.listTypes_eq]
      exact recorded_passedAll clean regular entry whole.body registered.body body

/-! ### Declarations -/

theorem quiet_of_errorsOf {ι : Type} {name : ι → Name} {found : ι → List TypeError}
    {known : String → Bool} {is : List ι} (quiet : errorsOf name found known is = []) :
    ∀ i ∈ is, found i = [] := by
  induction is generalizing known with
  | nil => exact List.forall_mem_nil _
  | cons i is ih =>
    simp only [errorsOf, List.append_eq_nil_iff] at quiet
    exact List.forall_mem_cons.2 ⟨quiet.1, ih quiet.2.2⟩

theorem of_lookup_entriesOf {ι α : Type} {name : ι → Name} {value : ι → α} {is : List ι}
    {word : String} {a : α} (h : (entriesOf name value is).lookup word = some a) :
    ∃ i ∈ is, value i = a := by
  have mem := mem_of_lookup h
  rw [entriesOf, List.mem_reverse] at mem
  obtain ⟨i, hi, same⟩ := List.mem_map.1 mem
  exact ⟨i, hi, (Prod.mk.inj same).2⟩

/-- Without repeats every class is the first one of its name. -/
theorem firsts_of_repeats_nil {known : String → Bool} {cs : List Class}
    (h : Class.repeats known cs = []) : Class.firsts known cs = cs := by
  induction cs generalizing known with
  | nil => rfl
  | cons c cs ih =>
    rw [Class.repeats] at h
    rw [Class.firsts]
    split at h
    · cases h
    · next isNew => rw [if_neg isNew, ih h]

/-- What is known of a unit in whose declarations nothing is wrong. -/
theorem quiet_declarations {registry : Registry} {booleanClauses : Bool} {u : CompilationUnit}
    (quiet : (Checker.new registry booleanClauses).declarationErrors u = []) :
    (unitRules registry booleanClauses u).Clean ∧
      ∀ c ∈ u.classes, ∀ m ∈ c.methods,
        signatureErrors (unitRules registry booleanClauses u) m = [] := by
  let start := (Checker.new registry booleanClauses).rules
  obtain ⟨repeats, members⟩ := List.append_eq_nil_iff.1 quiet
  have all : Class.firsts (fun _ => false) u.classes = u.classes :=
    firsts_of_repeats_nil (List.map_eq_nil_iff.1 repeats)
  have quiet : ∀ c ∈ u.classes, declarationErrors (declaredRules start u) c = [] := by
    rw [memberErrors, all] at members
    exact List.flatMap_eq_nil_iff.1 members
  have fields : ∀ c ∈ u.classes, ∀ f ∈ c.fields, typeErrors (declaredRules start u) f.type = [] :=
    fun c hc => quiet_of_errorsOf (List.append_eq_nil_iff.1 (quiet c hc)).1
  have methods : ∀ c ∈ u.classes, ∀ m ∈ c.methods, signatureErrors (declaredRules start u) m = [] :=
    fun c hc => quiet_of_errorsOf (List.append_eq_nil_iff.1 (quiet c hc)).2
  have entry {owner : String} {info : ClassInfo}
      (h : (collectedTable start u).find? owner = some info) :
      (∃ c ∈ u.classes, declaredInfo (declaredRules start u) c = info) ∨
        ({} : ClassInfo) = info := by
    rw [ClassTable.find?, collectedTable, all, declaredRules, List.lookup_append,
      Option.or_eq_some_iff] at h
    rcases h with described | ⟨-, named⟩
    · exact .inl (of_lookup_entriesOf described)
    · rw [show start.classes.entries = [] from rfl, List.append_nil] at named
      obtain ⟨_, -, same⟩ := of_lookup_entriesOf named
      exact .inr same
  refine ⟨⟨fun owner field h => ?_, fun owner method signature h => ?_⟩, fun c hc m hm => ?_⟩
  · obtain ⟨info, hinfo, h⟩ := Option.bind_eq_some_iff.1 h
    rcases entry hinfo with ⟨c, hc, rfl⟩ | rfl
    · obtain ⟨f, hf, type⟩ := of_lookup_entriesOf h
      exact declaredType_ne_error (fields c hc f hf) type
    · cases h
  · obtain ⟨info, hinfo, h⟩ := Option.bind_eq_some_iff.1 h
    rcases entry hinfo with ⟨c, hc, rfl⟩ | rfl
    · obtain ⟨m, hm, rfl⟩ := of_lookup_entriesOf h
      exact declaredType_ne_error (List.append_eq_nil_iff.1 (methods c hc m hm)).2
    · cases h
  · rw [← methods c hc m hm]
    exact signatureErrors_congr (type?_checkedRules u) m

/-- When nothing is reported of a whole unit, every reference to an earlier state in it has a type
recorded that is not the error type. -/
theorem recorded_unit {registry : Registry} (regular : registry.Regular) {u : CompilationUnit}
    (whole : u.Whole) (registered : u.Registered registry) {booleanClauses : Bool}
    (quiet : checkUnit registry booleanClauses u = .ok []) :
    Recorded ((Checker.new registry booleanClauses).check u).unit.stateTypes := by
  obtain ⟨result, unit⟩ := checkUnit_own registered.own booleanClauses
  rw [result] at quiet
  obtain ⟨declarations, members⟩ := List.append_eq_nil_iff.1 (Except.ok.inj quiet)
  obtain ⟨clean, types⟩ := quiet_declarations declarations
  rw [unit]
  simp only [CompilationUnit.stateTypes, CompilationUnit.mapMembers, Class.mapMembers,
    recorded_flatMap_iff, List.mem_map]
  rintro _ ⟨c, hc, rfl⟩ _ checked
  obtain ⟨m, hm, rfl⟩ := List.mem_map.1 checked
  have quiet := List.flatMap_eq_nil_iff.1 (List.flatMap_eq_nil_iff.1 members c hc) m hm
  refine recorded_member clean regular (whole c hc m hm) (registered c hc m hm) c.name.text {} ?_
    quiet
  rintro m rfl
  exact types c hc m (Class.mem_methods.2 hm)

end Check

theorem Registry.regular_standard : Registry.standard.Regular := by
  intro d word h kind n admitted
  obtain rfl := h.eq_ofKind kind
  cases word
  all_goals
    simp [Descriptor.ofKind, ClauseKind.defaultArity, Arity.admits, StateKeyword.isEntry]
      at admitted ⊢
    omega

/-- A limit changes no count. -/
theorem Report.errorCount_limit (max : Option Nat) (r : Report) :
    (r.limit max).errorCount = r.errorCount := by
  cases max with
  | none => rfl
  | some n =>
    have fewerTypes := List.length_take_le' (n - (r.syntaxErrors.take n).length) r.typeErrors
    have fewerSyntax := List.length_take_le' n r.syntaxErrors
    simp only [limit, errorCount]
    omega

/-- Where references take one argument, or with a label two, no error type is silent: when nothing
at all is reported of a source, every reference to an earlier state has a type recorded, and it is
not the error type. -/
theorem recorded_of_spotless {registry : Registry} (regular : registry.Regular)
    (path source : String) (options : Options) :
    ∃ report, checkSource registry path source options = .ok report ∧
      (report.isClean → Recorded ((Checker.new registry options.booleanClauses).check
        (parseUnit registry source).unit).unit.stateTypes) := by
  have registered := registered_parseUnit registry source
  obtain ⟨errors, checked⟩ := exists_checkUnit registered options.booleanClauses
  refine ⟨_, checkSource_of_checkUnit path checked, fun spotless => ?_⟩
  rw [Report.isClean, Report.errorCount_limit, beq_iff_eq] at spotless
  simp only [Report.errorCount, Nat.add_eq_zero_iff, List.length_eq_zero_iff] at spotless
  obtain ⟨⟨syntaxErrors, rfl⟩, -⟩ := spotless
  exact Check.recorded_unit regular (whole_parseUnit syntaxErrors) registered checked

/-- References to the entry and to a label, with the standard registry. -/
theorem recorded_of_spotless_standard :
    let source := "class C \x7b int x; void m(int a) \x7b L: x = a; " ++
      "assert \\old(x, L) == \\pre(a); \x7d \x7d"
    Registry.standard.Regular ∧
      ∃ report, checkSource .standard "input.spec" source {} = .ok report ∧ report.isClean ∧
        ((Checker.new .standard true).check (parseUnit .standard source).unit).unit.stateTypes =
          [some .int, some .int] ∧
        Recorded ((Checker.new .standard true).check
          (parseUnit .standard source).unit).unit.stateTypes := by
  intro source
  obtain ⟨report, checked, recorded⟩ :=
    recorded_of_spotless Registry.regular_standard "input.spec" source {}
  have evaluated : checkSource .standard "input.spec" source {} = .ok ⟨"input.spec", [], [], 0⟩ ∧
      ((Checker.new .standard true).check (parseUnit .standard source).unit).unit.stateTypes =
        [some .int, some .int] := by
    decide +kernel
  obtain rfl : report = ⟨"input.spec", [], [], 0⟩ :=
    Except.ok.inj (checked.symm.trans evaluated.1)
  exact ⟨Registry.regular_standard, _, checked, rfl, evaluated.2, recorded rfl⟩

/-- A registry with a keyword that needs no argument: the reference without one is of the error
type, and nothing is reported. -/
theorem silent_reference :
    let d : Descriptor := ⟨"\\old", .state .old, .between 0 2, .empty⟩
    let registry : Registry := ⟨[d], List.nodup_singleton _⟩
    let source := "class C \x7b int x = \\old(); \x7d"
    checkSource registry "input.spec" source {} = .ok ⟨"input.spec", [], [], 0⟩ ∧
      ((Checker.new registry true).check (parseUnit registry source).unit).unit.stateTypes =
        [some .error] := by
  intro d registry source
  decide +kernel

end Contracts
