import Contracts.Proofs.Typing.Collected
import Contracts.Proofs.Typing.Locality

/-! Checking class by class. What is found in a member, and what is recorded in it, depends on
the rules, the class and the context only (`Check.heedless_checkMember`), so a check adds what
is told by a walk through the classes that looks at no state (`Check.run_checkClasses`). Where
every descriptor is the registry's own, the walk comes to the end and finds what it would find
in each member alone (`Check.sweep_own`). -/

namespace Contracts

namespace Class

/-- Applies a change to every member, under the name of the class. -/
def mapMembers (f : String → Member → Member) (c : Class) : Class :=
  { c with members := c.members.map (f c.name.text) }

/-- What is found in the members, one behind the other. -/
def gather {α : Type} (f : String → Member → List α) (c : Class) : List α :=
  c.members.flatMap (f c.name.text)

end Class

namespace CompilationUnit

def mapMembers (f : String → Member → Member) (u : CompilationUnit) : CompilationUnit :=
  ⟨u.classes.map (·.mapMembers f)⟩

def gather {α : Type} (f : String → Member → List α) (u : CompilationUnit) : List α :=
  u.classes.flatMap (·.gather f)

end CompilationUnit

namespace Effect

variable {α β : Type} {e e' : Effect α} {f f' : Effect β}

/-- The effects differ at most in the names that they leave. -/
structure Alike (e e' : Effect α) : Prop where
  value : e'.value = e.value
  errors : e'.errors = e.errors
  cycles : e'.cycles = e.cycles
  fault : e'.fault = e.fault

theorem Alike.andThen (h : e.Alike e') (k : f.Alike f') :
    (e.andThen f).Alike (e'.andThen f') := by
  refine ⟨k.value, ?_, ?_, ?_⟩
  · simp only [Effect.andThen, h.errors, k.errors]
  · simp only [Effect.andThen, h.cycles, k.cycles]
  · simp only [Effect.andThen, h.fault, k.fault]

end Effect

namespace Check

variable {α β : Type} {rules : Rules}

/-- The names that were declared before make no difference to what the check gives and finds. -/
def Heedless (m : Check α) : Prop := ∀ c names names', (m.effect c names).Alike (m.effect c names')

theorem Local.heedless {m : Check α} (h : Local False True m) : Heedless m := by
  intro c names names'
  rw [h.names trivial c names names']
  exact ⟨rfl, rfl, rfl, rfl⟩

theorem Heedless.pure (a : α) : Heedless (Pure.pure a : Check α) := fun _ _ _ =>
  ⟨rfl, rfl, rfl, rfl⟩

theorem Heedless.bind {m : Check α} {f : α → Check β} (hm : Heedless m) (hf : ∀ a, Heedless (f a))
    (local_m : Local False False m) (local_f : ∀ a, Local False False (f a)) :
    Heedless (m >>= f) := by
  intro c names names'
  have first := hm c names names'
  rw [local_m.effect_bind local_f, effectBind, effectBind, first.value]
  exact first.andThen (hf _ c _ _)

/-! ### Members -/

theorem heedless_checkMember (className : String) (m : Member) :
    Heedless (checkMember rules className m) := by
  cases m with
  | field f =>
    exact Local.heedless (.bind (local_checkField _ False.elim) fun _ => .pure _)
  | clause c =>
    exact Local.heedless (.bind (local_checkTypeClause _ False.elim) fun _ => .pure _)
  | method m => exact fun _ _ _ => ⟨rfl, rfl, rfl, rfl⟩

/-- A member with the types recorded that are found for it in a context. -/
def checkedMember (rules : Rules) (c : Context) (className : String) (m : Member) : Member :=
  ((checkMember rules className m).effect c []).value

/-- What is wrong in a member in a context. -/
def foundIn (rules : Rules) (c : Context) (className : String) (m : Member) : List TypeError :=
  ((checkMember rules className m).effect c []).errors

/-- Members are checked one behind the other, each as if it were alone. -/
theorem effect_checkMembers (rules : Rules) (className : String) (ms : List Member) (c : Context)
    (names : List String) :
    ((checkMembers rules className ms).effect c names).value =
        ms.map (checkedMember rules c className) ∧
      ((checkMembers rules className ms).effect c names).errors =
        ms.flatMap (foundIn rules c className) := by
  induction ms generalizing names with
  | nil => exact ⟨rfl, rfl⟩
  | cons m ms ih =>
    have member : Local False False (checkMember rules className m) :=
      local_checkMember className False.elim
    have others : Local False False (checkMembers rules className ms) :=
      local_checkMembers className False.elim
    have alike : Effect.Alike ((checkMember rules className m).effect c [])
        ((checkMember rules className m).effect c names) :=
      heedless_checkMember className m c [] names
    obtain ⟨values, errors⟩ := ih ((checkMember rules className m).effect c names).names
    rw [checkMembers, member.effect_bind fun _ => .bind others fun _ => .pure _, effectBind,
      others.effect_bind fun _ => .pure _]
    constructor
    · change (_ :: ((checkMembers rules className ms).effect c _).value) = _
      rw [values, alike.value]
      rfl
    · change (_ ++ (((checkMembers rules className ms).effect c _).errors ++ [])) = _
      rw [errors, alike.errors, List.append_nil]
      rfl

section

variable {r r' : Rules} (h : r.Agrees r')

include h

theorem foundIn_congr (c : Context) : foundIn r c = foundIn r' c := by
  funext className m
  rw [foundIn, foundIn, checkMember_congr h]

theorem checkedMember_congr (c : Context) : checkedMember r c = checkedMember r' c := by
  funext className m
  rw [checkedMember, checkedMember, checkMember_congr h]

end

/-! ### Classes -/

theorem heedless_checkMembers (className : String) (ms : List Member) :
    Heedless (checkMembers rules className ms) := by
  induction ms with
  | nil => exact .pure _
  | cons m ms ih =>
    exact .bind (heedless_checkMember className m) (fun _ => ih.bind (fun _ => .pure _)
        (local_checkMembers _ False.elim) fun _ => .pure _)
      (local_checkMember _ False.elim)
      fun _ => .bind (local_checkMembers _ False.elim) fun _ => .pure _

theorem heedless_checkClass (c : Class) : Heedless (checkClass rules c) :=
  .bind (heedless_checkMembers _ _) (fun _ => .pure _) (local_checkMembers _ False.elim)
    fun _ => .pure _

theorem effect_checkClass (rules : Rules) (d : Class) (c : Context) (names : List String) :
    ((checkClass rules d).effect c names).value = d.mapMembers (checkedMember rules c) ∧
      ((checkClass rules d).effect c names).errors = d.gather (foundIn rules c) := by
  have members : Local False False (checkMembers rules d.name.text d.members) :=
    local_checkMembers _ False.elim
  obtain ⟨values, errors⟩ := effect_checkMembers rules d.name.text d.members c names
  rw [checkClass, members.effect_bind fun _ => .pure _]
  constructor
  · change ({ d with members := _ } : Class) = _
    rw [values]
    rfl
  · change _ ++ [] = _
    rw [errors, List.append_nil]
    rfl

/-- Why a check is given up behind a class that noted this fault, if it is. -/
def stop? (depth : Nat) (c : Class) (fault : Option CheckError) : Option CheckError :=
  fault.or (if depth = 0 then none else some (.unbalancedContext c.name.text depth))

theorem run_stopBehind_eq (c : Class) (s : CheckState) :
    (stopBehind c).run s = (stop? s.contexts.depth c s.fault, s) := by
  obtain ⟨contexts, errors, fault, names⟩ := s
  cases fault <;> rfl

/-- What checking classes does to a state without a fault, but for the names: it depends on the
current context and on the number of open frames. -/
def sweep (rules : Rules) (c : Context) (depth : Nat) :
    List Class → Effect (Option CheckError × List Class)
  | [] => { value := (none, []), names := [] }
  | d :: ds =>
    let first := (checkClass rules d).effect c []
    match stop? depth d first.fault with
    | some e => { first with value := (some e, first.value :: ds) }
    | none =>
      let others := sweep rules c depth ds
      { first.andThen others with value := (others.value.1, first.value :: others.value.2) }

theorem run_checkClasses (rules : Rules) (cs : List Class) {s : CheckState}
    (h : s.fault = none) :
    ∃ names, (checkClasses rules cs).run s =
      { sweep rules s.contexts.current s.contexts.depth cs with names := names }.on s := by
  induction cs generalizing s with
  | nil =>
    refine ⟨s.names, ?_⟩
    simp only [sweep, Effect.on, List.append_nil, Option.or_none]
    rfl
  | cons d ds ih =>
    have first : Local False False (checkClass rules d) := local_checkClass False.elim
    obtain ⟨e, he⟩ : ∃ e, (checkClass rules d).effect s.contexts.current s.names = e := ⟨_, rfl⟩
    have alike : Effect.Alike ((checkClass rules d).effect s.contexts.current []) e :=
      he ▸ heedless_checkClass d _ [] s.names
    have stopped : (stopBehind d).run (e.on s).2 =
        (stop? s.contexts.depth d ((checkClass rules d).effect s.contexts.current []).fault,
          (e.on s).2) := by
      rw [run_stopBehind_eq, ← alike.fault]
      simp only [Effect.on, h, Option.none_or]
      rfl
    rw [checkClasses, run_bind, first.run s, he, run_bind, stopped]
    dsimp only
    rw [sweep]
    dsimp only
    cases stop : stop? s.contexts.depth d
        ((checkClass rules d).effect s.contexts.current []).fault with
    | some cause =>
      refine ⟨e.names, ?_⟩
      simp only [Effect.on, alike.value, alike.errors, alike.cycles, alike.fault]
      rfl
    | none =>
      have faultless : (e.on s).2.fault = none := by
        have := (Option.or_eq_none_iff.1 stop).1
        simp only [Effect.on, h, Option.none_or, alike.fault, this]
      obtain ⟨names, others⟩ := ih faultless
      refine ⟨names, ?_⟩
      dsimp only
      rw [run_bind, others]
      simp only [Effect.on, Effect.andThen, alike.value, alike.errors, alike.cycles, alike.fault,
        ContextStack.cycled_cycled, List.append_assoc, Option.or_assoc]
      rfl

/-- With no frame open and the registry's own descriptors, no class ends a check. -/
theorem sweep_own (rules : Rules) (c : Context) {cs : List Class}
    (own : ∀ d ∈ cs, d.Own rules.registry) :
    (sweep rules c 0 cs).value = (none, cs.map (·.mapMembers (checkedMember rules c))) ∧
      (sweep rules c 0 cs).errors = cs.flatMap (·.gather (foundIn rules c)) ∧
      (sweep rules c 0 cs).fault = none := by
  induction cs with
  | nil => exact ⟨rfl, rfl, rfl⟩
  | cons d ds ih =>
    rw [List.forall_mem_cons] at own
    obtain ⟨values, errors, fault⟩ := ih own.2
    obtain ⟨value, found⟩ := effect_checkClass rules d c []
    have faultless : ((checkClass rules d).effect c []).fault = none :=
      (local_checkClass fun _ => own.1 : Local True False _).fault trivial c []
    have goes_on : stop? 0 d ((checkClass rules d).effect c []).fault = none := by
      rw [faultless]
      rfl
    simp only [sweep, goes_on, Effect.andThen, List.map_cons, List.flatMap_cons]
    rw [values, errors, fault, value, found, faultless]
    exact ⟨rfl, rfl, rfl⟩

end Check

/-! ### Checkers -/

namespace Checker

open Check

variable (k : Checker) (u : CompilationUnit)

/-- What is found before any class is checked. -/
def declarationErrors : List TypeError :=
  (Class.repeats k.rules.classes.contains u.classes).map Class.duplicate ++ memberErrors k.rules u

theorem collected_eq :
    k.collected u = (collectedTable k.rules u,
      { contexts := k.contexts, errors := k.pending ++ k.declarationErrors u }) :=
  reports_collect u _

/-- A check is what the walk through the classes tells, behind what is wrong in declarations. -/
theorem checked_eq :
    ∃ names, k.checked u =
      { sweep (checkedRules k.rules u) k.contexts.current k.contexts.depth u.classes with
        names := names }.on
        { contexts := k.contexts, errors := k.pending ++ k.declarationErrors u } := by
  rw [checked, rulesFor, collected_eq]
  exact run_checkClasses _ _ rfl

/-- What a check gives: the errors found are behind those that are not delivered yet, and stay there
if it is given up. -/
theorem check_told :
    k.check u =
      let walk := sweep (checkedRules k.rules u) k.contexts.current k.contexts.depth u.classes
      let errors := k.pending ++ (k.declarationErrors u ++ walk.errors)
      let behind : Checker := ⟨checkedRules k.rules u, k.contexts.cycled walk.cycles, []⟩
      match walk.value.1 with
      | some e => ⟨{ behind with pending := errors }, .error e, ⟨walk.value.2⟩⟩
      | none => ⟨behind, .ok errors, ⟨walk.value.2⟩⟩ := by
  obtain ⟨names, run⟩ := k.checked_eq u
  have rules : k.rulesFor u = checkedRules k.rules u := by rw [rulesFor, collected_eq, checkedRules]
  let walk := sweep (checkedRules k.rules u) k.contexts.current k.contexts.depth u.classes
  let outcome (errors : List TypeError) : Outcome :=
    let behind : Checker := ⟨checkedRules k.rules u, k.contexts.cycled walk.cycles, []⟩
    match walk.value.1 with
    | some e => ⟨{ behind with pending := errors }, .error e, ⟨walk.value.2⟩⟩
    | none => ⟨behind, .ok errors, ⟨walk.value.2⟩⟩
  have told : k.check u = outcome (k.pending ++ k.declarationErrors u ++ walk.errors) := by
    rw [check_eq, run, rules]
    rfl
  exact told.trans (congrArg outcome (List.append_assoc _ _ _))

/-- With no frame open and the registry's own descriptors a check ends, finds what is wrong in
the declarations and in each member, and records the types that it finds for each member. -/
theorem check_own (closed : k.contexts.depth = 0) (own : u.Own k.rules.registry) :
    ∃ n, k.check u =
      ⟨⟨checkedRules k.rules u, k.contexts.cycled n, []⟩,
        .ok (k.pending ++ (k.declarationErrors u ++
          u.gather (foundIn (checkedRules k.rules u) k.contexts.current))),
        u.mapMembers (checkedMember (checkedRules k.rules u) k.contexts.current)⟩ := by
  obtain ⟨value, errors, -⟩ := sweep_own (checkedRules k.rules u) k.contexts.current own
  refine ⟨(sweep (checkedRules k.rules u) k.contexts.current 0 u.classes).cycles, ?_⟩
  rw [check_told, closed]
  dsimp only
  rw [value, errors]
  rfl

end Checker

end Contracts
