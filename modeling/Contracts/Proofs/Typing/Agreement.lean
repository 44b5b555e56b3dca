import Contracts.Typing.Checker

/-! What a check looks up. Checking the members of a class asks the table of classes what type a
word names and what types the fields and signatures the methods of a class have, and nothing
else. Where two tables give the same answers (`Rules.Agrees`), every check is the same. Whether
the body of a clause has to be boolean is no question of an expression (`Rules.Answers`). -/

namespace Contracts

/-- The rules give the same answers to everything that is asked about an expression. -/
structure Rules.Answers (r r' : Rules) : Prop where
  registry : r.registry = r'.registry
  types : ∀ word, r.classes.type? word = r'.classes.type? word
  fields : ∀ owner field, r.classes.field? owner field = r'.classes.field? owner field
  methods : ∀ owner method, r.classes.method? owner method = r'.classes.method? owner method

/-- The rules give the same answers to everything that a check of a member asks. -/
structure Rules.Agrees (r r' : Rules) : Prop where
  registry : r.registry = r'.registry
  booleanClauses : r.booleanClauses = r'.booleanClauses
  types : ∀ word, r.classes.type? word = r'.classes.type? word
  fields : ∀ owner field, r.classes.field? owner field = r'.classes.field? owner field
  methods : ∀ owner method, r.classes.method? owner method = r'.classes.method? owner method

theorem Rules.Agrees.answers {r r' : Rules} (h : r.Agrees r') : r.Answers r' :=
  ⟨h.registry, h.types, h.fields, h.methods⟩

namespace Check

variable {r r' : Rules}

/-! ### Declarations -/

section

variable (types : ∀ word, r.classes.type? word = r'.classes.type? word)

include types

theorem resolveType_congr (name : Name) : resolveType r name = resolveType r' name := by
  simp only [resolveType, types]

theorem resolveTypes_congr (names : List Name) : resolveTypes r names = resolveTypes r' names := by
  induction names with
  | nil => rfl
  | cons name names ih => simp only [resolveTypes, resolveType_congr types, ih]

theorem declaredType_congr (name : Name) : declaredType r name = declaredType r' name := by
  simp only [declaredType, types]

end

section

variable (h : r.Answers r')

include h

/-! ### Names and operators -/

theorem isRegistered_congr (d : Descriptor) : isRegistered r d = isRegistered r' d := by
  simp only [isRegistered, h.registry]

theorem variableType_congr (env : Env) (name : Name) :
    variableType r env name = variableType r' env name := by
  simp only [variableType, Env.typeOf?, h.fields]

theorem fieldType_congr (owner : Ty) (field : Name) :
    fieldType r owner field = fieldType r' owner field := by
  simp only [fieldType, h.fields]

theorem callSignature_congr (owner : Ty) (method : Name) (args : List Expr) (span : Span) :
    callSignature r owner method args span = callSignature r' owner method args span := by
  simp only [callSignature, signature?, h.methods]

theorem unknownMethods_congr (className : String) (frame : Option Frame) :
    unknownMethods r className frame = unknownMethods r' className frame := by
  simp only [unknownMethods, h.methods]

/-! ### Expressions -/

/-- The three parts of the mutual recursion, in its own cases. -/
theorem infer_congr_all :
    (∀ scope e, infer r scope e = infer r' scope e) ∧
      (∀ scope typeArgs es, inferPayload r scope typeArgs es = inferPayload r' scope typeArgs es) ∧
      ∀ scope params es, inferArgs r scope params es = inferArgs r' scope params es := by
  refine infer.mutual_induct _ _ _ ?name ?int ?bool ?result ?binary ?unary ?field ?ownCall
    ?fieldCall ?otherCall ?state ?missing ?noPayload ?payload ?noArgs ?args
  case name => exact fun _ _ => by simp only [infer, variableType_congr h]
  case int => exact fun _ _ _ => rfl
  case bool => exact fun _ _ _ => rfl
  case result => exact fun _ _ => rfl
  case binary => exact fun _ _ _ _ _ left right => by simp only [infer, left, right]
  case unary => exact fun _ _ _ _ operand => by simp only [infer, operand]
  case field => exact fun _ _ _ _ base => by simp only [infer, base, fieldType_congr h]
  case ownCall =>
    exact fun _ _ _ _ args => by simp only [infer, callSignature_congr h, args]
  case fieldCall =>
    exact fun _ _ _ _ _ _ base args => by
      simp only [infer, base, callSignature_congr h, args]
  case otherCall =>
    intro scope callee args span notName notField hcallee hargs
    rw [infer, infer, hcallee, hargs]
    all_goals assumption
  case state =>
    intro scope head args recorded payload
    simp only [infer, isRegistered_congr h, payload]
  case missing => exact fun _ _ => rfl
  case noPayload => exact fun _ _ => rfl
  case payload => exact fun _ _ _ _ e => by simp only [inferPayload, e, resolveTypes_congr h.types]
  case noArgs => exact fun _ _ => rfl
  case args => exact fun _ _ _ _ e es => by simp only [inferArgs, e, es]

theorem infer_congr (scope : Scope) (e : Expr) : infer r scope e = infer r' scope e :=
  (infer_congr_all h).1 scope e

theorem inferAs_congr (scope : Scope) (expected : Option Ty) (e : Expr) :
    inferAs r scope expected e = inferAs r' scope expected e := by
  simp only [inferAs, infer_congr h]

theorem inferInit_congr (scope : Scope) (expected : Ty) (init : Option Expr) :
    inferInit r scope expected init = inferInit r' scope expected init := by
  cases init with
  | none => rfl
  | some e => simp only [inferInit, inferAs_congr h]

/-! ### Parts of statements and members -/

theorem checkVariable_congr (scope : Scope) (v : Variable) :
    checkVariable r scope v = checkVariable r' scope v := by
  simp only [checkVariable, resolveType_congr h.types, inferInit_congr h]

theorem checkLeave_congr (scope : Scope) (value : Option Expr) (span : Span) :
    checkLeave r scope value span = checkLeave r' scope value span := by
  simp only [checkLeave, infer_congr h, inferAs_congr h]

theorem checkField_congr (scope : Scope) (f : Field) :
    checkField r scope f = checkField r' scope f := by
  simp only [checkField, declaredType_congr h.types, inferInit_congr h, isRegistered_congr h]

theorem declareParams_congr (scope : Scope) (ps : List Param) :
    declareParams r scope ps = declareParams r' scope ps := by
  induction ps generalizing scope with
  | nil => rfl
  | cons p ps ih => simp only [declareParams, declaredType_congr h.types, ih]

end

/-! ### Clauses and statements -/

section

variable (h : r.Agrees r')

include h

theorem inferClause_congr (scope : Scope) (d : Descriptor) (e : Expr) :
    inferClause r scope d e = inferClause r' scope d e := by
  simp only [inferClause, inferAs_congr h.answers, h.booleanClauses]

theorem checkSpecClause_congr (scope : Scope) (c : SpecClause) :
    checkSpecClause r scope c = checkSpecClause r' scope c := by
  simp only [checkSpecClause, isRegistered_congr h.answers, inferClause_congr h]

end

mutual

theorem checkStatement_congr (h : r.Agrees r') (scope : Scope) :
    ∀ s : Statement, checkStatement r scope s = checkStatement r' scope s
  | .declare _ => by simp only [checkStatement, checkVariable_congr h.answers]
  | .ghost _ _ => by
    simp only [checkStatement, isRegistered_congr h.answers, checkVariable_congr h.answers]
  | .assign _ _ _ => by
    simp only [checkStatement, variableType_congr h.answers, inferAs_congr h.answers]
  | .labeled _ body _ => by simp only [checkStatement, checkStatement_congr h _ body]
  | .clause _ => by simp only [checkStatement, checkSpecClause_congr h]
  | .leave _ _ => by simp only [checkStatement, checkLeave_congr h.answers]
  | .expr _ => by simp only [checkStatement, infer_congr h.answers]
  | .block statements _ => by simp only [checkStatement, checkStatements_congr h _ statements]
  | .missing _ => rfl

theorem checkStatements_congr (h : r.Agrees r') (scope : Scope) :
    ∀ ss : List Statement, checkStatements r scope ss = checkStatements r' scope ss
  | [] => rfl
  | s :: ss => by
    simp only [checkStatements, checkStatement_congr h _ s, checkStatements_congr h _ ss]

end

/-! ### Members -/

section

variable (h : r.Agrees r')

include h

theorem checkTypeClause_congr (scope : Scope) (c : TypeClause) :
    checkTypeClause r scope c = checkTypeClause r' scope c := by
  simp only [checkTypeClause, isRegistered_congr h.answers, inferClause_congr h,
    unknownMethods_congr h.answers]

theorem checkSpecClauses_congr (scope : Scope) (cs : List SpecClause) :
    checkSpecClauses r scope cs = checkSpecClauses r' scope cs := by
  induction cs with
  | nil => rfl
  | cons c cs ih => simp only [checkSpecClauses, checkSpecClause_congr h, ih]

theorem checkCases_congr (scope : Scope) (cs : List SpecCase) :
    checkCases r scope cs = checkCases r' scope cs := by
  induction cs with
  | nil => rfl
  | cons c cs ih => simp only [checkCases, checkSpecClauses_congr h, ih]

theorem checkMethod_congr (className : String) (m : Method) :
    checkMethod r className m = checkMethod r' className m := by
  simp only [checkMethod, declaredType_congr h.types, declareParams_congr h.answers,
    checkCases_congr h, checkStatements_congr h]

theorem checkMember_congr (className : String) (m : Member) :
    checkMember r className m = checkMember r' className m := by
  cases m with
  | field f => simp only [checkMember, checkField_congr h.answers]
  | clause c => simp only [checkMember, checkTypeClause_congr h]
  | method m => simp only [checkMember, checkMethod_congr h]

theorem checkMembers_congr (className : String) (ms : List Member) :
    checkMembers r className ms = checkMembers r' className ms := by
  induction ms with
  | nil => rfl
  | cons m ms ih => simp only [checkMembers, checkMember_congr h, ih]

theorem checkClass_congr (c : Class) : checkClass r c = checkClass r' c := by
  simp only [checkClass, checkMembers_congr h]

end

end Check

end Contracts
