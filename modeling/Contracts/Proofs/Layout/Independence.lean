import Contracts.Proofs.Layout.Checked
import Contracts.Proofs.Layout.Mirrored
import Contracts.Proofs.Parsing.Registered
import Contracts.Proofs.Typing.Faultless

/-! White space and comments make no difference. Two texts with tokens of the same kinds are
read as the same tree, with the same errors, and checked alike, up to spans
(`checkSource_unspanned`): moving every offset to zero makes their tokens equal, and reading
and checking go along with the move. -/

namespace Contracts

/-! ### Results without spans -/

namespace ParsedUnit

def unspanned (p : ParsedUnit) : ParsedUnit :=
  ⟨p.unit.unspanned, p.errors.map fun e => ⟨e.fault, .origin⟩⟩

theorem mapSpans_origin (p : ParsedUnit) : p.mapSpans (fun _ => .origin) = p.unspanned := by
  rw [mapSpans, CompilationUnit.mapSpans_origin]
  rfl

end ParsedUnit

/-- A report with every span at the origin. -/
def Report.unspanned (r : Report) : Report :=
  { r with
    syntaxErrors := r.syntaxErrors.map fun e => ⟨e.fault, .origin⟩
    typeErrors := r.typeErrors.map fun e => ⟨e.fault, .origin⟩ }

theorem Report.errorCount_unspanned (r : Report) : r.unspanned.errorCount = r.errorCount := by
  simp only [errorCount, unspanned, List.length_map]

theorem Report.limit_unspanned (max : Option Nat) (r : Report) :
    (r.limit max).unspanned = r.unspanned.limit max :=
  (r.limit_mapSpans (fun _ => .origin) max).symm

/-- The tree of a text with the types that checking records in it. -/
def recordedUnit (registry : Registry) (options : Options) (source : String) : CompilationUnit :=
  ((Checker.new registry options.booleanClauses).check (parseUnit registry source).unit).unit

/-! ### Tokens without spans -/

/-- Every offset is moved to zero. -/
def Move.collapse (registry : Registry) : Move := ⟨registry, registry, fun _ => 0, monotone_const⟩

theorem parseUnit_of_lex {source : String} {tokens : List Token} (h : lex source = .ok tokens)
    (registry : Registry) :
    parseUnit registry source = ({ rest := tokens } : Cursor).parseUnit registry := by
  rw [parseUnit, h]

theorem exists_tokens_of_kinds {source : String} {ks : List TokenKind}
    (h : (lex source).map (List.map (·.kind)) = .ok ks) :
    ∃ tokens, lex source = .ok tokens ∧ tokens.map (·.kind) = ks := by
  cases lexed : lex source with
  | error _ =>
    rw [lexed] at h
    nomatch h
  | ok tokens =>
    rw [lexed] at h
    exact ⟨tokens, rfl, Except.ok.inj h⟩

/-- Without spans, the unit is read from the kinds of its tokens. -/
theorem unspanned_parseUnit {source : String} {tokens : List Token} (h : lex source = .ok tokens)
    (registry : Registry) :
    (parseUnit registry source).unspanned =
      ({ rest := (tokens.map (·.kind)).map (⟨·, .origin⟩) } : Cursor).parseUnit registry := by
  have moved := parseUnit_mapSpans (.collapse registry) (c := { rest := tokens })
    fun _ _ _ _ => rfl
  have collapsed : ({ rest := tokens } : Cursor).mapSpans (Move.collapse registry).span =
      { rest := (tokens.map (·.kind)).map (⟨·, .origin⟩) } := by
    rw [Cursor.mapSpans, List.map_map]
    rfl
  rw [collapsed] at moved
  rw [parseUnit_of_lex h, ← ParsedUnit.mapSpans_origin]
  exact moved.symm

/-- Without spans, the errors and the types that a check records depend on the tree without
spans. -/
theorem unspanned_check (registry : Registry) (booleanClauses : Bool) {u : CompilationUnit}
    (own : u.Own registry) :
    (checkUnit registry booleanClauses u.unspanned =
        (checkUnit registry booleanClauses u).map (List.map fun e => ⟨e.fault, .origin⟩)) ∧
      ((Checker.new registry booleanClauses).check u.unspanned).unit =
        ((Checker.new registry booleanClauses).check u).unit.unspanned := by
  rw [← CompilationUnit.mapSpans_origin, ← CompilationUnit.mapSpans_origin]
  exact Checker.check_mapSpans (k := .new registry booleanClauses) (.refl _) rfl rfl own

/-- The layout of a text makes no difference. Two texts whose tokens are of the same kinds give
the same tree and the same syntax errors, the same type errors and the same recorded types, each
up to spans and in the same order, and under any limit the same number of errors is left out. -/
theorem checkSource_unspanned {source source' : String} {tokens tokens' : List Token}
    (h : lex source = .ok tokens) (h' : lex source' = .ok tokens')
    (same : tokens.map (·.kind) = tokens'.map (·.kind)) (registry : Registry) (path : String)
    (options : Options) :
    (parseUnit registry source).unspanned = (parseUnit registry source').unspanned ∧
      (recordedUnit registry options source).unspanned =
        (recordedUnit registry options source').unspanned ∧
      ∃ report report', checkSource registry path source options = .ok report ∧
        checkSource registry path source' options = .ok report' ∧
        report.unspanned = report'.unspanned ∧ report.errorCount = report'.errorCount := by
  have parsed : (parseUnit registry source).unspanned = (parseUnit registry source').unspanned := by
    rw [unspanned_parseUnit h, unspanned_parseUnit h', same]
  have units : (parseUnit registry source).unit.unspanned =
      (parseUnit registry source').unit.unspanned := congrArg ParsedUnit.unit parsed
  have registered := registered_parseUnit registry source
  have registered' := registered_parseUnit registry source'
  obtain ⟨errors, checked⟩ := exists_checkUnit registered options.booleanClauses
  obtain ⟨errors', checked'⟩ := exists_checkUnit registered' options.booleanClauses
  obtain ⟨found, recorded⟩ := unspanned_check registry options.booleanClauses registered.own
  obtain ⟨found', recorded'⟩ := unspanned_check registry options.booleanClauses registered'.own
  have alike : errors.map (fun e => (⟨e.fault, .origin⟩ : TypeError)) =
      errors'.map fun e => ⟨e.fault, .origin⟩ := by
    rw [checked] at found
    rw [← units, found, checked'] at found'
    exact Except.ok.inj found'
  have reports : (Report.limit options.maxErrors
      ⟨path, (parseUnit registry source).errors, errors, 0⟩).unspanned =
        (Report.limit options.maxErrors
          ⟨path, (parseUnit registry source').errors, errors', 0⟩).unspanned := by
    have syntaxErrors := congrArg ParsedUnit.errors parsed
    dsimp only [ParsedUnit.unspanned] at syntaxErrors
    rw [Report.limit_unspanned, Report.limit_unspanned, Report.unspanned, Report.unspanned, alike,
      syntaxErrors]
  refine ⟨parsed, ?_, _, _, checkSource_of_checkUnit path checked,
    checkSource_of_checkUnit path checked', reports, ?_⟩
  · rw [recordedUnit, recordedUnit, ← recorded, ← recorded', units]
  · rw [← Report.errorCount_unspanned, reports, Report.errorCount_unspanned]

/-- A comment and line ends make no difference where a type is wrong. -/
theorem checkSource_unspanned_comment :
    let source := "class A \x7b int n = true; \x7d"
    let source' := "class A \x7b\n  int n=true; // no integer\n\x7d"
    ∃ tokens tokens', lex source = .ok tokens ∧ lex source' = .ok tokens' ∧
      tokens.map (·.kind) = tokens'.map (·.kind) ∧
      (parseUnit .standard source).unspanned = (parseUnit .standard source').unspanned ∧
      (recordedUnit .standard {} source).unspanned =
        (recordedUnit .standard {} source').unspanned ∧
      ∃ report report', checkSource .standard "A" source {} = .ok report ∧
        checkSource .standard "A" source' {} = .ok report' ∧
        report.unspanned = report'.unspanned ∧ report.errorCount = report'.errorCount := by
  intro source source'
  let kinds : List TokenKind := [.reserved .classWord, .identifier "A", .symbol .leftBrace,
    .identifier "int", .identifier "n", .symbol .assign, .reserved .trueWord, .symbol .semicolon,
    .symbol .rightBrace, .endOfText]
  have first : ∃ tokens, lex source = .ok tokens ∧ tokens.map (·.kind) = kinds :=
    exists_tokens_of_kinds (by decide +kernel)
  have second : ∃ tokens, lex source' = .ok tokens ∧ tokens.map (·.kind) = kinds :=
    exists_tokens_of_kinds (by decide +kernel)
  obtain ⟨tokens, h, same⟩ := first
  obtain ⟨tokens', h', same'⟩ := second
  refine ⟨tokens, tokens', h, h', same.trans same'.symm, ?_⟩
  exact checkSource_unspanned h h' (same.trans same'.symm) .standard "A" {}

end Contracts
