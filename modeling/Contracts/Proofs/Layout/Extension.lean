import Contracts.Proofs.Layout.Independence

/-! Registries with more entries. A text in which a keyword does not occur is read and checked
as if the keyword were not registered, and the order of registration never matters
(`checkSource_extension`): the two registries have the same entry for every word of the text,
and the descriptors in its tree are entries of both. -/

namespace Contracts

namespace Registry

theorem holds_iff {r : Registry} {d : Descriptor} : r.Holds d ↔ d ∈ r.entries :=
  ⟨mem_of_get?, get?_keyword⟩

variable {r r' : Registry} {extra : List Descriptor}
  (entries : r'.entries.Perm (r.entries ++ extra))

include entries

theorem holds_of_perm {d : Descriptor} (h : r.Holds d) : r'.Holds d :=
  holds_iff.2 (entries.mem_iff.2 (List.mem_append_left _ (holds_iff.1 h)))

/-- A word that is none of the further keywords has the same entry. -/
theorem get?_of_perm {word : String} (fresh : ∀ d ∈ extra, d.keyword ≠ word) :
    r'.get? word = r.get? word := by
  ext d
  rw [get?_eq_some_iff, get?_eq_some_iff, entries.mem_iff, List.mem_append]
  constructor
  · rintro ⟨here | further, hword⟩
    · exact ⟨here, hword⟩
    · exact absurd hword (fresh d further)
  · exact fun ⟨here, hword⟩ => ⟨.inl here, hword⟩

end Registry

/-- Offsets stay where they are. -/
def Move.swap (source target : Registry) : Move := ⟨source, target, id, monotone_id⟩

theorem Move.span_swap (source target : Registry) : (swap source target).span = id := rfl

theorem ParsedUnit.mapSpans_id (p : ParsedUnit) : p.mapSpans id = p := by
  rw [mapSpans, CompilationUnit.mapSpans_id]
  exact congrArg (ParsedUnit.mk p.unit) (List.map_id p.errors)

/-- Where the further keywords do not occur, the same tree is read, with the same errors. -/
theorem parseUnit_extension {r r' : Registry} {extra : List Descriptor}
    (entries : r'.entries.Perm (r.entries ++ extra)) {source : String}
    (unused : ∀ tokens, lex source = .ok tokens → ∀ d ∈ extra,
      .identifier d.keyword ∉ tokens.map (·.kind) ∧ .specWord d.keyword ∉ tokens.map (·.kind)) :
    parseUnit r' source = parseUnit r source := by
  cases h : lex source with
  | error _ => rw [parseUnit, parseUnit, h]
  | ok tokens =>
    have covers : (Move.swap r r').Covers { rest := tokens } := by
      intro t ht word hword
      refine (Registry.get?_of_perm entries fun d hd same => ?_).symm
      have here := List.mem_map_of_mem (f := (·.kind)) ht
      subst same
      rcases hword with hword | hword
      · exact (unused tokens h d hd).1 (hword ▸ here)
      · exact (unused tokens h d hd).2 (hword ▸ here)
    have moved := parseUnit_mapSpans (.swap r r') covers
    have still : ({ rest := tokens } : Cursor).mapSpans id = { rest := tokens } :=
      congrArg (fun rest => ({ rest } : Cursor)) (List.map_id tokens)
    rw [Move.span_swap, still, ParsedUnit.mapSpans_id] at moved
    rw [parseUnit_of_lex h, parseUnit_of_lex h]
    exact moved

/-- A tree with descriptors of the first registry is checked alike under both. -/
theorem check_extension {r r' : Registry} {extra : List Descriptor}
    (entries : r'.entries.Perm (r.entries ++ extra)) (booleanClauses : Bool) {u : CompilationUnit}
    (own : u.Own r) :
    checkUnit r' booleanClauses u = checkUnit r booleanClauses u ∧
      ((Checker.new r' booleanClauses).check u).unit =
        ((Checker.new r booleanClauses).check u).unit := by
  have wide : (Checker.new r booleanClauses).rules.Widens (Checker.new r' booleanClauses).rules :=
    ⟨fun _ => Registry.holds_of_perm entries, rfl, rfl⟩
  obtain ⟨result, unit⟩ := Checker.check_mapSpans (f := id) wide rfl rfl own
  rw [CompilationUnit.mapSpans_id] at result unit
  rw [CompilationUnit.mapSpans_id] at unit
  refine ⟨result.trans ?_, unit⟩
  rw [checkUnit]
  cases ((Checker.new r booleanClauses).check u).result with
  | error _ => rfl
  | ok errors => exact congrArg Except.ok (List.map_id errors)

/-- An extension of a registry is conservative, and the order of registration does not matter.
Where a registry has the entries of another one, in any order, and further ones of which no
keyword occurs in a text, neither as an identifier nor as a backslash word, the text is read,
checked and reported on in the same way, and the same types are recorded. -/
theorem checkSource_extension {r r' : Registry} {extra : List Descriptor}
    (entries : r'.entries.Perm (r.entries ++ extra)) {source : String}
    (unused : ∀ tokens, lex source = .ok tokens → ∀ d ∈ extra,
      .identifier d.keyword ∉ tokens.map (·.kind) ∧ .specWord d.keyword ∉ tokens.map (·.kind))
    (path : String) (options : Options) :
    parseUnit r' source = parseUnit r source ∧
      recordedUnit r' options source = recordedUnit r options source ∧
      checkSource r' path source options = checkSource r path source options := by
  have parsed := parseUnit_extension entries unused
  obtain ⟨result, unit⟩ := check_extension entries options.booleanClauses
    (registered_parseUnit r source).own
  refine ⟨parsed, ?_, ?_⟩
  · rw [recordedUnit, parsed, unit, recordedUnit]
  · rw [checkSource, parsed, result, checkSource]

/-- With `lemma` for an axiom, and all keywords in the reverse order. -/
theorem checkSource_extension_lemma :
    let word : Descriptor := { Descriptor.ofKind (.typeClause .axiomatic) with keyword := "lemma" }
    let source := "class A \x7b axiom 1 < 2; boolean lemon; \x7d"
    ∃ r' : Registry, r'.entries.Perm (Registry.standard.entries ++ [word]) ∧
      (∀ tokens, lex source = .ok tokens → ∀ d ∈ [word],
        .identifier d.keyword ∉ tokens.map (·.kind) ∧
          .specWord d.keyword ∉ tokens.map (·.kind)) ∧
      parseUnit r' source = parseUnit .standard source ∧
      recordedUnit r' {} source = recordedUnit .standard {} source ∧
      checkSource r' "A" source {} = checkSource .standard "A" source {} := by
  intro word source
  let r' : Registry := ⟨(Registry.standard.entries ++ [word]).reverse, by decide⟩
  have entries : r'.entries.Perm (Registry.standard.entries ++ [word]) := List.reverse_perm _
  have unused : ∀ tokens, lex source = .ok tokens → ∀ d ∈ [word],
      .identifier d.keyword ∉ tokens.map (·.kind) ∧ .specWord d.keyword ∉ tokens.map (·.kind) := by
    intro tokens h d hd
    have kinds : (lex source).map (List.map (·.kind)) = .ok
        [.reserved .classWord, .identifier "A", .symbol .leftBrace, .identifier "axiom",
          .integer 1, .symbol .less, .integer 2, .symbol .semicolon, .identifier "boolean",
          .identifier "lemon", .symbol .semicolon, .symbol .rightBrace, .endOfText] := by
      decide +kernel
    rw [h] at kinds
    rw [List.mem_singleton.1 hd, Except.ok.inj kinds]
    decide
  exact ⟨r', entries, unused, checkSource_extension entries unused "A" {}⟩

end Contracts
