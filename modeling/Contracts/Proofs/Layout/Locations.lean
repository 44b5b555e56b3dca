import Contracts.Proofs.Layout.Independence
import Contracts.Proofs.Layout.Placed
import Contracts.Proofs.Lexing.Division
import Mathlib.Data.Nat.Find

/-! Where errors are located. The pieces of a text stand one behind another, on character
boundaries. Further spans are computed from theirs, so no span in a tree or in an error runs
backwards, and moving every offset back to a character boundary changes no span. The checker
hands on the spans of the tree. So every error in a report, and every range that is marked for
one, is a range of the text (`checkSource_located`). -/

namespace Contracts

/-- The offset is that of a character, or of the end of the text. -/
abbrev IsBoundary (source : String) (offset : Nat) : Prop :=
  (⟨offset⟩ : String.Pos.Raw).IsValid source

/-- A range of a text, from one character boundary to a later one or to the same. -/
structure Span.Valid (source : String) (s : Span) : Prop where
  ordered : s.start ≤ s.stop
  within : s.stop ≤ source.utf8ByteSize
  start : IsBoundary source s.start
  stop : IsBoundary source s.stop

variable {source : String}

namespace IsBoundary

theorem zero (source : String) : IsBoundary source 0 := String.Pos.Raw.isValid_zero

theorem size (source : String) : IsBoundary source source.utf8ByteSize :=
  String.Pos.Raw.isValid_rawEndPos

theorem le {offset : Nat} (h : IsBoundary source offset) : offset ≤ source.utf8ByteSize :=
  h.le_rawEndPos

theorem behind {before rest : List Char} (h : source.toList = before ++ rest) :
    IsBoundary source (byteLength before) := by
  refine String.Pos.Raw.isValid_iff_exists_append.2 ⟨.ofList before, .ofList rest, ?_, ?_⟩
  · rw [← String.ofList_append, ← h, String.ofList_toList]
  · rw [← utf8ByteSize_ofList]
    rfl

end IsBoundary

/-! ### Tokens -/

theorem Divided.laid {start : Nat} {cs : List Char} {parts : List Part}
    (h : Divided start cs parts) : Laid start (parts.map (·.span)) (start + byteLength cs) := by
  induction h with
  | nil start => exact le_rfl
  | cons _ _ _ ih =>
    rw [byteLength_append, ← Nat.add_assoc]
    exact ⟨le_rfl, Nat.le_add_right _ _, ih⟩

/-- The ranges of the pieces of a text, and the empty one at its end. -/
def pieceSpans (source : String) : List Span :=
  (Piece.locate 0 (Piece.cut source.toList)).map (·.2) ++
    [⟨source.utf8ByteSize, source.utf8ByteSize⟩]

theorem laid_pieceSpans (source : String) :
    Laid 0 (pieceSpans source) source.utf8ByteSize ∧ ∀ s ∈ pieceSpans source, s.Valid source := by
  obtain ⟨parts, divided, located⟩ := exists_divided 0 source.toList
  have spans : pieceSpans source =
      parts.map (·.span) ++ [⟨source.utf8ByteSize, source.utf8ByteSize⟩] := by
    rw [pieceSpans, located, List.map_map]
    rfl
  have pieces := divided.laid
  rw [Nat.zero_add, byteLength_toList] at pieces
  have laid := pieces.append (Laid.mk le_rfl le_rfl le_rfl)
  rw [spans]
  refine ⟨laid, fun s hs => ?_⟩
  have ordered := laid.ordered s hs
  have boundaries : IsBoundary source s.start ∧ IsBoundary source s.stop := by
    rcases List.mem_append.1 hs with hs | hs
    · obtain ⟨p, hp, rfl⟩ := List.mem_map.1 hs
      obtain ⟨before, rest, hsource, hspan⟩ := divided.span_of_mem hp
      rw [hspan, Nat.zero_add, Nat.zero_add]
      exact ⟨.behind (hsource.trans (List.append_assoc ..)), .behind hsource⟩
    · rw [List.mem_singleton.1 hs]
      exact ⟨.size source, .size source⟩
  exact ⟨ordered, boundaries.2.le, boundaries.1, boundaries.2⟩

/-- What is kept of some entries keeps their order. -/
theorem sublist_map_filterMap {α β γ : Type} {f : α → Option β} {g : β → γ} {h : α → γ}
    (same : ∀ a b, f a = some b → g b = h a) (as : List α) :
    ((as.filterMap f).map g).Sublist (as.map h) := by
  induction as with
  | nil => exact .slnil
  | cons a as ih =>
    cases ha : f a with
    | none =>
      rw [List.filterMap_cons_none ha]
      exact ih.cons _
    | some b =>
      rw [List.filterMap_cons_some ha, List.map_cons, same a b ha]
      exact ih.cons_cons _

theorem sublist_tokens {tokens : List Token} (h : lex source = .ok tokens) :
    (tokens.map (·.span)).Sublist (pieceSpans source) := by
  unfold lex at h
  dsimp only at h
  split at h
  · injection h with h
    rw [← h, List.map_append, byteLength_toList]
    refine .append (sublist_map_filterMap (fun piece t ht => ?_) _) (.refl _)
    obtain ⟨kind, -, rfl⟩ := Option.map_eq_some_iff.1 ht
    rfl
  · nomatch h

theorem sublist_faults {errors : List LexError} (h : lex source = .error errors) :
    (errors.map (·.span)).Sublist (pieceSpans source) := by
  unfold lex at h
  dsimp only at h
  split at h
  · nomatch h
  · injection h with h
    rw [← h]
    refine (sublist_map_filterMap (fun piece e he => ?_) _).trans (List.sublist_append_left _ _)
    obtain ⟨fault, -, rfl⟩ := Option.map_eq_some_iff.1 he
    rfl

/-! ### Spans that move to no other place -/

/-- Every offset is moved back to the start of its character. -/
def Move.floor (registry : Registry) (source : String) : Move :=
  ⟨registry, registry, Nat.findGreatest (IsBoundary source),
    fun _ _ h => Nat.findGreatest_mono_right _ h⟩

namespace Move

variable {registry : Registry}

theorem isBoundary_floor (registry : Registry) (offset : Nat) :
    IsBoundary source ((floor registry source).offset offset) :=
  Nat.findGreatest_spec (Nat.zero_le offset) (.zero source)

theorem floor_of_valid {s : Span} (h : s.Valid source) : (floor registry source).span s = s := by
  have start : (floor registry source).offset s.start = s.start := Nat.findGreatest_eq h.start
  have stop : (floor registry source).offset s.stop = s.stop := Nat.findGreatest_eq h.stop
  rw [Move.span, Span.map, start, stop]

/-- A range that does not move back and does not run backwards is a range of the text. -/
theorem valid_of_floor {s : Span} (h : (floor registry source).span s = s)
    (ordered : s.start ≤ s.stop) : s.Valid source := by
  have start : IsBoundary source s.start := congrArg Span.start h ▸ isBoundary_floor registry _
  have stop : IsBoundary source s.stop := congrArg Span.stop h ▸ isBoundary_floor registry _
  exact ⟨ordered, stop.le, start, stop⟩

end Move

/-- A range that runs backwards is made empty. -/
def Span.forward (s : Span) : Span := ⟨s.start, max s.start s.stop⟩

theorem Span.forward_of_le {s : Span} (h : s.start ≤ s.stop) : s.forward = s := by
  rw [forward, max_eq_right h]

theorem eq_of_map_eq {α : Type} {g : α → α} {as : List α} (h : as.map g = as) :
    ∀ a ∈ as, g a = a :=
  List.map_eq_map_iff.1 (h.trans (List.map_id' as).symm)

/-- The spans of a unit that is read run forward, and its errors are located in the text; no
span of it moves when every offset is moved back to a character boundary. -/
theorem located_parseUnit (registry : Registry) (source : String) :
    (parseUnit registry source).unit.Nested ∧
      (parseUnit registry source).unit.mapSpans (Move.floor registry source).span =
        (parseUnit registry source).unit ∧
      ∀ e ∈ (parseUnit registry source).errors, e.span.Valid source := by
  obtain ⟨laid, valid⟩ := laid_pieceSpans source
  cases h : lex source with
  | error errors =>
    have faults : parseUnit registry source = ⟨⟨[]⟩, errors.map .ofLexError⟩ := by
      rw [parseUnit, h]
    rw [faults]
    refine ⟨⟨⟨0, le_rfl⟩, List.forall_mem_nil _⟩, rfl, fun e he => ?_⟩
    obtain ⟨fault, hfault, rfl⟩ := List.mem_map.1 he
    exact valid _ ((sublist_faults h).subset (List.mem_map_of_mem hfault))
  | ok tokens =>
    rw [parseUnit_of_lex h]
    have tidy : ({ rest := tokens } : Cursor).Tidy :=
      ⟨le_rfl, ⟨_, laid.of_sublist (sublist_tokens h)⟩, List.forall_mem_nil _⟩
    obtain ⟨nested, ordered⟩ := Cursor.nested_parseUnit registry tidy rfl
    -- Its own tokens do not move, so the cursor is its own mirror image.
    have still : ({ rest := tokens } : Cursor).mapSpans (Move.floor registry source).span =
        { rest := tokens } := by
      have rest : tokens.map (·.mapSpans (Move.floor registry source).span) = tokens := by
        refine map_fixed fun t ht => ?_
        have htoken := valid _ ((sublist_tokens h).subset (List.mem_map_of_mem ht))
        rw [Token.mapSpans, Move.floor_of_valid htoken]
      have origin : (Move.floor registry source).span .origin = .origin :=
        Move.floor_of_valid ⟨le_rfl, Nat.zero_le _, .zero source, .zero source⟩
      rw [Cursor.mapSpans, rest, origin]
      rfl
    have moved := parseUnit_mapSpans (.floor registry source) (c := { rest := tokens })
      fun _ _ _ _ => rfl
    rw [still] at moved
    have errors := congrArg ParsedUnit.errors moved
    refine ⟨nested, (congrArg ParsedUnit.unit moved).symm, fun e he => ?_⟩
    have place := congrArg SyntaxError.span (eq_of_map_eq errors.symm e he)
    exact Move.valid_of_floor place (ordered e he)

/-- Where a change of spans leaves the tree alone, it leaves alone what is wrong with it. -/
theorem fixed_of_checkUnit {registry : Registry} {booleanClauses : Bool} {u : CompilationUnit}
    (own : u.Own registry) {f : Span → Span} (still : u.mapSpans f = u) {errors : List TypeError}
    (checked : checkUnit registry booleanClauses u = .ok errors) :
    ∀ e ∈ errors, f e.span = e.span := by
  have moved := (Checker.check_mapSpans (k := .new registry booleanClauses) (f := f)
    (.refl _) rfl rfl own).1
  rw [still, ← checkUnit, checked] at moved
  exact fun e he => congrArg TypeError.span (eq_of_map_eq (Except.ok.inj moved).symm e he)

/-- The checker finds nothing wrong outside the text. -/
theorem valid_of_checkUnit {registry : Registry} {booleanClauses : Bool} {errors : List TypeError}
    (checked : checkUnit registry booleanClauses (parseUnit registry source).unit = .ok errors) :
    ∀ e ∈ errors, e.span.Valid source := by
  intro e he
  obtain ⟨nested, still, -⟩ := located_parseUnit registry source
  have own := (registered_parseUnit registry source).own
  have unmoved := fixed_of_checkUnit own still checked e he
  have fixed : Span.Fixes Span.forward := fun _ => Span.forward_of_le
  have forward :=
    fixed_of_checkUnit own (CompilationUnit.mapSpans_of_nested fixed nested) checked e he
  refine Move.valid_of_floor unmoved ?_
  rw [← forward]
  exact le_max_left _ _

/-! ### Reports -/

theorem Report.syntaxErrors_limit_sublist (max : Option Nat) (r : Report) :
    (r.limit max).syntaxErrors.Sublist r.syntaxErrors := by
  cases max with
  | none => exact List.Sublist.refl _
  | some n => exact List.take_sublist _ _

/-- The range that is marked for an error is the range of the error. -/
theorem Span.Valid.marked {s : Span} (h : s.Valid source) : s.start + s.length = s.stop :=
  Nat.add_sub_of_le h.ordered

/-- Where an error is shown, its range is marked. -/
theorem Report.exists_span_of_mem {r : Report} {d : Diagnostic} (h : d ∈ r.diagnostics) :
    ∃ s : Span, (s ∈ r.syntaxErrors.map (·.span) ∨ s ∈ r.typeErrors.map (·.span)) ∧
      d.offset = s.start ∧ d.length = s.length := by
  rcases List.mem_append.1 h with h | h
  · obtain ⟨e, he, rfl⟩ := List.mem_map.1 h
    exact ⟨e.span, .inl (List.mem_map_of_mem he), rfl, rfl⟩
  · obtain ⟨e, he, rfl⟩ := List.mem_map.1 h
    exact ⟨e.span, .inr (List.mem_map_of_mem he), rfl, rfl⟩

/-- Every reported location is valid. There is a report on every text, and the span of each
syntax error and each type error in it is a range of the text, from one character boundary to
another one that is not before it; so is the range that is marked where the error is shown. -/
theorem checkSource_located (registry : Registry) (path source : String) (options : Options) :
    ∃ report, checkSource registry path source options = .ok report ∧
      (∀ e ∈ report.syntaxErrors, e.span.Valid source) ∧
      (∀ e ∈ report.typeErrors, e.span.Valid source) ∧
      ∀ d ∈ report.diagnostics, d.offset + d.length ≤ source.utf8ByteSize ∧
        IsBoundary source d.offset ∧ IsBoundary source (d.offset + d.length) := by
  obtain ⟨-, -, valid⟩ := located_parseUnit registry source
  obtain ⟨errors, checked⟩ :=
    exists_checkUnit (registered_parseUnit registry source) options.booleanClauses
  let whole : Report := ⟨path, (parseUnit registry source).errors, errors, 0⟩
  have syntaxErrors : ∀ e ∈ (whole.limit options.maxErrors).syntaxErrors, e.span.Valid source :=
    fun e he => valid e ((Report.syntaxErrors_limit_sublist _ _).subset he)
  have typeErrors : ∀ e ∈ (whole.limit options.maxErrors).typeErrors, e.span.Valid source :=
    fun e he => valid_of_checkUnit checked e ((Report.sublist_limit _ _).subset he)
  refine ⟨_, checkSource_of_checkUnit path checked, syntaxErrors, typeErrors, fun d hd => ?_⟩
  obtain ⟨s, hs, offset, length⟩ := Report.exists_span_of_mem hd
  have range : s.Valid source := by
    rcases hs with hs | hs
    · exact List.forall_mem_map.2 syntaxErrors s hs
    · exact List.forall_mem_map.2 typeErrors s hs
  rw [offset, length, range.marked]
  exact ⟨range.within, range.start, range.stop⟩

end Contracts
