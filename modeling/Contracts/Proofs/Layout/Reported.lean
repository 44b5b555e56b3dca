import Contracts.Proofs.Layout.Locations
import Contracts.Proofs.Parsing.Charged

/-! In which order errors are reported. Tokens stand one behind another, and an error is
reported at the next token or at the one consumed last; so no error starts before one that was
reported earlier (`Cursor.InOrder`). Since every error is charged to a token of its own, there
are no more errors than tokens. -/

namespace Contracts

namespace Cursor

/-- The errors stand in the order of their places, and none of them behind the next token. -/
structure InOrder (c : Cursor) : Prop where
  tidy : c.Tidy
  ordered : c.errors.Pairwise fun e e' => e.span.start ≤ e'.span.start
  behind : ∀ e ∈ c.errors, e.span.start ≤ c.span.start

variable {r : Bool} {c d : Cursor}

/-- What stands next does not start earlier behind a token. -/
theorem Tidy.start_le_advance (h : c.Tidy) : c.span.start ≤ c.advance.span.start := by
  by_cases hend : c.kind = .endOfText
  · rw [advance_of_end hend]
  · have here := h.span_le
    have previous := previous_advance hend
    obtain ⟨hi, laid⟩ := h.advance.rest
    rw [span.eq_def c.advance]
    split
    · rw [previous]
    · next t ts rest =>
      rw [rest, previous] at laid
      exact here.trans laid.1

theorem InOrder.advance (h : c.InOrder) : c.advance.InOrder := by
  refine ⟨h.tidy.advance, ?_, fun e he => ?_⟩
  · rw [advance_errors]
    exact h.ordered
  · rw [advance_errors] at he
    exact (h.behind e he).trans h.tidy.start_le_advance

/-- An error may be reported at any place from the last one on, up to the next token. -/
theorem InOrder.report (h : c.InOrder) {e : SyntaxError} (he : e.span.start ≤ e.span.stop)
    (behind : ∀ e' ∈ c.errors, e'.span.start ≤ e.span.start) (here : e.span.start ≤ c.span.start) :
    (c.report e).InOrder := by
  refine ⟨h.tidy.report he, ?_, List.forall_mem_append.2 ⟨h.behind, ?_⟩⟩
  · refine List.pairwise_append.2 ⟨h.ordered, List.pairwise_singleton _ e, fun e' he' x hx => ?_⟩
    exact List.mem_singleton.1 hx ▸ behind e' he'
  · exact List.forall_mem_singleton.2 here

theorem Stride.inOrder (step : Stride r c d) (h : c.InOrder) : d.InOrder := by
  cases step with
  | advance more => exact h.advance
  | @slip fault more slip =>
    refine h.advance.report h.tidy.span_le (fun e he => ?_) h.tidy.start_le_advance
    rw [advance_errors] at he
    exact h.behind e he
  | failure fault _ => exact h.report h.tidy.span_le h.behind (Nat.le_refl _)

theorem Strides.inOrder (run : Strides r c d) (h : c.InOrder) : d.InOrder :=
  run.lift (R := fun c d => c.InOrder → d.InOrder) (fun _ => id)
    (fun first second => second ∘ first) Stride.inOrder h

end Cursor

variable {source : String}

/-- The tokens of a text stand one behind another. -/
theorem inOrder_of_lex {tokens : List Token} (h : lex source = .ok tokens) :
    ({ rest := tokens } : Cursor).InOrder :=
  ⟨⟨Nat.le_refl 0, ⟨_, (laid_pieceSpans source).1.of_sublist (sublist_tokens h)⟩,
    List.forall_mem_nil _⟩, .nil, List.forall_mem_nil _⟩

/-- So do the faults of a text that has no tokens. -/
theorem ordered_of_lex {errors : List LexError} (h : lex source = .error errors) :
    (errors.map SyntaxError.ofLexError).Pairwise fun e e' => e.span.start ≤ e'.span.start := by
  have laid := (laid_pieceSpans source).1.of_sublist (sublist_faults h)
  refine List.pairwise_map.2 ((List.pairwise_map.1 laid.pairwise).imp_of_mem fun he _ apart => ?_)
  exact (laid.ordered _ (List.mem_map_of_mem he)).trans apart

/-- Syntax errors are ordered and bounded. They come in the order of their starts, and from a
text that has tokens there are no more errors than tokens, the one at the end counted; so a
report that is limited keeps the first of them, and none that it leaves out starts before one
that it keeps. -/
theorem errors_parseUnit (registry : Registry) (source : String) :
    ((parseUnit registry source).errors.Pairwise fun e e' => e.span.start ≤ e'.span.start) ∧
      (∀ tokens, lex source = .ok tokens →
        (parseUnit registry source).errors.length ≤ tokens.length) ∧
      ∀ (path : String) (booleanClauses : Bool) (n : Nat), ∃ report,
        checkSource registry path source ⟨booleanClauses, some n⟩ = .ok report ∧
          report.syntaxErrors = (parseUnit registry source).errors.take n ∧
          ∀ kept ∈ report.syntaxErrors, ∀ omitted ∈ (parseUnit registry source).errors.drop n,
            kept.span.start ≤ omitted.span.start := by
  have ordered : (parseUnit registry source).errors.Pairwise fun e e' =>
      e.span.start ≤ e'.span.start := by
    cases h : lex source with
    | ok tokens =>
      obtain ⟨d, ledger, errors, -⟩ := Cursor.exists_ledger_parseUnit registry { rest := tokens }
      rw [parseUnit_of_lex h, errors]
      exact (ledger.strides.inOrder (inOrder_of_lex h)).ordered
    | error faults =>
      have parsed : parseUnit registry source = ⟨⟨[]⟩, faults.map .ofLexError⟩ := by
        simp only [parseUnit, h]
      rw [parsed]
      exact ordered_of_lex h
  refine ⟨ordered, fun tokens h => ?_, fun path booleanClauses n => ?_⟩
  · obtain ⟨d, ledger, errors, -⟩ := Cursor.exists_ledger_parseUnit registry { rest := tokens }
    have spared := ledger.spared
    have start : ({ rest := tokens } : Cursor).load = tokens.length := Nat.zero_add _
    rw [Cursor.load, start] at spared
    rw [parseUnit_of_lex h, errors]
    omega
  · obtain ⟨typeErrors, checked⟩ :=
      exists_checkUnit (registered_parseUnit registry source) booleanClauses
    refine ⟨_, checkSource_of_checkUnit path checked, rfl, fun kept hk omitted ho => ?_⟩
    rw [← List.take_append_drop n (parseUnit registry source).errors] at ordered
    exact (List.pairwise_append.1 ordered).2.2 kept hk omitted ho

end Contracts
