import Contracts.Proofs.Parsing.Registered
import Contracts.Proofs.Typing.Through
import Contracts.Report

/-! A check of a tree that agrees with the registry finds no fault. A fault is noted only
where a descriptor is not the one that the registry has for its keyword, and frames are
closed as they were opened, so such a check is never given up (`exists_checkUnit`). Trees that
are read agree with the registry, so no source is given up (`checkSource_total`). -/

namespace Contracts

/-- Checking a tree that agrees with the registry is never given up. -/
theorem exists_checkUnit {registry : Registry} {u : CompilationUnit} (h : u.Registered registry)
    (booleanClauses : Bool) : ∃ errors, checkUnit registry booleanClauses u = .ok errors := by
  obtain ⟨n, checked⟩ := (Checker.new registry booleanClauses).check_own u rfl h.own
  exact ⟨_, congrArg Checker.Outcome.result checked⟩

/-- A report shows what is found in the tree, as far as the limit goes. -/
theorem checkSource_of_checkUnit {registry : Registry} (path : String) {source : String}
    {options : Options} {errors : List TypeError}
    (checked : checkUnit registry options.booleanClauses (parseUnit registry source).unit =
      .ok errors) :
    checkSource registry path source options =
      .ok (Report.limit options.maxErrors ⟨path, (parseUnit registry source).errors, errors, 0⟩) := by
  rw [checkSource, checked]
  rfl

theorem Report.sublist_limit (max : Option Nat) (r : Report) :
    (r.limit max).typeErrors.Sublist r.typeErrors := by
  cases max with
  | none => exact List.Sublist.refl _
  | some n => exact List.take_sublist _ _

/-- The reader and the checker agree on descriptors: in what is read from a source, also after
errors, each keyword has the registry's own descriptor, of a kind that belongs in its place,
and the check of it is never given up. -/
theorem checkSource_total (registry : Registry) (path source : String) (options : Options) :
    (parseUnit registry source).unit.Registered registry ∧
      ∃ report, checkSource registry path source options = .ok report := by
  have registered := registered_parseUnit registry source
  obtain ⟨errors, checked⟩ := exists_checkUnit registered options.booleanClauses
  let report : Report := ⟨path, (parseUnit registry source).errors, errors, 0⟩
  have run : checkSource registry path source options = .ok (report.limit options.maxErrors) := by
    rw [checkSource, checked]
    rfl
  exact ⟨registered, _, run⟩

end Contracts
