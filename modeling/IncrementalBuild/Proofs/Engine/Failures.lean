import IncrementalBuild.Proofs.Engine.Staging
import Mathlib.Data.List.Induction
/-!
# Why a build failed

A result is made of a compiler's reports: those that count as errors are its error lines, and the
other warnings its warning lines. A run that failed and reported nothing gets a report of its own.
A run that failed and reported something gets none, even if nothing that it reported is an error.
So a failed build has error lines unless its compiler failed like that.

## Main definitions

* `Diagnostic.IsError`, `Diagnostic.IsWarning` — what becomes of a report.

## Main results

* `BuildResult.ofDiagnostics_eq` — the result of a run, from its reports.
* `Command.errors_of_failure` — which failed builds have no error line.
-/

namespace IncrementalBuild

/-! ### What becomes of reports -/

namespace Diagnostic

/-- A report that counts as an error: of an error, or of a warning that was escalated. -/
def IsError (d : Diagnostic) : Prop :=
  d.severity = .error ∨ d.severity = .warning ∧ d.escalated = true

/-- A report that counts as a warning. -/
def IsWarning (d : Diagnostic) : Prop := d.severity = .warning ∧ d.escalated = false

instance : DecidablePred IsError := fun _ => inferInstanceAs (Decidable (_ ∨ _ ∧ _))

instance : DecidablePred IsWarning := fun _ => inferInstanceAs (Decidable (_ ∧ _))

end Diagnostic

namespace BuildResult

/-- One report is one line at most. -/
theorem add_eq (r : BuildResult) (d : Diagnostic) : r.add d =
    if d.IsError then { r with errors := r.errors ++ [d.format "error"], succeeded := false }
    else if d.IsWarning then { r with warnings := r.warnings ++ [d.format "warning"] }
    else r := by
  obtain ⟨severity, code, message, location, escalated⟩ := d
  cases severity <;> cases escalated <;> simp [add, Diagnostic.IsError, Diagnostic.IsWarning]

/-- **Results.** A result succeeded if the compiler did and no report counts as an error. Its lines
are those of the reports that count as errors and as warnings, in their order. -/
theorem ofDiagnostics_eq (compilerSucceeded : Bool) (reports : List Diagnostic) :
    ofDiagnostics compilerSucceeded reports =
      { succeeded := compilerSucceeded && reports.all fun d => decide ¬ d.IsError
        warnings := (reports.filter fun d => d.IsWarning).map fun d => d.format "warning"
        errors := (reports.filter fun d => d.IsError).map fun d => d.format "error" } := by
  induction reports using List.reverseRecOn with
  | nil => simp [ofDiagnostics]
  | append_singleton before d ih =>
      have hlast : ofDiagnostics compilerSucceeded (before ++ [d]) =
          (ofDiagnostics compilerSucceeded before).add d := by
        rw [ofDiagnostics, List.foldl_append]
        rfl
      rw [hlast, ih, add_eq]
      by_cases herror : d.IsError
      · have hwarning : ¬ d.IsWarning := by
          rintro ⟨hseverity, hescalated⟩
          rcases herror with h | ⟨-, h⟩
          · exact absurd (h.symm.trans hseverity) (by simp)
          · exact absurd (h.symm.trans hescalated) (by simp)
        simp [herror, hwarning]
      · by_cases hwarning : d.IsWarning <;> simp [herror, hwarning]

end BuildResult

/-! ### Failed builds -/

namespace Command

variable {σ : Type} {command : Compiler} {u : CommandUnit}
  {format : Option SymbolFormat} {files : List Staged} {w w' : World σ} {out : EmitOutput}
  {run : Finished}

/-- A run's reports are those that it printed, or the one on its failure. -/
theorem reportsOf_eq (files : List Staged) (run : Finished) : reportsOf files run =
    if diagnostics files run.output.toLossyString = [] ∧ run.status.succeeded = false then
      [failureReport run.status run.errors.toLossyString]
    else diagnostics files run.output.toLossyString := by
  simp [reportsOf]

/-- The report on a failure counts as an error. -/
theorem isError_failureReport (status : ExitStatus) (errors : String) :
    (failureReport status errors).IsError := .inl rfl

/-- A run's result is a failure if the run was, or if a report that it printed is an error. -/
theorem failed_iff (files : List Staged) (run : Finished) :
    (BuildResult.ofDiagnostics run.status.succeeded (reportsOf files run)).succeeded = false ↔
      run.status.succeeded = false ∨
        ∃ d ∈ diagnostics files run.output.toLossyString, d.IsError := by
  rw [BuildResult.ofDiagnostics_eq, reportsOf_eq]
  cases hrun : run.status.succeeded <;> simp

/-- A failed result is without an error line if the run printed reports and none is an error. -/
theorem errors_eq_nil_iff
    (hfailed : (BuildResult.ofDiagnostics run.status.succeeded (reportsOf files run)).succeeded =
      false) :
    (BuildResult.ofDiagnostics run.status.succeeded (reportsOf files run)).errors = [] ↔
      diagnostics files run.output.toLossyString ≠ [] ∧
        ∀ d ∈ diagnostics files run.output.toLossyString, ¬ d.IsError := by
  have hrun := (failed_iff files run).mp hfailed
  rw [BuildResult.ofDiagnostics_eq, reportsOf_eq]
  split
  · next hsilent =>
      simp [hsilent.1, isError_failureReport]
  · next hprinted =>
      have hsome : diagnostics files run.output.toLossyString ≠ [] := by
        intro hnil
        rcases hrun with hrun | ⟨d, hd, -⟩
        · exact hprinted ⟨hnil, hrun⟩
        · rw [hnil] at hd
          exact absurd hd List.not_mem_nil
      simp [hsome]

/-- A run that failed without a report has one error line. -/
theorem errors_of_silent (hfailed : run.status.succeeded = false)
    (hsilent : diagnostics files run.output.toLossyString = []) :
    (BuildResult.ofDiagnostics run.status.succeeded (reportsOf files run)).errors =
      ["error : compiler exited with " ++ run.status.message ++ ": " ++
        String.ofList (Blank.trim run.errors.toLossyString.toList)] := by
  have hline : (failureReport run.status run.errors.toLossyString).format "error" =
      "error : compiler exited with " ++ run.status.message ++ ": " ++
        String.ofList (Blank.trim run.errors.toLossyString.toList) := by
    apply String.toList_inj.mp
    simp [Diagnostic.format, failureReport, toString]
  rw [BuildResult.ofDiagnostics_eq, reportsOf_eq, if_pos ⟨hsilent, hfailed⟩]
  simp [isError_failureReport, hline]

/-- **Why a build failed.** A build fails if its compiler fails, or if the compiler reports
something that counts as an error. It then has an error line, unless the compiler failed with
reports none of which counts as an error; if it failed with no report at all, there is one line,
with the exit status and what the compiler wrote to its error output. -/
theorem errors_of_failure (h : emit command u format w = (.ok out, w')) :
    ∃ dir staged run, Emission command u format w dir staged run out ∧
      let reports := diagnostics (stage dir u) run.output.toLossyString
      let result := BuildResult.ofDiagnostics out.succeeded out.diagnostics
      (result.succeeded = false ↔
        run.status.succeeded = false ∨ ∃ d ∈ reports, d.IsError) ∧
      (result.succeeded = false →
        (result.errors = [] ↔ reports ≠ [] ∧ ∀ d ∈ reports, ¬ d.IsError)) ∧
      (run.status.succeeded = false → reports = [] →
        result.errors = ["error : compiler exited with " ++ run.status.message ++ ": " ++
          String.ofList (Blank.trim run.errors.toLossyString.toList)]) := by
  obtain ⟨dir, staged, run, hemission⟩ := exists_emission h
  refine ⟨dir, staged, run, hemission, ?_⟩
  rw [hemission.succeeded, hemission.diagnostics]
  exact ⟨failed_iff _ run, errors_eq_nil_iff, errors_of_silent⟩

/-! ### A failed build that says nothing -/

namespace Mute

/-- A compiler that prints a line, writes to its error output, and fails. -/
def compiler (line : String) : CompilerCommand :=
  { program := ⟨"/bin/sh"⟩, args := ["-c", "echo '" ++ line ++ "'; echo ' broken ' >&2; exit 3"] }

/-- A report with a severity that is not understood. -/
def fatal : String := "\x7b\"severity\":\"fatal\",\"message\":\"odd\"\x7d"

/-- After such a report the failure of the compiler leaves no line at all. -/
theorem failed_without_error :
    ∃ out, (emit (compiler fatal) {} none shellWorld).1 = .ok out ∧
      BuildResult.ofDiagnostics out.succeeded out.diagnostics =
        { succeeded := false, warnings := [], errors := [] } :=
  ⟨⟨[], none, [⟨.hidden, "", "odd", none, false⟩], false⟩, by decide +kernel⟩

/-- After a line that is no report the failure leaves an error line; after one that is not
understood it leaves none, and the compiler has printed reports none of which is an error. -/
theorem failures_told :
    (∃ out w', emit (compiler "odd") {} none shellWorld = (.ok out, w') ∧
      (BuildResult.ofDiagnostics out.succeeded out.diagnostics).errors =
        ["error : compiler exited with exit status: 3: broken"]) ∧
    ∃ out w' dir staged run, emit (compiler fatal) {} none shellWorld = (.ok out, w') ∧
      Emission (compiler fatal) {} none shellWorld dir staged run out ∧
      run.status.succeeded = false ∧
      diagnostics (stage dir {}) run.output.toLossyString ≠ [] ∧
      ∀ d ∈ diagnostics (stage dir {}) run.output.toLossyString, ¬ d.IsError := by
  constructor
  · have hout : (emit (compiler "odd") {} none shellWorld).1 =
        .ok ⟨[], none, [⟨.error, "", "compiler exited with exit status: 3: broken", none, false⟩],
          false⟩ := by decide +kernel
    obtain ⟨w', hemit⟩ := exists_left hout
    exact ⟨_, w', hemit, by decide⟩
  · have hout : (emit (compiler fatal) {} none shellWorld).1 =
        .ok ⟨[], none, [⟨.hidden, "", "odd", none, false⟩], false⟩ := by decide +kernel
    obtain ⟨w', hemit⟩ := exists_left hout
    obtain ⟨dir, staged, run, hemission, -, herrors, -⟩ := errors_of_failure hemit
    obtain ⟨hsome, hnone⟩ := (herrors (by decide)).mp (by decide)
    exact ⟨_, w', dir, staged, run, hemit, hemission, hemission.succeeded.symm, hsome, hnone⟩

end Mute
end Command
end IncrementalBuild
