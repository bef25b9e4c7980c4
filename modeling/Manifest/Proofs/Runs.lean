import Manifest.Proofs.CommandLine.Outcomes

/-!
# Runs are all or nothing

A run that is to compile documents either writes the value that they result in,
or it writes nothing and says by its exit code why.  What it reports of a
document is said of the first that fails, which is the one that joining the
documents stops at.  A run that only asks for a text, such as the version, looks at no
document.  All this holds whatever reads the arguments and JSON and writes the value.
-/

namespace Manifest
namespace CommandLine

variable {options : Options} {files : Files} {outcome : Outcome}

/-- The report of a failure names its document. -/
theorem failureReport_names (name source : String) (error : CompileError) :
    ∃ rest, failureReport name source error = stageTitle error ++ " ERROR IN " ++ name ++ rest := by
  rw [failureReport]
  cases error.span with
  | none => exact ⟨":\n" ++ (error.message ++ "\n\n"), by simp only [String.append_assoc]⟩
  | some span => exact ⟨_, by simp only [String.append_assoc]; rfl⟩

section Libraries

variable [Json.Library] [Yaml.Library] [Pattern.Engine]

/-- The exit code of a run tells what became of its documents, and only a run
that succeeds writes anything. -/
structure AllOrNothing (options : Options) (files : Files) (outcome : Outcome) : Prop where
  fails_iff : outcome.code = 1 ↔ LacksBindings files options.bindings ∨
    LacksDocument files options ∨ ∃ document error, FailsAt options files document error
  names : ∀ document error, FailsAt options files document error →
    ∃ before rest, outcome.stderr =
      before ++ (stageTitle error ++ " ERROR IN " ++ document.name ++ rest)
  faulty_iff : outcome.code = 2 ↔ options.checkResources = true ∧
    ∃ value, Yields options files value ∧ value.resourceFaults ≠ []
  succeeds : outcome.code ≠ 1 → outcome.code ≠ 2 → outcome.code = 0
  silent : outcome.code ≠ 0 → outcome.stdout = ""
  shows : outcome.code = 0 → ∃ value text, Yields options files value ∧
    render options.format value = .ok text ∧ outcome.stdout = printed text

/-- Where something is missing, no document is looked at. -/
theorem allOrNothing_complain
    (missing : LacksBindings files options.bindings ∨ LacksDocument files options)
    (text : String) : AllOrNothing options files (complain text) where
  fails_iff := by
    constructor
    · intro _
      exact missing.imp_right .inl
    · intro _
      rfl
  names := by
    intro document error fails
    exact absurd missing fails.not_missing
  faulty_iff := by
    constructor
    · intro faulty
      cases faulty
    · rintro ⟨_, value, yields, _⟩
      exact absurd missing yields.not_missing
  succeeds := by
    intro other _
    exact absurd rfl other
  silent := by
    intro _
    rfl
  shows := by
    intro succeeds
    cases succeeds

/-- A document that fails is the one that is named. -/
theorem allOrNothing_failed {document : NamedSource} {error : CompileError} (warnings : String)
    (fails : FailsAt options files document error) :
    AllOrNothing options files
      ⟨1, "", warnings ++ failureReport document.name document.source error⟩ where
  fails_iff := by
    constructor
    · intro _
      exact .inr (.inr ⟨document, error, fails⟩)
    · intro _
      rfl
  names := by
    intro other failure again
    rcases fails.unique again with ⟨named, rfl⟩
    rcases failureReport_names document.name document.source error with ⟨rest, report⟩
    exact ⟨warnings, rest, by rw [report, named]⟩
  faulty_iff := by
    constructor
    · intro faulty
      cases faulty
    · rintro ⟨_, value, yields, _⟩
      exact absurd fails yields.not_fails
  succeeds := by
    intro other _
    exact absurd rfl other
  silent := by
    intro _
    rfl
  shows := by
    intro succeeds
    cases succeeds

/-- Values with faults are not written. -/
theorem allOrNothing_faulty {value : Value} (stderr : String) (yields : Yields options files value)
    (checks : options.checkResources = true) (faults : value.resourceFaults ≠ []) :
    AllOrNothing options files ⟨2, "", stderr⟩ where
  fails_iff := by
    constructor
    · intro fails
      cases fails
    · intro fails
      exact absurd fails yields.not_failing
  names := by
    intro document error fails
    exact absurd fails yields.not_fails
  faulty_iff := by
    constructor
    · intro _
      exact ⟨checks, value, yields, faults⟩
    · intro _
      rfl
  succeeds := by
    intro _ other
    exact absurd rfl other
  silent := by
    intro _
    rfl
  shows := by
    intro succeeds
    cases succeeds

theorem allOrNothing_printed {value : Value} {text : String} (stderr : String)
    (yields : Yields options files value)
    (faultless : options.checkResources = true → value.resourceFaults = [])
    (rendered : render options.format value = .ok text) :
    AllOrNothing options files ⟨0, printed text, stderr⟩ where
  fails_iff := by
    constructor
    · intro fails
      cases fails
    · intro fails
      exact absurd fails yields.not_failing
  names := by
    intro document error fails
    exact absurd fails yields.not_fails
  faulty_iff := by
    constructor
    · intro faulty
      cases faulty
    · rintro ⟨checks, other, again, faults⟩
      cases yields.unique again
      exact absurd (faultless checks) faults
  succeeds := by
    intro _ _
    rfl
  silent := by
    intro other
    exact absurd rfl other
  shows := by
    intro _
    exact ⟨value, text, yields, rendered, rfl⟩

theorem allOrNothing_of_ending (ends : Ending options files outcome) :
    AllOrNothing options files outcome := by
  cases ends with
  | lacksBindings lacks => exact allOrNothing_complain (.inl lacks) _
  | lacksDocument lacks => exact allOrNothing_complain (.inr lacks) _
  | failed fails => exact allOrNothing_failed _ fails
  | faulty yields checks faults => exact allOrNothing_faulty _ yields checks faults
  | printed yields faultless rendered => exact allOrNothing_printed _ yields faultless rendered

end Libraries

/-! ## Runs with arguments -/

end CommandLine
end Manifest
