import Manifest.Proofs.CommandLine.Inputs

/-!
# How a run ends

A run ends in one of five ways, and which one it is depends on the bindings, the
documents and the value that they result in.  Everything else that is said about
runs is read off this case distinction.
-/

namespace Manifest

/-! ## Several documents -/

/-- A source compiles and evaluates to a value. -/
def CompilesTo (bindings : Value.Bindings) (document : NamedSource) (value : Value) : Prop :=
  ∃ evaluated, compileSource document.source bindings = .ok evaluated ∧ evaluated.value = value

/-- The first document that fails, and its failure. -/
def FirstFailing (bindings : Value.Bindings) (documents : List NamedSource)
    (document : NamedSource) (error : CompileError) : Prop :=
  ∃ front behind, documents = front ++ document :: behind ∧
    (∀ earlier ∈ front, ∃ value, CompilesTo bindings earlier value) ∧
    compileSource document.source bindings = .error error

/-- What a value contributes to the joined sequence. -/
def Value.contribution : Value → List Value
  | .sequence items => items
  | .unit => []
  | other => [other]

variable {bindings : Value.Bindings} {documents : List NamedSource} {document : NamedSource}
  {error : CompileError} {value : Value}

theorem Value.concat_eq (values : List Value) :
    Value.concat values = .sequence (values.flatMap Value.contribution) := by
  rw [concat]
  congr 2

theorem documentValues_eq_ok_iff {values : List Value} :
    documentValues bindings documents = .ok values ↔
      List.Forall₂ (CompilesTo bindings) documents values := by
  induction documents generalizing values with
  | nil =>
    rw [documentValues, List.forall₂_nil_left_iff]
    exact ⟨fun same => (Except.ok.inj same).symm, fun same => congrArg _ same.symm⟩
  | cons document rest ih =>
    rw [documentValues]
    cases first : compileSource document.source bindings with
    | error error =>
      refine ⟨fun failed => (nomatch failed), fun every => ?_⟩
      cases every with
      | cons compiled _ =>
        rcases compiled with ⟨_, compiled, _⟩
        cases first.symm.trans compiled
    | ok evaluated =>
      dsimp only
      cases others : documentValues bindings rest with
      | error failure =>
        refine ⟨fun failed => (nomatch failed), fun every => ?_⟩
        cases every with
        | cons _ further => cases others.symm.trans (ih.mpr further)
      | ok more =>
        constructor
        · intro same
          cases same
          exact .cons ⟨evaluated, first, rfl⟩ (ih.mp others)
        · intro every
          cases every with
          | cons compiled further =>
            rcases compiled with ⟨_, compiled, rfl⟩
            cases first.symm.trans compiled
            cases others.symm.trans (ih.mpr further)
            rfl

theorem not_firstFailing_nil : ¬ FirstFailing bindings [] document error := by
  rintro ⟨front, behind, same, _⟩
  cases front <;> cases same

/-- The first document fails itself, or it compiles and one behind it fails first. -/
theorem firstFailing_cons_iff {first : NamedSource} {rest : List NamedSource} :
    FirstFailing bindings (first :: rest) document error ↔
      document = first ∧ compileSource first.source bindings = .error error ∨
      (∃ value, CompilesTo bindings first value) ∧
        FirstFailing bindings rest document error := by
  constructor
  · rintro ⟨front, behind, same, compiled, failed⟩
    cases front with
    | nil =>
      cases same
      exact .inl ⟨rfl, failed⟩
    | cons earlier others =>
      cases same
      rcases List.forall_mem_cons.mp compiled with ⟨now, later⟩
      exact .inr ⟨now, others, behind, rfl, later, failed⟩
  · rintro (⟨rfl, failed⟩ | ⟨now, front, behind, rfl, compiled, failed⟩)
    · exact ⟨[], rest, rfl, fun _ inside => (nomatch inside), failed⟩
    · exact ⟨first :: front, behind, rfl, List.forall_mem_cons.mpr ⟨now, compiled⟩, failed⟩

theorem documentValues_eq_error_iff {failure : DocumentError} :
    documentValues bindings documents = .error failure ↔
      ∃ document, FirstFailing bindings documents document failure.error ∧
        document.name = failure.name := by
  induction documents with
  | nil =>
    refine ⟨fun failed => (nomatch failed), ?_⟩
    rintro ⟨_, failing, _⟩
    exact absurd failing not_firstFailing_nil
  | cons first rest ih =>
    rw [documentValues]
    simp only [firstFailing_cons_iff]
    cases outcome : compileSource first.source bindings with
    | error error =>
      constructor
      · rintro ⟨⟩
        exact ⟨first, .inl ⟨rfl, rfl⟩, rfl⟩
      · rcases failure with ⟨name, other⟩
        rintro ⟨document, ⟨rfl, ⟨⟩⟩ | ⟨⟨_, _, compiled, _⟩, _⟩, rfl⟩
        · rfl
        · cases outcome.symm.trans compiled
    | ok evaluated =>
      have onward : (documentValues bindings rest).map (evaluated.value :: ·) = .error failure ↔
          documentValues bindings rest = .error failure := by
        cases documentValues bindings rest <;> simp [Except.map]
      refine (onward.trans ih).trans (exists_congr fun document => and_congr_left fun _ => ?_)
      refine ⟨fun failing => .inr ⟨⟨_, evaluated, outcome, rfl⟩, failing⟩, ?_⟩
      rintro (⟨_, ⟨⟩⟩ | ⟨_, failing⟩)
      exact failing

/-- Joining documents gives the items of sequences, nothing for a unit, and every
other value as one item, in the order of the documents. -/
theorem compileDocuments_eq_ok_iff :
    compileDocuments documents bindings = .ok value ↔
      ∃ values, List.Forall₂ (CompilesTo bindings) documents values ∧
        value = .sequence (values.flatMap Value.contribution) := by
  simp only [← documentValues_eq_ok_iff, ← Value.concat_eq]
  rw [compileDocuments]
  cases documentValues bindings documents <;> simp [Except.map, eq_comm]

/-- What documents result in: a single one in its own value, and any other number
of them in their values joined. -/
inductive ResultsIn (bindings : Value.Bindings) : List NamedSource → Value → Prop
  | single {document : NamedSource} {value : Value} : CompilesTo bindings document value →
      ResultsIn bindings [document] value
  | joined {documents : List NamedSource} {value : Value} : documents.length ≠ 1 →
      compileDocuments documents bindings = .ok value → ResultsIn bindings documents value

theorem ResultsIn.compiles (results : ResultsIn bindings documents value) :
    ∃ values, List.Forall₂ (CompilesTo bindings) documents values ∧
      CommandLine.combine values = value := by
  cases results with
  | single compiled => exact ⟨[value], .cons compiled .nil, rfl⟩
  | joined number compiled =>
    rcases compileDocuments_eq_ok_iff.mp compiled with ⟨values, every, rfl⟩
    refine ⟨values, every, ?_⟩
    rw [← Value.concat_eq]
    cases every with
    | nil => rfl
    | cons first others =>
      cases others with
      | nil => exact absurd rfl number
      | cons second further => rfl

theorem ResultsIn.not_failing {document : NamedSource}
    (results : ResultsIn bindings documents value) :
    ¬ FirstFailing bindings documents document error := by
  intro failing
  rcases results.compiles with ⟨values, every, _⟩
  have found := documentValues_eq_ok_iff.mpr every
  have failed : documentValues bindings documents = .error ⟨document.name, error⟩ :=
    documentValues_eq_error_iff.mpr ⟨document, failing, rfl⟩
  cases found.symm.trans failed

namespace CommandLine

variable {files : Files} {options : Options}

/-- The report of documents is that of the first that fails. -/
theorem documentsReport_eq_error {report : String}
    (reported : (documentsReport bindings documents).2 = .error report) :
    ∃ document error, FirstFailing bindings documents document error ∧
      report = failureReport document.name document.source error := by
  induction documents with
  | nil => cases reported
  | cons first rest ih =>
    rw [documentsReport] at reported
    cases outcome : compileSource first.source bindings with
    | error error =>
      rw [outcome] at reported
      cases reported
      exact ⟨first, error, firstFailing_cons_iff.mpr (.inl ⟨rfl, outcome⟩), rfl⟩
    | ok evaluated =>
      rw [outcome] at reported
      have failed : (documentsReport bindings rest).2 = .error report := by
        cases others : (documentsReport bindings rest).2 with
        | error other => simpa [Except.map, others] using reported
        | ok values => simp [Except.map, others] at reported
      rcases ih failed with ⟨document, error, failing, same⟩
      have compiled : CompilesTo bindings first evaluated.value := ⟨evaluated, outcome, rfl⟩
      exact ⟨document, error, firstFailing_cons_iff.mpr (.inr ⟨⟨_, compiled⟩, failing⟩), same⟩

/-- Without a report the documents have their values. -/
theorem documentsReport_eq_ok {values : List Value}
    (found : (documentsReport bindings documents).2 = .ok values) :
    List.Forall₂ (CompilesTo bindings) documents values := by
  induction documents generalizing values with
  | nil =>
    cases found
    exact .nil
  | cons first rest ih =>
    rw [documentsReport] at found
    cases outcome : compileSource first.source bindings with
    | error error =>
      rw [outcome] at found
      cases found
    | ok evaluated =>
      rw [outcome] at found
      cases others : (documentsReport bindings rest).2 with
      | error report => simp [Except.map, others] at found
      | ok more =>
        simp only [Except.map, others, Except.ok.injEq] at found
        subst found
        exact .cons ⟨evaluated, outcome, rfl⟩ (ih others)

/-- The values of documents are combined as the documents are. -/
theorem resultsIn_combine {values : List Value}
    (every : List.Forall₂ (CompilesTo bindings) documents values) :
    ResultsIn bindings documents (combine values) := by
  have several : documents.length ≠ 1 → combine values = .concat values →
      ResultsIn bindings documents (combine values) := by
    intro number same
    refine .joined number (compileDocuments_eq_ok_iff.mpr ⟨values, every, ?_⟩)
    rw [same, Value.concat_eq]
  cases every with
  | nil => exact several (by decide) rfl
  | cons first others =>
    cases others with
    | nil => exact .single first
    | cons second further => exact several (by simp) rfl

/-! ## What a run comes to -/

theorem Supplies.unique {others : List NamedSource} (first : Supplies files options documents)
    (second : Supplies files options others) : documents = others :=
  Except.ok.inj ((documents_eq_ok_iff.mpr first).symm.trans (documents_eq_ok_iff.mpr second))

theorem Supplies.not_lacks (supplies : Supplies files options documents) :
    ¬ LacksDocument files options := by
  intro lacks
  rcases documents_fails_iff.mpr lacks with ⟨text, failed⟩
  cases failed.symm.trans (documents_eq_ok_iff.mpr supplies)

section Value

variable [Json.Library]

/-- The value that a run comes to. -/
def Yields (options : Options) (files : Files) (value : Value) : Prop :=
  ∃ bindings documents, Binds files options.bindings bindings ∧
    Supplies files options documents ∧ ResultsIn bindings documents value

/-- The document at which a run fails, and its failure. -/
def FailsAt (options : Options) (files : Files) (document : NamedSource) (error : CompileError) :
    Prop :=
  ∃ bindings documents, Binds files options.bindings bindings ∧
    Supplies files options documents ∧ FirstFailing bindings documents document error

theorem Binds.unique {named : Option String} {other : Value.Bindings}
    (first : Binds files named bindings) (second : Binds files named other) :
    bindings = other :=
  Except.ok.inj ((readBindings_eq_ok_iff.mpr first).symm.trans (readBindings_eq_ok_iff.mpr second))

theorem Binds.not_lacks {named : Option String} (binds : Binds files named bindings) :
    ¬ LacksBindings files named := by
  intro lacks
  rcases readBindings_fails_iff.mpr lacks with ⟨text, failed⟩
  cases failed.symm.trans (readBindings_eq_ok_iff.mpr binds)

/-- What has been read is not missing. -/
theorem Binds.not_missing (binds : Binds files options.bindings bindings)
    (supplies : Supplies files options documents) :
    ¬ (LacksBindings files options.bindings ∨ LacksDocument files options) := by
  rintro (lacks | lacks)
  · exact binds.not_lacks lacks
  · exact supplies.not_lacks lacks

theorem Yields.not_missing (yields : Yields options files value) :
    ¬ (LacksBindings files options.bindings ∨ LacksDocument files options) := by
  rcases yields with ⟨bindings, documents, binds, supplies, _⟩
  exact binds.not_missing supplies

theorem FailsAt.not_missing {document : NamedSource}
    (fails : FailsAt options files document error) :
    ¬ (LacksBindings files options.bindings ∨ LacksDocument files options) := by
  rcases fails with ⟨bindings, documents, binds, supplies, _⟩
  exact binds.not_missing supplies

/-- The value of a run is determined. -/
theorem Yields.unique {other : Value} (first : Yields options files value)
    (second : Yields options files other) : value = other := by
  rcases first with ⟨bindings, documents, binds, supplies, results⟩
  rcases second with ⟨_, _, sameBindings, sameDocuments, sameResults⟩
  cases binds.unique sameBindings
  cases supplies.unique sameDocuments
  rcases results.compiles with ⟨values, every, rfl⟩
  rcases sameResults.compiles with ⟨_, again, rfl⟩
  cases (documentValues_eq_ok_iff.mpr every).symm.trans (documentValues_eq_ok_iff.mpr again)
  rfl

theorem Yields.not_fails {document : NamedSource} (yields : Yields options files value) :
    ¬ FailsAt options files document error := by
  rintro ⟨_, _, sameBindings, sameDocuments, failing⟩
  rcases yields with ⟨bindings, documents, binds, supplies, results⟩
  cases binds.unique sameBindings
  cases supplies.unique sameDocuments
  exact results.not_failing failing

/-- A run that has a value fails nowhere. -/
theorem Yields.not_failing (yields : Yields options files value) :
    ¬ (LacksBindings files options.bindings ∨ LacksDocument files options ∨
      ∃ document error, FailsAt options files document error) := by
  rintro (lacks | lacks | ⟨document, error, fails⟩)
  · exact yields.not_missing (.inl lacks)
  · exact yields.not_missing (.inr lacks)
  · exact yields.not_fails fails

/-- The document at which a run fails is determined up to its text. -/
theorem FailsAt.unique {document other : NamedSource} {failure : CompileError}
    (first : FailsAt options files document error) (second : FailsAt options files other failure) :
    document.name = other.name ∧ error = failure := by
  rcases first with ⟨bindings, documents, binds, supplies, failing⟩
  rcases second with ⟨_, _, sameBindings, sameDocuments, again⟩
  cases binds.unique sameBindings
  cases supplies.unique sameDocuments
  have failed : documentValues bindings documents = .error ⟨document.name, error⟩ :=
    documentValues_eq_error_iff.mpr ⟨document, failing, rfl⟩
  have same : documentValues bindings documents = .error ⟨other.name, failure⟩ :=
    documentValues_eq_error_iff.mpr ⟨other, again, rfl⟩
  have equal := Except.error.inj (failed.symm.trans same)
  exact ⟨congrArg DocumentError.name equal, congrArg DocumentError.error equal⟩

end Value

/-! ## How a run ends -/

/-- Every value has a text in every format. -/
theorem exists_render [Json.Library] [Yaml.Library] (format : Format) (value : Value) :
    ∃ text, render format value = .ok text := by
  cases format with
  | json => exact ⟨Json.written value, rfl⟩
  | yaml => exact Yaml.Library.writes value

variable [Json.Library] [Yaml.Library] [Pattern.Engine]

/-- How a run with given options ends. -/
inductive Ending (options : Options) (files : Files) : Outcome → Prop
  | lacksBindings {text : String} : LacksBindings files options.bindings →
      Ending options files (complain text)
  | lacksDocument {text : String} : LacksDocument files options →
      Ending options files (complain text)
  | failed {document : NamedSource} {error : CompileError} {warnings : String} :
      FailsAt options files document error →
      Ending options files
        ⟨1, "", warnings ++ failureReport document.name document.source error⟩
  | faulty {value : Value} {stderr : String} : Yields options files value →
      options.checkResources = true → value.resourceFaults ≠ [] →
      Ending options files ⟨2, "", stderr⟩
  | printed {value : Value} {text stderr : String} : Yields options files value →
      (options.checkResources = true → value.resourceFaults = []) →
      render options.format value = .ok text →
      Ending options files ⟨0, CommandLine.printed text, stderr⟩

theorem ending_conclude {warnings : String} (yields : Yields options files value) :
    Ending options files (conclude options warnings value) := by
  rcases exists_render options.format value with ⟨text, written⟩
  rw [conclude, written]
  cases checks : options.checkResources with
  | false => exact .printed yields (fun given => (nomatch checks.symm.trans given)) written
  | true =>
    cases faults : value.resourceFaults with
    | nil => exact .printed yields (fun _ => faults) written
    | cons first others =>
      refine .faulty yields checks ?_
      rw [faults]
      exact List.cons_ne_nil first others

theorem ending_runWith (options : Options) (files : Files) :
    Ending options files (runWith options files) := by
  rw [runWith]
  cases bound : readBindings files options.bindings with
  | error text => exact .lacksBindings (readBindings_fails_iff.mp ⟨text, bound⟩)
  | ok bindings =>
    have binds := readBindings_eq_ok_iff.mp bound
    dsimp only
    rw [← Options.documents]
    cases given : options.documents files with
    | error text => exact .lacksDocument (documents_fails_iff.mp ⟨text, given⟩)
    | ok documents =>
      have supplies := documents_eq_ok_iff.mp given
      dsimp only
      rcases report : documentsReport bindings documents with ⟨warnings, result⟩
      have second : (documentsReport bindings documents).2 = result := by rw [report]
      cases result with
      | error text =>
        rcases documentsReport_eq_error second with ⟨document, error, failing, rfl⟩
        exact .failed ⟨bindings, documents, binds, supplies, failing⟩
      | ok values =>
        have results := resultsIn_combine (documentsReport_eq_ok second)
        exact ending_conclude ⟨bindings, documents, binds, supplies, results⟩

end CommandLine
end Manifest
