import Manifest.CommandLine.Run
import Mathlib.Data.List.Forall2

/-!
# What a run reads

Before it compiles anything, a run reads its bindings and all its documents.
The readers stop at the first failure and word it.  Here the outcome of each is
told apart from the order of the reading: either there is what was asked for,
or something is missing.
-/

namespace Manifest
namespace CommandLine

variable {files : Files} {options : Options}

/-! ## Bindings -/

section Bindings

variable [Json.Library]

/-- The bindings that an option stands for. -/
inductive Binds (files : Files) : Option String → Value.Bindings → Prop
  | nothing : Binds files none []
  | file {path text : String} {fields : Value.Bindings} : files.readText path = .ok text →
      Json.Library.read text = some (.mapping fields) → Binds files (some path) fields

/-- The file of the bindings cannot be read, or it holds no object. -/
inductive LacksBindings (files : Files) : Option String → Prop
  | unreadable {path : String} {reason : ReadFailure} : files.readText path = .error reason →
      LacksBindings files (some path)
  | noObject {path text : String} : files.readText path = .ok text →
      (∀ fields, Json.Library.read text ≠ some (.mapping fields)) → LacksBindings files (some path)

theorem readBindings_eq_ok_iff {named : Option String} {bindings : Value.Bindings} :
    readBindings files named = .ok bindings ↔ Binds files named bindings := by
  constructor
  · intro found
    cases named with
    | none =>
      cases found
      exact .nothing
    | some path =>
      rw [readBindings] at found
      cases text : files.readText path with
      | error reason =>
        rw [text] at found
        cases found
      | ok content =>
        rw [text] at found
        dsimp only at found
        rw [Json.readBindings] at found
        split at found
        · cases found
        · rename_i held same
          cases found
          split at same
          · cases same
          · rename_i object
            cases same
            exact .file text object
          · cases same
  · intro binds
    cases binds with
    | nothing => rfl
    | file readable object =>
      rw [readBindings, readable]
      dsimp only
      rw [Json.readBindings, object]

theorem readBindings_fails_iff {named : Option String} :
    (∃ text, readBindings files named = .error text) ↔ LacksBindings files named := by
  constructor
  · rintro ⟨complaint, failed⟩
    cases named with
    | none => cases failed
    | some path =>
      cases text : files.readText path with
      | error reason => exact .unreadable text
      | ok content =>
        refine .noObject text fun fields object => ?_
        rw [readBindings_eq_ok_iff.mpr (.file text object)] at failed
        cases failed
  · intro lacks
    cases outcome : readBindings files named with
    | error text => exact ⟨text, rfl⟩
    | ok bindings =>
      have binds := readBindings_eq_ok_iff.mp outcome
      cases lacks with
      | unreadable failed =>
        cases binds with
        | file readable _ => cases failed.symm.trans readable
      | noObject readable noObject =>
        cases binds with
        | file same object =>
          cases readable.symm.trans same
          exact absurd object (noObject _)

end Bindings

/-! ## Documents -/

/-- A document is the text behind a path. -/
def IsDocument (files : Files) (path : String) (document : NamedSource) : Prop :=
  document.name = path ∧ files.readText path = .ok document.source

/-- The paths of the documents that a run is given, in order. -/
def Options.documentPaths (options : Options) (files : Files) : List String :=
  options.paths.flatMap files.expand

/-- The documents that a run is given. -/
inductive Supplies (files : Files) (options : Options) : List NamedSource → Prop
  | standardInput {source : String} : options.readsStandardInput = true →
      files.standardInput = .ok source → Supplies files options [⟨"<stdin>", source⟩]
  | paths {documents : List NamedSource} : options.readsStandardInput = false →
      List.Forall₂ (IsDocument files) (options.documentPaths files) documents →
      Supplies files options documents

/-- Some document of a run cannot be read. -/
inductive LacksDocument (files : Files) (options : Options) : Prop
  | standardInput {reason : ReadFailure} : options.readsStandardInput = true →
      files.standardInput = .error reason → LacksDocument files options
  | path {path : String} {reason : ReadFailure} : options.readsStandardInput = false →
      path ∈ options.documentPaths files → files.readText path = .error reason →
      LacksDocument files options

namespace Files

theorem document_eq_ok_iff {path : String} {document : NamedSource} :
    files.document path = .ok document ↔ IsDocument files path document := by
  rw [Files.document, IsDocument]
  rcases document with ⟨name, source⟩
  cases files.readText path with
  | error reason => simp
  | ok content =>
    simp only [Except.ok.injEq, NamedSource.mk.injEq]
    exact ⟨fun ⟨named, same⟩ => ⟨named.symm, same⟩, fun ⟨named, same⟩ => ⟨named.symm, same⟩⟩

/-- Documents are read if each of them can be. -/
theorem documents_eq_ok_iff {paths : List String} {documents : List NamedSource} :
    files.documents paths = .ok documents ↔ List.Forall₂ (IsDocument files) paths documents := by
  induction paths generalizing documents with
  | nil =>
    rw [Files.documents, List.forall₂_nil_left_iff]
    exact ⟨fun same => (Except.ok.inj same).symm, fun same => congrArg _ same.symm⟩
  | cons path rest ih =>
    rw [Files.documents]
    cases first : files.document path with
    | error text =>
      refine ⟨fun failed => (nomatch failed), fun every => ?_⟩
      cases every with
      | cons readable _ => cases first.symm.trans (document_eq_ok_iff.mpr readable)
    | ok document =>
      dsimp only
      cases others : files.documents rest with
      | error text =>
        refine ⟨fun failed => (nomatch failed), fun every => ?_⟩
        cases every with
        | cons _ further => cases others.symm.trans (ih.mpr further)
      | ok more =>
        constructor
        · intro same
          cases same
          exact .cons (document_eq_ok_iff.mp first) (ih.mp others)
        · intro every
          cases every with
          | cons readable further =>
            cases first.symm.trans (document_eq_ok_iff.mpr readable)
            cases others.symm.trans (ih.mpr further)
            rfl

/-- Reading documents fails at one of them. -/
theorem documents_fails_iff {paths : List String} :
    (∃ text, files.documents paths = .error text) ↔
      ∃ path ∈ paths, ∃ reason, files.readText path = .error reason := by
  induction paths with
  | nil =>
    constructor
    · rintro ⟨_, failed⟩
      cases failed
    · rintro ⟨_, inside, _⟩
      cases inside
  | cons path rest ih =>
    rw [Files.documents, Files.document]
    simp only [List.mem_cons, exists_eq_or_imp]
    rw [← ih]
    cases files.readText path with
    | error reason => simp
    | ok content =>
      dsimp only
      cases files.documents rest <;> simp [Except.map]

theorem documents_append (paths more : List String) :
    files.documents (paths ++ more) =
      match files.documents paths with
      | .error text => .error text
      | .ok first => (files.documents more).map (first ++ ·) := by
  induction paths with
  | nil =>
    rw [List.nil_append, Files.documents]
    cases files.documents more <;> rfl
  | cons path rest ih =>
    rw [List.cons_append, Files.documents, Files.documents, ih]
    cases files.document path with
    | error text => rfl
    | ok document =>
      dsimp only
      cases files.documents rest with
      | error text => rfl
      | ok documents => cases files.documents more <;> rfl

/-- Arguments are read as the paths that they stand for. -/
theorem inputs_eq (paths : List String) :
    files.inputs paths = files.documents (paths.flatMap files.expand) := by
  induction paths with
  | nil => rfl
  | cons path rest ih =>
    rw [List.flatMap_cons, documents_append, ← ih]
    rfl

end Files

/-- The documents of a run, from wherever they come. -/
def Options.documents (options : Options) (files : Files) : Except String (List NamedSource) :=
  if options.readsStandardInput then files.fromStandardInput else files.inputs options.paths

theorem documents_eq_ok_iff {documents : List NamedSource} :
    options.documents files = .ok documents ↔ Supplies files options documents := by
  rw [Options.documents]
  constructor
  · intro found
    split at found
    · rename_i standard
      rw [Files.fromStandardInput] at found
      cases input : files.standardInput with
      | error reason =>
        rw [input] at found
        cases found
      | ok source =>
        rw [input] at found
        cases found
        exact .standardInput standard input
    · rename_i noStandard
      rw [Files.inputs_eq] at found
      exact .paths (Bool.eq_false_iff.mpr noStandard) (Files.documents_eq_ok_iff.mp found)
  · intro supplies
    cases supplies with
    | standardInput standard input => rw [if_pos standard, Files.fromStandardInput, input]
    | paths noStandard every =>
      rw [noStandard, if_neg Bool.false_ne_true, Files.inputs_eq]
      exact Files.documents_eq_ok_iff.mpr every

theorem documents_fails_iff :
    (∃ text, options.documents files = .error text) ↔ LacksDocument files options := by
  rw [Options.documents]
  constructor
  · rintro ⟨text, failed⟩
    split at failed
    · rename_i standard
      rw [Files.fromStandardInput] at failed
      cases input : files.standardInput with
      | error reason => exact .standardInput standard input
      | ok source =>
        rw [input] at failed
        cases failed
    · rename_i noStandard
      rw [Files.inputs_eq] at failed
      rcases Files.documents_fails_iff.mp ⟨text, failed⟩ with ⟨path, inside, reason, unreadable⟩
      exact .path (Bool.eq_false_iff.mpr noStandard) inside unreadable
  · intro lacks
    cases lacks with
    | standardInput standard input =>
      rw [if_pos standard, Files.fromStandardInput, input]
      exact ⟨_, rfl⟩
    | path noStandard inside unreadable =>
      rw [noStandard, if_neg Bool.false_ne_true, Files.inputs_eq]
      exact Files.documents_fails_iff.mpr ⟨_, inside, _, unreadable⟩

end CommandLine
end Manifest
