import Manifest.Compile
import Manifest.Proofs.Evaluation.Lockstep
import Manifest.Proofs.Evaluation.Transfer

/-!
# Definitions that names carry

The parser gives a name the function that it stands for in the surrounding
text, and evaluation calls that function where the name is not resolved.  In a
parsed document no value comes about in this way.  What can happen is that a
failure is hidden: the operand of the name fails because another name is not
resolved, the definition is called in its place, and the document fails for
another reason later on.
-/

namespace Manifest

/-- With its definitions a document has the same result as without them, unless
it fails without them because a name is not resolved.  Then it fails with them
as well. -/
theorem evaluate_with_definitions {tokens : List Token} {program : Program}
    (parsed : Document.ofTokens tokens = .ok program.document) (bindings : Value.Bindings) :
    program.evaluate bindings = program.bare.evaluate bindings ∨
      ∃ name failure, program.bare.evaluate bindings = .error (.unresolvedIdentifier name) ∧
        program.evaluate bindings = .error failure := by
  rcases program.evaluate_bare bindings with same | ⟨name, lost⟩
  · exact .inl same.symm
  · cases evaluated : program.evaluate bindings with
    | error failure => exact .inr ⟨name, failure, lost, rfl⟩
    | ok value =>
      rcases Program.meaning_of_evaluate evaluated with ⟨depth, means⟩
      have plain : program.bare.meaning bindings depth = .ok value :=
        Program.meaning_of_rearranged parsed
          (Rearranged.bare program.document.root (.refl program.document.root)) means
      rcases Program.meaning_of_failed lost (by rintro ⟨⟩)
        (by rintro _ ⟨⟩) with ⟨further, failed⟩
      have found : program.bare.meaning bindings depth ≠ .error .exhausted := by
        rw [plain]
        rintro ⟨⟩
      have reached : program.bare.meaning bindings further ≠ .error .exhausted := by
        rw [failed]
        rintro ⟨⟩
      have same := Program.meaning_eq found reached
      rw [plain, failed] at same
      cases same

/-- A function that is called gives the same value without its definition. -/
theorem evaluate_with_definitions_call :
    ∃ read document value, tokenize "f := x -> x\ng := f 1\n" = .ok read ∧
      Document.ofTokens read.tokens = .ok document ∧
      (Program.mk document).evaluate [] = .ok value ∧
      (Program.mk document).bare.evaluate [] = .ok value := by
  have checked : ((tokenize "f := x -> x\ng := f 1\n").toOption.any fun read =>
      (Document.ofTokens read.tokens).toOption.any fun document =>
        ((Program.mk document).evaluate []).toOption.any fun _ => true) = true := by
    decide +kernel
  rcases any_toOption checked with ⟨read, tokenized, checked⟩
  rcases any_toOption checked with ⟨document, parsed, checked⟩
  rcases any_toOption checked with ⟨value, evaluated, _⟩
  refine ⟨read, document, value, tokenized, parsed, evaluated, ?_⟩
  rcases @evaluate_with_definitions _ ⟨document⟩ parsed [] with same | ⟨_, _, _, failed⟩
  · exact same.symm.trans evaluated
  · cases evaluated.symm.trans failed

/-- A name that is not resolved is hidden behind the definition of another one. -/
theorem unresolved_name_behind_definition :
    ∃ read document, tokenize "f := x -> x\ng := f 1\nh := g:foo\nf := nope\n" = .ok read ∧
      Document.ofTokens read.tokens = .ok document ∧
      (Program.mk document).evaluate [] = .error (.noSuchField "foo" "number") ∧
      (Program.mk document).bare.evaluate [] = .error (.unresolvedIdentifier "nope") := by
  have checked : ((tokenize "f := x -> x\ng := f 1\nh := g:foo\nf := nope\n").toOption.any
      fun read => (Document.ofTokens read.tokens).toOption.any fun document =>
        match (Program.mk document).evaluate [], (Program.mk document).bare.evaluate [] with
        | .error failure, .error other =>
          decide (failure = .noSuchField "foo" "number" ∧ other = .unresolvedIdentifier "nope")
        | _, _ => false) = true := by
    decide +kernel
  rcases any_toOption checked with ⟨read, tokenized, checked⟩
  rcases any_toOption checked with ⟨document, parsed, checked⟩
  split at checked
  · rename_i failure other evaluated plain
    rcases of_decide_eq_true checked with ⟨rfl, rfl⟩
    exact ⟨read, document, tokenized, parsed, evaluated, plain⟩
  · cases checked

end Manifest
