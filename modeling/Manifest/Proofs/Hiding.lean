import Manifest.Compile
import Manifest.Proofs.Evaluation.Hiding
import Manifest.Proofs.Grammar.Closure

/-!
# Hidden keys do not leak

A name that begins with an underscore may be used anywhere in its section: it may be
merged, lifted, yielded, passed to a function or accessed.  Its value comes out in this
way, but never under its key.
-/

namespace Manifest

/-- The literals of a document have no keys. -/
theorem Document.root_public {tokens : List Token} {document : Document}
    (parsed : Document.ofTokens tokens = .ok document) : document.root.Public := by
  refine Document.closed (Grammar.closed_every ?_ ?_ ?_) parsed
  · intro lexeme result reads
    cases lexeme <;> cases reads <;> first | trivial | exact fun _ member => nomatch member
  · exact fun _ => trivial
  · intro expression noScalar _
    cases expression with
    | scalar value => exact absurd rfl (noScalar value)
    | _ => trivial

/-- Unless the bindings of a caller have private keys, the value of a program has none,
at any depth. -/
theorem value_has_no_private_keys {tokens : List Token} {program : Program}
    {bindings : Value.Bindings} {value : Value}
    (parsed : Document.ofTokens tokens = .ok program.document)
    (given : ∀ binding ∈ bindings, binding.2.Public)
    (evaluated : program.evaluate bindings = .ok value) : value.Public := by
  rcases Program.meaning_of_evaluate evaluated with ⟨depth, means⟩
  exact public_meaning depth (Scene.every_ofBindings_of_mem fun _ => given)
    (Document.root_public parsed) means

/-- A hidden mapping is merged, passed to a function, lifted and accessed. -/
theorem value_has_no_private_keys_of_hidden_mapping :
    let source := "_s :=\n  a := 1\n  _b := 2\nf := x -> x\nm := _s + _t\nn := ^(f _s)\ny := _s:a\n"
    let bindings := [("_t", Value.mapping [("c", .boolean true)])]
    ∃ read document value, tokenize source = .ok read ∧
      Document.ofTokens read.tokens = .ok document ∧ (∀ binding ∈ bindings, binding.2.Public) ∧
      (Program.mk document).evaluate bindings = .ok value ∧
      value.keys = ["m", "a", "c", "n", "a", "y"] ∧ value.Public := by
  intro source bindings
  have checked : ((tokenize source).toOption.any fun read =>
      (Document.ofTokens read.tokens).toOption.any fun document =>
        ((Program.mk document).evaluate bindings).toOption.any fun value =>
          decide (value.keys = ["m", "a", "c", "n", "a", "y"])) = true := by
    decide +kernel
  rcases any_toOption checked with ⟨read, tokenized, checked⟩
  rcases any_toOption checked with ⟨document, parsed, checked⟩
  rcases any_toOption checked with ⟨value, evaluated, shown⟩
  have given : ∀ binding ∈ bindings, binding.2.Public := by decide
  exact ⟨read, document, value, tokenized, parsed, given, evaluated, of_decide_eq_true shown,
    @value_has_no_private_keys _ ⟨document⟩ _ _ parsed given evaluated⟩

end Manifest
