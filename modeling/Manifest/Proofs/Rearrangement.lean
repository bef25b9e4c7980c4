import Manifest.Compile
import Manifest.Proofs.Evaluation.Depth
import Manifest.Proofs.Evaluation.Lockstep

/-!
# The order of assignments

A section of assignments to different names has the same value in every order,
wherever in a document it stands.  Its names are entered before any of them is
evaluated, and the order decides only when each of them is asked for first.

Whether a document has a value is settled without its definitions and without
looking at what has been evaluated before; there the order does not show.  What
is found in this way is found to a depth of the size of the document, so the
evaluation of the rearranged document is not cut off before it.
-/

namespace Manifest

/-- A document that has a value has the same value when sections in it are
rearranged. -/
theorem evaluate_rearranged {tokens : List Token} {program moved : Program}
    {bindings : Value.Bindings} {value : Value}
    (parsed : Document.ofTokens tokens = .ok program.document)
    (rearranged : Rearranged program.document.root moved.document.root)
    (evaluated : program.evaluate bindings = .ok value) :
    moved.evaluate bindings = .ok value := by
  rcases Program.meaning_of_evaluate evaluated with ⟨depth, means⟩
  have plain : moved.bare.meaning bindings depth = .ok value :=
    Program.meaning_of_rearranged parsed (Rearranged.bare _ rearranged) means
  have shallow := Program.meaning_of_size moved.document.root.bare_bare plain
  have reached : moved.bare.evaluate bindings = .ok value :=
    Program.evaluate_of_meaning shallow (by rintro ⟨⟩) (Nat.le_add_right _ 4000)
  rcases moved.evaluate_bare bindings with same | ⟨name, lost⟩
  · exact same.symm.trans reached
  · cases reached.symm.trans lost

/-- The section of a document that has only one. -/
def Expr.onlySection? : Expr → Option (Nat × Section Expr)
  | .scope id (.block [part]) => some (id, part)
  | _ => none

theorem Expr.onlySection?_eq_some {root : Expr} {id : Nat} {part : Section Expr}
    (found : root.onlySection? = some (id, part)) : root = .scope id (.block [part]) := by
  unfold onlySection? at found
  split at found
  · cases found
    rfl
  · cases found

/-- The same value comes out when the assignments of a section are turned around. -/
theorem evaluate_rearranged_backwards :
    ∃ read document id scope expressions value, tokenize "b := a\nf := x -> a\na: 1\n" = .ok read ∧
      Document.ofTokens read.tokens = .ok document ∧
      document.root = .scope id (.block [⟨scope, expressions⟩]) ∧
      Section.assigned expressions = ["b", "f", "a"] ∧
      (Program.mk document).evaluate [] = .ok value ∧
      (Program.mk { document with
        root := .scope id (.block [⟨scope, expressions.reverse⟩]) }).evaluate [] = .ok value := by
  have checked : ((tokenize "b := a\nf := x -> a\na: 1\n").toOption.any fun read =>
      (Document.ofTokens read.tokens).toOption.any fun document =>
        ((Program.mk document).evaluate []).toOption.any fun _ =>
          document.root.onlySection?.any fun (_, part) =>
            part.expressions.all Expr.isAssignment &&
              decide (Section.assigned part.expressions = ["b", "f", "a"])) = true := by
    decide +kernel
  rcases any_toOption checked with ⟨read, tokenized, checked⟩
  rcases any_toOption checked with ⟨document, parsed, checked⟩
  rcases any_toOption checked with ⟨value, evaluated, checked⟩
  rcases (Option.any_eq_true _ _).mp checked with ⟨⟨id, scope, expressions⟩, only, checked⟩
  have root := Expr.onlySection?_eq_some only
  dsimp only at checked
  rw [Bool.and_eq_true, List.all_eq_true, decide_eq_true_eq] at checked
  rcases checked with ⟨assignments, names⟩
  have distinct : (Section.assigned expressions).Nodup := by
    rw [names]
    decide
  refine ⟨read, document, id, scope, expressions, value, tokenized, parsed, root, names,
    evaluated, evaluate_rearranged parsed ?_ evaluated⟩
  rw [root]
  exact .scope id (.block (.cons (.permuted scope assignments distinct
    (Rearranged.refl_all expressions) (List.reverse_perm expressions).symm) .nil))

end Manifest
