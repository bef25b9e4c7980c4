import Manifest.Compile
import Manifest.Proofs.Evaluation.Ending
import Manifest.Proofs.Evaluation.Needs

/-!
# Evaluation without functions ends

A document whose tokens have no arrow is evaluated to a depth of no more than
its size, whatever the bindings are: a greater depth changes nothing, and the
depth is never what the evaluation fails for.

What could keep an evaluation from ending is a name that is defined in terms of
itself.  If the names were evaluated anew whenever they are used, an evaluation
that meets such a name would never end, and these are exactly the evaluations
that fail with a cycle.  Whether there is such a name can be read off the
places that the document needs, through any chain of names, nested blocks and
sections.
-/

namespace Manifest

namespace Program

variable {program : Program} {bindings : Value.Bindings}

/-- A depth is enough for the evaluation of a program, and a greater one comes
to the same end. -/
def EndsWithin (program : Program) (bindings : Value.Bindings) (depth : Nat) : Prop :=
  (∀ after, Manifest.evaluate depth program.document.root 0 (.ofBindings bindings) ≠
      .error .exhausted after) ∧
    ∀ extra, Manifest.evaluate (depth + extra) program.document.root 0 (.ofBindings bindings) =
      Manifest.evaluate depth program.document.root 0 (.ofBindings bindings)

/-- The place of a whole program. -/
def place (program : Program) (bindings : Value.Bindings) : Site :=
  ([.ofBindings bindings], program.document.root)

/-- A place that the program needs, itself or through others, needs itself. -/
def Circular (program : Program) (bindings : Value.Bindings) : Prop :=
  ∃ place, Relation.ReflTransGen Site.Needs (program.place bindings) place ∧
    Relation.TransGen Site.Needs place place

theorem endsWithin_size (plain : program.document.root.FirstOrder) (bindings : Value.Bindings) :
    program.EndsWithin bindings program.document.root.size := by
  refine ⟨fun after cut => ?_, fun extra => (ends_of_size plain bindings extra).eq⟩
  have ends := ends_of_size plain bindings 0
  rw [Nat.add_zero, cut] at ends
  cases ends with
  | error genuine => exact genuine rfl

theorem firstOrder_place (plain : program.document.root.FirstOrder)
    (bindings : Value.Bindings) : (program.place bindings).FirstOrder :=
  ⟨Scene.every_ofBindings (fun _ _ => ⟨trivial, by rintro ⟨⟩⟩) bindings, plain⟩

/-- An evaluation fails with a cycle where its meaning would never be found. -/
theorem cycle_iff_never (plain : program.document.root.FirstOrder) :
    (∃ name, program.evaluate bindings = .error (.cycle name)) ↔
      ∀ depth, program.meaning bindings depth = .error .exhausted := by
  constructor
  · rintro ⟨name, failed⟩ depth
    have tracked := program.tracked bindings (depthFor program.document.root)
    rw [evaluate] at failed
    split at failed
    · cases failed
    · rename_i ran
      cases failed
      rw [ran] at tracked
      cases tracked with
      | error _ _ fails =>
        cases fails with
        | cycle name circle =>
          by_contra found
          exact not_regress (circle depth found)
        | @other _ enough _ means =>
          exact absurd means (Site.ne_cycle (firstOrder_place plain bindings) enough name)
  · intro never
    cases evaluated : program.evaluate bindings with
    | ok value =>
      rcases meaning_of_evaluate evaluated with ⟨depth, means⟩
      cases (never depth).symm.trans means
    | error failure =>
      by_cases circle : ∃ name, failure = .cycle name
      · rcases circle with ⟨name, rfl⟩
        exact ⟨name, rfl⟩
      · have genuine : failure ≠ .exhausted := by
          rintro rfl
          exact evaluate_ne_exhausted plain bindings evaluated
        rcases meaning_of_failed evaluated genuine (not_exists.mp circle) with ⟨depth, means⟩
        exact absurd (Except.error.inj (means.symm.trans (never depth))) genuine

/-- A program whose meaning is never found is circular. -/
theorem circular_of_never (plain : program.document.root.FirstOrder)
    (never : ∀ depth, program.meaning bindings depth = .error .exhausted) :
    program.Circular bindings := by
  by_contra straight
  let root := program.document.root
  let scene : Scene := [.ofBindings bindings]
  have placed : scene.Placed (root.places scene) :=
    Scene.every_ofBindings (fun _ _ => trivial) bindings
  have closed : ∀ other ∈ root.places scene, other.1.calls other.2 ⊆ root.places scene := by
    intro other member
    have within := root.within_of_mem (root.bare_of_firstOrder plain) placed
      (fun _ inner => inner) member
    exact within.placed.calls_subset within.within
  rcases Site.settled_of_no_circle (firstOrder_place plain bindings) closed
    (root.mem_places scene) fun other reached circle => straight ⟨other, reached, circle⟩ with
    ⟨depth, settled⟩
  exact settled (never depth)

/-- A circular program fails: with a cycle, or with another failure that is met
before the circle. -/
theorem failed_of_circular (plain : program.document.root.FirstOrder)
    (circular : program.Circular bindings) :
    ∃ failure, program.evaluate bindings = .error failure ∧
      ((∃ name, failure = .cycle name) ∨
        ∃ depth, program.meaning bindings depth = .error failure) := by
  rcases circular with ⟨place, reached, circle⟩
  cases evaluated : program.evaluate bindings with
  | ok value =>
    rcases meaning_of_evaluate evaluated with ⟨depth, means⟩
    exact absurd means
      (Site.not_found_of_reached (firstOrder_place plain bindings) reached circle depth value)
  | error failure =>
    refine ⟨failure, rfl, or_iff_not_imp_left.mpr fun straight => ?_⟩
    refine meaning_of_failed evaluated ?_ (not_exists.mp straight)
    rintro rfl
    exact evaluate_ne_exhausted plain bindings evaluated

end Program

/-- Evaluation of a document without arrows ends at a depth of no more than the
size of the document, and cuts off whatever depends on itself.  It fails with a
cycle exactly if it would not end without the memory of what is under way; then
the document is circular.  A circular document always fails, and unless it
fails with a cycle, its failure is met before the circle. -/
theorem evaluation_ends {tokens : List Token} {program : Program}
    (parsed : Document.ofTokens tokens = .ok program.document)
    (arrowless : ∀ token ∈ tokens, token.lexeme ≠ .arrow) (bindings : Value.Bindings) :
    program.EndsWithin bindings program.document.root.size ∧
      program.evaluate bindings ≠ .error .exhausted ∧
      ((∃ name, program.evaluate bindings = .error (.cycle name)) ↔
        ∀ depth, program.meaning bindings depth = .error .exhausted) ∧
      ((∃ name, program.evaluate bindings = .error (.cycle name)) →
        program.Circular bindings) ∧
      (program.Circular bindings →
        ∃ failure, program.evaluate bindings = .error failure ∧
          ((∃ name, failure = .cycle name) ∨
            ∃ depth, program.meaning bindings depth = .error failure)) := by
  have plain := Document.firstOrder parsed arrowless
  have never := @Program.cycle_iff_never program bindings plain
  exact ⟨Program.endsWithin_size plain bindings, Program.evaluate_ne_exhausted plain bindings,
    never, fun circle => Program.circular_of_never plain (never.mp circle),
    Program.failed_of_circular plain⟩

/-- A name depends on itself by way of a nested block. -/
theorem evaluation_ends_nested_circle :
    ∃ read document name, tokenize "a := b\nb:\n  c := a\n" = .ok read ∧
      Document.ofTokens read.tokens = .ok document ∧
      (∀ token ∈ read.tokens, token.lexeme ≠ .arrow) ∧
      (Program.mk document).evaluate [] = .error (.cycle name) ∧
      (∀ depth, (Program.mk document).meaning [] depth = .error .exhausted) ∧
      (Program.mk document).Circular [] := by
  have checked : ((tokenize "a := b\nb:\n  c := a\n").toOption.any fun read =>
      decide (∀ token ∈ read.tokens, token.lexeme ≠ .arrow) &&
        (Document.ofTokens read.tokens).toOption.any fun document =>
          match (Program.mk document).evaluate [] with
          | .error (.cycle _) => true
          | _ => false) = true := by
    decide +kernel
  rcases any_toOption checked with ⟨read, tokenized, checked⟩
  rw [Bool.and_eq_true, decide_eq_true_eq] at checked
  rcases checked with ⟨arrowless, checked⟩
  rcases any_toOption checked with ⟨document, parsed, checked⟩
  split at checked
  · rename_i name evaluated
    rcases @evaluation_ends read.tokens ⟨document⟩ parsed arrowless [] with
      ⟨_, _, never, circular, _⟩
    exact ⟨read, document, name, tokenized, parsed, arrowless, evaluated,
      never.mp ⟨name, evaluated⟩, circular ⟨name, evaluated⟩⟩
  · cases checked

end Manifest
