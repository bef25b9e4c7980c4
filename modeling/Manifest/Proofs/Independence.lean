import Mathlib.Data.List.Forall2
import Manifest.Compile
import Manifest.Proofs.Evaluation.Depth
import Manifest.Proofs.Evaluation.Lockstep

/-!
# Sections that do not meet

The later sections of a document stand inside the first one, and evaluation
takes all of them through one memory: what one section asks of the first is
kept there for the next, and so are its frames.  None of this shows in a value.
A document has the values of its sections exactly when each later section has
its value in the document that is left with the first section and that one.

What a document evaluates to is what it means without its definitions, and a
meaning takes no memory.  Definitions matter to neither side, because every
name that carries one is bound on the way to it, in the first section or in the
later section itself.
-/

namespace Manifest

theorem Below.eq_ok {α : Type} {outcome further : Except EvalError α} {result : α}
    (below : Below outcome further) (found : outcome = .ok result) : further = .ok result := by
  rw [below.eq_of_ne (by rw [found]; rintro ⟨⟩), found]

/-! ## Sections with a meaning -/

namespace Meaning

variable {scene : Scene} {front : Section Expr} {rest sections : List (Section Expr)}
  {first value : Value} {values : List Value}

/-- Sections around which the same names stand mean one thing each. -/
theorem exists_sectionValues_iff :
    (∃ depth, (meaning depth).sectionValues scene sections = .ok values) ↔
      List.Forall₂ (fun part value => ∃ depth, (meaning depth).sectionValue scene part = .ok value)
        sections values := by
  induction sections generalizing values with
  | nil =>
    rw [List.forall₂_nil_left_iff]
    constructor
    · rintro ⟨depth, found⟩
      cases found
      rfl
    · rintro rfl
      exact ⟨0, rfl⟩
  | cons part rest ih =>
    rw [List.forall₂_cons_left_iff]
    constructor
    · rintro ⟨depth, found⟩
      rcases outcome_bind_eq_ok.mp found with ⟨value, own, found⟩
      rcases outcome_bind_eq_ok.mp found with ⟨others, behind, same⟩
      cases same
      exact ⟨value, others, ⟨depth, own⟩, ih.mp ⟨depth, behind⟩, rfl⟩
    · rintro ⟨value, others, ⟨depth, own⟩, behind, rfl⟩
      rcases ih.mpr behind with ⟨further, behind⟩
      have own := ((meaning_grows (Nat.le_max_left depth further)).sectionValue _ _).eq_ok own
      have behind :=
        ((meaning_grows (Nat.le_max_right depth further)).sectionValues _ _).eq_ok behind
      exact ⟨_, outcome_bind_eq_ok.mpr ⟨value, own, outcome_bind_eq_ok.mpr ⟨others, behind, rfl⟩⟩⟩

/-- A block of several sections means what its first section means and what the
others mean inside of it. -/
theorem exists_block_iff (several : rest ≠ []) {id : Nat} :
    (∃ depth, meaning depth scene (.scope id (.block (front :: rest))) =
        .ok (.sequence (first :: values))) ↔
      (∃ depth, (meaning depth).sectionValue scene front = .ok first) ∧
        List.Forall₂ (fun part value =>
          ∃ depth, (meaning depth).sectionValue (inside scene front) part = .ok value)
          rest values := by
  rw [← exists_sectionValues_iff]
  constructor
  · rintro ⟨depth, found⟩
    rcases depth with _ | _ | depth
    · cases found
    · cases found
    · rw [meaning, meaning, step, step, blockValue_of_several _ several] at found
      rcases outcome_bind_eq_ok.mp found with ⟨value, own, found⟩
      rcases outcome_bind_eq_ok.mp found with ⟨others, behind, same⟩
      cases same
      exact ⟨⟨depth, own⟩, depth, behind⟩
  · rintro ⟨⟨depth, own⟩, further, behind⟩
    have own := ((meaning_grows (Nat.le_max_left depth further)).sectionValue _ _).eq_ok own
    have behind :=
      ((meaning_grows (Nat.le_max_right depth further)).sectionValues _ _).eq_ok behind
    refine ⟨max depth further + 2, ?_⟩
    rw [meaning, meaning, step, step, blockValue_of_several _ several]
    exact outcome_bind_eq_ok.mpr ⟨first, own, outcome_bind_eq_ok.mpr ⟨values, behind, rfl⟩⟩

end Meaning

/-! ## Programs -/

namespace Program

variable {program : Program} {bindings : Value.Bindings} {value : Value}

/-- A program whose definitions all come from the text around them evaluates to
what it means without them. -/
theorem evaluate_eq_ok_iff (anchored : program.document.root.Anchored []) :
    program.evaluate bindings = .ok value ↔
      ∃ depth, program.bare.meaning bindings depth = .ok value := by
  constructor
  · intro evaluated
    rcases meaning_of_evaluate evaluated with ⟨depth, means⟩
    exact ⟨depth, transfers_meaning depth (Scene.every_ofBindings (fun _ _ => trivial) bindings)
      (.cons (.ofBindings bindings) .nil) (Rearranged.bare _ (.refl _))
      (Expr.Anchored.mono _ (List.nil_subset _) anchored) means⟩
  · rintro ⟨depth, means⟩
    have shallow := meaning_of_size program.document.root.bare_bare means
    have reached : program.bare.evaluate bindings = .ok value :=
      evaluate_of_meaning shallow (by rintro ⟨⟩) (Nat.le_add_right _ 4000)
    rcases program.evaluate_bare bindings with same | ⟨name, lost⟩
    · exact same.symm.trans reached
    · cases reached.symm.trans lost

end Program

theorem bareSections_eq (sections : List (Section Expr)) :
    bareSections sections = sections.map Section.bare := by
  induction sections with
  | nil => rfl
  | cons part rest ih => exact congrArg (part.bare :: ·) ih

theorem anchoredSections_iff {known : List String} {sections : List (Section Expr)} :
    AnchoredSections known sections ↔ ∀ part ∈ sections, part.Anchored known := by
  induction sections with
  | nil => exact ⟨fun _ _ none => absurd none List.not_mem_nil, fun _ => trivial⟩
  | cons part rest ih =>
    rw [List.forall_mem_cons, ← ih]
    exact Iff.rfl

/-- The document with other sections. -/
def Document.withSections (document : Document) (id : Nat) (sections : List (Section Expr)) :
    Document :=
  { document with root := .scope id (.block sections) }

/-- What a document of several sections evaluates to, section by section. -/
theorem evaluate_withSections_iff {front : Section Expr} {rest : List (Section Expr)}
    (anchored : AnchoredBlock [] (front :: rest)) (several : rest ≠ []) (document : Document)
    (id : Nat) (bindings : Value.Bindings) (first : Value) (values : List Value) :
    (Program.mk (document.withSections id (front :: rest))).evaluate bindings =
        .ok (.sequence (first :: values)) ↔
      (∃ depth, (meaning depth).sectionValue [.ofBindings bindings] front.bare = .ok first) ∧
        List.Forall₂ (fun part value => ∃ depth, (meaning depth).sectionValue
          (Meaning.inside [.ofBindings bindings] front.bare) part.bare = .ok value)
          rest values := by
  have left : bareSections rest ≠ [] := by
    rw [bareSections_eq]
    exact fun none => several (List.map_eq_nil_iff.mp none)
  refine (@Program.evaluate_eq_ok_iff ⟨document.withSections id (front :: rest)⟩ bindings _
    anchored).trans ?_
  refine (Meaning.exists_block_iff left).trans (and_congr_right fun _ => ?_)
  rw [bareSections_eq, List.forall₂_map_left_iff]

/-- The later sections of a parsed document are independent of one another.
The document evaluates to the values of its sections exactly when, for each
later section, the first section and that one evaluate to their values. -/
theorem evaluate_sections_iff {tokens : List Token} {document : Document}
    (parsed : Document.ofTokens tokens = .ok document) {id : Nat} {front : Section Expr}
    {rest : List (Section Expr)} (root : document.root = .scope id (.block (front :: rest)))
    (several : rest ≠ []) (bindings : Value.Bindings) (first : Value) (values : List Value) :
    (Program.mk document).evaluate bindings = .ok (.sequence (first :: values)) ↔
      List.Forall₂ (fun part value =>
        (Program.mk (document.withSections id [front, part])).evaluate bindings =
          .ok (.sequence [first, value])) rest values := by
  have anchored : AnchoredBlock [] (front :: rest) := by
    have known := Document.anchored parsed
    rwa [root] at known
  have same : document.withSections id (front :: rest) = document := by
    rw [Document.withSections, ← root]
  have whole := evaluate_withSections_iff anchored several document id bindings first values
  rw [same] at whole
  rcases anchored with ⟨own, others⟩
  have pair (part : Section Expr) (known : part.Anchored _) (value : Value) :=
    @evaluate_withSections_iff front [part] ⟨own, known, trivial⟩ (List.cons_ne_nil part [])
      document id bindings first [value]
  simp only [List.forall₂_cons, List.forall₂_nil_right_iff, and_true] at pair
  have known := anchoredSections_iff.mp others
  rcases List.exists_mem_of_ne_nil rest several with ⟨second, inside⟩
  rw [whole]
  constructor
  · rintro ⟨begins, behind⟩
    refine ((List.forall₂_and_left _ _).mpr ⟨known, behind⟩).imp fun part value ⟨known, means⟩ => ?_
    exact (pair part known value).mpr ⟨begins, means⟩
  · intro pairs
    have split := ((List.forall₂_and_left _ _).mpr ⟨known, pairs⟩).imp
      fun part value ⟨known, both⟩ => (pair part known value).mp both
    rcases (List.forall₂_and_left _ _).mp split with ⟨begins, behind⟩
    exact ⟨begins second inside, behind⟩

/-- The three sections of a document that has as many. -/
def Expr.threeSections? : Expr → Option (Nat × Section Expr × Section Expr × Section Expr)
  | .scope id (.block [front, second, third]) => some (id, front, second, third)
  | _ => none

theorem Expr.threeSections?_eq_some {root : Expr} {id : Nat} {front second third : Section Expr}
    (found : root.threeSections? = some (id, front, second, third)) :
    root = .scope id (.block [front, second, third]) := by
  unfold threeSections? at found
  split at found
  · cases found
    rfl
  · cases found

/-- Two later sections that use a name and a function of the first one. -/
theorem evaluate_sections_three :
    ∃ read document id front second third,
      tokenize "a := b\nf := x -> a\n---\nc := f 1\n---\nd := a\n" = .ok read ∧
      Document.ofTokens read.tokens = .ok document ∧
      document.root = .scope id (.block [front, second, third]) ∧
      (Program.mk document).evaluate [("b", .text "v")] = .ok (.sequence
        [.mapping [("a", .text "v")], .mapping [("c", .text "v")], .mapping [("d", .text "v")]]) ∧
      (Program.mk (document.withSections id [front, second])).evaluate [("b", .text "v")] =
        .ok (.sequence [.mapping [("a", .text "v")], .mapping [("c", .text "v")]]) ∧
      (Program.mk (document.withSections id [front, third])).evaluate [("b", .text "v")] =
        .ok (.sequence [.mapping [("a", .text "v")], .mapping [("d", .text "v")]]) := by
  have checked : ((tokenize "a := b\nf := x -> a\n---\nc := f 1\n---\nd := a\n").toOption.any
      fun read => (Document.ofTokens read.tokens).toOption.any fun document =>
        document.root.threeSections?.any fun _ =>
          ((Program.mk document).evaluate [("b", .text "v")]).toOption.any fun value =>
            decide (value = .sequence [.mapping [("a", .text "v")], .mapping [("c", .text "v")],
              .mapping [("d", .text "v")]])) = true := by
    decide +kernel
  rcases any_toOption checked with ⟨read, tokenized, checked⟩
  rcases any_toOption checked with ⟨document, parsed, checked⟩
  rcases (Option.any_eq_true _ _).mp checked with ⟨⟨id, front, second, third⟩, three, checked⟩
  rcases any_toOption checked with ⟨value, evaluated, same⟩
  cases of_decide_eq_true same
  have root := Expr.threeSections?_eq_some three
  have pairs := (evaluate_sections_iff parsed root (List.cons_ne_nil _ _) [("b", .text "v")] _
    _).mp evaluated
  rcases List.forall₂_cons.mp pairs with ⟨begins, rest⟩
  rcases List.forall₂_cons.mp rest with ⟨ends, _⟩
  exact ⟨read, document, id, front, second, third, tokenized, parsed, root, evaluated, begins, ends⟩

end Manifest
