import Manifest.Proofs.Grammar.Markers
import Manifest.Proofs.Nesting
import Manifest.Proofs.ScopeTree

/-!
# Sections and their markers

The markers that stand directly in a block make its sections, and a document whose
markers stand in any other way is refused.  The definitions that names carry have
the blocks of functions that stand elsewhere in the document.
-/

namespace Manifest

open Grammar

/-! ## The blocks of definitions -/

namespace Grammar

variable {goal : Goal} {start finish : Point} {scopes after : Scopes} {result : Expr}
  {known : List (List (Section Expr))}

/-- What a goal goes on from is a part of what it reads. -/
theorem Derives.blocks_subset (derived : Derives goal start scopes result finish after) :
    goal.blocks ⊆ result.blocks := by
  rcases derived.tells with ⟨read, _, tells⟩
  have phrased : ∀ {earlier}, Phrased read earlier result.blocks → earlier ⊆ result.blocks := by
    intro earlier phrased
    rcases phrased.added with ⟨later, same, _⟩
    exact same ▸ List.subset_append_left _ _
  cases goal with
  | block => exact List.nil_subset _
  | sections =>
    rcases tells with ⟨_, parts, _, _, rfl, ⟨later, same, _⟩, _⟩
    refine List.Subset.trans ?_ (List.subset_cons_self parts (blocksOfSections parts))
    exact same ▸ List.subset_append_left _ _
  | _ => exact phrased tells

/-- Every block in an expression is known, with those of the definitions in it. -/
def BlocksFrom (known : List (List (Section Expr))) : Expr → Prop :=
  Expr.Every fun part => ∀ sections, part = .block sections → sections ∈ known

theorem BlocksFrom.of_children {whole : Expr} (plain : ∀ sections, whole ≠ .block sections)
    (children : ∀ child ∈ whole.children, BlocksFrom known child) : BlocksFrom known whole :=
  Expr.every_iff.mpr ⟨fun sections same => absurd same (plain sections), children⟩

theorem BlocksFrom.of_child {whole child : Expr} (plain : ∀ sections, whole ≠ .block sections)
    (only : whole.children = [child]) (from_ : BlocksFrom known child) : BlocksFrom known whole :=
  .of_children plain (only ▸ List.forall_mem_singleton.mpr from_)

theorem blocksFrom_reference (name : String) : BlocksFrom known (.reference name) :=
  .of_children (by rintro _ ⟨⟩) (by rintro _ ⟨⟩)

theorem blocksFrom_application {scope : Nat} (holds : Holds (BlocksFrom known) scopes)
    (name : String) {operands : List Expr}
    (given : ∀ operand ∈ operands, BlocksFrom known operand) :
    BlocksFrom known (.application name operands (definition scopes scope name)) := by
  refine .of_children (by simp) (List.forall_mem_append.mpr ⟨given, fun child carried => ?_⟩)
  rcases Option.map_eq_some_iff.mp (Option.mem_toList.mp carried) with ⟨lambda, found, rfl⟩
  exact (holds.definition found).child (List.mem_singleton.mpr rfl)

theorem blocksFrom_settle {stack : List Expr}
    (given : ∀ expression ∈ stack, BlocksFrom known expression)
    (settled : settle stack = some result) : BlocksFrom known result := by
  cases stack with
  | nil =>
    cases settled
    exact .of_children (by simp) (by simp [Expr.children])
  | cons expression stack =>
    cases stack with
    | nil =>
      cases settled
      exact given result List.mem_cons_self
    | cons second stack => cases settled

theorem blocksFrom_curried (names : List String) {body : Expr} (from_ : BlocksFrom known body) :
    BlocksFrom known (curried names body) := by
  induction names with
  | nil => exact from_
  | cons name names ih =>
    have plain : ∀ sections, curried (name :: names) body ≠ .block sections := fun _ => nofun
    exact .of_child plain rfl ih

/-- If the blocks of what is read are known, then those of its definitions are known
too, and those of what is entered into scopes. -/
theorem Derives.blocksFrom (derived : Derives goal start scopes result finish after)
    (inside : result.blocks ⊆ known) (given : goal.Given (BlocksFrom known))
    (holds : Holds (BlocksFrom known) scopes) :
    BlocksFrom known result ∧ Holds (BlocksFrom known) after := by
  induction derived with
  | block _ ih => exact ih inside ⟨by simp, by simp⟩ (holds.push _)
  | skip _ _ ih | lead _ ih => exact ih inside given holds
  | @divide _ finished part _ _ _ _ _ _ _ filled _ ih =>
    refine ih inside ⟨?_, by simp⟩ (holds.push _)
    exact List.forall_mem_append.mpr ⟨given.1, List.forall_mem_singleton.mpr ⟨filled, given.2⟩⟩
  | @state _ finished part _ expression _ _ _ _ _ _ _ _ later first second =>
    have whole : blocksOfSections (finished ++ [grown part expression]) ⊆ known :=
      List.Subset.trans later.blocks_subset inside
    rw [blocks_grown] at whole
    rcases first (List.Subset.trans (List.subset_append_right _ _) whole) trivial holds with
      ⟨from_, held⟩
    refine second inside ⟨given.1, ?_⟩ held
    exact List.forall_mem_append.mpr ⟨given.2, List.forall_mem_singleton.mpr from_⟩
  | closeBlock ended | closeDocument ended =>
    refine ⟨Expr.every_iff.mpr ⟨?_, fun child member => ?_⟩, holds⟩
    · rintro sections ⟨⟩
      exact inside List.mem_cons_self
    · rcases List.mem_flatMap.mp member with ⟨part, standing, member⟩
      rcases mem_closed ended standing with finished | ⟨rfl, _⟩
      · exact (given.1 part finished).2 child member
      · exact given.2 child member
  | nested _ ih | inner _ ih | named _ ih | plain _ _ ih | simple _ _ _ ih | grouped _ ih =>
    exact ih inside trivial holds
  | yielded _ _ ih | lifted _ ih | liftedOperand _ ih =>
    rcases ih inside trivial holds with ⟨from_, held⟩
    exact ⟨.of_child (by simp) rfl from_, held⟩
  | assigned _ ih =>
    rcases ih inside trivial holds with ⟨from_, held⟩
    refine ⟨.of_child (by simp) rfl from_, held.bind _ _ ?_⟩
    rintro operand ⟨⟩
    exact from_
  | chain _ ih | applied _ _ ih => exact ih inside (by simp [Goal.Given]) holds
  | finish _ settled | behindBlock _ settled => exact ⟨blocksFrom_settle given settled, holds⟩
  | @operator _ stack lexeme left right _ _ _ _ _ _ _ _ _ _ later first second =>
    have whole : blocksOfAll (Parser.combine lexeme left right :: stack).reverse ⊆ known :=
      List.Subset.trans later.blocks_subset inside
    rw [blocks_stack_cons, blocks_combine] at whole
    have behind : right.blocks ⊆ known := fun sections member =>
      whole (List.mem_append_right _ (List.mem_append_right _ member))
    rcases first behind trivial holds with ⟨from_, held⟩
    rcases List.forall_mem_cons.mp given with ⟨front, others⟩
    refine second inside (List.forall_mem_cons.mpr ⟨?_, others⟩) held
    refine .of_children (by cases lexeme <;> simp [Parser.combine]) ?_
    have children : (Parser.combine lexeme left right).children = [left, right] := by
      cases lexeme <;> rfl
    rw [children]
    exact List.forall_mem_cons.mpr ⟨front, List.forall_mem_singleton.mpr from_⟩
  | @arrow _ _ _ function _ _ _ _ _ _ _ _ _ _ later first second
  | @begin _ function _ _ _ _ _ _ _ _ _ later first second =>
    have whole : blocksOfAll [function] ⊆ known := List.Subset.trans later.blocks_subset inside
    rw [blocksOfAll_singleton] at whole
    rcases first whole trivial holds with ⟨from_, held⟩
    exact second inside (List.forall_mem_singleton.mpr from_) held
  | further _ _ ih => exact ih inside given holds
  | @literal _ lexeme _ _ _ _ reads =>
    refine ⟨.of_children ?_ ?_, holds⟩
    · cases lexeme <;> cases reads <;> simp
    · cases lexeme <;> cases reads <;> simp [Expr.children]
  | selected _ _ ih | selectedOperand _ _ ih =>
    exact ih inside (blocksFrom_reference _) holds
  | @more _ _ taken expression _ _ _ _ _ _ _ _ _ later first second =>
    have whole : blocksOfAll (taken ++ [expression]) ⊆ known :=
      List.Subset.trans later.blocks_subset inside
    rw [blocksOfAll_append, blocksOfAll_singleton] at whole
    rcases first (List.Subset.trans (List.subset_append_right _ _) whole) trivial holds with
      ⟨from_, held⟩
    refine second inside ?_ held
    exact List.forall_mem_append.mpr ⟨given, List.forall_mem_singleton.mpr from_⟩
  | enough => exact ⟨blocksFrom_application holds _ given, holds⟩
  | bareName => exact ⟨blocksFrom_application holds _ (by simp), holds⟩
  | field _ ih => exact ih inside (.of_child (by simp) rfl given) holds
  | reached => exact ⟨given, holds⟩
  | @body _ names body _ _ scopes _ _ ih =>
    rw [blocks_curried] at inside
    rcases ih inside trivial ((holds.push _).withParameters _ _) with ⟨from_, held⟩
    exact ⟨blocksFrom_curried names (.of_child (by simp) rfl from_), held⟩

end Grammar

/-! ## Documents -/

/-- The blocks of a document are those that its text opens, and everything in it has
no others. -/
theorem counted_of_parsed {tokens : List Token} {document : Document}
    (parsed : Document.ofTokens tokens = .ok document) :
    List.Forall₂ Counted (frontOf tokens :: blockTexts (frontOf tokens)) document.root.blocks ∧
      ∀ sections, document.Occurs (.block sections) → sections ∈ document.root.blocks := by
  rcases ofTokens_eq_ok_iff.mp parsed with ⟨_, block, finish, derived, root⟩
  have blocks : document.root.blocks = block.blocks := root ▸ rfl
  constructor
  · rcases derived.tells with ⟨_, split, front, rfl, readable, counted⟩
    rcases derived.closesDocument trivial with ⟨behind, closes⟩
    have split : tokens.map Token.lexeme = front ++ [] ++ finish.rest := split
    rw [List.append_nil, closes] at split
    rw [frontOf_eq split fun inside => nomatch readable.known _ inside]
    exact blocks ▸ counted
  · have known : BlocksFrom block.blocks block ∧ Holds (BlocksFrom block.blocks) document.scopes :=
      derived.blocksFrom (fun _ inside => inside) trivial (Holds.empty.push none)
    rintro sections (within | ⟨record, member, name, operand, entered, within⟩)
    · rw [root] at within
      rw [blocks]
      cases within with
      | deeper member inner =>
        cases List.mem_singleton.mp member
        exact known.1 _ inner sections rfl
    · rw [blocks]
      exact known.2 record member name operand entered _ within sections rfl

/-- In a document each block has the sections that the markers directly in its text
make, none of them empty, and a document is refused if the markers of some block
stand in any other way. -/
theorem markers_make_sections :
    (∀ (tokens : List Token) (document : Document), Document.ofTokens tokens = .ok document →
      List.Forall₂ (fun text sections => (∀ part ∈ sections, part.expressions ≠ []) ∧
          sections.length = sectionCount (essential text))
        (frontOf tokens :: blockTexts (frontOf tokens)) document.root.blocks ∧
      ∀ sections, document.Occurs (.block sections) → sections ∈ document.root.blocks) ∧
    ∀ tokens : List Token,
      (¬∀ text ∈ frontOf tokens :: blockTexts (frontOf tokens), Arranged (essential text)) →
      ∃ failure, Document.ofTokens tokens = .error failure := by
  constructor
  · intro tokens document parsed
    rcases counted_of_parsed parsed with ⟨counted, known⟩
    exact ⟨counted.imp fun _ _ divided => ⟨divided.filled, divided.counted⟩, known⟩
  · intro tokens other
    cases parsed : Document.ofTokens tokens with
    | error failure => exact ⟨failure, rfl⟩
    | ok document =>
      have divided : List.Forall₂
          (fun text sections => Arranged (essential text) ∧ Counted text sections) _ _ :=
        (counted_of_parsed parsed).1.imp fun _ _ divided => ⟨divided.arranged, divided⟩
      exact absurd ((List.forall₂_and_left _ _).mp divided).1 other

/-- A leading marker, a divided document, a divided block and a bare one, and next to
them a block whose last section is empty. -/
theorem markers_make_sections_nested :
    (∃ read document, tokenize "---\na:\n  b := 1\n  ---\n  c := 2\n---\nd:\n  ---\n" = .ok read ∧
      Document.ofTokens read.tokens = .ok document ∧
      (frontOf read.tokens :: blockTexts (frontOf read.tokens)).map
        (fun text => sectionCount (essential text)) = [2, 2, 0] ∧
      List.Forall₂ (fun text sections => (∀ part ∈ sections, part.expressions ≠ []) ∧
          sections.length = sectionCount (essential text))
        (frontOf read.tokens :: blockTexts (frontOf read.tokens)) document.root.blocks) ∧
    ∃ read failure, tokenize "a:\n  b := 1\n  ---\n" = .ok read ∧
      Document.ofTokens read.tokens = .error failure := by
  constructor
  · have checked :
        (tokenize "---\na:\n  b := 1\n  ---\n  c := 2\n---\nd:\n  ---\n").toOption.any
        (fun read => (Document.ofTokens read.tokens).toOption.any fun _ => decide (
          (frontOf read.tokens :: blockTexts (frontOf read.tokens)).map
            (fun text => sectionCount (essential text)) = [2, 2, 0])) = true := by
      decide +kernel
    rcases any_toOption checked with ⟨read, tokenized, checked⟩
    rcases any_toOption checked with ⟨document, parsed, checked⟩
    exact ⟨read, document, tokenized, parsed, of_decide_eq_true checked,
      (markers_make_sections.1 _ _ parsed).1⟩
  · have checked : (tokenize "a:\n  b := 1\n  ---\n").toOption.any
        (fun read : TokenizedSource => decide
          (¬∀ text ∈ frontOf read.tokens :: blockTexts (frontOf read.tokens),
            Arranged (essential text))) = true := by
      decide +kernel
    rcases any_toOption checked with ⟨read, tokenized, checked⟩
    rcases markers_make_sections.2 _ (of_decide_eq_true checked) with ⟨failure, refused⟩
    exact ⟨read, failure, tokenized, refused⟩

end Manifest
