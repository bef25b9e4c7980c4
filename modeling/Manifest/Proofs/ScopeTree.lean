import Manifest.Compile
import Manifest.Proofs.Grammar.Records

/-!
# The tree of scopes

The scopes of a document are those of its sections and of the bodies of its
functions, and one around everything.  Each of them stands in the scope that is
around it in the text, and has the names that the text gives it there.
-/

namespace Manifest

open Grammar

/-- The scopes that an expression has itself, apart from those of its parts. -/
def Expr.ownScopeIds : Expr → List Nat
  | .scope id _ => [id]
  | .block sections => sections.map Section.scope
  | _ => []

/-- An expression occurs in a document: in its text, where names carry their
definitions, or in what a name of a scope stands for. -/
def Document.Occurs (document : Document) (part : Expr) : Prop :=
  Expr.Within part document.root ∨
    ∃ record ∈ document.scopes.records, ∃ name operand,
      (name, Binding.expression operand) ∈ record.symbols ∧ Expr.Within part operand

/-! ## Parts stand in open scopes -/

variable {scopes : Scopes} {around : Nat} {names : List String} {whole child : Expr}

/-- An expression stands in a scope, or is the body of a function there. -/
def StandsOrBody (scopes : Scopes) (expression : Expr) : Prop :=
  ∃ around, expression.StandsIn scopes around ∨ ∃ names, expression.IsBody scopes around names

theorem standsIn_of_mem {sections : List (Section Expr)} {part : Section Expr}
    (stand : BlockStandsIn scopes around sections) (member : part ∈ sections) :
    ∃ outer, part.StandsIn scopes outer := by
  have further : ∀ {outer : Nat} {sections : List (Section Expr)},
      SectionsStandIn scopes outer sections → part ∈ sections → part.StandsIn scopes outer := by
    intro outer sections stand member
    induction sections with
    | nil => cases member
    | cons first later ih =>
      rcases List.mem_cons.mp member with rfl | behind
      · exact stand.1
      · exact ih stand.2 behind
  cases sections with
  | nil => cases member
  | cons first later =>
    rcases List.mem_cons.mp member with rfl | behind
    · exact ⟨_, stand.1⟩
    · exact ⟨_, further stand.2 behind⟩

theorem Section.StandsIn.lt_size {part : Section Expr} (stands : part.StandsIn scopes around) :
    part.scope < scopes.size := by
  cases part
  exact Scopes.lt_size_of_get? stands.1

theorem standsOrBody_child (stands : StandsOrBody scopes whole) (member : child ∈ whole.children) :
    StandsOrBody scopes child := by
  have among : ∀ {scope : Nat} {expressions : List Expr}, AllStandIn scopes scope expressions →
      child ∈ expressions → StandsOrBody scopes child := fun stand inside =>
    ⟨_, .inl (allStandIn_iff.mp stand child inside)⟩
  have single : ∀ {scope : Nat} {expression : Expr}, expression.StandsIn scopes scope →
      child ∈ [expression] → StandsOrBody scopes child := fun stand inside =>
    ⟨_, .inl (List.mem_singleton.mp inside ▸ stand)⟩
  rcases stands with ⟨around, stands | ⟨names, body⟩⟩
  · cases whole with
    | unit | scalar => cases member
    | vector items => exact among stands member
    | assignment | lift | yield | access =>
      cases List.mem_singleton.mp member
      exact ⟨around, .inl stands⟩
    | application name operands definition =>
      rcases List.mem_append.mp member with operand | carried
      · exact among stands.2 operand
      · cases definition with
        | none => cases carried
        | some lambda =>
          rcases stands.1 with ⟨home, defined⟩
          cases lambda
          cases List.mem_singleton.mp carried
          exact ⟨home, .inr ⟨_, defined⟩⟩
    | function lambda =>
      cases lambda
      cases List.mem_singleton.mp member
      exact ⟨around, .inr ⟨_, stands⟩⟩
    | merge | pipeline | patternMatch =>
      rcases List.mem_cons.mp member with rfl | other
      · exact ⟨around, .inl stands.1⟩
      · exact single stands.2 other
    | block sections =>
      rcases List.mem_flatMap.mp member with ⟨part, inside, found⟩
      rcases standsIn_of_mem stands inside with ⟨outer, standing⟩
      cases part
      exact among standing.2 found
    | scope => exact stands.elim
  · cases whole with
    | function lambda =>
      cases lambda
      cases List.mem_singleton.mp member
      exact ⟨around, .inr ⟨_, body⟩⟩
    | scope => exact single body.2 member
    | _ => exact body.elim

theorem ownScopeIds_lt (stands : StandsOrBody scopes whole) :
    ∀ id ∈ whole.ownScopeIds, id < scopes.size := by
  intro id member
  rcases stands with ⟨around, stands | ⟨names, body⟩⟩
  · cases whole with
    | block sections =>
      rcases List.mem_map.mp member with ⟨part, inside, rfl⟩
      rcases standsIn_of_mem stands inside with ⟨outer, standing⟩
      exact standing.lt_size
    | scope => exact stands.elim
    | _ => cases member
  · cases whole with
    | scope own operand =>
      cases List.mem_singleton.mp member
      exact Scopes.lt_size_of_get? body.1
    | function => cases member
    | _ => exact body.elim

theorem ownScopeIds_lt_of_within {part : Expr} (within : Expr.Within part whole)
    (stands : StandsOrBody scopes whole) : ∀ id ∈ part.ownScopeIds, id < scopes.size := by
  induction within with
  | self => exact ownScopeIds_lt stands
  | deeper member _ ih => exact ih (standsOrBody_child stands member)

/-! ## Documents -/

/-- A block is read as sections. -/
theorem Grammar.Derives.exists_sections {goal : Goal} {start finish : Point} {after : Scopes}
    {result : Expr} (derived : Derives goal start scopes result finish after)
    (sections : (∃ parent stop, goal = .block parent stop) ∨
      ∃ stop finished part leading, goal = .sections stop finished part leading) :
    ∃ parts, result = .block parts := by
  induction derived with
  | block _ ih | skip _ _ ih | lead _ ih | divide _ _ ih | state _ _ _ ih =>
    exact ih (.inr ⟨_, _, _, _, rfl⟩)
  | closeBlock | closeDocument => exact ⟨_, rfl⟩
  | _ => rcases sections with ⟨_, _, same⟩ | ⟨_, _, _, _, same⟩ <;> cases same

/-- The scopes of a document mirror its text.  All that occur have a record, and
each is younger than the one around it.  The sections and the function bodies in
the text have different scopes.  The record of a section has its assignments, that
of a body its parameters; the first section of a block stands in the scope around
the block, and the later ones in that of the first. -/
theorem scopes_mirror_text {tokens : List Token} {document : Document}
    (parsed : Document.ofTokens tokens = .ok document) :
    (∀ part, document.Occurs part → ∀ id ∈ part.ownScopeIds, id < document.scopes.size) ∧
      document.scopes.Older ∧ document.root.scopeIds.Nodup ∧
      ∃ sections, document.root = .scope 0 (.block sections) ∧
        document.scopes.get? 0 = some ⟨none, []⟩ ∧ BlockStandsIn document.scopes 0 sections := by
  rcases (ofTokens_eq_ok_iff.mp parsed).2 with ⟨block, finish, derived, root⟩
  rcases derived.exists_sections (.inl ⟨_, _, rfl⟩) with ⟨sections, rfl⟩
  have opened : (Scopes.empty.push none).2.size = 1 := rfl
  have inside : (Goal.block 0 .endOfInput).Inside (Scopes.empty.push none).2 := Nat.one_pos
  have outermost : document.scopes.get? 0 = some ⟨none, []⟩ :=
    derived.retains_scopes.get?_eq 0 Nat.one_pos (by rintro ⟨⟩)
  have agrees : Agrees document.scopes (Scopes.empty.push none).2.size document.scopes :=
    fun _ _ _ => rfl
  rcases derived.places inside (Holds.empty.push none) agrees with ⟨stands, holds⟩
  have whole : StandsOrBody document.scopes (.block sections) := ⟨0, .inl stands⟩
  refine ⟨?_, derived.older inside ?_, ?_, sections, root, outermost, stands⟩
  · rintro part (within | ⟨record, member, name, operand, entered, within⟩)
    · rw [root] at within
      cases within with
      | self => exact List.forall_mem_singleton.mpr (Scopes.lt_size_of_get? outermost)
      | deeper member inner =>
        cases List.mem_singleton.mp member
        exact ownScopeIds_lt_of_within inner whole
    · rcases holds record member name operand entered with ⟨around, placed⟩
      exact ownScopeIds_lt_of_within within ⟨around, .inl placed⟩
  · intro id record parent found named
    have first := Scopes.lt_size_of_get? found
    rw [opened] at first
    cases Nat.lt_one_iff.mp first
    cases found
    cases named
  · have numbered := derived.numbers (Nat.le_refl _) (.nil _ _)
    rw [root]
    exact ((Ascending.singleton 0).append numbered (Nat.zero_le 1) derived.size_le).nodup

/-- Two functions, a nested block and a second section. -/
theorem scopes_mirror_text_two_sections :
    ∃ read document, tokenize "f := x y -> x + y\na:\n  b := f 1 2\n---\nc := f (z -> z)\n" =
        .ok read ∧ Document.ofTokens read.tokens = .ok document ∧
      document.root.scopeIds = [0, 1, 2, 3, 4, 5] ∧ document.root.scopeIds.Nodup ∧
      document.scopes.records.toList.map (fun record => record.parent) =
        [none, some 0, some 1, some 1, some 1, some 4] ∧ document.scopes.Older ∧
      document.scopes.records.toList.map (fun record => record.symbols.map Prod.fst) =
        [[], ["f", "a"], ["x", "y"], ["b"], ["c"], ["z"]] ∧
      ∃ sections, document.root = .scope 0 (.block sections) ∧
        BlockStandsIn document.scopes 0 sections := by
  have checked :
      (tokenize "f := x y -> x + y\na:\n  b := f 1 2\n---\nc := f (z -> z)\n").toOption.any
      (fun read => (Document.ofTokens read.tokens).toOption.any fun document => decide (
        document.root.scopeIds = [0, 1, 2, 3, 4, 5] ∧
        document.scopes.records.toList.map (fun record => record.parent) =
          [none, some 0, some 1, some 1, some 1, some 4] ∧
        document.scopes.records.toList.map (fun record => record.symbols.map Prod.fst) =
          [[], ["f", "a"], ["x", "y"], ["b"], ["c"], ["z"]])) = true := by
    decide +kernel
  rcases any_toOption checked with ⟨read, tokenized, checked⟩
  rcases any_toOption checked with ⟨document, parsed, checked⟩
  rcases of_decide_eq_true checked with ⟨ids, parents, symbols⟩
  rcases scopes_mirror_text parsed with ⟨_, older, distinct, sections, root, _, stand⟩
  exact ⟨read, document, tokenized, parsed, ids, distinct, parents, older, symbols, sections, root,
    stand⟩

end Manifest
