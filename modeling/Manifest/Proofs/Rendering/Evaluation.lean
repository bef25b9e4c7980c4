import Manifest.Proofs.Evaluation.Harvest
import Manifest.Proofs.Evaluation.Memory
import Manifest.Proofs.Rendering.Parsing

/-!
# The value of a rendering

The document of a tree uses no names of its surroundings.  A mapping asks for
each of its keys once, in its own frame, where the key still waits; so the
value of an expression that stands for a tree is the value of the tree.
-/

namespace Manifest

namespace Grammar

variable {tree : Tree} {operand : Expr} {expressions : List Expr}

/-- What stands for a tree is a literal or a block. -/
theorem Denotes.isFunction_eq (denotes : Denotes tree operand) : operand.isFunction = false := by
  cases denotes with
  | @leaf scalar _ literal => cases scalar <;> cases literal <;> rfl
  | sequence => rfl
  | mapping => rfl

/-- The keys of the assignments are those of the entries. -/
theorem DenotesEntries.key {entries : List (Key × Tree)}
    (denotes : DenotesEntries entries expressions) {key : String}
    (inside : .assignment key operand ∈ expressions) :
    key ∈ entries.map fun entry => entry.1.name := by
  induction entries generalizing expressions with
  | nil =>
    cases denotes
    cases inside
  | cons entry entries ih =>
    cases denotes with
    | cons first rest =>
      rcases List.mem_cons.mp inside with same | inside
      · cases same
        exact List.mem_cons_self
      · exact List.mem_cons_of_mem _ (ih rest inside)

end Grammar

namespace Evaluator

open Stepwise Grammar

variable {eval : Evaluator} {frame depth : Nat} {before memory : Memory} {found : Frame}
  {harvest : Harvest} {operand : Expr} {expressions : List Expr} {value : Value} {name : String}

/-- Wherever it is evaluated, an expression has a value, and evaluating it
touches no frame. -/
def Yields (eval : Evaluator) (expression : Expr) (value : Value) : Prop :=
  ∀ frame memory, ∃ after, eval expression frame memory = .ok value after ∧ memory.Grows after

/-! ## Sequences -/

theorem gather_yield (yields : eval.Yields operand value) (frame : Nat) (harvest : Harvest)
    (memory : Memory) :
    ∃ after, eval.gather frame harvest (.yield operand) memory =
      .ok { harvest with yields := harvest.yields ++ [value], trailing := none } after ∧
        memory.Grows after := by
  rcases yields frame memory with ⟨after, evaluated, grows⟩
  refine ⟨after, ?_, grows⟩
  rw [gather, bind_of_ok _ evaluated]
  rfl

theorem gatherAll_items {items : List Tree} (denotes : DenotesItems items expressions)
    (yields : ∀ tree ∈ items, ∀ {operand : Expr}, Denotes tree operand → operand.size ≤ depth →
      eval.Yields operand tree.value)
    (fits : Expr.sizeList expressions ≤ depth) (plain : harvest.trailing = none)
    (memory : Memory) :
    ∃ after, eval.gatherAll frame harvest expressions memory =
      .ok { harvest with yields := harvest.yields ++ Tree.values items } after ∧
        memory.Grows after := by
  induction items generalizing expressions harvest memory with
  | nil =>
    cases denotes
    refine ⟨memory, ?_, .refl memory⟩
    rw [gatherAll, Tree.values, List.append_nil]
    rfl
  | cons tree items ih =>
    cases denotes with
    | @cons _ _ operand expressions first rest =>
      rw [Expr.sizeList, Expr.size] at fits
      have evaluated := yields tree List.mem_cons_self first (by omega)
      rcases gather_yield evaluated frame harvest memory with ⟨middle, gathered, grows⟩
      rcases @ih { harvest with yields := harvest.yields ++ [tree.value], trailing := none } _
        rest (fun other inside => yields other (List.mem_cons_of_mem _ inside)) (by omega) rfl
        middle with ⟨after, others, further⟩
      refine ⟨after, ?_, grows.trans further⟩
      rw [gatherAll, bind_of_ok _ gathered, others, Tree.values, plain, List.append_assoc]
      rfl

/-! ## Mappings -/

/-- A name that waits is evaluated in its own frame.  The other names of the
frame keep waiting. -/
theorem force_pending (yields : eval.Yields operand value) (grows : before.Grows memory)
    (younger : before.frames.size ≤ frame) (stands : memory.frames[frame]? = some found)
    (holds : found.get? name = some (.pending operand)) :
    ∃ after last, eval.force name frame memory = .ok value after ∧ before.Grows after ∧
      after.frames[frame]? = some last ∧
        ∀ other, other ≠ name → last.get? other = found.get? other := by
  rcases yields frame (memory.setSlot frame name .resolving) with ⟨inner, evaluated, further⟩
  have inside : frame < (memory.setSlot frame name .resolving).frames.size := by
    rw [Memory.size_setSlot]
    exact (Array.getElem?_eq_some_iff.mp stands).1
  have still : inner.frames[frame]? = some (found.set name .resolving) := by
    rw [further.frames frame inside, Memory.getElem?_setSlot_self stands]
  have resolved : eval.resolve name frame memory =
      .ok (.value value) (inner.setSlot frame name (.ready value)) := by
    have attempted : Machine.attempt (eval operand frame)
        (memory.setSlot frame name .resolving) = .ok (.ok value) inner := by
      rw [Machine.attempt, evaluated]
    have got : (get : Machine Memory) memory = .ok memory memory := rfl
    rw [resolve, bind_of_ok _ got,
      Memory.owner?_of_get? stands holds]
    dsimp only
    rw [bind_of_ok _ (Machine.setSlot_eq memory frame name .resolving), bind_of_ok _ attempted]
    rfl
  refine ⟨_, _, ?_, ((grows.setSlot younger name .resolving).trans further).setSlot younger name
    (.ready value), Memory.getElem?_setSlot_self still, ?_⟩
  · rw [force, bind_of_ok _ resolved]
    rfl
  · intro other different
    rw [Frame.get?_set_of_ne _ different, Frame.get?_set_of_ne _ different]

/-- The names of a section wait for their operands. -/
theorem get?_slots {entries : List (Key × Tree)} (denotes : DenotesEntries entries expressions)
    (distinct : (entries.map fun entry => entry.1.name).Nodup) (found : Frame) :
    (∀ key operand, .assignment key operand ∈ expressions →
      (slots found expressions).get? key = some (.pending operand)) ∧
    ∀ other, other ∉ entries.map (fun entry => entry.1.name) →
      (slots found expressions).get? other = found.get? other := by
  induction entries generalizing expressions found with
  | nil =>
    cases denotes
    exact ⟨fun _ _ inside => absurd inside List.not_mem_nil, fun _ _ => rfl⟩
  | cons entry entries ih =>
    cases denotes with
    | @cons key tree _ operand expressions first rest =>
      rcases List.nodup_cons.mp distinct with ⟨fresh, distinct⟩
      have entered : slots found (.assignment key.name operand :: expressions) =
          slots (found.set key.name (.pending operand)) expressions := by
        have noFunction := first.isFunction_eq
        cases operand <;> first | rfl | cases noFunction
      rcases ih rest distinct (found.set key.name (.pending operand)) with ⟨waiting, others⟩
      rw [entered]
      constructor
      · intro other operand inside
        rcases List.mem_cons.mp inside with same | inside
        · cases same
          rw [others _ fresh, Frame.get?_set_self]
        · exact waiting other operand inside
      · intro other absent
        rw [others other (List.not_mem_of_not_mem_cons absent),
          Frame.get?_set_of_ne _ (List.ne_of_not_mem_cons absent)]

/-- An entry of a mapping adds a field.  Keys that are shown are not hidden. -/
theorem gather_assignment {key : Key} (noFunction : operand.isFunction = false)
    (yields : eval.Yields operand value) (grows : before.Grows memory)
    (younger : before.frames.size ≤ frame) (stands : memory.frames[frame]? = some found)
    (holds : found.get? key.name = some (.pending operand)) (harvest : Harvest) :
    ∃ after last, eval.gather frame harvest (.assignment key.name operand) memory =
        .ok { harvest with fields := Fields.insert harvest.fields key.name value, trailing := none }
          after ∧ before.Grows after ∧ after.frames[frame]? = some last ∧
        ∀ other, other ≠ key.name → last.get? other = found.get? other := by
  rcases force_pending yields grows younger stands holds with
    ⟨after, last, forced, further, still, others⟩
  refine ⟨after, last, ?_, further, still, others⟩
  have shown : isHidden key.name operand = false := by
    rw [isHidden, noFunction, Bool.or_false]
    exact beq_eq_false_iff_ne.mpr key.shown
  rw [gather, noFunction, if_neg Bool.false_ne_true, bind_of_ok _ forced, shown,
    if_neg Bool.false_ne_true]
  rfl

theorem gatherAll_entries {entries : List (Key × Tree)}
    (denotes : DenotesEntries entries expressions)
    (yields : ∀ entry ∈ entries, ∀ {operand : Expr}, Denotes entry.2 operand →
      operand.size ≤ depth → eval.Yields operand entry.2.value)
    (distinct : (entries.map fun entry => entry.1.name).Nodup)
    (fits : Expr.sizeList expressions ≤ depth) (grows : before.Grows memory)
    (younger : before.frames.size ≤ frame) (stands : memory.frames[frame]? = some found)
    (waiting : ∀ key operand, .assignment key operand ∈ expressions →
      found.get? key = some (.pending operand))
    (plain : harvest.trailing = none) :
    ∃ after, eval.gatherAll frame harvest expressions memory =
      .ok { harvest with fields := Tree.enter harvest.fields entries } after ∧
        before.Grows after := by
  induction entries generalizing expressions harvest memory found with
  | nil =>
    cases denotes
    exact ⟨memory, rfl, grows⟩
  | cons entry entries ih =>
    cases denotes with
    | @cons key tree _ operand expressions first rest =>
      rw [Expr.sizeList, Expr.size] at fits
      rcases List.nodup_cons.mp distinct with ⟨fresh, distinct⟩
      rcases gather_assignment first.isFunction_eq
        (yields _ List.mem_cons_self first (by omega)) grows younger stands
        (waiting _ _ List.mem_cons_self) harvest with
        ⟨middle, last, gathered, further, still, others⟩
      have waits : ∀ other operand, .assignment other operand ∈ expressions →
          last.get? other = some (.pending operand) := by
        intro other operand inside
        rw [others other, waiting other operand (List.mem_cons_of_mem _ inside)]
        rintro rfl
        exact fresh (rest.key inside)
      have plainNext : ({ harvest with
          fields := Fields.insert harvest.fields key.name tree.value, trailing := none } :
            Harvest).trailing = none := rfl
      rcases ih rest (fun other inside => yields other (List.mem_cons_of_mem _ inside)) distinct
        (by omega) further still waits plainNext with ⟨after, gatheredRest, grown⟩
      refine ⟨after, ?_, grown⟩
      rw [gatherAll, bind_of_ok _ gathered, gatheredRest, Tree.enter, plain]

/-! ## Blocks -/

/-- The memory in which a section is evaluated. -/
def enterSection (memory : Memory) (frame : Nat) (part : List Expr) : Memory :=
  { memory with frames := memory.frames.push (slots ⟨[], some frame⟩ part) }

theorem grows_enterSection (memory : Memory) (frame : Nat) (part : List Expr) :
    memory.Grows (enterSection memory frame part) := by
  refine ⟨fun index inside => ?_, rfl⟩
  rw [enterSection, Array.getElem?_push, if_neg (by omega)]

theorem getElem?_enterSection (memory : Memory) (frame : Nat) (part : List Expr) :
    (enterSection memory frame part).frames[memory.frames.size]? =
      some (slots ⟨[], some frame⟩ part) := by
  rw [enterSection, Array.getElem?_push, if_pos rfl]

/-- A block of one section has the value of the section. -/
theorem yields_block {scope : Nat} {part : List Expr}
    (gathers : ∀ (frame : Nat) (memory : Memory), ∃ harvest after,
      eval.gatherAll memory.frames.size .empty part (enterSection memory frame part) =
        .ok harvest after ∧ harvest.value = value ∧ memory.Grows after) :
    Yields (step eval) (.block [⟨scope, part⟩]) value := by
  intro frame memory
  rcases gathers frame memory with ⟨harvest, after, gathered, rfl, grows⟩
  refine ⟨after, ?_, grows⟩
  have evaluated : eval.sectionValue frame ⟨scope, part⟩ memory =
      .ok (harvest.value, memory.frames.size) after := by
    rw [sectionValue, bind_of_ok _ (Machine.openFrame_eq memory (slots ⟨[], some frame⟩ part))]
    exact bind_of_ok _ gathered
  rw [step, blockValue, bind_of_ok _ evaluated]
  rfl

/-- A block of one expression has the value of the expression. -/
theorem yields_only {scope : Nat} (yields : eval.Yields operand value)
    (noAssignment : operand.isAssignment = false) (noYield : operand.isYield = false) :
    Yields (step eval) (.block [⟨scope, [operand]⟩]) value := by
  refine yields_block fun frame memory => ?_
  rcases yields memory.frames.size (enterSection memory frame [operand]) with
    ⟨after, evaluated, grows⟩
  refine ⟨{ Harvest.empty with trailing := some value }, after, ?_, rfl,
    (grows_enterSection memory frame _).trans grows⟩
  have gathered : eval.gather memory.frames.size .empty operand
      (enterSection memory frame [operand]) =
        .ok { Harvest.empty with trailing := some value } after := by
    cases operand with
    | assignment => cases noAssignment
    | yield => cases noYield
    | _ => exact bind_of_ok _ evaluated
  rw [gatherAll, bind_of_ok _ gathered]
  rfl

/-- What stands for a tree has the value of the tree. -/
theorem yields_of_denotes {tree : Tree} (distinct : tree.DistinctKeys) {expression : Expr}
    {depth : Nat} (denotes : Denotes tree expression) (fits : expression.size ≤ depth) :
    (evaluate depth).Yields expression tree.value := by
  induction distinct generalizing expression depth with
  | leaf scalar =>
    cases denotes with
    | leaf literal =>
      cases depth with
      | zero => cases scalar <;> cases literal <;> cases fits
      | succ depth =>
        intro frame memory
        refine ⟨memory, ?_, .refl memory⟩
        cases scalar <;> cases literal <;> rfl
  | @sequence first rest _ _ yieldsFirst yieldsRest =>
    cases denotes with
    | @sequence _ _ scope expressions items =>
      cases depth with
      | zero => cases fits
      | succ depth =>
        have inner : Expr.sizeList expressions ≤ depth := by
          simp only [Expr.size, Expr.sizeSections, Expr.sizeSection] at fits
          omega
        have empty : Harvest.empty.trailing = none := rfl
        refine yields_block fun frame memory => ?_
        have yieldsAll : ∀ tree ∈ first :: rest, ∀ {operand : Expr}, Denotes tree operand →
            operand.size ≤ depth → (evaluate depth).Yields operand tree.value := by
          intro tree inside
          rcases List.mem_cons.mp inside with rfl | inside
          · exact yieldsFirst
          · exact yieldsRest tree inside
        rcases gatherAll_items items yieldsAll inner empty (enterSection memory frame expressions)
          with ⟨after, gathered, grows⟩
        exact ⟨_, after, gathered, rfl, (grows_enterSection memory frame _).trans grows⟩
  | @mapping key first rest keys _ _ yieldsFirst yieldsRest =>
    cases denotes with
    | @mapping _ _ _ scope expressions entries =>
      cases depth with
      | zero => cases fits
      | succ depth =>
        have inner : Expr.sizeList expressions ≤ depth := by
          simp only [Expr.size, Expr.sizeSections, Expr.sizeSection] at fits
          omega
        have empty : Harvest.empty.trailing = none := rfl
        refine yields_block fun frame memory => ?_
        rcases gatherAll_entries entries (fun entry inside => by
          rcases List.mem_cons.mp inside with rfl | inside
          · exact yieldsFirst
          · exact yieldsRest entry inside) keys inner
          (grows_enterSection memory frame expressions) (Nat.le_refl _)
          (getElem?_enterSection memory frame expressions)
          (get?_slots entries keys _).1 empty with ⟨after, gathered, grows⟩
        exact ⟨_, after, gathered, rfl, grows⟩

/-- The root of a document has the value of its tree. -/
theorem yields_root {tree : Tree} (distinct : tree.DistinctKeys) {block : Expr} {depth : Nat}
    (denotes : DenotesRoot tree block) (fits : block.size ≤ depth) :
    (evaluate depth).Yields block tree.value := by
  cases denotes with
  | mapping denotes => exact yields_of_denotes distinct denotes fits
  | @sequence scope block denotes =>
    cases depth with
    | zero => cases fits
    | succ depth =>
      have inner : block.size ≤ depth := by
        simp only [Expr.size, Expr.sizeSections, Expr.sizeSection, Expr.sizeList] at fits
        omega
      refine yields_only (yields_of_denotes distinct denotes inner) ?_ ?_ <;>
        cases denotes with
        | @leaf scalar _ literal => cases scalar <;> cases literal <;> rfl
        | sequence items => rfl
        | mapping entries => rfl

end Evaluator

/-- A program has the value of its block. -/
theorem Program.evaluate_of_yields {block : Expr} {scopes : Scopes} {value : Value}
    (yields : ∀ depth, (Manifest.evaluate (depth + block.size)).Yields block value)
    (bindings : Value.Bindings) :
    Program.evaluate ⟨⟨.scope 0 block, scopes⟩⟩ bindings = .ok value := by
  rcases yields 4000 0 (.ofBindings bindings) with ⟨after, evaluated, _⟩
  have depth : Program.depthFor (.scope 0 block) = 4000 + block.size + 1 := by
    rw [Program.depthFor, Expr.size]
    omega
  rw [Program.evaluate]
  dsimp only
  rw [depth, Manifest.evaluate, Evaluator.step, evaluated]

/-- A program that denotes a tree has the value of the tree. -/
theorem Program.evaluate_of_denotesRoot {tree : Tree} {block : Expr} {scopes : Scopes}
    (distinct : tree.DistinctKeys) (denotes : Grammar.DenotesRoot tree block)
    (bindings : Value.Bindings) :
    Program.evaluate ⟨⟨.scope 0 block, scopes⟩⟩ bindings = .ok tree.value :=
  evaluate_of_yields (fun depth => Evaluator.yields_root distinct denotes (Nat.le_add_left _ depth))
    bindings

end Manifest
