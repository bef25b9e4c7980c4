import Manifest.Proofs.Evaluation.Adequacy
import Manifest.Proofs.Evaluation.Load

/-!
# Evaluations that end

An evaluation without functions needs no more depth than the size of its
expression and the load of its frame.  Where a name is looked up, the evaluation
leaves its expression behind and goes on with an operand somewhere outside, of
any size; but the load has counted that operand, and does not count it while it
is evaluated.  With a greater depth the evaluation is the same, step by step.
-/

namespace Manifest

open Stepwise

/-! ## Ends -/

/-- Two runs come to the same end, which is not that their depth is used up.
With a value the memory is no heavier, and the value has a property. -/
inductive Ends {α : Type} (before : Memory) (holds : α → Memory → Prop) :
    EStateM.Result EvalError Memory α → EStateM.Result EvalError Memory α → Prop
  | ok {result : α} {after : Memory} : before.Lightens after → holds result after →
      Ends before holds (.ok result after) (.ok result after)
  | error {failure : EvalError} {after : Memory} : failure ≠ .exhausted →
      Ends before holds (.error failure after) (.error failure after)

/-- Nothing more is known of a result. -/
def Anything {α : Type} (_ : α) (_ : Memory) : Prop := True

namespace Ends

variable {α β : Type} {before : Memory} {holds : α → Memory → Prop} {first other : Machine α}
  {next more : α → Machine β} {after : β → Memory → Prop}

theorem pure {value : α} (held : holds value before) :
    Ends before holds ((Pure.pure value : Machine α) before)
      ((Pure.pure value : Machine α) before) :=
  .ok (.refl before) held

theorem throw {failure : EvalError} (genuine : failure ≠ .exhausted) :
    Ends before holds ((MonadExcept.throw failure : Machine α) before)
      ((MonadExcept.throw failure : Machine α) before) :=
  .error genuine

theorem of_settled {step : Machine Value} (settled : step.Settled) :
    Ends before Anything (step before) (step before) := by
  cases settled with
  | ok value known =>
    rw [known]
    exact .ok (.refl before) trivial
  | error failure genuine known =>
    rw [known]
    exact .error genuine

/-- What ends behind a memory that is no heavier ends behind the heavier one. -/
theorem behind {middle : Memory} (lightens : before.Lightens middle)
    {run further : EStateM.Result EvalError Memory α} (ends : Ends middle holds run further) :
    Ends before holds run further := by
  cases ends with
  | ok lighter held => exact .ok (lightens.trans lighter) held
  | error genuine => exact .error genuine

/-- One step behind the other. -/
theorem bind (front : Ends before holds (first before) (other before))
    (behind : ∀ result middle, before.Lightens middle → holds result middle →
      Ends middle after (next result middle) (more result middle)) :
    Ends before after ((first >>= next) before) ((other >>= more) before) := by
  simp only [Bind.bind, EStateM.bind]
  generalize first before = run at front
  generalize other before = further at front
  cases front with
  | ok lightens held => exact (behind _ _ lightens held).behind lightens
  | error genuine => exact .error genuine

theorem eq {run further : EStateM.Result EvalError Memory α}
    (ends : Ends before holds run further) : further = run := by
  cases ends <;> rfl

end Ends

/-! ## Evaluators with enough depth -/

/-- No functions are in memory, and the frame costs no more than a depth, with
something else that is to be evaluated. -/
structure Memory.Fits (memory : Memory) (frame cost depth : Nat) : Prop where
  firstOrder : memory.FirstOrder
  inside : frame < memory.frames.size
  load_le : cost + memory.load frame ≤ depth

namespace Memory.Fits

variable {before after : Memory} {frame cost least depth : Nat}

theorem less (fits : before.Fits frame cost depth) (le : least ≤ cost) :
    before.Fits frame least depth :=
  ⟨fits.firstOrder, fits.inside, Nat.le_trans (Nat.add_le_add_right le _) fits.load_le⟩

theorem later (fits : before.Fits frame cost depth) (lightens : before.Lightens after) :
    after.Fits frame cost depth :=
  ⟨lightens.firstOrder fits.firstOrder, lightens.lt_size fits.inside,
    Nat.le_trans (Nat.add_le_add_left (lightens.load_le frame fits.inside) _) fits.load_le⟩

end Memory.Fits

/-- Two evaluators end in the same way wherever a depth is enough. -/
def Sparing (eval more : Evaluator) (depth : Nat) : Prop :=
  ∀ {expression : Expr} {frame : Nat} {before : Memory}, expression.FirstOrder →
    before.Fits frame expression.size depth →
    Ends before Anything (eval expression frame before) (more expression frame before)

variable {eval more : Evaluator} {depth frame : Nat} {before : Memory}

namespace Sparing

variable (sparing : Sparing eval more depth)

include sparing

/-! ## Names -/

/-- A name is evaluated with the depth that it has been counted for. -/
theorem pending {name : String} {owner : Nat} {operand : Expr}
    (fits : before.Fits owner 0 depth)
    (holds : before.slot? owner name = some (.pending operand)) :
    Ends before (fun resolved _ => ∃ value, resolved = .value value)
      ((do
        Machine.setSlot owner name .resolving
        match ← Machine.attempt (eval operand owner) with
        | .ok value => Machine.setSlot owner name (.ready value); return Resolved.value value
        | .error failure => Machine.setSlot owner name (.pending operand); throw failure) before)
      ((do
        Machine.setSlot owner name .resolving
        match ← Machine.attempt (more operand owner) with
        | .ok value => Machine.setSlot owner name (.ready value); return Resolved.value value
        | .error failure => Machine.setSlot owner name (.pending operand); throw failure)
        before) := by
  have frozen : before.Lightens (before.setSlot owner name .resolving) := .setSlot rfl trivial
  have paid := before.load_setSlot_self holds .resolving
  have inner : (before.setSlot owner name .resolving).Fits owner operand.size depth := by
    refine ⟨frozen.firstOrder fits.firstOrder, frozen.lt_size fits.inside, ?_⟩
    have least := fits.load_le
    simp only [Slot.weight] at paid
    omega
  have ends := sparing (fits.firstOrder owner name _ holds) inner
  rw [bind_of_ok _ (Machine.setSlot_eq _ _ _ _), bind_of_ok _ (Machine.setSlot_eq _ _ _ _)]
  generalize ran : eval operand owner (before.setSlot owner name .resolving) = run at ends
  generalize other : more operand owner (before.setSlot owner name .resolving) = further at ends
  cases ends with
  | @ok value after lightens =>
    rw [bind_of_ok _ (Machine.attempt_of_ok ran), bind_of_ok _ (Machine.attempt_of_ok other)]
    have thawed : after.Lightens (after.setSlot owner name (.ready value)) := .setSlot rfl trivial
    exact .ok ((frozen.trans lightens).trans thawed) ⟨value, rfl⟩
  | error genuine =>
    rw [bind_of_ok _ (Machine.attempt_of_error ran), bind_of_ok _ (Machine.attempt_of_error other)]
    exact .error genuine

theorem resolve (fits : before.Fits frame 0 depth) (name : String) :
    Ends before (fun resolved _ => ∃ value, resolved = .value value)
      (eval.resolve name frame before) (more.resolve name frame before) := by
  rw [Evaluator.resolve, Evaluator.resolve, get_bind, get_bind]
  cases found : before.owner? frame name with
  | none => exact .throw (by rintro ⟨⟩)
  | some place =>
    rcases place with ⟨owner, slot⟩
    rcases Memory.load_owner_le found with ⟨holds, lighter⟩
    have known := fits.firstOrder owner name slot holds
    cases slot with
    | ready value => exact .pure ⟨value, rfl⟩
    | function lambda => exact known.elim
    | resolving => exact .throw (by rintro ⟨⟩)
    | pending operand =>
      refine sparing.pending ⟨fits.firstOrder, Memory.lt_size_of_slot? holds, ?_⟩ holds
      exact Nat.le_trans (Nat.add_le_add_left lighter 0) fits.load_le

theorem force (fits : before.Fits frame 0 depth) (name : String) :
    Ends before Anything (eval.force name frame before) (more.force name frame before) := by
  refine (sparing.resolve fits name).bind ?_
  rintro _ middle _ ⟨value, rfl⟩
  exact .pure trivial

theorem apply (fits : before.Fits frame 0 depth) (name : String) (base : Nat) :
    Ends before Anything (eval.apply name none frame base before)
      (more.apply name none frame base before) := by
  have ends := sparing.resolve fits name
  rw [Evaluator.apply, Evaluator.apply]
  generalize ran : eval.resolve name frame before = run at ends
  generalize other : more.resolve name frame before = further at ends
  cases ends with
  | ok lightens held =>
    rcases held with ⟨value, rfl⟩
    rw [bind_of_ok _ (Machine.attempt_of_ok ran), bind_of_ok _ (Machine.attempt_of_ok other)]
    exact .ok lightens trivial
  | @error failure after genuine =>
    rw [bind_of_ok _ (Machine.attempt_of_error ran), bind_of_ok _ (Machine.attempt_of_error other)]
    cases failure <;> exact .error genuine

theorem operandValue {operand : Expr} (plain : operand.FirstOrder)
    (fits : before.Fits frame operand.size depth) (base : Nat) :
    Ends before Anything (eval.operandValue frame base operand before)
      (more.operandValue frame base operand before) := by
  fun_cases Evaluator.operandValue eval frame base operand with
  | case1 name definition =>
    cases plain.definition_eq
    exact sparing.apply (fits.less (Nat.zero_le _)) name base
  | case2 operand noName =>
    rw [Evaluator.operandValue]
    · exact sparing plain fits
    · exact noName

theorem pushOperands {operands : List Expr} (plain : ∀ operand ∈ operands, operand.FirstOrder)
    (fits : before.Fits frame (Expr.sizeList operands) depth) (base : Nat) :
    Ends before Anything (eval.pushOperands frame base operands before)
      (more.pushOperands frame base operands before) := by
  induction operands generalizing before with
  | nil => exact .pure trivial
  | cons operand rest ih =>
    rcases List.forall_mem_cons.mp plain with ⟨own, others⟩
    rw [Expr.sizeList] at fits
    refine (ih others (fits.less (Nat.le_add_left _ _))).bind fun _ middle lightens _ => ?_
    refine (sparing.operandValue own ((fits.later lightens).less (Nat.le_add_right _ _)) base).bind
      fun value after _ _ => ?_
    exact .ok (.of_frames rfl) trivial

theorem application {operands : List Expr} (plain : ∀ operand ∈ operands, operand.FirstOrder)
    (fits : before.Fits frame (Expr.sizeList operands) depth) (name : String) :
    Ends before Anything (eval.application name operands none frame before)
      (more.application name operands none frame before) := by
  have ends := (sparing.pushOperands plain fits before.arguments.length).bind
    fun _ _ lightens _ =>
      sparing.apply ((fits.later lightens).less (Nat.zero_le _)) name before.arguments.length
  have waits : Machine.waiting before = .ok before.arguments.length before := rfl
  rw [Evaluator.application, Evaluator.application, bind_of_ok _ waits, bind_of_ok _ waits]
  generalize ran : (eval.pushOperands frame before.arguments.length operands >>= fun _ =>
    eval.apply name none frame before.arguments.length) before = run at ends
  generalize other : (more.pushOperands frame before.arguments.length operands >>= fun _ =>
    more.apply name none frame before.arguments.length) before = further at ends
  cases ends with
  | @ok value after lightens =>
    rw [bind_of_ok _ (Machine.attempt_of_ok ran), bind_of_ok _ (Machine.attempt_of_ok other)]
    refine .behind lightens ?_
    let extra := after.arguments.length - before.arguments.length
    have dropped : Machine.dropArguments before.arguments.length after =
      .ok (extra != 0) ⟨after.frames, after.arguments.drop extra⟩ := rfl
    rw [bind_of_ok _ dropped]
    have dropping : after.Lightens ⟨after.frames, after.arguments.drop extra⟩ := .of_frames rfl
    refine .behind dropping ?_
    dsimp only
    split
    · exact .throw (by rintro ⟨⟩)
    · exact .pure trivial
  | @error failure after genuine =>
    rw [bind_of_ok _ (Machine.attempt_of_error ran), bind_of_ok _ (Machine.attempt_of_error other)]
    exact .error genuine

/-! ## Blocks -/

theorem gather {expression : Expr} (plain : expression.FirstOrder)
    (fits : before.Fits frame 0 depth)
    (apart : expression.isAssignment = false → before.Fits frame expression.size depth)
    (harvest : Harvest) :
    Ends before Anything (eval.gather frame harvest expression before)
      (more.gather frame harvest expression before) := by
  fun_cases Evaluator.gather eval frame harvest expression with
  | case1 key operand function =>
    rw [Evaluator.gather, if_pos function]
    exact .pure trivial
  | case2 key operand noFunction =>
    rw [Evaluator.gather, if_neg noFunction]
    exact (sparing.force fits key).bind fun _ _ _ _ => .pure trivial
  | case3 operand =>
    have inner := (apart rfl).less (Nat.le_succ operand.size)
    have own : operand.FirstOrder := plain.child (List.mem_singleton.mpr rfl)
    exact (sparing own inner).bind fun _ _ _ _ => .pure trivial
  | case4 other noAssignment noYield =>
    have apart := apart (by
      cases expression with
      | assignment key operand => exact (noAssignment key operand rfl).elim
      | _ => rfl)
    rw [Evaluator.gather]
    · exact (sparing plain apart).bind fun _ _ _ _ => .pure trivial
    · exact noAssignment
    · exact noYield

theorem gatherAll {expressions : List Expr}
    (plain : ∀ expression ∈ expressions, expression.FirstOrder) (fits : before.Fits frame 0 depth)
    (apart : ∀ expression ∈ expressions, expression.isAssignment = false →
      before.Fits frame expression.size depth) (harvest : Harvest) :
    Ends before Anything (eval.gatherAll frame harvest expressions before)
      (more.gatherAll frame harvest expressions before) := by
  induction expressions generalizing before harvest with
  | nil => exact .pure trivial
  | cons expression rest ih =>
    rcases List.forall_mem_cons.mp plain with ⟨own, others⟩
    rcases List.forall_mem_cons.mp apart with ⟨first, behind⟩
    refine (sparing.gather own fits first harvest).bind fun found middle lightens _ => ?_
    exact ih others (fits.later lightens)
      (fun expression member free => (behind expression member free).later lightens) found

/-- A section pays for its names with its expressions, and leaves a frame that
costs no more than they do. -/
theorem sectionValue {part : Section Expr}
    (plain : ∀ expression ∈ part.expressions, expression.FirstOrder)
    (fits : before.Fits frame (Expr.sizeSection part) depth) :
    Ends before (fun result after => result.2 < after.frames.size ∧
        after.load result.2 ≤ Expr.sizeSection part + before.load frame)
      (eval.sectionValue frame part before) (more.sectionValue frame part before) := by
  let opened := Evaluator.slots ⟨[], some frame⟩ part.expressions
  have around := Memory.load_openFrame_self
    (Evaluator.parent_slots [] (some frame) part.expressions) fits.inside
  change (before.openFrame opened).load _ = opened.weight + _ at around
  have weight := Evaluator.weight_slots_le ⟨[], some frame⟩ part.expressions
  have lightens : before.Lightens (before.openFrame opened) :=
    .openFrame fun _ _ holds => Evaluator.firstOrder_slots plain holds
  have inside : before.frames.size < (before.openFrame opened).frames.size :=
    Nat.lt_of_lt_of_eq (Nat.lt_succ_self _) Memory.size_openFrame.symm
  have least := fits.load_le
  rw [Expr.sizeSection_eq] at least
  change opened.weight ≤ 0 + _ at weight
  have own : (before.openFrame opened).Fits before.frames.size 0 depth :=
    ⟨lightens.firstOrder fits.firstOrder, inside, by omega⟩
  have apart expression (member : expression ∈ part.expressions)
      (free : expression.isAssignment = false) :
      (before.openFrame opened).Fits before.frames.size expression.size depth := by
    have paid := Evaluator.weight_slots_add_le ⟨[], some frame⟩ member free
    change opened.weight + _ ≤ 0 + _ at paid
    exact ⟨own.firstOrder, inside, by omega⟩
  rw [Evaluator.sectionValue, Evaluator.sectionValue, bind_of_ok _ (Machine.openFrame_eq _ _),
    bind_of_ok _ (Machine.openFrame_eq _ _)]
  refine .behind lightens ?_
  refine (sparing.gatherAll plain own apart .empty).bind fun harvest after lighter _ => ?_
  refine .pure ⟨lighter.lt_size inside, ?_⟩
  have lower := lighter.load_le _ inside
  change after.load before.frames.size ≤ _
  rw [Expr.sizeSection_eq]
  omega

theorem sectionValues {sections : List (Section Expr)}
    (plain : ∀ part ∈ sections, ∀ expression ∈ part.expressions, expression.FirstOrder)
    (fits : before.Fits frame (Expr.sizeSections sections) depth) :
    Ends before Anything (eval.sectionValues frame sections before)
      (more.sectionValues frame sections before) := by
  induction sections generalizing before with
  | nil => exact .pure trivial
  | cons part rest ih =>
    rcases List.forall_mem_cons.mp plain with ⟨own, others⟩
    rw [Expr.sizeSections] at fits
    refine (sparing.sectionValue own (fits.less (Nat.le_add_right _ _))).bind
      fun _ middle lightens _ => ?_
    exact (ih others ((fits.later lightens).less (Nat.le_add_left _ _))).bind
      fun _ _ _ _ => .pure trivial

theorem blockValue {sections : List (Section Expr)}
    (plain : ∀ part ∈ sections, ∀ expression ∈ part.expressions, expression.FirstOrder)
    (fits : before.Fits frame (Expr.sizeSections sections) depth) :
    Ends before Anything (eval.blockValue frame sections before)
      (more.blockValue frame sections before) := by
  cases sections with
  | nil => exact .pure trivial
  | cons front rest =>
    rcases List.forall_mem_cons.mp plain with ⟨own, others⟩
    rw [Expr.sizeSections] at fits
    have first := sparing.sectionValue own (fits.less (Nat.le_add_right _ _))
    cases rest with
    | nil => exact first.bind fun _ _ _ _ => .pure trivial
    | cons second rest =>
      refine first.bind fun found middle lightens inner => ?_
      have least := fits.load_le
      have behind : middle.Fits found.2 (Expr.sizeSections (second :: rest)) depth :=
        ⟨lightens.firstOrder fits.firstOrder, inner.1, by omega⟩
      exact (sparing.sectionValues others behind).bind fun _ _ _ _ => .pure trivial

/-! ## Expressions -/

theorem items {items : List Expr} (plain : ∀ item ∈ items, item.FirstOrder)
    (fits : before.Fits frame (Expr.sizeList items) depth) :
    Ends before Anything (eval.items frame items before) (more.items frame items before) := by
  induction items generalizing before with
  | nil => exact .pure trivial
  | cons item rest ih =>
    rcases List.forall_mem_cons.mp plain with ⟨own, others⟩
    rw [Expr.sizeList] at fits
    refine (sparing own (fits.less (Nat.le_add_right _ _))).bind fun _ middle lightens _ => ?_
    exact (ih others ((fits.later lightens).less (Nat.le_add_left _ _))).bind
      fun _ _ _ _ => .pure trivial

theorem step : Sparing eval.step more.step (depth + 1) := by
  intro expression frame before plain fits
  have inner {cost : Nat} (enough : cost + 1 ≤ expression.size) : before.Fits frame cost depth := by
    have least := fits.load_le
    exact ⟨fits.firstOrder, fits.inside, by omega⟩
  cases expression with
  | unit | scalar value => exact .pure trivial
  | vector items =>
    exact (sparing.items (fun item member => plain.child member) (inner (Nat.le_refl _))).bind
      fun _ _ _ _ => .pure trivial
  | «yield» operand | assignment key operand | «scope» id operand =>
    exact sparing (plain.child (List.mem_singleton.mpr rfl)) (inner (Nat.le_refl _))
  | lift operand =>
    refine (sparing (plain.child (List.mem_singleton.mpr rfl)) (inner (Nat.le_refl _))).bind
      fun value _ _ _ => ?_
    cases value <;> exact .pure trivial
  | block sections =>
    exact sparing.blockValue (fun part inside expression member => plain.member inside member)
      (inner (Nat.le_refl _))
  | merge left right mode =>
    have both := inner (Nat.le_refl (left.size + right.size + 1))
    have first : left.FirstOrder := plain.child List.mem_cons_self
    have second : right.FirstOrder := plain.child (List.mem_cons_of_mem _ List.mem_cons_self)
    refine (sparing first (both.less (Nat.le_add_right _ _))).bind fun leftValue _ lightens _ => ?_
    refine (sparing second ((both.later lightens).less (Nat.le_add_left _ _))).bind
      fun rightValue _ _ _ => ?_
    exact .of_settled (settled_mergeValues _ _ _ _)
  | application name operands definition =>
    cases plain.definition_eq
    exact sparing.application (fun operand member => plain.operand member)
      (inner (Nat.le_refl _)) name
  | function lambda => exact plain.not_function.elim
  | access target field =>
    refine (sparing (plain.child (List.mem_singleton.mpr rfl)) (inner (Nat.le_refl _))).bind
      fun value _ _ _ => ?_
    exact .of_settled (settled_fieldOf value field)
  | pipeline left right | patternMatch subject pattern => exact .throw (by rintro ⟨⟩)

end Sparing

/-- A depth that is enough is enough whatever depth is added. -/
theorem sparing_evaluate (depth extra : Nat) :
    Sparing (evaluate depth) (evaluate (depth + extra)) depth := by
  induction depth with
  | zero =>
    intro expression frame before plain fits
    have least := fits.load_le
    have some := expression.size_pos
    omega
  | succ depth ih =>
    rw [Nat.succ_add]
    exact ih.step

namespace Program

variable {program : Program}

/-- A caller's bindings cost nothing. -/
theorem fits_ofBindings (bindings : Value.Bindings) (cost : Nat) :
    (Memory.ofBindings bindings).Fits 0 cost cost := by
  refine ⟨fun frame name slot holds => ?_, Nat.one_pos, ?_⟩
  · rw [slot?_ofBindings] at holds
    split at holds
    · rw [Layer.get?, Layer.ofBindings, List.find?_map] at holds
      rcases Option.map_eq_some_iff.mp holds with ⟨_, first, rfl⟩
      rcases Option.map_eq_some_iff.mp first with ⟨entry, _, rfl⟩
      trivial
    · cases holds
  · rw [Memory.load_ofBindings]
    exact Nat.le_refl cost

/-- Without functions, a depth of the size of the document is enough. -/
theorem ends_of_size (plain : program.document.root.FirstOrder) (bindings : Value.Bindings)
    (extra : Nat) :
    Ends (.ofBindings bindings) Anything
      (Manifest.evaluate program.document.root.size program.document.root 0 (.ofBindings bindings))
      (Manifest.evaluate (program.document.root.size + extra) program.document.root 0
        (.ofBindings bindings)) :=
  sparing_evaluate _ extra plain (fits_ofBindings bindings _)

theorem evaluate_ne_exhausted (plain : program.document.root.FirstOrder)
    (bindings : Value.Bindings) : program.evaluate bindings ≠ .error .exhausted := by
  have ends := ends_of_size plain bindings 4000
  rw [evaluate, depthFor]
  generalize Manifest.evaluate program.document.root.size program.document.root 0
    (.ofBindings bindings) = run at ends
  generalize Manifest.evaluate (program.document.root.size + 4000) program.document.root 0
    (.ofBindings bindings) = further at ends
  cases ends with
  | ok => rintro ⟨⟩
  | error genuine =>
    intro cut
    exact genuine (Except.error.inj cut)

end Program
end Manifest
