import Manifest.Proofs.Evaluation.Depiction
import Manifest.Proofs.Evaluation.FirstOrder

/-!
# What is left to be evaluated

A name that waits costs as much as its operand is large, and a name that has
its value costs nothing.  The load of a frame is what all names cost that can
be seen from it.  An evaluation makes no frame heavier, and a name whose
evaluation is under way weighs nothing while its operand is evaluated: the load
pays for the operand.
-/

namespace Manifest

/-- The size of the operand that a name waits for. -/
def Slot.weight : Slot → Nat
  | .pending operand => operand.size
  | _ => 0

/-- What the names of one frame cost. -/
def Frame.weight (frame : Frame) : Nat :=
  frame.slots.foldr (fun entry total => entry.2.weight + total) 0

namespace Frame

variable {name : String} {slot held : Slot}

theorem weight_set_le (frame : Frame) (name : String) (slot : Slot) :
    (frame.set name slot).weight ≤ frame.weight + slot.weight := by
  rcases frame with ⟨slots, parent⟩
  rw [set, weight, weight]
  dsimp only
  induction slots with
  | nil => simp [set.go]
  | cons entry rest ih =>
    rcases entry with ⟨first, other⟩
    rw [set.go]
    split
    · simp only [List.foldr_cons]
      omega
    · simp only [List.foldr_cons]
      omega

/-- The weight of a name is replaced. -/
theorem weight_set_of_get? {frame : Frame} (holds : frame.get? name = some held) (slot : Slot) :
    (frame.set name slot).weight + held.weight = frame.weight + slot.weight := by
  rcases frame with ⟨slots, parent⟩
  rw [get?] at holds
  rw [set, weight, weight]
  dsimp only at holds ⊢
  induction slots with
  | nil => cases holds
  | cons entry rest ih =>
    rcases entry with ⟨first, other⟩
    rw [set.go]
    by_cases same : first = name
    · rw [List.find?_cons_of_pos (by simpa using same)] at holds
      cases holds
      rw [if_pos same]
      simp only [List.foldr_cons]
      omega
    · rw [List.find?_cons_of_neg (by simpa using same)] at holds
      rw [if_neg same]
      simp only [List.foldr_cons]
      have rest := ih holds
      omega

end Frame

namespace Expr

theorem size_pos (expression : Expr) : 0 < expression.size := by
  cases expression <;> simp only [size] <;> omega

theorem sizeSection_eq (part : Section Expr) : sizeSection part = sizeList part.expressions := by
  cases part
  rfl

end Expr

namespace Evaluator

variable {expression : Expr}

theorem parent_slots (names : List (String × Slot)) (parent : Option Nat)
    (expressions : List Expr) : (slots ⟨names, parent⟩ expressions).parent = parent :=
  congrArg Frame.parent (slots_eq names parent expressions)

theorem weight_ofOperand_le (operand : Expr) : (Slot.ofOperand operand).weight ≤ operand.size := by
  cases operand <;> first | exact Nat.le_refl _ | exact Nat.zero_le _

/-- The names of a section cost no more than its expressions. -/
theorem weight_slots_le (frame : Frame) (expressions : List Expr) :
    (slots frame expressions).weight ≤ frame.weight + Expr.sizeList expressions := by
  induction expressions generalizing frame with
  | nil => exact Nat.le_refl _
  | cons expression rest ih =>
    cases expression with
    | assignment key operand =>
      have first := frame.weight_set_le key (.ofOperand operand)
      have own := weight_ofOperand_le operand
      have others := ih (frame.set key (.ofOperand operand))
      rw [slots_cons, Expr.sizeList, Expr.size]
      omega
    | _ =>
      have others := ih frame
      change (slots frame rest).weight ≤ _
      rw [Expr.sizeList]
      omega

/-- An expression that is no assignment is paid for apart from the names. -/
theorem weight_slots_add_le (frame : Frame) {expressions : List Expr}
    (member : expression ∈ expressions) (apart : expression.isAssignment = false) :
    (slots frame expressions).weight + expression.size ≤
      frame.weight + Expr.sizeList expressions := by
  induction expressions generalizing frame with
  | nil => cases member
  | cons first rest ih =>
    rcases List.mem_cons.mp member with rfl | further
    · have others := weight_slots_le frame rest
      cases expression with
      | assignment key operand => cases apart
      | _ =>
        change (slots frame rest).weight + _ ≤ _
        rw [Expr.sizeList]
        omega
    · cases first with
      | assignment key operand =>
        have own := frame.weight_set_le key (.ofOperand operand)
        have least := weight_ofOperand_le operand
        have others := ih (frame.set key (.ofOperand operand)) further
        rw [slots_cons, Expr.sizeList, Expr.size]
        omega
      | _ =>
        have others := ih frame further
        change (slots frame rest).weight + _ ≤ _
        rw [Expr.sizeList]
        omega

end Evaluator

namespace Memory

variable {memory before middle after : Memory} {frame owner : Nat} {name : String}
  {slot held : Slot}

/-- What the names cost that can be seen from a frame. -/
def load (memory : Memory) (frame : Nat) : Nat :=
  match memory.frames[frame]? with
  | none => 0
  | some found =>
      found.weight +
        match found.parent with
        | none => 0
        | some parent => if parent < frame then memory.load parent else 0
termination_by frame

/-- The load of a frame depends on no younger frame. -/
theorem load_congr (same : ∀ index ≤ frame, after.frames[index]? = before.frames[index]?) :
    after.load frame = before.load frame := by
  induction frame using Nat.strongRecOn with
  | ind frame ih =>
    rw [load, load, same frame (Nat.le_refl frame)]
    cases before.frames[frame]? with
    | none => rfl
    | some found =>
      cases around : found.parent with
      | none => simp only [around]
      | some parent =>
        simp only [around]
        split
        · rename_i older
          rw [ih parent older fun index le => same index (by omega)]
        · rfl

/-! ## Names that change -/

/-- A name is paid for with what it cost before. -/
theorem load_setSlot_self (holds : memory.slot? owner name = some held) (slot : Slot) :
    (memory.setSlot owner name slot).load owner + held.weight =
      memory.load owner + slot.weight := by
  rcases Option.bind_eq_some_iff.mp holds with ⟨found, stands, own⟩
  have changed := Frame.weight_set_of_get? own slot
  rw [load, load, getElem?_setSlot_self stands, stands]
  dsimp only
  rw [show (found.set name slot).parent = found.parent from rfl]
  cases around : found.parent with
  | none =>
    dsimp only
    omega
  | some parent =>
    dsimp only
    split
    · rename_i older
      have outer : (memory.setSlot owner name slot).load parent = memory.load parent :=
        load_congr fun index le => getElem?_setSlot_of_ne (by omega)
      omega
    · omega

/-- A name that costs nothing makes no frame heavier. -/
theorem load_setSlot_le (free : slot.weight = 0) (frame : Nat) :
    (memory.setSlot owner name slot).load frame ≤ memory.load frame := by
  induction frame using Nat.strongRecOn with
  | ind frame ih =>
    have own : ∀ found, memory.frames[frame]? = some found → ∃ changed,
        (memory.setSlot owner name slot).frames[frame]? = some changed ∧
          changed.weight ≤ found.weight ∧ changed.parent = found.parent := by
      intro found stands
      by_cases same : owner = frame
      · subst same
        have least := found.weight_set_le name slot
        exact ⟨_, getElem?_setSlot_self stands, by omega, rfl⟩
      · exact ⟨found, (getElem?_setSlot_of_ne same).trans stands, Nat.le_refl _, rfl⟩
    rw [load, load]
    cases stands : memory.frames[frame]? with
    | none =>
      have lost : (memory.setSlot owner name slot).frames[frame]? = none := by
        rw [Array.getElem?_eq_none_iff] at stands ⊢
        rwa [size_setSlot]
      refine Nat.le_of_eq ?_
      rw [lost]
    | some found =>
      rcases own found stands with ⟨changed, stays, lighter, parent⟩
      rw [stays]
      dsimp only
      rw [parent]
      cases found.parent with
      | none => exact Nat.add_le_add_right lighter 0
      | some parent =>
        dsimp only
        split
        · rename_i older
          exact Nat.add_le_add lighter (ih parent older)
        · exact Nat.add_le_add_right lighter 0

/-- What can be seen from the frame of a name can be seen from wherever the name
is found. -/
theorem load_owner_le (found : memory.owner? frame name = some (owner, slot)) :
    memory.slot? owner name = some slot ∧ memory.load owner ≤ memory.load frame := by
  induction frame using Nat.strongRecOn with
  | ind frame ih =>
    rw [owner?_eq] at found
    cases holds : memory.slot? frame name with
    | some other =>
      rw [holds] at found
      cases found
      exact ⟨holds, Nat.le_refl _⟩
    | none =>
      rw [holds] at found
      cases around : memory.parent? frame with
      | none =>
        rw [around] at found
        cases found
      | some parent =>
        rw [around] at found
        dsimp only at found
        split at found
        · rename_i older
          rcases ih parent older found with ⟨holds, outward⟩
          refine ⟨holds, Nat.le_trans outward ?_⟩
          rcases Option.bind_eq_some_iff.mp around with ⟨inner, stands, same⟩
          rw [load.eq_1 memory frame, stands]
          dsimp only
          rw [same]
          dsimp only
          rw [if_pos older]
          exact Nat.le_add_left _ _
        · cases found

/-! ## Opening frames -/

theorem load_openFrame_of_lt {opened : Frame} (inside : frame < memory.frames.size) :
    (memory.openFrame opened).load frame = memory.load frame :=
  load_congr fun index le => getElem?_openFrame_of_lt (by omega)

/-- A new frame costs what its names cost, and what can be seen from outside. -/
theorem load_openFrame_self {opened : Frame} (around : opened.parent = some frame)
    (inside : frame < memory.frames.size) :
    (memory.openFrame opened).load memory.frames.size = opened.weight + memory.load frame := by
  rw [load, getElem?_openFrame_self]
  dsimp only
  rw [around]
  dsimp only
  rw [if_pos inside, load_openFrame_of_lt inside]

/-! ## Evaluations that make nothing heavier -/

/-- What a caller binds costs nothing. -/
theorem load_ofBindings (bindings : Value.Bindings) : (ofBindings bindings).load 0 = 0 := by
  have weight : (Frame.ofBindings bindings).weight = 0 := by
    rw [Frame.weight, Frame.ofBindings, List.foldr_map]
    induction bindings with
    | nil => rfl
    | cons binding rest ih =>
      rw [List.foldr_cons, ih]
      rfl
  rw [load, show (ofBindings bindings).frames[0]? = some (.ofBindings bindings) from rfl]
  exact weight

/-- No frame becomes heavier, and no function comes in. -/
structure Lightens (before after : Memory) : Prop where
  size_le : before.frames.size ≤ after.frames.size
  load_le : ∀ frame < before.frames.size, after.load frame ≤ before.load frame
  firstOrder : before.FirstOrder → after.FirstOrder

namespace Lightens

theorem refl (memory : Memory) : memory.Lightens memory :=
  ⟨Nat.le_refl _, fun _ _ => Nat.le_refl _, id⟩

theorem trans (first : before.Lightens middle) (second : middle.Lightens after) :
    before.Lightens after where
  size_le := Nat.le_trans first.size_le second.size_le
  load_le frame inside :=
    Nat.le_trans (second.load_le frame (Nat.lt_of_lt_of_le inside first.size_le))
      (first.load_le frame inside)
  firstOrder plain := second.firstOrder (first.firstOrder plain)

theorem lt_size (lightens : before.Lightens after) (inside : frame < before.frames.size) :
    frame < after.frames.size :=
  Nat.lt_of_lt_of_le inside lightens.size_le

/-- A name is evaluated, or its evaluation is under way. -/
theorem setSlot (free : slot.weight = 0) (plain : slot.FirstOrder) :
    memory.Lightens (memory.setSlot owner name slot) where
  size_le := Nat.le_of_eq size_setSlot.symm
  load_le frame _ := load_setSlot_le free frame
  firstOrder known frame wanted other holds := by
    by_cases same : frame = owner ∧ wanted = name
    · rcases same with ⟨rfl, rfl⟩
      have inside := lt_size_of_slot? holds
      rw [size_setSlot] at inside
      rw [slot?_setSlot_self inside] at holds
      cases holds
      exact plain
    · rw [slot?_setSlot_of_ne same] at holds
      exact known frame wanted other holds

theorem openFrame {opened : Frame}
    (plain : ∀ name slot, opened.get? name = some slot → slot.FirstOrder) :
    memory.Lightens (memory.openFrame opened) where
  size_le := by
    rw [size_openFrame]
    exact Nat.le_succ _
  load_le frame inside := Nat.le_of_eq (load_openFrame_of_lt inside)
  firstOrder known frame name slot holds := by
    have inside := lt_size_of_slot? holds
    rw [size_openFrame] at inside
    rw [slot?] at holds
    by_cases same : frame = memory.frames.size
    · subst same
      rw [getElem?_openFrame_self] at holds
      exact plain name slot holds
    · rw [getElem?_openFrame_of_lt (by omega)] at holds
      exact known frame name slot holds

/-- Arguments cost nothing. -/
theorem of_frames (same : after.frames = before.frames) : before.Lightens after where
  size_le := Nat.le_of_eq (congrArg Array.size same.symm)
  load_le frame _ := Nat.le_of_eq (load_congr fun index _ => by rw [same])
  firstOrder known frame name slot holds := by
    rw [slot?, same] at holds
    exact known frame name slot holds

end Lightens
end Memory
end Manifest
