import Manifest.Proofs.Stepwise

/-!
# Frames in memory

A frame is found by its number, and a name in it by its slot.  Letting one
name stand for something leaves the other names of its frame alone, and every
other frame.
-/

namespace Manifest

namespace Frame

variable {name other : String} {slot : Slot}

theorem get?_set_self (frame : Frame) (name : String) (slot : Slot) :
    (frame.set name slot).get? name = some slot := by
  rcases frame with ⟨slots, parent⟩
  rw [set, get?]
  dsimp only
  induction slots with
  | nil => rw [set.go, List.find?_cons_of_pos (by simp)]; rfl
  | cons entry rest ih =>
    rcases entry with ⟨first, held⟩
    rw [set.go]
    split
    · rw [List.find?_cons_of_pos (by simp)]
      rfl
    · rename_i different
      rw [List.find?_cons_of_neg (by simpa using different)]
      exact ih

theorem get?_set_of_ne (frame : Frame) (different : other ≠ name) :
    (frame.set name slot).get? other = frame.get? other := by
  rcases frame with ⟨slots, parent⟩
  rw [set, get?, get?]
  dsimp only
  induction slots with
  | nil => rw [set.go, List.find?_cons_of_neg (by simpa using different.symm)]
  | cons entry rest ih =>
    rcases entry with ⟨first, held⟩
    rw [set.go]
    split
    · rename_i same
      subst same
      rw [List.find?_cons_of_neg (by simpa using different.symm),
        List.find?_cons_of_neg (by simpa using different.symm)]
    · rw [List.find?_cons, List.find?_cons]
      split
      · rfl
      · exact ih

end Frame

namespace Memory

variable {memory before middle after : Memory} {frame : Nat} {found : Frame} {name : String}
  {slot : Slot}

/-- Memory with a name of a frame standing for something. -/
def setSlot (memory : Memory) (frame : Nat) (name : String) (slot : Slot) : Memory :=
  { memory with frames := memory.frames.modify frame fun found => found.set name slot }

theorem getElem?_setSlot_self (stands : memory.frames[frame]? = some found) :
    (memory.setSlot frame name slot).frames[frame]? = some (found.set name slot) := by
  rw [setSlot, Array.getElem?_modify, if_pos rfl, stands]
  rfl

theorem getElem?_setSlot_of_ne {index : Nat} (different : frame ≠ index) :
    (memory.setSlot frame name slot).frames[index]? = memory.frames[index]? := by
  rw [setSlot, Array.getElem?_modify, if_neg different]

theorem size_setSlot : (memory.setSlot frame name slot).frames.size = memory.frames.size :=
  Array.size_modify

/-- A name of the frame itself is found there. -/
theorem owner?_of_get? (stands : memory.frames[frame]? = some found)
    (holds : found.get? name = some slot) : memory.owner? frame name = some (frame, slot) := by
  rw [owner?, stands]
  dsimp only
  rw [holds]

/-! ## Looking outwards -/

/-- What a name stands for in a frame. -/
def slot? (memory : Memory) (frame : Nat) (name : String) : Option Slot :=
  memory.frames[frame]?.bind fun found => found.get? name

/-- The frame around a frame, if there is one. -/
def parent? (memory : Memory) (frame : Nat) : Option Nat :=
  memory.frames[frame]?.bind Frame.parent

theorem lt_size_of_slot? (holds : memory.slot? frame name = some slot) :
    frame < memory.frames.size := by
  rw [slot?] at holds
  rcases Option.bind_eq_some_iff.mp holds with ⟨found, stands, _⟩
  exact (Array.getElem?_eq_some_iff.mp stands).1

/-- A name is looked up frame by frame. -/
theorem owner?_eq (memory : Memory) (frame : Nat) (name : String) :
    memory.owner? frame name =
      match memory.slot? frame name with
      | some slot => some (frame, slot)
      | none =>
          match memory.parent? frame with
          | none => none
          | some parent => if parent < frame then memory.owner? parent name else none := by
  rw [owner?, slot?, parent?]
  cases memory.frames[frame]? <;> rfl

theorem lt_size_of_owner? {place : Nat × Slot} (found : memory.owner? frame name = some place) :
    frame < memory.frames.size := by
  refine Nat.lt_of_not_le fun outside => ?_
  rw [owner?, Array.getElem?_eq_none outside] at found
  cases found

theorem owner?_here (holds : memory.slot? frame name = some slot) :
    memory.owner? frame name = some (frame, slot) := by
  rw [owner?_eq, holds]

theorem owner?_outward {parent : Nat} (absent : memory.slot? frame name = none)
    (around : memory.parent? frame = some parent) (older : parent < frame) :
    memory.owner? frame name = memory.owner? parent name := by
  rw [owner?_eq, absent, around]
  exact if_pos older

/-- Where a name is found depends on the frame and those outside it. -/
theorem owner?_congr (slot : ∀ index ≤ frame, after.slot? index name = before.slot? index name)
    (parent : ∀ index ≤ frame, after.parent? index = before.parent? index) :
    after.owner? frame name = before.owner? frame name := by
  induction frame using Nat.strongRecOn with
  | ind frame ih =>
    rw [owner?_eq after, owner?_eq before, slot frame (Nat.le_refl _),
      parent frame (Nat.le_refl _)]
    cases before.slot? frame name with
    | some slot => rfl
    | none =>
      cases before.parent? frame with
      | none => rfl
      | some outer =>
        dsimp only
        split
        · rename_i older
          exact ih outer older
            (fun index le => slot index (Nat.le_trans le (Nat.le_of_lt older)))
            fun index le => parent index (Nat.le_trans le (Nat.le_of_lt older))
        · rfl

theorem slot?_setSlot_self (stands : frame < memory.frames.size) :
    (memory.setSlot frame name slot).slot? frame name = some slot := by
  rw [slot?, getElem?_setSlot_self (Array.getElem?_eq_getElem stands)]
  exact Frame.get?_set_self _ _ _

theorem slot?_setSlot_of_ne {other : Nat} {wanted : String}
    (different : ¬ (other = frame ∧ wanted = name)) :
    (memory.setSlot frame name slot).slot? other wanted = memory.slot? other wanted := by
  by_cases same : frame = other
  · subst same
    have different : wanted ≠ name := fun equal => different ⟨rfl, equal⟩
    rw [slot?, slot?]
    cases stands : memory.frames[frame]? with
    | none =>
      rw [setSlot, Array.getElem?_modify, if_pos rfl, stands]
      rfl
    | some found =>
      rw [getElem?_setSlot_self stands]
      exact Frame.get?_set_of_ne found different
  · rw [slot?, slot?, getElem?_setSlot_of_ne same]

theorem parent?_setSlot (other : Nat) :
    (memory.setSlot frame name slot).parent? other = memory.parent? other := by
  rw [parent?, parent?]
  by_cases same : frame = other
  · subst same
    rw [setSlot, Array.getElem?_modify, if_pos rfl]
    cases memory.frames[frame]? <;> rfl
  · rw [getElem?_setSlot_of_ne same]

/-! ## Growth -/

/-- Every frame stays as it is and the same arguments wait, but frames may be opened. -/
structure Grows (before after : Memory) : Prop where
  frames : ∀ index < before.frames.size, after.frames[index]? = before.frames[index]?
  arguments : after.arguments = before.arguments

namespace Grows

theorem refl (memory : Memory) : memory.Grows memory := ⟨fun _ _ => rfl, rfl⟩

theorem size_le (grows : before.Grows after) : before.frames.size ≤ after.frames.size := by
  rcases Nat.eq_zero_or_pos before.frames.size with none | some
  · omega
  · have last := grows.frames (before.frames.size - 1) (by omega)
    have inside : before.frames.size - 1 < before.frames.size := by omega
    rw [Array.getElem?_eq_getElem inside] at last
    have stands := (Array.getElem?_eq_some_iff.mp last).1
    omega

theorem trans (first : before.Grows middle) (second : middle.Grows after) :
    before.Grows after := by
  refine ⟨fun index inside => ?_, second.arguments.trans first.arguments⟩
  have further := Nat.lt_of_lt_of_le inside first.size_le
  rw [second.frames index further, first.frames index inside]

/-- Only frames that have been opened since are touched. -/
theorem setSlot (grows : before.Grows after) (younger : before.frames.size ≤ frame)
    (name : String) (slot : Slot) : before.Grows (after.setSlot frame name slot) := by
  refine ⟨fun index inside => ?_, grows.arguments⟩
  rw [getElem?_setSlot_of_ne (by omega), grows.frames index inside]

end Grows
end Memory

namespace Machine

theorem setSlot_eq (memory : Memory) (frame : Nat) (name : String) (slot : Slot) :
    setSlot frame name slot memory = .ok () (memory.setSlot frame name slot) := rfl

theorem openFrame_eq (memory : Memory) (frame : Frame) :
    openFrame frame memory =
      .ok memory.frames.size { memory with frames := memory.frames.push frame } := rfl

theorem attempt_of_ok {α : Type} {step : Machine α} {result : α} {before after : Memory}
    (ran : step before = .ok result after) :
    attempt step before = .ok (.ok result) after := by
  rw [attempt, ran]

theorem attempt_of_error {α : Type} {step : Machine α} {failure : EvalError}
    {before after : Memory} (ran : step before = .error failure after) :
    attempt step before = .ok (.error failure) after := by
  rw [attempt, ran]

/-- Nothing is taken from a stack that is not above the height. -/
theorem popArgument?_of_le {memory : Memory} {base : Nat}
    (low : memory.arguments.length ≤ base) : popArgument? base memory = .ok none memory := by
  rcases memory with ⟨frames, arguments⟩
  cases arguments with
  | nil => rfl
  | cons argument rest =>
    have low : (argument :: rest).length ≤ base := low
    rw [popArgument?, Stepwise.get_bind]
    dsimp only
    rw [if_pos low]
    rfl

/-- The next argument is taken from a stack that is above the height. -/
theorem popArgument?_of_lt {memory : Memory} {base : Nat} {argument : Value} {rest : List Value}
    (waiting : memory.arguments = argument :: rest) (high : ¬ memory.arguments.length ≤ base) :
    popArgument? base memory = .ok (some argument) { memory with arguments := rest } := by
  rcases memory with ⟨frames, arguments⟩
  cases waiting
  have high : ¬ (argument :: rest).length ≤ base := high
  rw [popArgument?, Stepwise.get_bind]
  dsimp only
  rw [if_neg high]
  rfl

end Machine
end Manifest
