import Manifest.Proofs.Evaluation.Meaning
import Manifest.Proofs.Evaluation.Memory

/-!
# Scenes behind memory

Every frame stands for a scene, in which no name has been evaluated yet.
Memory depicts the scenes of its frames as long as a name that is ready has the
value that its operand means, and what else has changed is only that the
evaluation of a name is under way.
-/

namespace Manifest

/-- The scenes of frames. -/
abbrev Scenes := Nat → Scene

/-- What may have become of a name. -/
inductive Depicted (scene : Scene) : Slot → Slot → Prop
  | same {slot : Slot} : slot ≠ .resolving → Depicted scene slot slot
  | resolving {operand : Expr} : Depicted scene (.pending operand) .resolving
  | ready {operand : Expr} {value : Value} {depth : Nat} :
      meaning depth scene operand = .ok value → Depicted scene (.pending operand) (.ready value)

/-- Memory depicts the scenes of its frames. -/
structure Depicts (scenes : Scenes) (memory : Memory) : Prop where
  shape : ∀ frame < memory.frames.size, ∃ layer, scenes frame = layer ::
    match memory.parent? frame with
    | none => []
    | some parent => scenes parent
  older : ∀ frame parent, memory.parent? frame = some parent → parent < frame
  slots : ∀ frame < memory.frames.size, ∀ name,
    Option.Rel (Depicted (scenes frame)) ((scenes frame).own? name) (memory.slot? frame name)

namespace Depicts

variable {scenes : Scenes} {memory : Memory} {frame owner : Nat} {name : String} {slot : Slot}

/-- How a name is found in memory and in the scene. -/
inductive Finds (scenes : Scenes) (memory : Memory) (frame : Nat) (name : String) : Prop
  | nowhere : memory.owner? frame name = none → (scenes frame).find? name = none →
      Finds scenes memory frame name
  | at_ (owner : Nat) (held slot : Slot) : memory.owner? frame name = some (owner, held) →
      (scenes frame).find? name = some (scenes owner, slot) →
      memory.slot? owner name = some held → (scenes owner).own? name = some slot →
      Depicted (scenes owner) slot held → Finds scenes memory frame name

theorem finds (depicts : Depicts scenes memory) (inside : frame < memory.frames.size)
    (name : String) : Finds scenes memory frame name := by
  induction frame using Nat.strongRecOn with
  | ind frame ih =>
    rcases depicts.shape frame inside with ⟨layer, shape⟩
    have related := depicts.slots frame inside name
    cases holds : memory.slot? frame name with
    | some held =>
      rw [holds] at related
      cases own : (scenes frame).own? name with
      | none =>
        rw [own] at related
        cases related
      | some slot =>
        rw [own] at related
        cases related with
        | some depicted =>
          refine .at_ frame held slot (Memory.owner?_here holds) ?_ holds own depicted
          rw [shape] at own ⊢
          have here : layer.get? name = some slot := own
          rw [Scene.find?, here]
    | none =>
      rw [holds] at related
      have absent : layer.get? name = none := by
        cases own : (scenes frame).own? name with
        | none =>
          rw [shape] at own
          exact own
        | some slot =>
          rw [own] at related
          cases related
      have outward : (scenes frame).find? name = Scene.find? (match memory.parent? frame with
          | none => []
          | some parent => scenes parent) name := by
        rw [shape, Scene.find?, absent]
      cases around : memory.parent? frame with
      | none =>
        rw [around] at outward
        refine .nowhere ?_ outward
        rw [Memory.owner?_eq, holds, around]
      | some parent =>
        rw [around] at outward
        have older := depicts.older frame parent around
        have same := Memory.owner?_outward holds around older
        cases ih parent older (Nat.lt_trans older inside) with
        | nowhere none absent => exact .nowhere (same.trans none) (outward.trans absent)
        | at_ owner held slot found shown stands own depicted =>
          exact .at_ owner held slot (same.trans found) (outward.trans shown) stands own depicted

/-- The state of a name may change. -/
theorem setSlot {held : Slot} (depicts : Depicts scenes memory)
    (own : (scenes owner).own? name = some slot) (depicted : Depicted (scenes owner) slot held) :
    Depicts scenes (memory.setSlot owner name held) := by
  refine ⟨fun frame inside => ?_, fun frame parent around => ?_, fun frame inside wanted => ?_⟩
  · rw [Memory.size_setSlot] at inside
    rw [Memory.parent?_setSlot]
    exact depicts.shape frame inside
  · rw [Memory.parent?_setSlot] at around
    exact depicts.older frame parent around
  · rw [Memory.size_setSlot] at inside
    by_cases same : frame = owner ∧ wanted = name
    · rcases same with ⟨rfl, rfl⟩
      rw [own, Memory.slot?_setSlot_self inside]
      exact .some depicted
    · rw [Memory.slot?_setSlot_of_ne same]
      exact depicts.slots frame inside wanted

end Depicts

/-! ## Opening frames -/

namespace Memory

variable {memory : Memory} {frame : Frame} {index : Nat}

/-- Memory with a further frame. -/
def openFrame (memory : Memory) (frame : Frame) : Memory :=
  { memory with frames := memory.frames.push frame }

theorem getElem?_openFrame_of_lt (inside : index < memory.frames.size) :
    (memory.openFrame frame).frames[index]? = memory.frames[index]? := by
  rw [openFrame, Array.getElem?_push, if_neg (by omega)]

theorem getElem?_openFrame_self :
    (memory.openFrame frame).frames[memory.frames.size]? = some frame := by
  rw [openFrame, Array.getElem?_push, if_pos rfl]

theorem slot?_openFrame_of_lt (inside : index < memory.frames.size) (name : String) :
    (memory.openFrame frame).slot? index name = memory.slot? index name := by
  rw [slot?, slot?, getElem?_openFrame_of_lt inside]

theorem parent?_openFrame_of_lt (inside : index < memory.frames.size) :
    (memory.openFrame frame).parent? index = memory.parent? index := by
  rw [parent?, parent?, getElem?_openFrame_of_lt inside]

theorem slot?_openFrame_self (names : Layer) (parent : Option Nat) (name : String) :
    (memory.openFrame ⟨names, parent⟩).slot? memory.frames.size name = names.get? name := by
  rw [slot?, getElem?_openFrame_self]
  rfl

theorem parent?_openFrame_self (names : Layer) (parent : Option Nat) :
    (memory.openFrame ⟨names, parent⟩).parent? memory.frames.size = parent := by
  rw [parent?, getElem?_openFrame_self]
  rfl

theorem size_openFrame : (memory.openFrame frame).frames.size = memory.frames.size + 1 :=
  Array.size_push _

theorem slot?_eq_none (outside : memory.frames.size ≤ index) (name : String) :
    memory.slot? index name = none := by
  rw [slot?, Array.getElem?_eq_none outside]
  rfl

theorem parent?_eq_none (outside : memory.frames.size ≤ index) :
    memory.parent? index = none := by
  rw [parent?, Array.getElem?_eq_none outside]
  rfl

end Memory

/-! ## Following -/

/-- An evaluation leaves the scenes of open frames as they are, and leaves no
evaluation under way that was not so before. -/
structure Follows (scenes : Scenes) (before : Memory) (later : Scenes) (after : Memory) :
    Prop where
  size_le : before.frames.size ≤ after.frames.size
  scenes_eq : ∀ frame < before.frames.size, later frame = scenes frame
  depicts : Depicts later after
  resolving : ∀ frame name, after.slot? frame name = some .resolving →
    before.slot? frame name = some .resolving

namespace Follows

variable {scenes between later : Scenes} {before middle after : Memory}

theorem refl (depicts : Depicts scenes before) : Follows scenes before scenes before :=
  ⟨Nat.le_refl _, fun _ _ => rfl, depicts, fun _ _ under => under⟩

theorem trans (first : Follows scenes before between middle)
    (second : Follows between middle later after) : Follows scenes before later after := by
  refine ⟨Nat.le_trans first.size_le second.size_le, fun frame inside => ?_, second.depicts,
    fun _ name under => first.resolving _ name (second.resolving _ name under)⟩
  rw [second.scenes_eq frame (Nat.lt_of_lt_of_le inside first.size_le),
    first.scenes_eq frame inside]

theorem lt_size (follows : Follows scenes before later after) {frame : Nat}
    (inside : frame < before.frames.size) : frame < after.frames.size :=
  Nat.lt_of_lt_of_le inside follows.size_le

/-- Arguments are no part of what is depicted. -/
theorem of_arguments {arguments : List Value} (follows : Follows scenes before later after) :
    Follows scenes before later { after with arguments } :=
  ⟨follows.size_le, follows.scenes_eq,
    ⟨follows.depicts.shape, follows.depicts.older, follows.depicts.slots⟩, follows.resolving⟩

end Follows

/-- The scenes when a frame is opened. -/
def Scenes.enter (scenes : Scenes) (frame : Nat) (scene : Scene) : Scenes :=
  fun index => if index = frame then scene else scenes index

theorem Scenes.enter_self (scenes : Scenes) (frame : Nat) (scene : Scene) :
    scenes.enter frame scene frame = scene := if_pos rfl

/-- A frame of names that have not been evaluated is opened inside another. -/
theorem Depicts.openFrame {scenes : Scenes} {memory : Memory} {parent : Nat}
    {names : Layer} (depicts : Depicts scenes memory) (inside : parent < memory.frames.size)
    (fresh : ∀ name, Layer.get? names name ≠ some .resolving) :
    Follows scenes memory (scenes.enter memory.frames.size (names :: scenes parent))
      (memory.openFrame ⟨names, some parent⟩) := by
  have kept : ∀ index < memory.frames.size,
      scenes.enter memory.frames.size (names :: scenes parent) index = scenes index :=
    fun index inside => if_neg (Nat.ne_of_lt inside)
  refine ⟨by rw [Memory.size_openFrame]; omega, kept, ⟨fun index within => ?_,
    fun index outer around => ?_, fun index within name => ?_⟩, fun index name under => ?_⟩
  · rw [Memory.size_openFrame] at within
    rcases Nat.lt_succ_iff_lt_or_eq.mp within with old | rfl
    · rcases depicts.shape index old with ⟨layer, shape⟩
      refine ⟨layer, ?_⟩
      rw [kept index old, Memory.parent?_openFrame_of_lt old, shape]
      cases around : memory.parent? index with
      | none => rfl
      | some outer =>
        have older := depicts.older index outer around
        dsimp only
        rw [kept outer (by omega)]
    · refine ⟨names, ?_⟩
      rw [Scenes.enter_self, Memory.parent?_openFrame_self]
      dsimp only
      rw [kept parent inside]
  · rcases Nat.lt_trichotomy index memory.frames.size with old | rfl | outside
    · rw [Memory.parent?_openFrame_of_lt old] at around
      exact depicts.older index outer around
    · rw [Memory.parent?_openFrame_self] at around
      cases around
      exact inside
    · rw [Memory.parent?_eq_none (by rw [Memory.size_openFrame]; omega)] at around
      cases around
  · rw [Memory.size_openFrame] at within
    rcases Nat.lt_succ_iff_lt_or_eq.mp within with old | rfl
    · rw [kept index old, Memory.slot?_openFrame_of_lt old]
      exact depicts.slots index old name
    · rw [Scenes.enter_self, Memory.slot?_openFrame_self]
      change Option.Rel _ (Layer.get? names name) _
      cases holds : Layer.get? names name with
      | none => exact .none
      | some slot => exact .some (.same fun under => fresh name (holds.trans (congrArg some under)))
  · rcases Nat.lt_trichotomy index memory.frames.size with old | rfl | outside
    · rw [Memory.slot?_openFrame_of_lt old] at under
      exact under
    · rw [Memory.slot?_openFrame_self] at under
      exact absurd under (fresh name)
    · rw [Memory.slot?_eq_none (by rw [Memory.size_openFrame]; omega)] at under
      cases under

/-! ## Going in circles -/

/-- An evaluation that is under way has to be found to a smaller depth. -/
def Regress (scenes : Scenes) (memory : Memory) (bound : Nat) : Prop :=
  ∃ frame name operand depth, memory.slot? frame name = some .resolving ∧
    (scenes frame).own? name = some (.pending operand) ∧ depth < bound ∧
    meaning depth (scenes frame) operand ≠ .error .exhausted

namespace Regress

variable {scenes later : Scenes} {before after : Memory} {bound further : Nat}

theorem weaken (regress : Regress scenes before bound) (le : bound ≤ further) :
    Regress scenes before further := by
  rcases regress with ⟨frame, name, operand, depth, under, own, less, found⟩
  exact ⟨frame, name, operand, depth, under, own, Nat.lt_of_lt_of_le less le, found⟩

theorem earlier (regress : Regress later after bound)
    (follows : Follows scenes before later after) : Regress scenes before bound := by
  rcases regress with ⟨frame, name, operand, depth, under, own, less, found⟩
  have under := follows.resolving frame name under
  rw [follows.scenes_eq frame (Memory.lt_size_of_slot? under)] at own found
  exact ⟨frame, name, operand, depth, under, own, less, found⟩

end Regress
end Manifest
