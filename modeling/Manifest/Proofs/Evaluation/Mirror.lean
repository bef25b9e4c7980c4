import Manifest.Proofs.Evaluation.Views

/-!
# Memories that mirror each other

Frames of two memories correspond if they depict the same scene and stand inside frames
that correspond.  What has been evaluated in one memory may be pending in the other, and
the frames may have other numbers.  From frames that correspond, an expression comes to
the same outcome in both memories.

Where the operand of a name has a meaning, either memory finds it.  Where it has none,
the name is not ready in either memory, so it is under way in both or pending in both,
and the evaluations go on side by side.
-/

namespace Manifest

open Stepwise

/-- Frames of two memories that correspond, and the scenes that the memories depict. -/
structure Mirror where
  pairs : Nat → Nat → Prop
  scenes : Scenes
  others : Scenes

variable {mirror further : Mirror} {one two oneAfter twoAfter : Memory}
  {frame other owner owner' inner inner' depth bound : Nat} {name : String}

namespace Mirror

/-- Two memories as a mirror shows them. -/
structure Shows (mirror : Mirror) (one two : Memory) : Prop where
  depicts : Depicts mirror.scenes one
  depictsOther : Depicts mirror.others two
  straight : ∀ bound, ¬ Regress mirror.scenes one bound
  straightOther : ∀ bound, ¬ Regress mirror.others two bound
  arguments : two.arguments = one.arguments
  inside : ∀ {frame other}, mirror.pairs frame other →
    frame < one.frames.size ∧ other < two.frames.size
  unique : ∀ {frame other inner inner'}, mirror.pairs frame other → mirror.pairs inner inner' →
    (frame = inner ↔ other = inner')
  scene : ∀ {frame other}, mirror.pairs frame other → mirror.others other = mirror.scenes frame
  parent : ∀ {frame other}, mirror.pairs frame other →
    Option.Rel mirror.pairs (one.parent? frame) (two.parent? other)
  under : ∀ {frame other}, mirror.pairs frame other → ∀ name,
    one.slot? frame name = some .resolving ↔ two.slot? other name = some .resolving

/-- Frames of the same numbers correspond, as far as they have a property. -/
def same (among : Nat → Prop) (scenes others : Scenes) : Mirror :=
  ⟨fun frame other => frame = other ∧ among frame, scenes, others⟩

/-- Frames correspond that are the same in both memories, together with those around them. -/
theorem Shows.of_same {among : Nat → Prop} {scenes others : Scenes} (depicts : Depicts scenes one)
    (depictsOther : Depicts others two) (straight : ∀ bound, ¬ Regress scenes one bound)
    (straightOther : ∀ bound, ¬ Regress others two bound)
    (arguments : two.arguments = one.arguments)
    (inside : ∀ frame, among frame → frame < one.frames.size ∧ frame < two.frames.size)
    (scene : ∀ frame, among frame → others frame = scenes frame)
    (parent : ∀ frame, among frame → two.parent? frame = one.parent? frame)
    (outward : ∀ frame parent, among frame → one.parent? frame = some parent → among parent)
    (under : ∀ frame, among frame → ∀ name,
      one.slot? frame name = some .resolving ↔ two.slot? frame name = some .resolving) :
    (same among scenes others).Shows one two where
  depicts := depicts
  depictsOther := depictsOther
  straight := straight
  straightOther := straightOther
  arguments := arguments
  inside := by
    rintro frame _ ⟨rfl, held⟩
    exact inside frame held
  unique := by
    rintro frame _ inner _ ⟨rfl, _⟩ ⟨rfl, _⟩
    exact .rfl
  scene := by
    rintro frame _ ⟨rfl, held⟩
    exact scene frame held
  parent := by
    rintro frame _ ⟨rfl, held⟩
    rw [parent frame held]
    cases around : one.parent? frame with
    | none => exact .none
    | some outer => exact .some ⟨rfl, outward frame outer held around⟩
  under := by
    rintro frame _ ⟨rfl, held⟩
    exact under frame held

/-- Later memories are shown as well, and frames that correspond go on to correspond. -/
structure Reaches (mirror : Mirror) (one two : Memory) (further : Mirror)
    (oneAfter twoAfter : Memory) : Prop where
  pairs : ∀ {frame other}, mirror.pairs frame other → further.pairs frame other
  follows : Follows mirror.scenes one further.scenes oneAfter
  followsOther : Follows mirror.others two further.others twoAfter
  shows : further.Shows oneAfter twoAfter

/-- The mirror from behind. -/
def flip (mirror : Mirror) : Mirror :=
  ⟨fun other frame => mirror.pairs frame other, mirror.others, mirror.scenes⟩

theorem Shows.flip (shows : mirror.Shows one two) : mirror.flip.Shows two one where
  depicts := shows.depictsOther
  depictsOther := shows.depicts
  straight := shows.straightOther
  straightOther := shows.straight
  arguments := shows.arguments.symm
  inside pair := (shows.inside pair).symm
  unique pair other := (shows.unique pair other).symm
  scene pair := (shows.scene pair).symm
  parent {frame other} pair := by
    have around : Option.Rel mirror.pairs (one.parent? other) (two.parent? frame) :=
      shows.parent pair
    generalize one.parent? other = parent at around
    generalize two.parent? frame = parent' at around
    cases around with
    | none => exact .none
    | some around => exact .some around
  under pair name := (shows.under pair name).symm

theorem Reaches.refl (shows : mirror.Shows one two) : mirror.Reaches one two mirror one two :=
  ⟨id, .refl shows.depicts, .refl shows.depictsOther, shows⟩

theorem Reaches.trans {last : Mirror} {oneLast twoLast : Memory}
    (first : mirror.Reaches one two further oneAfter twoAfter)
    (second : further.Reaches oneAfter twoAfter last oneLast twoLast) :
    mirror.Reaches one two last oneLast twoLast :=
  ⟨second.pairs ∘ first.pairs, first.follows.trans second.follows,
    first.followsOther.trans second.followsOther, second.shows⟩

namespace Shows

variable (shows : mirror.Shows one two)

include shows

/-- Each memory may go on by itself. -/
theorem advance {later later' : Scenes} (follows : Follows mirror.scenes one later oneAfter)
    (followsOther : Follows mirror.others two later' twoAfter) (advances : one.Advances oneAfter)
    (advancesOther : two.Advances twoAfter) (arguments : twoAfter.arguments = oneAfter.arguments) :
    mirror.Reaches one two ⟨mirror.pairs, later, later'⟩ oneAfter twoAfter where
  pairs := id
  follows := follows
  followsOther := followsOther
  shows :=
    { depicts := follows.depicts
      depictsOther := followsOther.depicts
      straight := fun bound regress => shows.straight bound (regress.earlier follows)
      straightOther := fun bound regress =>
        shows.straightOther bound (regress.earlier followsOther)
      arguments := arguments
      inside := fun pair =>
        ⟨follows.lt_size (shows.inside pair).1, followsOther.lt_size (shows.inside pair).2⟩
      unique := shows.unique
      scene := fun pair =>
        (followsOther.scenes_eq _ (shows.inside pair).2).trans
          ((shows.scene pair).trans (follows.scenes_eq _ (shows.inside pair).1).symm)
      parent := fun pair => by
        rw [advances.parent _ (shows.inside pair).1, advancesOther.parent _ (shows.inside pair).2]
        exact shows.parent pair
      under := fun pair name => by
        rw [advances.resolving_iff (shows.inside pair).1,
          advancesOther.resolving_iff (shows.inside pair).2]
        exact shows.under pair name }

theorem withArguments (arguments : List Value) :
    mirror.Reaches one two mirror { one with arguments } { two with arguments } :=
  shows.advance (Follows.refl shows.depicts).of_arguments
    (Follows.refl shows.depictsOther).of_arguments (.of_frames rfl) (.of_frames rfl) rfl

/-! ## Frames -/

/-- Frames of the same names are opened inside frames that correspond. -/
theorem openFrame (pair : mirror.pairs frame other) {names : Layer}
    (fresh : ∀ name, names.get? name ≠ some .resolving) :
    ∃ further : Mirror, mirror.Reaches one two further (one.openFrame ⟨names, some frame⟩)
        (two.openFrame ⟨names, some other⟩) ∧
      further.pairs one.frames.size two.frames.size := by
  have follows := shows.depicts.openFrame (shows.inside pair).1 fresh
  have followsOther := shows.depictsOther.openFrame (shows.inside pair).2 fresh
  have advances := Memory.Advances.openFrame one (some frame) fresh
  have advancesOther := Memory.Advances.openFrame two (some other) fresh
  have kept := shows.advance follows followsOther advances advancesOther shows.arguments
  have old {index index' : Nat} (pair : mirror.pairs index index') :
      index ≠ one.frames.size ∧ index' ≠ two.frames.size :=
    ⟨Nat.ne_of_lt (shows.inside pair).1, Nat.ne_of_lt (shows.inside pair).2⟩
  refine ⟨⟨fun index index' => mirror.pairs index index' ∨
    index = one.frames.size ∧ index' = two.frames.size, _, _⟩,
    ⟨.inl, follows, followsOther, ?_⟩, .inr ⟨rfl, rfl⟩⟩
  refine ⟨kept.shows.depicts, kept.shows.depictsOther, kept.shows.straight,
    kept.shows.straightOther, kept.shows.arguments, ?_, ?_, ?_, ?_, ?_⟩
  · rintro index index' (pair | ⟨rfl, rfl⟩)
    · exact kept.shows.inside pair
    · rw [Memory.size_openFrame, Memory.size_openFrame]
      exact ⟨Nat.lt_succ_self _, Nat.lt_succ_self _⟩
  · rintro index index' inner inner' (pair | ⟨rfl, rfl⟩) (second | ⟨rfl, rfl⟩)
    · exact shows.unique pair second
    · exact iff_of_false (old pair).1 (old pair).2
    · exact iff_of_false (Ne.symm (old second).1) (Ne.symm (old second).2)
    · exact iff_of_true rfl rfl
  · rintro index index' (pair | ⟨rfl, rfl⟩)
    · exact kept.shows.scene pair
    · change mirror.others.enter _ _ _ = mirror.scenes.enter _ _ _
      rw [Scenes.enter_self, Scenes.enter_self, shows.scene pair]
  · rintro index index' (pair | ⟨rfl, rfl⟩)
    · have around := kept.shows.parent pair
      generalize (one.openFrame ⟨names, some frame⟩).parent? index = parent at around ⊢
      generalize (two.openFrame ⟨names, some other⟩).parent? index' = parent' at around ⊢
      cases around with
      | none => exact .none
      | some around => exact .some (.inl around)
    · rw [Memory.parent?_openFrame_self, Memory.parent?_openFrame_self]
      exact .some (.inl pair)
  · rintro index index' (pair | ⟨rfl, rfl⟩) name
    · exact kept.shows.under pair name
    · rw [Memory.slot?_openFrame_self, Memory.slot?_openFrame_self]

/-! ## Names -/

/-- How a name is found from frames that correspond. -/
inductive Finds (mirror : Mirror) (one two : Memory) (frame other : Nat) (name : String) : Prop
  | nowhere : one.owner? frame name = none → two.owner? other name = none →
      Finds mirror one two frame other name
  | at_ {owner owner' : Nat} {held held' slot : Slot} : mirror.pairs owner owner' →
      one.owner? frame name = some (owner, held) → two.owner? other name = some (owner', held') →
      (mirror.scenes frame).find? name = some (mirror.scenes owner, slot) →
      (mirror.scenes owner).own? name = some slot →
      Depicted (mirror.scenes owner) slot held → Depicted (mirror.scenes owner) slot held' →
      Finds mirror one two frame other name

theorem finds (pair : mirror.pairs frame other) (name : String) :
    Finds mirror one two frame other name := by
  induction frame using Nat.strongRecOn generalizing other with
  | ind frame ih =>
    have slot := shows.depicts.slots frame (shows.inside pair).1 name
    have slot' := shows.depictsOther.slots other (shows.inside pair).2 name
    rw [shows.scene pair] at slot'
    cases own : (mirror.scenes frame).own? name with
    | some slotted =>
      rw [own] at slot slot'
      generalize holds : one.slot? frame name = found at slot
      generalize holds' : two.slot? other name = found' at slot'
      cases slot with
      | some depicted =>
        cases slot' with
        | some depicted' =>
          exact .at_ pair (Memory.owner?_here holds) (Memory.owner?_here holds')
            (Scene.find?_own own) own depicted depicted'
    | none =>
      rw [own] at slot slot'
      generalize holds : one.slot? frame name = found at slot
      generalize holds' : two.slot? other name = found' at slot'
      cases slot
      cases slot'
      have around := shows.parent pair
      generalize outer : one.parent? frame = parent at around
      generalize outer' : two.parent? other = parent' at around
      cases around with
      | none =>
        refine .nowhere ?_ ?_
        · rw [Memory.owner?_eq, holds, outer]
        · rw [Memory.owner?_eq, holds', outer']
      | @some parent parent' around =>
        have older := shows.depicts.older _ _ outer
        have older' := shows.depictsOther.older _ _ outer'
        have same := Memory.owner?_outward holds outer older
        have same' := Memory.owner?_outward holds' outer' older'
        rcases shows.depicts.shape frame (shows.inside pair).1 with ⟨layer, shape⟩
        have outward : (mirror.scenes frame).find? name = (mirror.scenes parent).find? name := by
          rw [shape] at own ⊢
          have absent : layer.get? name = none := own
          rw [Scene.find?, absent, outer]
        cases ih _ older around with
        | nowhere none none' => exact .nowhere (same.trans none) (same'.trans none')
        | at_ owners found found' shown own depicted depicted' =>
          exact .at_ owners (same.trans found) (same'.trans found') (outward.trans shown) own
            depicted depicted'

/-- Names that correspond change together. -/
theorem setSlot (owners : mirror.pairs owner owner') {slot held : Slot}
    (own : (mirror.scenes owner).own? name = some slot)
    (depicted : Depicted (mirror.scenes owner) slot held)
    (straight : ∀ bound, ¬ Regress mirror.scenes (one.setSlot owner name held) bound)
    (straightOther : ∀ bound, ¬ Regress mirror.others (two.setSlot owner' name held) bound) :
    mirror.Shows (one.setSlot owner name held) (two.setSlot owner' name held) where
  depicts := shows.depicts.setSlot own depicted
  depictsOther := by
    rw [← shows.scene owners] at own depicted
    exact shows.depictsOther.setSlot own depicted
  straight := straight
  straightOther := straightOther
  arguments := shows.arguments
  inside pair := by
    rw [Memory.size_setSlot, Memory.size_setSlot]
    exact shows.inside pair
  unique := shows.unique
  scene := shows.scene
  parent pair := by
    rw [Memory.parent?_setSlot, Memory.parent?_setSlot]
    exact shows.parent pair
  under {frame other} pair wanted := by
    by_cases same : frame = owner ∧ wanted = name
    · rcases same with ⟨rfl, rfl⟩
      obtain rfl := (shows.unique owners pair).mp rfl
      rw [Memory.slot?_setSlot_self (shows.inside pair).1,
        Memory.slot?_setSlot_self (shows.inside pair).2]
    · have different : ¬ (other = owner' ∧ wanted = name) :=
        fun same' => same ⟨(shows.unique pair owners).mpr same'.1, same'.2⟩
      rw [Memory.slot?_setSlot_of_ne same, Memory.slot?_setSlot_of_ne different]
      exact shows.under pair wanted

/-- A name whose operand has no meaning may be marked as under way. -/
theorem freeze (owners : mirror.pairs owner owner') {operand : Expr}
    (own : (mirror.scenes owner).own? name = some (.pending operand))
    (endless : ∀ depth, meaning depth (mirror.scenes owner) operand = .error .exhausted) :
    mirror.Shows (one.setSlot owner name .resolving) (two.setSlot owner' name .resolving) := by
  have regress {scenes : Scenes} {memory : Memory} {place : Nat}
      (straight : ∀ bound, ¬ Regress scenes memory bound)
      (owned : scenes place = mirror.scenes owner) (bound : Nat) :
      ¬ Regress scenes (memory.setSlot place name .resolving) bound := by
    rintro ⟨index, wanted, other, depth, under, stands, less, found⟩
    by_cases same : index = place ∧ wanted = name
    · rcases same with ⟨rfl, rfl⟩
      rw [owned, own] at stands
      cases stands
      exact found (owned ▸ endless depth)
    · rw [Memory.slot?_setSlot_of_ne same] at under
      exact straight bound ⟨index, wanted, other, depth, under, stands, less, found⟩
  exact shows.setSlot owners own .resolving (regress shows.straight rfl)
    (regress shows.straightOther (shows.scene owners))

/-- Behind the evaluation of its operand, the name is pending again. -/
theorem thaw (owners : mirror.pairs owner owner') {operand : Expr}
    (own : (mirror.scenes owner).own? name = some (.pending operand))
    (reaches : mirror.Reaches (one.setSlot owner name .resolving)
      (two.setSlot owner' name .resolving) further oneAfter twoAfter) :
    mirror.Reaches one two further (oneAfter.setSlot owner name (.pending operand))
      (twoAfter.setSlot owner' name (.pending operand)) := by
  have settled : Slot.pending operand ≠ .resolving := by rintro ⟨⟩
  have follows := reaches.follows.thaw (shows.inside owners).1 own (.same settled) settled
  have own' := own
  rw [← shows.scene owners] at own'
  have followsOther := reaches.followsOther.thaw (shows.inside owners).2 own' (.same settled)
    settled
  have later := own
  rw [← follows.scenes_eq owner (shows.inside owners).1] at later
  exact ⟨reaches.pairs, follows, followsOther,
    reaches.shows.setSlot (reaches.pairs owners) later (.same settled)
      (fun bound regress => shows.straight bound (regress.earlier follows))
      fun bound regress => shows.straightOther bound (regress.earlier followsOther)⟩

end Shows
end Mirror
end Manifest
