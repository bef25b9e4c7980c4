import Manifest.Proofs.Evaluation.Discipline
import Manifest.Proofs.Evaluation.Trees

/-!
# What is seen from a frame

Where every frame stands inside an older one, what is seen from a frame is a scene.
A name that is under way there means a reference to itself, which has no meaning, as
its evaluation is a circle.  So an expression means in this scene exactly what it
comes to in memory.
-/

namespace Manifest

variable {memory before after : Memory} {frame depth : Nat} {name : String} {value : Value}
  {expression : Expr}

/-! ## Scenes of a memory -/

namespace Memory

/-- Every frame stands inside an older one. -/
def Rooted (memory : Memory) : Prop :=
  ∀ frame parent, memory.parent? frame = some parent → parent < frame

/-- What is seen from a frame. -/
def scene (memory : Memory) (frame : Nat) : Scene :=
  match memory.frames[frame]? with
  | none => []
  | some found => found.slots ::
      match found.parent with
      | none => []
      | some parent => if parent < frame then memory.scene parent else []
termination_by frame

theorem Rooted.scene_eq (rooted : memory.Rooted) (inside : frame < memory.frames.size) :
    ∃ layer : Layer, (∀ name, layer.get? name = memory.slot? frame name) ∧
      memory.scene frame = layer :: (memory.parent? frame).elim [] memory.scene := by
  have stands := Array.getElem?_eq_getElem inside
  generalize memory.frames[frame] = found at stands
  refine ⟨found.slots, fun name => ?_, ?_⟩
  · rw [slot?, stands]
    rfl
  · rw [scene, parent?, stands]
    change found.slots :: _ = found.slots :: found.parent.elim [] memory.scene
    cases around : found.parent with
    | none => rfl
    | some parent =>
      have older : parent < frame := rooted frame parent (by rw [parent?, stands]; exact around)
      exact congrArg _ (if_pos older)

end Memory

/-! ## Names under way -/

/-- A name that is under way is a reference to itself. -/
def Slot.asleep (name : String) : Slot → Slot
  | .resolving => .pending (.reference name)
  | slot => slot

def Layer.asleep (layer : Layer) : Layer :=
  layer.map fun (name, slot) => (name, slot.asleep name)

def Scene.asleep (scene : Scene) : Scene :=
  scene.map Layer.asleep

theorem Layer.get?_asleep (layer : Layer) (name : String) :
    layer.asleep.get? name = (layer.get? name).map (Slot.asleep name) := by
  rw [get?, get?, asleep, List.find?_map, Option.map_map, Option.map_map]
  change Option.map _ (layer.find? fun entry => entry.1 == name) =
    Option.map _ (layer.find? fun entry => entry.1 == name)
  cases found : layer.find? fun entry => entry.1 == name with
  | none => rfl
  | some entry =>
    have same : (entry.1 == name) = true :=
      List.find?_some (p := fun entry : String × Slot => entry.1 == name) found
    exact congrArg some (congrArg (Slot.asleep · entry.2) (beq_iff_eq.mp same))

/-- A reference to itself is asked for without an end. -/
theorem meaning_reference_self {scene : Scene}
    (circular : scene.find? name = some (scene, .pending (.reference name))) (depth : Nat) :
    meaning depth scene (.reference name) = .error .exhausted := by
  induction depth with
  | zero => rfl
  | succ depth ih =>
    have endless : (meaning depth).resolve scene name = .error .exhausted := by
      rw [Meaning.resolve, circular]
      dsimp only
      rw [ih]
      rfl
    change (meaning depth).apply name none scene [] >>= _ = _
    rw [Meaning.apply, endless]
    rfl

theorem Scene.find?_own {scene : Scene} {slot : Slot} (own : scene.own? name = some slot) :
    scene.find? name = some (scene, slot) := by
  cases scene with
  | nil => cases own
  | cons layer outer =>
    have here : layer.get? name = some slot := own
    rw [find?, here]

namespace Memory

/-- The scenes of frames, where nothing is under way. -/
abbrev scenes (memory : Memory) : Scenes :=
  fun frame => (memory.scene frame).asleep

namespace Rooted

variable (rooted : memory.Rooted)

include rooted

theorem scenes_eq (inside : frame < memory.frames.size) :
    ∃ layer : Layer, (∀ name, layer.get? name = (memory.slot? frame name).map (Slot.asleep name)) ∧
      memory.scenes frame = layer :: (memory.parent? frame).elim [] memory.scenes := by
  rcases rooted.scene_eq inside with ⟨layer, slots, shape⟩
  refine ⟨layer.asleep, fun name => ?_, ?_⟩
  · rw [layer.get?_asleep, slots]
  · rw [scenes, shape]
    cases memory.parent? frame <;> rfl

theorem own?_eq (inside : frame < memory.frames.size) (name : String) :
    (memory.scenes frame).own? name = (memory.slot? frame name).map (Slot.asleep name) := by
  rcases rooted.scenes_eq inside with ⟨layer, slots, shape⟩
  rw [shape, ← slots]
  rfl

theorem depicts : Depicts memory.scenes memory where
  shape frame inside := by
    rcases rooted.scenes_eq inside with ⟨layer, _, shape⟩
    refine ⟨layer, shape.trans ?_⟩
    cases memory.parent? frame <;> rfl
  older := rooted
  slots frame inside name := by
    rw [rooted.own?_eq inside]
    cases memory.slot? frame name with
    | none => exact .none
    | some slot =>
      refine .some ?_
      cases slot with
      | resolving => exact .resolving
      | _ => exact .same (by rintro ⟨⟩)

/-- What is under way is never found. -/
theorem not_regress (bound : Nat) : ¬ Regress memory.scenes memory bound := by
  rintro ⟨frame, name, operand, depth, under, own, _, found⟩
  have circular := own
  rw [rooted.own?_eq (lt_size_of_slot? under), under] at circular
  cases circular
  exact found (meaning_reference_self (Scene.find?_own own) depth)

/-- Nor is it found behind further evaluations. -/
theorem not_regress_behind {later : Scenes} (follows : Follows memory.scenes memory later after)
    (bound : Nat) : ¬ Regress later after bound :=
  fun regress => rooted.not_regress bound (regress.earlier follows)

end Rooted
end Memory

/-! ## Outcomes of evaluations -/

/-- The value or the failure of a run. -/
def Machine.End.outcome {α : Type} : Machine.End α → Except EvalError α
  | .ok result _ => .ok result
  | .error failure _ => .error failure

/-- To a depth that is great enough, an evaluation has an outcome. -/
def EvaluatesTo (expression : Expr) (frame : Nat) (memory : Memory)
    (outcome : Except EvalError Value) : Prop :=
  outcome ≠ .error .exhausted ∧
    ∃ depth, Machine.End.outcome (evaluate depth expression frame memory) = outcome

/-- To a depth that is great enough, a name is resolved. -/
def ResolvesTo (name : String) (frame : Nat) (memory : Memory) (resolved : Resolved) : Prop :=
  ∃ depth after, (evaluate depth).resolve name frame memory = .ok resolved after

theorem ResolvesTo.inside {resolved : Resolved} (resolves : ResolvesTo name frame memory resolved) :
    frame < memory.frames.size := by
  rcases resolves with ⟨depth, after, ran⟩
  cases found : memory.owner? frame name with
  | none =>
    rw [Evaluator.resolve, Stepwise.get_bind, found] at ran
    cases ran
  | some place => exact Memory.lt_size_of_owner? found

theorem cut_iff_outcome {α : Type} {result : Machine.End α} :
    Cut result ↔ Machine.End.outcome result = .error .exhausted := by
  constructor
  · rintro ⟨after, rfl⟩
    rfl
  · intro same
    cases result with
    | ok value after => cases same
    | error failure after =>
      cases same
      exact ⟨after, rfl⟩

theorem evaluatesTo_iff {outcome : Except EvalError Value} :
    EvaluatesTo expression frame memory outcome ↔
      (valueEnd frame expression memory).map Machine.End.outcome = some outcome := by
  rw [Option.map_eq_some_iff]
  constructor
  · rintro ⟨settled, depth, same⟩
    refine ⟨_, (lasting_evaluate frame expression).limit_eq_some_iff.mpr ⟨depth, rfl, ?_⟩, same⟩
    rw [cut_iff_outcome, same]
    exact settled
  · rintro ⟨result, known, rfl⟩
    rcases (lasting_evaluate frame expression).limit_eq_some_iff.mp known with ⟨depth, same, ends⟩
    exact ⟨fun cut => ends (cut_iff_outcome.mpr cut), depth, congrArg _ same⟩

/-- An evaluation has no more than one outcome. -/
theorem EvaluatesTo.unique {outcome other : Except EvalError Value}
    (one : EvaluatesTo expression frame memory outcome)
    (two : EvaluatesTo expression frame memory other) : outcome = other :=
  Option.some.inj ((evaluatesTo_iff.mp one).symm.trans (evaluatesTo_iff.mp two))

/-! ## What is known is found -/

variable {scenes : Scenes}

/-- Where nothing regresses, a step whose rule has an outcome has this outcome, unless
it is cut off. -/
inductive Known {α β : Type} (scenes : Scenes) (before : Memory) (agrees : Agreement α β)
    (waits : List Value → Prop) (outcome : Except EvalError β) : Machine.End α → Prop
  | cut {result : Machine.End α} : Cut result → Known scenes before agrees waits outcome result
  | ok {later : Scenes} {after : Memory} {result : α} {found : β} :
      Follows scenes before later after → agrees later after result found → outcome = .ok found →
      Known scenes before agrees waits outcome (.ok result after)
  | error {later : Scenes} {after : Memory} {failure : EvalError} :
      Follows scenes before later after → waits after.arguments → outcome = .error failure →
      Known scenes before agrees waits outcome (.error failure after)

theorem Tracked.known {α β : Type} {slack enough : Nat} {rule : Meaning → Except EvalError β}
    {agrees : Agreement α β} {waits : List Value → Prop} {result : Machine.End α}
    (tracked : Tracked slack depth scenes before rule agrees waits result) (steady : Steady rule)
    (straight : ∀ bound, ¬ Regress scenes before bound)
    (settled : rule (meaning enough) ≠ .error .exhausted) :
    Known scenes before agrees waits (rule (meaning enough)) result := by
  cases tracked with
  | ok follows found agreed =>
    refine .ok follows agreed (Eq.trans (steady.eq settled ?_) found)
    rw [found]
    rintro ⟨⟩
  | @error _ after failure follows waiting fails =>
    cases fails with
    | exhausted cut => exact .cut ⟨after, rfl⟩
    | cycle name circle => exact absurd (circle enough settled) (straight _)
    | other genuine failed =>
      refine .error follows waiting (Eq.trans (steady.eq settled ?_) failed)
      rw [failed]
      exact fun equal => genuine (Except.error.inj equal)

/-- To a depth at which its rule has an outcome, a step is not cut off. -/
theorem Tracked.not_cut {α β : Type} {slack : Nat} {rule : Meaning → Except EvalError β}
    {agrees : Agreement α β} {waits : List Value → Prop} {result : Machine.End α}
    (tracked : Tracked slack depth scenes before rule agrees waits result)
    (settled : rule (meaning depth) ≠ .error .exhausted) : ¬ Cut result := by
  rintro ⟨after, rfl⟩
  cases tracked with
  | error _ _ fails =>
    cases fails with
    | exhausted cut => exact settled cut
    | other genuine _ => exact genuine rfl

/-- To a depth at which its rule has a result, a step has this result. -/
theorem Tracked.found {α β : Type} {slack : Nat} {rule : Meaning → Except EvalError β}
    {agrees : Agreement α β} {waits : List Value → Prop} {result : Machine.End α} {found : β}
    (tracked : Tracked slack depth scenes before rule agrees waits result) (steady : Steady rule)
    (straight : ∀ bound, ¬ Regress scenes before bound)
    (means : rule (meaning depth) = .ok found) :
    ∃ later after value, result = .ok value after ∧ Follows scenes before later after ∧
      agrees later after value found := by
  have settled : rule (meaning depth) ≠ .error .exhausted := by
    rw [means]
    rintro ⟨⟩
  cases tracked.known steady straight settled with
  | cut cut => exact absurd cut (tracked.not_cut settled)
  | error _ _ same => cases means.symm.trans same
  | ok follows agreed same =>
    cases means.symm.trans same
    exact ⟨_, _, _, rfl, follows, agreed⟩

theorem Tracked.follows {α β : Type} {slack : Nat} {rule : Meaning → Except EvalError β}
    {agrees : Agreement α β} {waits : List Value → Prop} {result : Machine.End α}
    (tracked : Tracked slack depth scenes before rule agrees waits result) :
    ∃ later, Follows scenes before later (lastMemory result) := by
  cases tracked with
  | ok follows _ _ => exact ⟨_, follows⟩
  | error follows _ _ => exact ⟨_, follows⟩

/-- An expression comes to a value exactly if it means the value. -/
theorem evaluatesTo_ok_iff (depicts : Depicts scenes memory)
    (straight : ∀ bound, ¬ Regress scenes memory bound) (inside : frame < memory.frames.size) :
    EvaluatesTo expression frame memory (.ok value) ↔
      ∃ depth, meaning depth (scenes frame) expression = .ok value := by
  constructor
  · rintro ⟨_, depth, same⟩
    have tracked := adequate_evaluate depth scenes memory frame expression depicts inside
    cases ran : evaluate depth expression frame memory with
    | error failure after =>
      rw [ran] at same
      cases same
    | ok result after =>
      rw [ran] at same tracked
      cases same
      cases tracked with
      | ok _ found agreed =>
        rcases agreed with ⟨rfl, _⟩
        exact ⟨_, found⟩
  · rintro ⟨depth, means⟩
    have tracked := adequate_evaluate depth scenes memory frame expression depicts inside
    rcases tracked.found (.expression _ _) straight means with ⟨_, after, _, ran, _, rfl, _⟩
    refine ⟨by rintro ⟨⟩, depth, ?_⟩
    rw [ran]
    rfl

/-- Frames that are opened by an evaluation stand inside older ones. -/
theorem Memory.Rooted.evaluate (rooted : before.Rooted) (inside : frame < before.frames.size)
    (depth : Nat) (expression : Expr) :
    (lastMemory (Manifest.evaluate depth expression frame before)).Rooted := by
  rcases (adequate_evaluate depth _ before frame expression rooted.depicts inside).follows with
    ⟨later, follows⟩
  exact follows.depicts.older

/-- The memory in front of an evaluation has one frame. -/
theorem Memory.rooted_ofBindings (bindings : Value.Bindings) :
    (Memory.ofBindings bindings).Rooted :=
  (Program.depicts_ofBindings bindings).older

end Manifest
