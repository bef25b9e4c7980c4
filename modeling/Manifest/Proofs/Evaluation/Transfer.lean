import Manifest.Proofs.Evaluation.Adequacy
import Manifest.Proofs.Evaluation.Rearranged
import Manifest.Proofs.Grammar.Anchors

/-!
# What rearranged expressions mean

Where an expression has a meaning, every name of a section in it has one, since
the section is the mapping of all of them.  So no name in sight fails to be
resolved, and no definition that a name carries is called in its place.  The
order of assignments then decides nothing but which failure comes first.
-/

namespace Manifest

variable {depth : Nat} {scene other owner : Scene} {expression another operand : Expr}
  {expressions others permuted : List Expr} {name key : String} {value : Value}
  {waiting : List Value} {harvest after : Harvest}

/-! ## Scenes in which names have values -/

namespace Scene

/-- The names that can be seen from a place. -/
def names (scene : Scene) : List String :=
  scene.flatMap fun layer => layer.map Prod.fst

/-- Every slot has a property in the scene in which it is defined. -/
def Every (holds : Scene → Slot → Prop) : Scene → Prop
  | [] => True
  | layer :: outer =>
      (∀ name slot, layer.get? name = some slot → holds (layer :: outer) slot) ∧
        Every holds outer

theorem Every.find? {holds : Scene → Slot → Prop} (every : scene.Every holds) (name : String) :
    ∀ place, scene.find? name = some place → place.1.Every holds ∧ holds place.1 place.2 := by
  induction scene with
  | nil =>
    intro place none
    cases none
  | cons layer outer ih =>
    intro place found
    rw [Scene.find?] at found
    split at found
    · rename_i slot holds
      cases found
      exact ⟨every, every.1 name slot holds⟩
    · exact ih every.2 place found

/-- The argument of a call has a value already. -/
theorem Every.ofArgument {holds : Scene → Slot → Prop} {argument : Value}
    (every : scene.Every holds) (ready : ∀ owner, holds owner (.ready argument))
    (parameter : String) : Every holds (.ofArgument parameter argument :: scene) := by
  refine ⟨fun name slot found => ?_, every⟩
  rw [Layer.get?, Layer.ofArgument, List.find?_singleton] at found
  split at found
  · cases found
    exact ready _
  · cases found

/-- So have the bindings of a caller. -/
theorem every_ofBindings_of_mem {holds : Scene → Slot → Prop} {bindings : Value.Bindings}
    (ready : ∀ owner, ∀ binding ∈ bindings, holds owner (.ready binding.2)) :
    Every holds [.ofBindings bindings] := by
  refine ⟨fun name slot found => ?_, trivial⟩
  rw [Layer.get?, Layer.ofBindings, List.find?_map] at found
  rcases Option.map_eq_some_iff.mp found with ⟨_, first, rfl⟩
  rcases Option.map_eq_some_iff.mp first with ⟨entry, inside, rfl⟩
  exact ready _ entry (List.mem_of_find?_eq_some inside)

theorem every_ofBindings {holds : Scene → Slot → Prop}
    (ready : ∀ owner value, holds owner (.ready value)) (bindings : Value.Bindings) :
    Every holds [.ofBindings bindings] :=
  every_ofBindings_of_mem fun owner binding _ => ready owner binding.2

end Scene

theorem Layer.mem_names {layer : Layer} (member : name ∈ layer.map Prod.fst) :
    ∃ slot, layer.get? name = some slot := by
  rcases List.mem_map.mp member with ⟨entry, inside, same⟩
  rw [Layer.get?]
  cases found : layer.find? fun entry => entry.1 == name with
  | none =>
    have absent := List.find?_eq_none.mp found entry inside
    exact absurd (beq_iff_eq.mpr same) absent
  | some entry => exact ⟨_, rfl⟩

theorem Layer.mem_of_get? {layer : Layer} {slot : Slot} (found : layer.get? name = some slot) :
    name ∈ layer.map Prod.fst := by
  rw [Layer.get?] at found
  rcases Option.map_eq_some_iff.mp found with ⟨entry, first, _⟩
  have same := List.find?_some first
  exact List.mem_map.mpr ⟨entry, List.mem_of_find?_eq_some first, beq_iff_eq.mp same⟩

/-- A name in sight is found. -/
theorem Scene.find?_ne_none (seen : name ∈ scene.names) : scene.find? name ≠ none := by
  induction scene with
  | nil => cases seen
  | cons layer outer ih =>
    rw [Scene.find?]
    split
    · rintro ⟨⟩
    · rename_i absent
      rcases List.mem_append.mp seen with own | further
      · rcases Layer.mem_names own with ⟨slot, found⟩
        cases absent.symm.trans found
      · exact ih further

/-- What is found is in sight. -/
theorem Scene.mem_names_of_find? {place : Scene × Slot} (found : scene.find? name = some place) :
    name ∈ scene.names := by
  induction scene with
  | nil => cases found
  | cons layer outer ih =>
    rw [Scene.find?] at found
    split at found
    · rename_i holds
      exact List.mem_append_left _ (Layer.mem_of_get? holds)
    · exact List.mem_append_right _ (ih found)

/-- The assignments of a section can be seen inside it. -/
theorem assigned_subset_names (scene : Scene) (part : Section Expr) :
    Section.assigned part.expressions ++ scene.names ⊆ (Meaning.inside scene part).names := by
  refine List.append_subset.mpr ⟨fun name assigned => ?_, List.subset_append_right _ _⟩
  rw [Section.mem_assigned] at assigned
  rcases Option.isSome_iff_exists.mp assigned with ⟨operand, last⟩
  have found := (Layer.get?_ofSection part.expressions name).trans
    (congrArg (Option.map Slot.ofOperand) last)
  exact List.mem_append_left _ (Layer.mem_of_get? found)

/-- What a name stands for has a value or waits for one that can be found, and
all definitions in it are of names in sight. -/
def Slot.Sound (owner : Scene) : Slot → Prop
  | .pending operand =>
      operand.Anchored owner.names ∧ ∃ depth value, meaning depth owner operand = .ok value
  | .function lambda => lambda.Anchored owner.names
  | .ready _ => True
  | .resolving => False

abbrev Scene.Sound (scene : Scene) : Prop :=
  scene.Every fun owner slot => slot.Sound owner

/-! ## Sections that have a value -/

namespace Meaning

variable {mean : Meaning}

/-- An assignment enters its value, unless it is hidden. -/
def enter (harvest : Harvest) (key : String) (operand : Expr) (value : Value) : Harvest :=
  { harvest with
    fields :=
      if isHidden key operand then harvest.fields else Fields.insert harvest.fields key value
    trailing := none }

theorem gather_assignment_eq_ok :
    mean.gather scene harvest (.assignment key operand) = .ok after ↔
      ∃ value, (operand.isFunction = false → mean.force scene key = .ok value) ∧
        after = enter harvest key operand value := by
  rw [gather]
  simp only [enter]
  by_cases function : operand.isFunction = true
  · rw [if_pos function, isHidden, function, Bool.or_true]
    constructor
    · intro found
      cases found
      exact ⟨.unit, (by rintro ⟨⟩), rfl⟩
    · rintro ⟨_, _, rfl⟩
      rfl
  · rw [if_neg function]
    constructor
    · intro found
      rcases outcome_bind_eq_ok.mp found with ⟨value, forced, same⟩
      cases same
      exact ⟨value, fun _ => forced, rfl⟩
    · rintro ⟨value, forced, rfl⟩
      exact outcome_bind_eq_ok.mpr ⟨value, forced (Bool.eq_false_iff.mpr function), rfl⟩

/-- Where a section has a value, so has each of its assignments. -/
theorem forced_of_gatherAll (found : mean.gatherAll scene harvest expressions = .ok after)
    (member : .assignment key operand ∈ expressions) (plain : operand.isFunction = false) :
    ∃ value, mean.force scene key = .ok value := by
  induction expressions generalizing harvest with
  | nil => cases member
  | cons expression rest ih =>
    rcases outcome_bind_eq_ok.mp found with ⟨middle, first, behind⟩
    rcases List.mem_cons.mp member with rfl | further
    · rcases gather_assignment_eq_ok.mp first with ⟨value, forced, _⟩
      exact ⟨value, forced plain⟩
    · exact ih behind further

/-! ## The order of assignments -/

theorem enter_comm {later : String} {behind : Expr} (different : key ≠ later)
    (value next : Value) :
    enter (enter harvest key operand value) later behind next =
      enter (enter harvest later behind next) key operand value := by
  have fields := Fields.insert_comm different harvest.fields value next
  simp only [enter]
  split <;> split <;> simp_all only

/-- Assignments to different names are entered in any order. -/
theorem gatherAll_perm (perm : expressions.Perm permuted)
    (assignments : ∀ expression ∈ expressions, expression.isAssignment = true)
    (distinct : (Section.assigned expressions).Nodup)
    (found : mean.gatherAll scene harvest expressions = .ok after) :
    mean.gatherAll scene harvest permuted = .ok after := by
  induction perm generalizing harvest with
  | nil => exact found
  | @cons expression rest moved _ ih =>
    rcases outcome_bind_eq_ok.mp found with ⟨middle, first, behind⟩
    have later : (Section.assigned rest).Nodup := by
      rw [Section.assigned_eq] at distinct ⊢
      exact distinct.sublist ((List.sublist_cons_self _ _).filterMap _)
    refine outcome_bind_eq_ok.mpr ⟨middle, first, ih (fun other member => ?_) later behind⟩
    exact assignments other (List.mem_cons_of_mem _ member)
  | swap second first rest =>
    have one := assignments first (by simp)
    have two := assignments second (by simp)
    cases first with
    | assignment key operand =>
      cases second with
      | assignment later next =>
        rcases outcome_bind_eq_ok.mp found with ⟨_, entered, found⟩
        rcases outcome_bind_eq_ok.mp found with ⟨_, both, behind⟩
        rcases gather_assignment_eq_ok.mp entered with ⟨value, forced, rfl⟩
        rcases gather_assignment_eq_ok.mp both with ⟨held, reached, rfl⟩
        have different : key ≠ later := fun same =>
          (List.nodup_cons.mp distinct).1 (same ▸ List.mem_cons_self)
        rw [enter_comm different] at behind
        exact outcome_bind_eq_ok.mpr ⟨_, gather_assignment_eq_ok.mpr ⟨held, reached, rfl⟩,
          outcome_bind_eq_ok.mpr ⟨_, gather_assignment_eq_ok.mpr ⟨value, forced, rfl⟩, behind⟩⟩
      | _ => cases two
    | _ => cases one
  | trans front _ ihFront ihBehind =>
    refine ihBehind (fun other member => assignments other (front.symm.subset member)) ?_
      (ihFront assignments distinct found)
    rw [Section.assigned_eq] at distinct ⊢
    exact (front.filterMap _).nodup distinct

end Meaning

namespace Scene.Sound

variable (sound : scene.Sound)

include sound

/-- Names inside a section that has a value have values. -/
theorem inside {part : Section Expr} (anchored : part.Anchored scene.names)
    (found : (meaning depth).gatherAll (Meaning.inside scene part) harvest part.expressions =
      .ok after) :
    Scene.Sound (Meaning.inside scene part) := by
  refine ⟨fun name slot holds => ?_, sound⟩
  rw [Layer.get?_ofSection] at holds
  rcases Option.map_eq_some_iff.mp holds with ⟨operand, last, rfl⟩
  have member := Section.mem_of_lastOperand? last
  have known : operand.Anchored (Meaning.inside scene part).names := by
    rcases part with ⟨scope, expressions⟩
    have own := anchoredAll_iff.mp anchored _ member
    exact Expr.Anchored.mono operand (assigned_subset_names scene ⟨scope, expressions⟩) own
  have waits : operand.isFunction = false →
      ∃ depth value, meaning depth (Meaning.inside scene part) operand = .ok value := by
    intro plain
    rcases Meaning.forced_of_gatherAll found member plain with ⟨value, forced⟩
    rcases outcome_bind_eq_ok.mp forced with ⟨named, resolved, _⟩
    have own := Meaning.find?_inside_of_last scene last plain
    cases (meaning depth).resolve_eq_ok.mp resolved with
    | ready holds => cases own.symm.trans holds
    | function holds => cases own.symm.trans holds
    | pending holds means =>
      cases own.symm.trans holds
      exact ⟨depth, _, means⟩
  cases operand with
  | function lambda => exact known
  | _ => exact ⟨known, waits rfl⟩

theorem call (parameter : String) (argument : Value) :
    Scene.Sound (.ofArgument parameter argument :: scene) :=
  sound.ofArgument (fun _ => trivial) parameter

/-- No name in sight fails to be resolved. -/
theorem not_mem_of_unresolved {missing : String}
    (lost : (meaning depth).resolve scene name = .error (.unresolvedIdentifier missing)) :
    name ∉ scene.names := by
  intro seen
  rw [Meaning.resolve] at lost
  split at lost
  · rename_i absent
    exact Scene.find?_ne_none seen absent
  · cases lost
  · cases lost
  · cases lost
  · rename_i owner operand found
    rcases (sound.find? name _ found).2 with ⟨_, enough, value, means⟩
    cases reached : meaning depth owner operand with
    | ok _ =>
      rw [reached] at lost
      cases lost
    | error failure =>
      rw [reached] at lost
      cases lost
      have failed : meaning depth owner operand ≠ .error .exhausted := by
        rw [reached]
        rintro ⟨⟩
      have found : meaning enough owner operand ≠ .error .exhausted := by
        rw [means]
        rintro ⟨⟩
      have same := (Steady.expression owner operand).eq failed found
      rw [reached, means] at same
      cases same

end Scene.Sound

/-! ## The rules of meaning -/

/-- To a limited depth, what is rearranged means the same. -/
def Transfers (depth : Nat) : Prop :=
  ∀ {scene other : Scene} {expression another : Expr} {value : Value}, scene.Sound →
    RearrangedScene scene other → Rearranged expression another →
    expression.Anchored scene.names → meaning depth scene expression = .ok value →
    meaning depth other another = .ok value

/-- A name is resolved to the same value, or to a function that is rearranged. -/
inductive RearrangedNamed : Named → Named → Prop
  | value (value : Value) : RearrangedNamed (.value value) (.value value)
  | function {parameter : String} {body other : Expr} {owner place : Scene} : owner.Sound →
      body.Anchored (parameter :: owner.names) → RearrangedScene owner place →
      Rearranged body other →
      RearrangedNamed (.function ⟨parameter, body⟩ owner) (.function ⟨parameter, other⟩ place)

namespace Transfers

variable (transfers : Transfers depth) (sound : scene.Sound)
  (related : RearrangedScene scene other)

include transfers sound related

theorem resolve {named : Named} (found : (meaning depth).resolve scene name = .ok named) :
    ∃ held, (meaning depth).resolve other name = .ok held ∧ RearrangedNamed named held := by
  cases (meaning depth).resolve_eq_ok.mp found with
  | ready holds =>
    rcases related.find? holds with ⟨place, held, moved, _, slot⟩
    cases slot
    exact ⟨_, (meaning depth).resolve_eq_ok.mpr (.ready moved), .value _⟩
  | pending holds means =>
    rcases sound.find? name _ holds with ⟨sound, anchored, _⟩
    rcases related.find? holds with ⟨place, held, moved, scenes, slot⟩
    cases slot with
    | pending inner =>
      have same := transfers sound scenes inner anchored means
      exact ⟨_, (meaning depth).resolve_eq_ok.mpr (.pending moved same), .value _⟩
  | function holds =>
    rcases sound.find? name _ holds with ⟨sound, anchored⟩
    rcases related.find? holds with ⟨place, held, moved, scenes, slot⟩
    cases slot with
    | function parameter body =>
      exact ⟨_, (meaning depth).resolve_eq_ok.mpr (.function moved),
        .function sound anchored scenes body⟩

theorem force (found : (meaning depth).force scene name = .ok value) :
    (meaning depth).force other name = .ok value := by
  rcases outcome_bind_eq_ok.mp found with ⟨named, resolved, same⟩
  rcases transfers.resolve sound related resolved with ⟨held, moved, kept⟩
  refine outcome_bind_eq_ok.mpr ⟨held, moved, ?_⟩
  cases kept with
  | value value => exact same
  | function _ _ _ _ => exact same

omit sound related in
theorem call {parameter : String} {body moved : Expr} {result : Value × List Value}
    (sound : scene.Sound) (related : RearrangedScene scene other)
    (anchored : body.Anchored (parameter :: scene.names)) (rearranged : Rearranged body moved)
    (found : (meaning depth).call name waiting parameter body scene = .ok result) :
    (meaning depth).call name waiting parameter moved other = .ok result := by
  induction waiting generalizing scene other parameter body moved with
  | nil => cases found
  | cons argument rest ih =>
    have inside := sound.call parameter argument
    have scenes := List.Forall₂.cons (RearrangedLayer.ofArgument parameter argument) related
    cases rearranged with
    | function inner deeper => exact ih inside scenes anchored deeper found
    | _ =>
      rcases outcome_bind_eq_ok.mp found with ⟨value, means, same⟩
      refine outcome_bind_eq_ok.mpr ⟨value, transfers inside scenes ?_ anchored means, same⟩
      constructor <;> assumption

theorem apply {definition given : Option (Lambda Expr)} {result : Value × List Value}
    (anchored : definition.isSome = true → name ∈ scene.names)
    (found : (meaning depth).apply name definition scene waiting = .ok result) :
    (meaning depth).apply name given other waiting = .ok result := by
  rw [Meaning.apply] at found ⊢
  cases resolved : (meaning depth).resolve scene name with
  | ok named =>
    rcases transfers.resolve sound related resolved with ⟨held, moved, kept⟩
    rw [resolved] at found
    rw [moved]
    cases kept with
    | value value => exact found
    | function sound anchored scenes body =>
      exact transfers.call sound scenes anchored body found
  | error failure =>
    rw [resolved] at found
    cases failure with
    | unresolvedIdentifier missing =>
      cases definition with
      | none => cases found
      | some lambda => exact absurd (anchored rfl) (sound.not_mem_of_unresolved resolved)
    | _ => cases found

theorem operandValue {result : Value × List Value} (anchored : operand.Anchored scene.names)
    (rearranged : Rearranged operand another)
    (found : (meaning depth).operandValue scene waiting operand = .ok result) :
    (meaning depth).operandValue other waiting another = .ok result := by
  have means {value : Value} (found : meaning depth scene operand = .ok value) :
      meaning depth other another = .ok value :=
    transfers sound related rearranged anchored found
  cases rearranged with
  | application name definition given operands =>
    cases operands with
    | nil => exact transfers.apply sound related anchored.1 found
    | cons first rest =>
      rcases outcome_bind_eq_ok.mp found with ⟨value, inner, same⟩
      exact outcome_bind_eq_ok.mpr ⟨value, means inner, same⟩
  | _ =>
    rcases outcome_bind_eq_ok.mp found with ⟨value, inner, same⟩
    exact outcome_bind_eq_ok.mpr ⟨value, means inner, same⟩

theorem arguments {values : List Value} (anchored : AnchoredAll scene.names expressions)
    (rearranged : List.Forall₂ Rearranged expressions others)
    (found : (meaning depth).arguments scene expressions = .ok values) :
    (meaning depth).arguments other others = .ok values := by
  induction rearranged generalizing values with
  | nil => exact found
  | cons head _ ih =>
    rcases outcome_bind_eq_ok.mp found with ⟨left, behind, found⟩
    rcases outcome_bind_eq_ok.mp found with ⟨result, first, same⟩
    exact outcome_bind_eq_ok.mpr ⟨left, ih anchored.2 behind, outcome_bind_eq_ok.mpr
      ⟨result, transfers.operandValue sound related anchored.1 head first, same⟩⟩

theorem application {definition given : Option (Lambda Expr)}
    (defined : definition.isSome = true → name ∈ scene.names)
    (anchored : AnchoredAll scene.names expressions)
    (rearranged : List.Forall₂ Rearranged expressions others)
    (found : (meaning depth).application name expressions definition scene = .ok value) :
    (meaning depth).application name others given other = .ok value := by
  rcases outcome_bind_eq_ok.mp found with ⟨values, operands, found⟩
  rcases outcome_bind_eq_ok.mp found with ⟨result, applied, same⟩
  exact outcome_bind_eq_ok.mpr ⟨values,
    transfers.arguments sound related anchored rearranged operands,
    outcome_bind_eq_ok.mpr ⟨result, transfers.apply sound related defined applied, same⟩⟩

/-! ## Blocks -/

theorem gather (anchored : expression.Anchored scene.names)
    (rearranged : Rearranged expression another)
    (found : (meaning depth).gather scene harvest expression = .ok after) :
    (meaning depth).gather other harvest another = .ok after := by
  have means {value : Value} (found : meaning depth scene expression = .ok value) :
      meaning depth other another = .ok value :=
    transfers sound related rearranged anchored found
  cases rearranged with
  | assignment key inner =>
    rcases Meaning.gather_assignment_eq_ok.mp found with ⟨value, forced, same⟩
    refine Meaning.gather_assignment_eq_ok.mpr ⟨value, fun plain => ?_, ?_⟩
    · exact transfers.force sound related (forced (inner.isFunction_eq.symm.trans plain))
    · rw [same, Meaning.enter, Meaning.enter, inner.isHidden_eq]
  | «yield» inner =>
    rcases outcome_bind_eq_ok.mp found with ⟨value, first, same⟩
    exact outcome_bind_eq_ok.mpr
      ⟨value, transfers sound related inner anchored first, same⟩
  | _ =>
    rcases outcome_bind_eq_ok.mp found with ⟨value, first, same⟩
    exact outcome_bind_eq_ok.mpr ⟨value, means first, same⟩

theorem gatherAll (anchored : AnchoredAll scene.names expressions)
    (rearranged : List.Forall₂ Rearranged expressions others)
    (found : (meaning depth).gatherAll scene harvest expressions = .ok after) :
    (meaning depth).gatherAll other harvest others = .ok after := by
  induction rearranged generalizing harvest with
  | nil => exact found
  | cons head _ ih =>
    rcases outcome_bind_eq_ok.mp found with ⟨middle, first, behind⟩
    exact outcome_bind_eq_ok.mpr ⟨middle, transfers.gather sound related anchored.1 head first,
      ih anchored.2 behind⟩

/-- The value of a section, and that the names inside it have values. -/
theorem sectionValue {part moved : Section Expr} (anchored : part.Anchored scene.names)
    (rearranged : RearrangedSection part moved)
    (found : (meaning depth).sectionValue scene part = .ok value) :
    (meaning depth).sectionValue other moved = .ok value ∧
      Scene.Sound (Meaning.inside scene part) := by
  rcases outcome_bind_eq_ok.mp found with ⟨harvest, gathered, same⟩
  have sound := Scene.Sound.inside sound anchored gathered
  have scenes : RearrangedScene (Meaning.inside scene part) (Meaning.inside other moved) :=
    .cons (.ofSection rearranged) related
  refine ⟨outcome_bind_eq_ok.mpr ⟨harvest, ?_, same⟩, sound⟩
  rcases part with ⟨scope, expressions⟩
  have anchored : AnchoredAll (Meaning.inside scene ⟨scope, expressions⟩).names expressions :=
    AnchoredAll.mono expressions (assigned_subset_names scene ⟨scope, expressions⟩) anchored
  cases rearranged with
  | kept _ all => exact transfers.gatherAll sound scenes anchored all gathered
  | permuted _ assignments distinct all perm =>
    refine Meaning.gatherAll_perm perm (Rearranged.assignments all assignments) ?_
      (transfers.gatherAll sound scenes anchored all gathered)
    rw [Rearranged.assigned_eq all]
    exact distinct

theorem sectionValues {sections moved : List (Section Expr)} {values : List Value}
    (anchored : AnchoredSections scene.names sections)
    (rearranged : List.Forall₂ RearrangedSection sections moved)
    (found : (meaning depth).sectionValues scene sections = .ok values) :
    (meaning depth).sectionValues other moved = .ok values := by
  induction rearranged generalizing values with
  | nil => exact found
  | cons head _ ih =>
    rcases outcome_bind_eq_ok.mp found with ⟨value, first, found⟩
    rcases outcome_bind_eq_ok.mp found with ⟨rest, behind, same⟩
    exact outcome_bind_eq_ok.mpr ⟨value,
      (transfers.sectionValue sound related anchored.1 head first).1,
      outcome_bind_eq_ok.mpr ⟨rest, ih anchored.2 behind, same⟩⟩

theorem blockValue {sections moved : List (Section Expr)}
    (anchored : AnchoredBlock scene.names sections)
    (rearranged : List.Forall₂ RearrangedSection sections moved)
    (found : (meaning depth).blockValue scene sections = .ok value) :
    (meaning depth).blockValue other moved = .ok value := by
  cases rearranged with
  | nil => exact found
  | @cons part front rest behind head tail =>
    have inside : RearrangedScene (Meaning.inside scene part) (Meaning.inside other front) :=
      .cons (.ofSection head) related
    have known := AnchoredSections.mono rest (assigned_subset_names scene part) anchored.2
    cases tail with
    | nil => exact (transfers.sectionValue sound related anchored.1 head found).1
    | cons second others =>
      rcases outcome_bind_eq_ok.mp found with ⟨first, valued, found⟩
      rcases outcome_bind_eq_ok.mp found with ⟨values, further, same⟩
      rcases transfers.sectionValue sound related anchored.1 head valued with ⟨moved, sound⟩
      exact outcome_bind_eq_ok.mpr ⟨first, moved, outcome_bind_eq_ok.mpr
        ⟨values, transfers.sectionValues sound inside known (.cons second others) further, same⟩⟩

/-! ## Expressions -/

theorem items {values : List Value} (anchored : AnchoredAll scene.names expressions)
    (rearranged : List.Forall₂ Rearranged expressions others)
    (found : (meaning depth).items scene expressions = .ok values) :
    (meaning depth).items other others = .ok values := by
  induction rearranged generalizing values with
  | nil => exact found
  | cons head _ ih =>
    rcases outcome_bind_eq_ok.mp found with ⟨value, first, found⟩
    rcases outcome_bind_eq_ok.mp found with ⟨rest, behind, same⟩
    exact outcome_bind_eq_ok.mpr ⟨value, transfers sound related head anchored.1 first,
      outcome_bind_eq_ok.mpr ⟨rest, ih anchored.2 behind, same⟩⟩

theorem step (anchored : expression.Anchored scene.names)
    (rearranged : Rearranged expression another)
    (found : (meaning depth).step scene expression = .ok value) :
    (meaning depth).step other another = .ok value := by
  cases rearranged with
  | unit => exact found
  | scalar _ => exact found
  | vector all =>
    rcases outcome_bind_eq_ok.mp found with ⟨values, items, same⟩
    exact outcome_bind_eq_ok.mpr
      ⟨values, transfers.items sound related anchored all items, same⟩
  | assignment _ inner | «yield» inner | «scope» _ inner =>
    exact transfers sound related inner anchored found
  | application _ _ _ operands =>
    exact transfers.application sound related anchored.1 anchored.2 operands found
  | function _ _ => cases found
  | lift inner =>
    rcases outcome_bind_eq_ok.mp found with ⟨held, means, same⟩
    exact outcome_bind_eq_ok.mpr ⟨held, transfers sound related inner anchored means, same⟩
  | block sections => exact transfers.blockValue sound related anchored sections found
  | merge _ first second =>
    rcases outcome_bind_eq_ok.mp found with ⟨left, means, found⟩
    rcases outcome_bind_eq_ok.mp found with ⟨right, further, same⟩
    refine outcome_bind_eq_ok.mpr ⟨left, transfers sound related first anchored.1 means,
      outcome_bind_eq_ok.mpr ⟨right, transfers sound related second anchored.2 further, ?_⟩⟩
    rw [Rearranged.cardinality_eq _ first]
    exact same
  | access _ inner =>
    rcases outcome_bind_eq_ok.mp found with ⟨held, means, same⟩
    exact outcome_bind_eq_ok.mpr ⟨held, transfers sound related inner anchored means, same⟩
  | pipeline _ _ => cases found
  | patternMatch _ _ => cases found

end Transfers

/-- What is rearranged means the same, where it means something. -/
theorem transfers_meaning (depth : Nat) : Transfers depth := by
  induction depth with
  | zero => exact fun _ _ _ _ found => by cases found
  | succ depth ih =>
    exact fun sound related rearranged anchored found =>
      Transfers.step ih sound related anchored rearranged found

namespace Program

/-- A parsed program means the same when it is rearranged. -/
theorem meaning_of_rearranged {tokens : List Token} {program moved : Program}
    {bindings : Value.Bindings} (parsed : Document.ofTokens tokens = .ok program.document)
    (rearranged : Rearranged program.document.root moved.document.root)
    (found : program.meaning bindings depth = .ok value) :
    moved.meaning bindings depth = .ok value :=
  transfers_meaning depth (Scene.every_ofBindings (fun _ _ => trivial) bindings)
    (.cons (.ofBindings bindings) .nil) rearranged
    (Expr.Anchored.mono _ (List.nil_subset _) (Document.anchored parsed)) found

end Program
end Manifest
