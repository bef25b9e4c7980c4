import Mathlib.Order.Monotone.Basic
import Manifest.Proofs.Evaluation.Calls

/-!
# How deep an evaluation goes

Without definitions a document has as many places as expressions.  What an
expression asks for stands in one of them.  To one more depth more places have
their values, or no place will ever have one: so whatever a document means, it
means to a depth of its own size.
-/

namespace Manifest

mutual
/-- The places of an expression and of all its parts. -/
def Expr.places (scene : Scene) : Expr → List Site
  | .unit => [(scene, .unit)]
  | .scalar value => [(scene, .scalar value)]
  | .vector items => (scene, .vector items) :: placesAll scene items
  | .assignment key operand => (scene, .assignment key operand) :: operand.places scene
  | .application name operands definition =>
      (scene, .application name operands definition) :: placesAll scene operands
  | .function lambda => (scene, .function lambda) :: lambda.places scene
  | .lift operand => (scene, .lift operand) :: operand.places scene
  | .merge left right mode =>
      (scene, .merge left right mode) :: (left.places scene ++ right.places scene)
  | .yield operand => (scene, .yield operand) :: operand.places scene
  | .block sections => (scene, .block sections) :: placesBlock scene sections
  | .scope id operand => (scene, .scope id operand) :: operand.places scene
  | .pipeline left right =>
      (scene, .pipeline left right) :: (left.places scene ++ right.places scene)
  | .patternMatch subject pattern =>
      (scene, .patternMatch subject pattern) :: (subject.places scene ++ pattern.places scene)
  | .access target field => (scene, .access target field) :: target.places scene
termination_by structural expression => expression

def placesAll (scene : Scene) : List Expr → List Site
  | [] => []
  | expression :: rest => expression.places scene ++ placesAll scene rest
termination_by structural expressions => expressions

def Lambda.places (scene : Scene) : Lambda Expr → List Site
  | ⟨parameter, body⟩ => body.places (.ofArgument parameter .unit :: scene)
termination_by structural lambda => lambda

/-- Later sections stand inside the first one. -/
def placesBlock (scene : Scene) : List (Section Expr) → List Site
  | [] => []
  | front :: rest => front.places scene ++ placesSections (Meaning.inside scene front) rest
termination_by structural sections => sections

def placesSections (scene : Scene) : List (Section Expr) → List Site
  | [] => []
  | part :: rest => part.places scene ++ placesSections scene rest
termination_by structural sections => sections

def Section.places (scene : Scene) : Section Expr → List Site
  | ⟨_, expressions⟩ => placesAll (.ofSection expressions :: scene) expressions
termination_by structural part => part
end

mutual
theorem Expr.length_places (scene : Scene) : (expression : Expr) →
    (expression.places scene).length = expression.size
  | .unit | .scalar _ => rfl
  | .vector items | .application _ items _ => congrArg (· + 1) (length_placesAll scene items)
  | .assignment _ operand | .lift operand | .yield operand | .scope _ operand
  | .access operand _ => congrArg (· + 1) (operand.length_places scene)
  | .function lambda => congrArg (· + 1) (lambda.length_places scene)
  | .merge left right _ | .pipeline left right | .patternMatch left right => by
    rw [Expr.places, Expr.size, List.length_cons, List.length_append, left.length_places,
      right.length_places]
  | .block sections => congrArg (· + 1) (length_placesBlock scene sections)
termination_by structural expression => expression

theorem length_placesAll (scene : Scene) : (expressions : List Expr) →
    (placesAll scene expressions).length = Expr.sizeList expressions
  | [] => rfl
  | expression :: rest => by
    rw [placesAll, Expr.sizeList, List.length_append, expression.length_places,
      length_placesAll scene rest]
termination_by structural expressions => expressions

theorem Lambda.length_places (scene : Scene) : (lambda : Lambda Expr) →
    (lambda.places scene).length = Expr.sizeBody lambda
  | ⟨_, body⟩ => body.length_places _
termination_by structural lambda => lambda

theorem length_placesBlock (scene : Scene) : (sections : List (Section Expr)) →
    (placesBlock scene sections).length = Expr.sizeSections sections
  | [] => rfl
  | front :: rest => by
    rw [placesBlock, Expr.sizeSections, List.length_append, front.length_places,
      length_placesSections _ rest]
termination_by structural sections => sections

theorem length_placesSections (scene : Scene) : (sections : List (Section Expr)) →
    (placesSections scene sections).length = Expr.sizeSections sections
  | [] => rfl
  | part :: rest => by
    rw [placesSections, Expr.sizeSections, List.length_append, part.length_places,
      length_placesSections scene rest]
termination_by structural sections => sections

theorem Section.length_places (scene : Scene) : (part : Section Expr) →
    (part.places scene).length = Expr.sizeSection part
  | ⟨_, expressions⟩ => length_placesAll _ expressions
termination_by structural part => part
end

variable {scene : Scene} {places : List Site} {place : Site} {expressions : List Expr}
  {expression body : Expr} {name : String}

theorem Expr.mem_places (expression : Expr) (scene : Scene) :
    (scene, expression) ∈ expression.places scene := by
  cases expression <;> exact List.mem_cons_self

/-! ## Places that are closed -/

/-- Whatever a slot leads to is among some places. -/
def Slot.Placed (places : List Site) (owner : Scene) : Slot → Prop
  | .pending operand => operand.places owner ⊆ places
  | .function lambda => lambda.places owner ⊆ places
  | _ => True

abbrev Scene.Placed (places : List Site) (scene : Scene) : Prop :=
  scene.Every fun owner slot => slot.Placed places owner

theorem mem_placesAll (member : expression ∈ expressions) :
    expression.places scene ⊆ placesAll scene expressions := by
  induction expressions with
  | nil => cases member
  | cons first rest ih =>
    rcases List.mem_cons.mp member with rfl | further
    · exact List.subset_append_left _ _
    · exact List.subset_append_of_subset_right _ (ih further)

namespace Scene.Placed

variable (placed : scene.Placed places)

include placed

theorem call (parameter : String) : Scene.Placed places (.ofArgument parameter .unit :: scene) :=
  placed.ofArgument (fun _ => trivial) parameter

theorem inside {part : Section Expr}
    (within : placesAll (Meaning.inside scene part) part.expressions ⊆ places) :
    Scene.Placed places (Meaning.inside scene part) := by
  refine ⟨fun name slot holds => ?_, placed⟩
  rw [Layer.get?_ofSection] at holds
  rcases Option.map_eq_some_iff.mp holds with ⟨operand, last, rfl⟩
  have member := Section.mem_of_lastOperand? last
  have own : operand.places (Meaning.inside scene part) ⊆ places :=
    fun place inner => within (mem_placesAll member (List.mem_cons_of_mem _ inner))
  cases operand with
  | function lambda => exact fun place inner => own (List.mem_cons_of_mem _ inner)
  | _ => exact own

end Scene.Placed

/-- What stands at a place carries no definitions, and its scene and its parts
lead to nothing but some places. -/
structure Site.Within (places : List Site) (place : Site) : Prop where
  bare : place.2.bare = place.2
  placed : place.1.Placed places
  within : place.2.places place.1 ⊆ places

mutual
/-- Whatever stands in a part of an expression stands in a place of its own. -/
theorem Expr.within_of_mem : (expression : Expr) → ∀ {scene : Scene},
    expression.bare = expression → scene.Placed places → expression.places scene ⊆ places →
    place ∈ expression.places scene → place.Within places
  | .unit, _, bare, placed, within, member | .scalar _, _, bare, placed, within, member => by
    cases List.mem_singleton.mp member
    exact ⟨bare, placed, within⟩
  | .vector items, _, bare, placed, within, member
  | .application _ items _, _, bare, placed, within, member => by
    rcases List.mem_cons.mp member with rfl | inner
    · exact ⟨bare, placed, within⟩
    · have parts : bareAll items = items := by
        simp only [Expr.bare, Expr.vector.injEq, Expr.application.injEq] at bare
        simp only [bare]
      exact within_of_mem_all items parts placed (List.subset_of_cons_subset within) inner
  | .assignment _ operand, _, bare, placed, within, member
  | .lift operand, _, bare, placed, within, member
  | .yield operand, _, bare, placed, within, member
  | .scope _ operand, _, bare, placed, within, member
  | .access operand _, _, bare, placed, within, member => by
    rcases List.mem_cons.mp member with rfl | inner
    · exact ⟨bare, placed, within⟩
    · have part : operand.bare = operand := by
        simp only [Expr.bare, Expr.assignment.injEq, Expr.lift.injEq, Expr.yield.injEq,
          Expr.scope.injEq, Expr.access.injEq] at bare
        simp only [bare]
      exact operand.within_of_mem part placed (List.subset_of_cons_subset within) inner
  | .function lambda, _, bare, placed, within, member => by
    rcases List.mem_cons.mp member with rfl | inner
    · exact ⟨bare, placed, within⟩
    · exact lambda.within_of_mem (Expr.function.inj bare) placed
        (List.subset_of_cons_subset within) inner
  | .merge left right _, _, bare, placed, within, member
  | .pipeline left right, _, bare, placed, within, member
  | .patternMatch left right, _, bare, placed, within, member => by
    rcases List.mem_cons.mp member with rfl | inner
    · exact ⟨bare, placed, within⟩
    · have parts : left.bare = left ∧ right.bare = right := by
        simp only [Expr.bare, Expr.merge.injEq, Expr.pipeline.injEq, Expr.patternMatch.injEq]
          at bare
        simp only [bare, and_self]
      rcases List.append_subset.mp (List.subset_of_cons_subset within) with ⟨first, second⟩
      rcases List.mem_append.mp inner with inner | inner
      · exact left.within_of_mem parts.1 placed first inner
      · exact right.within_of_mem parts.2 placed second inner
  | .block sections, _, bare, placed, within, member => by
    rcases List.mem_cons.mp member with rfl | inner
    · exact ⟨bare, placed, within⟩
    · exact within_of_mem_block sections (Expr.block.inj bare) placed
        (List.subset_of_cons_subset within) inner
termination_by structural expression => expression

theorem within_of_mem_all : (expressions : List Expr) → ∀ {scene : Scene},
    bareAll expressions = expressions → scene.Placed places →
    placesAll scene expressions ⊆ places → place ∈ placesAll scene expressions →
    place.Within places
  | [], _, _, _, _, member => absurd member List.not_mem_nil
  | expression :: rest, _, bare, placed, within, member => by
    rcases List.append_subset.mp within with ⟨first, others⟩
    rcases List.mem_append.mp member with inner | inner
    · exact expression.within_of_mem (List.cons.inj bare).1 placed first inner
    · exact within_of_mem_all rest (List.cons.inj bare).2 placed others inner
termination_by structural expressions => expressions

theorem Lambda.within_of_mem : (lambda : Lambda Expr) → ∀ {scene : Scene}, lambda.bare = lambda →
    scene.Placed places → lambda.places scene ⊆ places → place ∈ lambda.places scene →
    place.Within places
  | ⟨parameter, body⟩, _, bare, placed, within, member =>
      body.within_of_mem (Lambda.mk.inj bare).2 (placed.call parameter) within member
termination_by structural lambda => lambda

theorem within_of_mem_block : (sections : List (Section Expr)) → ∀ {scene : Scene},
    bareSections sections = sections → scene.Placed places → placesBlock scene sections ⊆ places →
    place ∈ placesBlock scene sections → place.Within places
  | [], _, _, _, _, member => absurd member List.not_mem_nil
  | front :: rest, _, bare, placed, within, member => by
    rcases List.append_subset.mp within with ⟨first, others⟩
    rcases List.mem_append.mp member with inner | inner
    · exact front.within_of_mem (List.cons.inj bare).1 placed first inner
    · refine within_of_mem_sections rest (List.cons.inj bare).2 (placed.inside ?_) others inner
      cases front
      exact first
termination_by structural sections => sections

theorem within_of_mem_sections : (sections : List (Section Expr)) → ∀ {scene : Scene},
    bareSections sections = sections → scene.Placed places →
    placesSections scene sections ⊆ places → place ∈ placesSections scene sections →
    place.Within places
  | [], _, _, _, _, member => absurd member List.not_mem_nil
  | part :: rest, _, bare, placed, within, member => by
    rcases List.append_subset.mp within with ⟨first, others⟩
    rcases List.mem_append.mp member with inner | inner
    · exact part.within_of_mem (List.cons.inj bare).1 placed first inner
    · exact within_of_mem_sections rest (List.cons.inj bare).2 placed others inner
termination_by structural sections => sections

theorem Section.within_of_mem : (part : Section Expr) → ∀ {scene : Scene}, part.bare = part →
    scene.Placed places → part.places scene ⊆ places → place ∈ part.places scene →
    place.Within places
  | ⟨number, expressions⟩, _, bare, placed, within, member => by
    have inside := @Scene.Placed.inside _ _ placed ⟨number, expressions⟩ within
    exact within_of_mem_all expressions (Section.mk.inj bare).2 inside within member
termination_by structural part => part
end

/-! ## Calls stay among the places -/

theorem Scene.core_mem (scene : Scene) (parameter : String) (body : Expr) :
    scene.core parameter body ∈ body.places (.ofArgument parameter .unit :: scene) := by
  fun_induction Scene.core scene parameter body with
  | case1 scene parameter inner body ih => exact List.mem_cons_of_mem _ ih
  | case2 => exact Expr.mem_places _ _

namespace Scene.Placed

variable (placed : scene.Placed places)

include placed

theorem forced_subset (name : String) : scene.forced name ⊆ places := by
  rw [Scene.forced]
  cases found : scene.find? name with
  | none => exact List.nil_subset _
  | some place =>
    rcases place with ⟨owner, slot⟩
    have leads := (placed.find? name _ found).2
    cases slot with
    | pending operand =>
      exact List.cons_subset.mpr ⟨leads (operand.mem_places owner), List.nil_subset _⟩
    | _ => exact List.nil_subset _

theorem called_subset (name : String) : scene.called name ⊆ places := by
  rw [Scene.called]
  cases found : scene.find? name with
  | none => exact List.nil_subset _
  | some place =>
    rcases place with ⟨owner, slot⟩
    have leads := (placed.find? name _ found).2
    cases slot with
    | function lambda =>
      rcases lambda with ⟨parameter, body⟩
      exact List.cons_subset.mpr ⟨leads (owner.core_mem parameter body), List.nil_subset _⟩
    | _ => exact List.nil_subset _

theorem ofName_subset (name : String) : scene.ofName name ⊆ places :=
  List.append_subset.mpr ⟨placed.forced_subset name, placed.called_subset name⟩

theorem ofOperand_subset (within : expression.places scene ⊆ places) :
    scene.ofOperand expression ⊆ places := by
  fun_cases Scene.ofOperand scene expression with
  | case1 name => exact placed.ofName_subset name
  | case2 => exact List.cons_subset.mpr ⟨within (expression.mem_places scene), List.nil_subset _⟩

theorem ofOperands_subset (within : placesAll scene expressions ⊆ places) :
    scene.ofOperands expressions ⊆ places := by
  induction expressions with
  | nil => exact List.nil_subset _
  | cons operand rest ih =>
    rcases List.append_subset.mp within with ⟨first, others⟩
    exact List.append_subset.mpr ⟨ih others, placed.ofOperand_subset first⟩

theorem ofMember_subset (within : expression.places scene ⊆ places) :
    scene.ofMember expression ⊆ places := by
  fun_cases Scene.ofMember scene expression with
  | case1 => exact List.nil_subset _
  | case2 key => exact placed.forced_subset key
  | case3 operand =>
    exact List.cons_subset.mpr
      ⟨within (List.mem_cons_of_mem _ (operand.mem_places scene)), List.nil_subset _⟩
  | case4 => exact List.cons_subset.mpr ⟨within (expression.mem_places scene), List.nil_subset _⟩

theorem ofSection_subset {part : Section Expr} (within : part.places scene ⊆ places) :
    scene.ofSection part ⊆ places ∧ Scene.Placed places (Meaning.inside scene part) := by
  have all : placesAll (Meaning.inside scene part) part.expressions ⊆ places := by
    cases part
    exact within
  have inside := placed.inside all
  refine ⟨fun place member => ?_, inside⟩
  rcases List.mem_flatMap.mp member with ⟨expression, member, called⟩
  exact inside.ofMember_subset (fun place inner => all (mem_placesAll member inner)) called

theorem ofBlock_subset {sections : List (Section Expr)}
    (within : placesBlock scene sections ⊆ places) : scene.ofBlock sections ⊆ places := by
  cases sections with
  | nil => exact List.nil_subset _
  | cons front rest =>
    rcases List.append_subset.mp within with ⟨first, others⟩
    rcases placed.ofSection_subset first with ⟨front, inside⟩
    refine List.append_subset.mpr ⟨front, ?_⟩
    clear within first front
    induction rest with
    | nil => exact List.nil_subset _
    | cons part rest ih =>
      rcases List.append_subset.mp others with ⟨own, others⟩
      exact List.append_subset.mpr ⟨(inside.ofSection_subset own).1, ih others⟩

/-- An expression asks for nothing but what stands in a place of its own. -/
theorem calls_subset (within : expression.places scene ⊆ places) :
    scene.calls expression ⊆ places := by
  have one {operand : Expr} (inner : operand.places scene ⊆ places) :
      [(scene, operand)] ⊆ places :=
    List.cons_subset.mpr ⟨inner (operand.mem_places scene), List.nil_subset _⟩
  cases expression with
  | unit | scalar _ | function _ | pipeline _ _ | patternMatch _ _ => exact List.nil_subset _
  | vector items =>
    have all := List.subset_of_cons_subset within
    intro place member
    rcases List.mem_map.mp member with ⟨item, inner, rfl⟩
    exact all (mem_placesAll inner (item.mem_places scene))
  | «yield» operand | assignment _ operand | «scope» _ operand | lift operand | access operand _ =>
    exact one (List.subset_of_cons_subset within)
  | merge left right mode =>
    rcases List.append_subset.mp (List.subset_of_cons_subset within) with ⟨first, second⟩
    exact List.append_subset.mpr ⟨one first, one second⟩
  | application name operands definition =>
    exact List.append_subset.mpr ⟨placed.ofOperands_subset (List.subset_of_cons_subset within),
      placed.ofName_subset name⟩
  | block sections => exact placed.ofBlock_subset (List.subset_of_cons_subset within)

end Scene.Placed

/-! ## Counting places -/

/-- At a place a value is found to a limited depth, whatever the arguments are there. -/
def Site.Found (depth : Nat) (place : Site) : Prop :=
  ∃ scene value, scene.Plain ∧ scene.skeleton = place.1 ∧ meaning depth scene place.2 = .ok value

/-- Places among which everything stands that is asked for there. -/
structure Closed (places : List Site) : Prop where
  bare : ∀ place ∈ places, place.2.bare = place.2
  calls : ∀ place ∈ places, place.1.calls place.2 ⊆ places

namespace Site.Found

theorem mono {depth further : Nat} (found : place.Found depth) (le : depth ≤ further) :
    place.Found further := by
  rcases found with ⟨scene, value, plain, same, means⟩
  exact ⟨scene, value, plain, same, (Steady.expression scene place.2).ok_of_le means le⟩

/-- If one more depth finds nothing new, two more do not either. -/
theorem stays {depth : Nat} (closed : Closed places)
    (nothing : ∀ place ∈ places, place.Found (depth + 1) → place.Found depth)
    (member : place ∈ places) (found : place.Found (depth + 2)) : place.Found (depth + 1) := by
  rcases found with ⟨scene, value, plain, same, means⟩
  have bare := closed.bare place member
  have asked := Asks.step plain bare (means : (meaning (depth + 1)).step scene place.2 = .ok value)
  refine ⟨scene, value, plain, same, asked.enough (meaning depth) ?_⟩
  intro inner expression held plain called reached
  rw [same] at called
  have inside := closed.calls place member called
  rcases nothing _ inside ⟨inner, held, plain, rfl, reached⟩ with
    ⟨source, known, plainSource, alike, means⟩
  exact meaning_of_alike plainSource (closed.bare _ inside) plain alike means reached

end Site.Found

section Counting

open Classical

/-- The places at which a value is found to a limited depth. -/
noncomputable def placesFound (places : List Site) (depth : Nat) : List Site :=
  places.filter fun place => decide (place.Found depth)

theorem mem_placesFound {depth : Nat} :
    place ∈ placesFound places depth ↔ place ∈ places ∧ place.Found depth := by
  rw [placesFound, List.mem_filter, decide_eq_true_eq]

theorem placesFound_sublist {depth further : Nat} (le : depth ≤ further) :
    (placesFound places depth).Sublist (placesFound places further) := by
  refine List.monotone_filter_right places fun place found => ?_
  rw [decide_eq_true_eq] at found ⊢
  exact found.mono le

/-- What is found at as many places is found at the same places. -/
theorem found_of_length_eq {depth further : Nat} (le : depth ≤ further)
    (same : (placesFound places further).length = (placesFound places depth).length)
    (member : place ∈ places) (found : place.Found further) : place.Found depth := by
  have equal := (placesFound_sublist le).eq_of_length same.symm
  have reached := mem_placesFound.mpr ⟨member, found⟩
  rw [← equal] at reached
  exact (mem_placesFound.mp reached).2

/-- If one more depth finds no more values, two more do not either. -/
theorem Closed.length_stays (closed : Closed places) (depth : Nat)
    (same : (placesFound places depth).length = (placesFound places (depth + 1)).length) :
    (placesFound places (depth + 1)).length = (placesFound places (depth + 2)).length := by
  refine congrArg List.length (List.filter_congr fun place member => decide_eq_decide.mpr ?_)
  refine ⟨fun found => found.mono (Nat.le_succ _), fun found => ?_⟩
  exact Site.Found.stays closed
    (fun place member => found_of_length_eq (Nat.le_succ depth) same.symm member) member found

/-- No more depth is needed than there are places. -/
theorem Closed.found_within (closed : Closed places) (member : place ∈ places) {depth : Nat}
    (found : place.Found depth) : place.Found places.length := by
  have stable {further : Nat} (le : places.length ≤ further) :=
    Nat.stabilises_of_monotone
      (monotone_nat_of_le_succ fun depth => (placesFound_sublist (Nat.le_succ depth)).length_le)
      (fun depth => List.length_filter_le _ _) closed.length_stays le
  rcases Nat.le_total depth places.length with le | le
  · exact found.mono le
  · exact found_of_length_eq le (stable le) member found

end Counting

/-! ## Programs -/

/-- What a caller binds, without values. -/
theorem Layer.skeleton_ofBindings (bindings : Value.Bindings) :
    (Layer.ofBindings bindings).skeleton =
      .ofBindings (bindings.map fun (name, _) => (name, .unit)) := by
  rw [Layer.skeleton, Layer.ofBindings, Layer.ofBindings, List.map_map, List.map_map]
  rfl

namespace Program

variable {program : Program} {bindings : Value.Bindings} {value : Value} {depth : Nat}

/-- Without definitions, a value that is meant at all is meant to the depth of
the size of its document. -/
theorem meaning_of_size (bare : program.document.root.bare = program.document.root)
    (means : program.meaning bindings depth = .ok value) :
    program.meaning bindings program.document.root.size = .ok value := by
  let root := program.document.root
  let scene : Scene := [.ofBindings bindings]
  have plain : scene.Plain := Scene.every_ofBindings (fun _ _ => rfl) bindings
  have placed : scene.skeleton.Placed (root.places scene.skeleton) := by
    rw [show scene.skeleton = [(Layer.ofBindings bindings).skeleton] from rfl,
      Layer.skeleton_ofBindings]
    exact Scene.every_ofBindings (fun _ _ => trivial) _
  have within : ∀ place ∈ root.places scene.skeleton,
      place.Within (root.places scene.skeleton) :=
    fun place member => root.within_of_mem bare placed (fun _ inner => inner) member
  have closed : Closed (root.places scene.skeleton) :=
    ⟨fun place member => (within place member).bare, fun place member =>
      (within place member).placed.calls_subset (within place member).within⟩
  have own : Site.Found depth (scene.skeleton, root) := ⟨scene, value, plain, rfl, means⟩
  rcases closed.found_within (root.mem_places scene.skeleton) own with
    ⟨source, held, plainSource, alike, found⟩
  rw [root.length_places] at found
  exact meaning_of_alike plainSource bare plain alike found means

end Program
end Manifest
