import Mathlib.Data.Fintype.EquivFin
import Mathlib.Data.Set.Finite.List
import Mathlib.Logic.Relation
import Manifest.Proofs.Evaluation.Depth
import Manifest.Proofs.Evaluation.FirstOrder

/-!
# What a meaning needs

Without functions the places that an expression asks for are known before
anything is evaluated.  An expression has a meaning only if all of them have
one, and its meaning is cut off only if the meaning of one of them is.  So a
meaning is never found where a place needs itself, by way of any others; and
where no place does, everything is settled at some depth, since there are only
finitely many places.
-/

namespace Manifest

/-- What stands at one place asks for what stands at another. -/
def Site.Needs (place other : Site) : Prop :=
  other ∈ place.1.calls place.2

/-- No name in sight has to do with functions, and none is under way. -/
abbrev Scene.FirstOrder (scene : Scene) : Prop :=
  scene.Every fun _ slot => slot.FirstOrder ∧ slot ≠ .resolving

/-- Neither an expression nor its scene has to do with functions. -/
def Site.FirstOrder (place : Site) : Prop :=
  place.1.FirstOrder ∧ place.2.FirstOrder

variable {mean : Meaning} {scene : Scene} {name : String} {first second calls : List Site}
  {place other : Site} {depth : Nat}

theorem Scene.FirstOrder.inside {part : Section Expr} (known : scene.FirstOrder)
    (plain : ∀ expression ∈ part.expressions, expression.FirstOrder) :
    Scene.FirstOrder (Meaning.inside scene part) := by
  refine ⟨fun name slot holds => ⟨?_, ?_⟩, known⟩
  · exact @Evaluator.firstOrder_slots part.expressions plain none name slot holds
  · rw [Layer.get?_ofSection] at holds
    rcases Option.map_eq_some_iff.mp holds with ⟨operand, _, rfl⟩
    cases operand <;> rintro ⟨⟩

/-- A failure that says only that a meaning has not been found. -/
def EvalError.isEndless : EvalError → Bool
  | .exhausted | .cycle _ => true
  | _ => false

/-! ## Rules -/

/-- A rule rests on some places: it is endless only where one of them is, and
has a result only when all of them have values. -/
structure Rests {β : Type} (mean : Meaning) (calls : List Site) (outcome : Except EvalError β) :
    Prop where
  plain : ∀ place ∈ calls, place.FirstOrder
  blame : ∀ failure, failure.isEndless = true → outcome = .error failure →
    ∃ place ∈ calls, mean place.1 place.2 = .error failure
  known : ∀ found, outcome = .ok found →
    ∀ place ∈ calls, ∃ value, mean place.1 place.2 = .ok value

namespace Rests

variable {β δ : Type} {outcome : Except EvalError β} {next : β → Except EvalError δ}

theorem pure (found : β) : Rests mean [] (Pure.pure found : Except EvalError β) where
  plain _ none := absurd none List.not_mem_nil
  blame _ _ := by rintro ⟨⟩
  known _ _ _ none := absurd none List.not_mem_nil

theorem failed {failure : EvalError} (genuine : failure.isEndless = false) :
    Rests mean [] (.error failure : Except EvalError β) where
  plain _ none := absurd none List.not_mem_nil
  blame other endless same := by
    cases same
    exact absurd endless (Bool.eq_false_iff.mp genuine)
  known _ none := by cases none

theorem expression {expression : Expr} (known : scene.FirstOrder)
    (plain : expression.FirstOrder) :
    Rests mean [(scene, expression)] (mean scene expression) where
  plain place member := by
    cases List.mem_singleton.mp member
    exact ⟨known, plain⟩
  blame failure _ failed := ⟨_, List.mem_cons_self, failed⟩
  known value means place member := by
    cases List.mem_singleton.mp member
    exact ⟨value, means⟩

theorem bind (front : Rests mean first outcome) (plain : ∀ place ∈ second, place.FirstOrder)
    (behind : ∀ found, outcome = .ok found → Rests mean second (next found)) :
    Rests mean (first ++ second) (outcome >>= next) where
  plain := List.forall_mem_append.mpr ⟨front.plain, plain⟩
  blame failure endless failed := by
    cases outcome with
    | ok found =>
      rcases (behind found rfl).blame failure endless failed with ⟨place, member, blamed⟩
      exact ⟨place, List.mem_append_right _ member, blamed⟩
    | error other =>
      rcases front.blame failure endless (congrArg _ (Except.error.inj failed)) with
        ⟨place, member, blamed⟩
      exact ⟨place, List.mem_append_left _ member, blamed⟩
  known result reached := by
    rcases outcome_bind_eq_ok.mp reached with ⟨found, reached, same⟩
    exact List.forall_mem_append.mpr
      ⟨front.known found reached, (behind found reached).known result same⟩

/-- Nothing more is asked for behind a rule. -/
theorem finish (front : Rests mean calls outcome)
    (behind : ∀ found, outcome = .ok found → ∀ failure, next found = .error failure →
      failure.isEndless = false) :
    Rests mean calls (outcome >>= next) where
  plain := front.plain
  blame failure endless failed := by
    cases outcome with
    | ok found => exact absurd endless (Bool.eq_false_iff.mp (behind found rfl failure failed))
    | error other => exact front.blame failure endless (congrArg _ (Except.error.inj failed))
  known result reached := by
    rcases outcome_bind_eq_ok.mp reached with ⟨found, reached, _⟩
    exact front.known found reached

/-! ## Names -/

theorem resolve (known : scene.FirstOrder) (name : String) :
    Rests mean (scene.ofName name) (mean.resolve scene name) := by
  rw [Meaning.resolve, Scene.ofName, Scene.forced, Scene.called]
  cases found : scene.find? name with
  | none => exact .failed rfl
  | some place =>
    rcases place with ⟨owner, slot⟩
    rcases known.find? name _ found with ⟨around, plain⟩
    cases slot with
    | ready value => exact .pure _
    | function lambda => exact plain.1.elim
    | resolving => exact absurd rfl plain.2
    | pending operand => exact (expression around plain.1).finish fun _ _ => by rintro _ ⟨⟩

theorem forced_eq_ofName (known : scene.FirstOrder) (name : String) :
    scene.forced name = scene.ofName name := by
  rw [Scene.ofName, Scene.called]
  cases found : scene.find? name with
  | none => exact (List.append_nil _).symm
  | some place =>
    rcases place with ⟨owner, slot⟩
    cases slot with
    | function lambda => exact (known.find? name _ found).2.1.elim
    | _ => exact (List.append_nil _).symm

theorem force (known : scene.FirstOrder) (name : String) :
    Rests mean (scene.forced name) (mean.force scene name) := by
  rw [forced_eq_ofName known]
  refine (resolve known name).finish fun named _ => ?_
  cases named <;> rintro _ ⟨⟩

/-- A name that is resolved is no function, so it takes no arguments. -/
theorem apply (known : scene.FirstOrder) (name : String) (arguments : List Value) :
    Rests mean (scene.ofName name) (mean.apply name none scene arguments) := by
  rw [Asks.apply_eq]
  refine (resolve known name).finish fun named resolved => ?_
  cases mean.resolve_eq_ok.mp resolved with
  | ready | pending => rintro _ ⟨⟩
  | function holds => exact (known.find? name _ holds).2.1.elim

theorem operandValue {operand : Expr} (known : scene.FirstOrder) (plain : operand.FirstOrder)
    (arguments : List Value) :
    Rests mean (scene.ofOperand operand) (mean.operandValue scene arguments operand) := by
  fun_cases Scene.ofOperand scene operand with
  | case1 name definition =>
    cases plain.definition_eq
    exact apply known name arguments
  | case2 operand noName =>
    rw [Meaning.operandValue_of_not_name _ noName]
    exact (expression known plain).finish fun _ _ => by rintro _ ⟨⟩

theorem arguments {operands : List Expr} (known : scene.FirstOrder)
    (plain : ∀ operand ∈ operands, operand.FirstOrder) :
    Rests mean (scene.ofOperands operands) (mean.arguments scene operands) := by
  induction operands with
  | nil => exact .pure []
  | cons operand rest ih =>
    rcases List.forall_mem_cons.mp plain with ⟨own, others⟩
    have last (values : List Value) :
        Rests mean (scene.ofOperand operand) (mean.operandValue scene values operand) :=
      operandValue known own values
    exact (ih others).bind (last []).plain fun values _ =>
      (last values).finish fun _ _ => by rintro _ ⟨⟩

theorem application {operands : List Expr} (known : scene.FirstOrder)
    (plain : ∀ operand ∈ operands, operand.FirstOrder) (name : String) :
    Rests mean (scene.ofOperands operands ++ scene.ofName name)
      (mean.application name operands none scene) := by
  rw [Meaning.application_eq]
  have applied (values : List Value) :
      Rests mean (scene.ofName name) (mean.apply name none scene values) :=
    apply known name values
  refine ((arguments known plain).bind (applied []).plain fun values _ =>
    applied values).finish fun found _ => ?_
  split <;> rintro _ ⟨⟩
  rfl

/-! ## Blocks -/

theorem gather {expression : Expr} (known : scene.FirstOrder) (plain : expression.FirstOrder)
    (harvest : Harvest) :
    Rests mean (scene.ofMember expression) (mean.gather scene harvest expression) := by
  fun_cases Scene.ofMember scene expression with
  | case1 key operand function =>
    rw [Meaning.gather, if_pos function]
    exact .pure _
  | case2 key operand noFunction =>
    rw [Meaning.gather, if_neg noFunction]
    exact (force known key).finish fun _ _ => by rintro _ ⟨⟩
  | case3 operand =>
    have own : operand.FirstOrder := plain.child (List.mem_singleton.mpr rfl)
    exact (Rests.expression known own).finish fun _ _ => by rintro _ ⟨⟩
  | case4 other noAssignment noYield =>
    rw [Meaning.gather_of_other _ noAssignment noYield]
    exact (Rests.expression known plain).finish fun _ _ => by rintro _ ⟨⟩

theorem gatherAll {expressions : List Expr} (known : scene.FirstOrder)
    (plain : ∀ expression ∈ expressions, expression.FirstOrder) (harvest : Harvest) :
    Rests mean (expressions.flatMap scene.ofMember)
      (mean.gatherAll scene harvest expressions) := by
  induction expressions generalizing harvest with
  | nil => exact .pure harvest
  | cons expression rest ih =>
    rcases List.forall_mem_cons.mp plain with ⟨own, others⟩
    exact (gather known own harvest).bind (ih others harvest).plain fun found _ => ih others found

theorem sectionValue {part : Section Expr} (known : scene.FirstOrder)
    (plain : ∀ expression ∈ part.expressions, expression.FirstOrder) :
    Rests mean (scene.ofSection part) (mean.sectionValue scene part) :=
  (gatherAll (known.inside plain) plain .empty).finish fun _ _ => by rintro _ ⟨⟩

theorem sectionValues {sections : List (Section Expr)} (known : scene.FirstOrder)
    (plain : ∀ part ∈ sections, ∀ expression ∈ part.expressions, expression.FirstOrder) :
    Rests mean (sections.flatMap scene.ofSection) (mean.sectionValues scene sections) := by
  induction sections with
  | nil => exact .pure []
  | cons part rest ih =>
    rcases List.forall_mem_cons.mp plain with ⟨own, others⟩
    exact (sectionValue known own).bind (ih others).plain fun _ _ =>
      (ih others).finish fun _ _ => by rintro _ ⟨⟩

theorem blockValue {sections : List (Section Expr)} (known : scene.FirstOrder)
    (plain : ∀ part ∈ sections, ∀ expression ∈ part.expressions, expression.FirstOrder) :
    Rests mean (scene.ofBlock sections) (mean.blockValue scene sections) := by
  fun_cases Meaning.blockValue mean scene sections with
  | case1 => exact .pure Value.unit
  | case2 only =>
    rw [Scene.ofBlock, List.flatMap_nil, List.append_nil]
    exact sectionValue known (plain only List.mem_cons_self)
  | case3 front rest several =>
    rcases List.forall_mem_cons.mp plain with ⟨own, others⟩
    have behind : Rests mean _ (mean.sectionValues (Meaning.inside scene front) rest) :=
      sectionValues (known.inside own) others
    exact (sectionValue known own).bind behind.plain fun _ _ =>
      behind.finish fun _ _ => by rintro _ ⟨⟩

/-! ## Expressions -/

theorem items {items : List Expr} (known : scene.FirstOrder)
    (plain : ∀ item ∈ items, item.FirstOrder) :
    Rests mean (items.map fun item => (scene, item)) (mean.items scene items) := by
  induction items with
  | nil => exact .pure []
  | cons item rest ih =>
    rcases List.forall_mem_cons.mp plain with ⟨own, others⟩
    exact (expression known own).bind (ih others).plain fun _ _ =>
      (ih others).finish fun _ _ => by rintro _ ⟨⟩

theorem genuine_appendTo {left right : Value} {failure : EvalError}
    (failed : (Evaluator.appendTo left right).outcome = .error failure) :
    failure.isEndless = false := by
  cases left with
  | sequence items => cases right <;> cases failed
  | _ =>
    cases failed
    rfl

theorem genuine_mergeValues {expected : Cardinality} {mode : MergeMode} {left right : Value}
    {failure : EvalError}
    (failed : (Evaluator.mergeValues expected mode left right).outcome = .error failure) :
    failure.isEndless = false := by
  have merged (failed : (Evaluator.mergeValues .scalar mode left right).outcome =
      .error failure) : failure.isEndless = false := by
    unfold Evaluator.mergeValues at failed
    cases joined : left.merge mode [] right with
    | ok value =>
      rw [joined] at failed
      cases failed
    | error conflict =>
      rw [joined] at failed
      cases failed
      rfl
  cases expected with
  | vector => exact genuine_appendTo failed
  | unit | scalar => exact merged failed
  | unknown =>
    unfold Evaluator.mergeValues at failed
    cases sequence : left.isSequence with
    | true =>
      rw [sequence] at failed
      exact genuine_appendTo failed
    | false =>
      rw [sequence] at failed
      exact merged failed

theorem genuine_fieldOf {target : Value} {field : String} {failure : EvalError}
    (failed : (Evaluator.fieldOf target field).outcome = .error failure) :
    failure.isEndless = false := by
  unfold Evaluator.fieldOf at failed
  split at failed
  · split at failed <;> cases failed
    rfl
  · cases failed
    rfl

/-- The meaning of an expression rests on what the expression asks for. -/
theorem step {expression : Expr} (known : scene.FirstOrder) (plain : expression.FirstOrder) :
    Rests mean (scene.calls expression) (mean.step scene expression) := by
  have part {child : Expr} (member : child ∈ expression.children) :
      Rests mean [(scene, child)] (mean scene child) :=
    Rests.expression known (plain.child member)
  cases expression with
  | unit | scalar => exact .pure _
  | vector operands =>
    exact (items known fun item member => plain.child member).finish fun _ _ => by rintro _ ⟨⟩
  | «yield» operand | assignment _ operand | «scope» _ operand => exact part List.mem_cons_self
  | lift operand =>
    refine (part List.mem_cons_self).finish fun value _ => ?_
    cases value <;> rintro _ ⟨⟩
  | block sections =>
    exact blockValue known fun _ inside _ member => plain.member inside member
  | merge left right mode =>
    have second := part (List.mem_cons_of_mem _ List.mem_cons_self)
    exact (part List.mem_cons_self).bind second.plain fun leftValue _ =>
      second.finish fun rightValue _ _ => genuine_mergeValues
  | application name operands definition =>
    cases plain.definition_eq
    exact application known (fun operand member => plain.operand member) name
  | function lambda => exact plain.not_function.elim
  | access target field =>
    exact (part List.mem_cons_self).finish fun value _ _ => genuine_fieldOf
  | pipeline | patternMatch => exact .failed rfl

end Rests
/-! ## Circles -/

namespace Site

theorem FirstOrder.needs (plain : place.FirstOrder) (needs : place.Needs other) :
    other.FirstOrder := by
  have rests : Rests (meaning 0) _ ((meaning 0).step place.1 place.2) :=
    Rests.step plain.1 plain.2
  exact rests.plain other needs

theorem FirstOrder.reached (plain : place.FirstOrder)
    (reached : Relation.ReflTransGen Needs place other) : other.FirstOrder := by
  induction reached with
  | refl => exact plain
  | tail _ needs ih => exact ih.needs needs

/-- What a value needs has been found to a smaller depth. -/
theorem found_of_needs (plain : place.FirstOrder) (needs : place.Needs other) {value : Value}
    (found : meaning depth place.1 place.2 = .ok value) :
    ∃ less < depth, ∃ value, meaning less other.1 other.2 = .ok value := by
  cases depth with
  | zero => cases found
  | succ depth =>
    have known := (Rests.step plain.1 plain.2).known value found other needs
    exact ⟨depth, Nat.lt_succ_self depth, known⟩

theorem found_of_circle (plain : place.FirstOrder) (circle : Relation.TransGen Needs place other)
    {value : Value} (found : meaning depth place.1 place.2 = .ok value) :
    ∃ less < depth, ∃ value, meaning less other.1 other.2 = .ok value := by
  induction circle with
  | single needs => exact found_of_needs plain needs found
  | tail front needs ih =>
    rcases ih with ⟨less, smaller, value, found⟩
    rcases found_of_needs (plain.reached front.to_reflTransGen) needs found with
      ⟨least, below, value, found⟩
    exact ⟨least, Nat.lt_trans below smaller, value, found⟩

/-- A place that needs itself has no value. -/
theorem not_found_of_circle (plain : place.FirstOrder)
    (circle : Relation.TransGen Needs place place) (depth : Nat) (value : Value) :
    meaning depth place.1 place.2 ≠ .ok value := by
  induction depth using Nat.strongRecOn generalizing value with
  | ind depth ih =>
    intro found
    rcases found_of_circle plain circle found with ⟨less, smaller, value, found⟩
    exact ih less smaller value found

/-- Neither has a place that needs such a one. -/
theorem not_found_of_reached (plain : place.FirstOrder)
    (reached : Relation.ReflTransGen Needs place other)
    (circle : Relation.TransGen Needs other other) (depth : Nat) (value : Value) :
    meaning depth place.1 place.2 ≠ .ok value := by
  intro found
  rcases Relation.reflTransGen_iff_eq_or_transGen.mp reached with rfl | further
  · exact not_found_of_circle plain circle depth value found
  · rcases found_of_circle plain further found with ⟨less, _, value, found⟩
    exact not_found_of_circle (plain.reached reached) circle less value found

/-- No meaning fails with a cycle: no name is under way. -/
theorem ne_cycle (plain : place.FirstOrder) (depth : Nat) (name : String) :
    meaning depth place.1 place.2 ≠ .error (.cycle name) := by
  induction depth generalizing place with
  | zero => rintro ⟨⟩
  | succ depth ih =>
    intro failed
    rcases (Rests.step plain.1 plain.2).blame _ rfl failed with ⟨other, needs, blamed⟩
    exact ih (plain.needs needs) blamed

/-- What is settled at all is settled at one depth. -/
theorem exists_settled {places : List Site}
    (every : ∀ place ∈ places, ∃ depth, meaning depth place.1 place.2 ≠ .error .exhausted) :
    ∃ depth, ∀ place ∈ places, meaning depth place.1 place.2 ≠ .error .exhausted := by
  have stays {place : Site} {depth further : Nat} (le : depth ≤ further)
      (settled : meaning depth place.1 place.2 ≠ .error .exhausted) :
      meaning further place.1 place.2 ≠ .error .exhausted := by
    rwa [(meaning_grows le place.1 place.2).eq_of_ne settled]
  induction places with
  | nil => exact ⟨0, fun _ none => absurd none List.not_mem_nil⟩
  | cons place rest ih =>
    rcases List.forall_mem_cons.mp every with ⟨⟨depth, own⟩, others⟩
    rcases ih others with ⟨further, others⟩
    exact ⟨max depth further, List.forall_mem_cons.mpr ⟨stays (Nat.le_max_left _ _) own,
      fun place member => stays (Nat.le_max_right _ _) (others place member)⟩⟩

/-- Where no place that is needed needs itself, a place is settled. -/
theorem settled_of_no_circle (plain : place.FirstOrder) {places : List Site}
    (closed : ∀ other ∈ places, other.1.calls other.2 ⊆ places) (inside : place ∈ places)
    (straight : ∀ other, Relation.ReflTransGen Needs place other →
      ¬ Relation.TransGen Needs other other) :
    ∃ depth, meaning depth place.1 place.2 ≠ .error .exhausted := by
  let Reached := { other : Site // other ∈ places ∧ Relation.ReflTransGen Needs place other }
  have finite : Finite Reached :=
    (List.finite_toSet places).subset fun other member => member.1
  have wellFounded : WellFounded fun first second : Reached =>
      Relation.TransGen Needs second.1 first.1 := by
    have : IsTrans Reached fun first second => Relation.TransGen Needs second.1 first.1 :=
      ⟨fun _ _ _ one two => two.trans one⟩
    have : Std.Irrefl fun first second : Reached => Relation.TransGen Needs second.1 first.1 :=
      ⟨fun other => straight other.1 other.2.2⟩
    exact Finite.wellFounded_of_trans_of_irrefl _
  have every (other : Reached) :
      ∃ depth, meaning depth other.1.1 other.1.2 ≠ .error .exhausted := by
    induction other using wellFounded.induction with
    | _ other ih =>
      rcases other with ⟨other, among, reached⟩
      have asked (next : Site) (needs : other.Needs next) :
          ∃ depth, meaning depth next.1 next.2 ≠ .error .exhausted :=
        ih ⟨next, closed other among needs, reached.tail needs⟩ (.single needs)
      rcases exists_settled asked with ⟨depth, settled⟩
      have own := plain.reached reached
      refine ⟨depth + 1, fun cut => ?_⟩
      rcases (Rests.step own.1 own.2).blame _ rfl cut with ⟨next, needs, blamed⟩
      exact settled next needs blamed
  exact every ⟨place, inside, .refl⟩

end Site

end Manifest
