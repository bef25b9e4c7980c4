import Manifest.Proofs.Evaluation.Adequacy
import Manifest.Proofs.Evaluation.Bare
import Manifest.Proofs.Evaluation.Transfer

/-!
# What the meaning of an expression asks for

The value of an expression is made of the values of others: of its operands, of
what its names stand for, and of the bodies of the functions it calls.  Which
ones these are depends on the names in sight and on what they stand for, but not
on the values that arguments have.  There is no choice between expressions that
looks at a value, so an expression that has a value asks for the same others in
every call.
-/

namespace Manifest

variable {scene other owner : Scene} {operand body : Expr} {name parameter : String}
  {value : Value} {expressions : List Expr} {depth further : Nat}

/-! ## Scenes without values -/

/-- What is known of a slot without its value. -/
def Slot.skeleton : Slot → Slot
  | .ready _ => .ready .unit
  | slot => slot

def Layer.skeleton (layer : Layer) : Layer :=
  layer.map fun (name, slot) => (name, slot.skeleton)

def Scene.skeleton (scene : Scene) : Scene :=
  scene.map Layer.skeleton

theorem Layer.get?_skeleton (layer : Layer) (name : String) :
    layer.skeleton.get? name = (layer.get? name).map Slot.skeleton := by
  rw [get?, get?, skeleton, List.find?_map, Option.map_map, Option.map_map]
  rfl

theorem Scene.find?_skeleton (scene : Scene) (name : String) :
    scene.skeleton.find? name =
      (scene.find? name).map fun (owner, slot) => (owner.skeleton, slot.skeleton) := by
  induction scene with
  | nil => rfl
  | cons layer outer ih =>
    rw [skeleton, List.map_cons, Scene.find?, Scene.find?, Layer.get?_skeleton]
    cases layer.get? name with
    | some slot => rfl
    | none => exact ih

/-- A section has no values yet. -/
theorem Layer.skeleton_ofSection (expressions : List Expr) :
    (Layer.ofSection expressions).skeleton = Layer.ofSection expressions := by
  have kept : ∀ (names : List (String × Slot)),
      Layer.skeleton names = names →
      Layer.skeleton (Evaluator.slots ⟨names, none⟩ expressions).slots =
        (Evaluator.slots ⟨names, none⟩ expressions).slots := by
    induction expressions with
    | nil => exact fun names same => same
    | cons expression rest ih =>
      intro names same
      cases expression with
      | assignment key operand =>
        rw [Evaluator.slots_cons]
        refine ih _ ?_
        have fresh : (Slot.ofOperand operand).skeleton = Slot.ofOperand operand := by
          cases operand <;> rfl
        clear ih
        dsimp only [Frame.set]
        induction names with
        | nil => exact congrArg (fun slot => [(key, slot)]) fresh
        | cons entry names ih =>
          rcases entry with ⟨first, held⟩
          rcases List.cons.inj same with ⟨head, tail⟩
          rw [Frame.set.go]
          split
          · exact congrArg₂ List.cons (congrArg (Prod.mk key) fresh) tail
          · exact congrArg₂ List.cons head (ih tail)
      | _ => exact ih names same
  exact kept [] rfl

/-- A place where an expression is evaluated, without the values there. -/
abbrev Site := Scene × Expr

/-! ## Calls -/

namespace Scene

/-- The body that is evaluated in the end, when a function has all its arguments. -/
def core (scene : Scene) : (parameter : String) → (body : Expr) → Site
  | parameter, .function ⟨inner, body⟩ => core (.ofArgument parameter .unit :: scene) inner body
  | parameter, body => (.ofArgument parameter .unit :: scene, body)

end Scene

/-- What a slot waits for. -/
def Slot.forced (owner : Scene) : Slot → List Site
  | .pending operand => [(owner, operand)]
  | _ => []

/-- The function that a slot calls. -/
def Slot.called (owner : Scene) : Slot → List Site
  | .function lambda => [owner.core lambda.parameter lambda.body]
  | _ => []

namespace Scene

variable (scene : Scene)

def forced (name : String) : List Site :=
  match scene.find? name with
  | some (owner, slot) => slot.forced owner
  | none => []

def called (name : String) : List Site :=
  match scene.find? name with
  | some (owner, slot) => slot.called owner
  | none => []

def ofName (name : String) : List Site :=
  scene.forced name ++ scene.called name

/-- A bare name among operands is called at once. -/
def ofOperand : Expr → List Site
  | .application name [] _ => scene.ofName name
  | operand => [(scene, operand)]

def ofOperands : List Expr → List Site
  | [] => []
  | operand :: rest => ofOperands rest ++ scene.ofOperand operand

/-- An assignment asks for what its key waits for. -/
def ofMember : Expr → List Site
  | .assignment key operand => if operand.isFunction then [] else scene.forced key
  | .yield operand => [(scene, operand)]
  | expression => [(scene, expression)]

def ofSection (part : Section Expr) : List Site :=
  part.expressions.flatMap (ofMember (Meaning.inside scene part))

def ofBlock : List (Section Expr) → List Site
  | [] => []
  | front :: rest => scene.ofSection front ++ rest.flatMap (ofSection (Meaning.inside scene front))

/-- What an expression asks for. -/
def calls : Expr → List Site
  | .unit | .scalar _ | .function _ | .pipeline _ _ | .patternMatch _ _ => []
  | .vector items => items.map fun item => (scene, item)
  | .yield operand | .assignment _ operand | .scope _ operand | .lift operand
  | .access operand _ => [(scene, operand)]
  | .merge left right _ => [(scene, left), (scene, right)]
  | .application name operands _ => scene.ofOperands operands ++ scene.ofName name
  | .block sections => scene.ofBlock sections

/-- No definitions are carried in what a name may be evaluated to. -/
abbrev Plain : Prop :=
  scene.Every fun _ slot => slot.bare = slot

end Scene

/-! ## Asking -/

/-- A rule asks for the meaning of some expressions, all of which have one, and
of no others. -/
structure Asks {β : Type} (mean : Meaning) (rule : Meaning → Except EvalError β)
    (calls : List Site) (found : β) : Prop where
  known : ∀ place ∈ calls, place.2.bare = place.2 ∧ ∃ scene value, scene.Plain ∧
    scene.skeleton = place.1 ∧ mean scene place.2 = .ok value
  enough : ∀ other : Meaning, (∀ scene expression value, scene.Plain →
      (scene.skeleton, expression) ∈ calls → mean scene expression = .ok value →
      other scene expression = .ok value) →
    rule other = .ok found

namespace Asks

variable {β δ : Type} {mean : Meaning} {rule : Meaning → Except EvalError β}
  {next : β → Meaning → Except EvalError δ} {first second : List Site} {found : β} {result : δ}

theorem pure (found : β) : Asks mean (fun _ => Pure.pure found) [] found :=
  ⟨fun _ none => absurd none List.not_mem_nil, fun _ _ => rfl⟩

theorem bind (front : Asks mean rule first found) (behind : Asks mean (next found) second result) :
    Asks mean (fun mean => rule mean >>= fun found => next found mean) (first ++ second)
      result where
  known place member := (List.mem_append.mp member).elim (front.known place) (behind.known place)
  enough other agree := by
    refine outcome_bind_eq_ok.mpr ⟨found, front.enough other ?_, behind.enough other ?_⟩
    · exact fun scene expression value plain member =>
        agree scene expression value plain (List.mem_append_left _ member)
    · exact fun scene expression value plain member =>
        agree scene expression value plain (List.mem_append_right _ member)

/-- The result of a rule is changed, and nothing more is asked for. -/
theorem map (front : Asks mean rule first found) (change : β → δ) :
    Asks mean (fun mean => rule mean >>= fun found => Pure.pure (change found)) first
      (change found) where
  known := front.known
  enough other agree := outcome_bind_eq_ok.mpr ⟨found, front.enough other agree, rfl⟩

theorem expression {expression : Expr} (plain : scene.Plain)
    (same : expression.bare = expression) (means : mean scene expression = .ok value) :
    Asks mean (fun mean => mean scene expression) [(scene.skeleton, expression)] value where
  known place member := by
    cases List.mem_singleton.mp member
    exact ⟨same, scene, value, plain, rfl, means⟩
  enough other agree := agree scene expression value plain List.mem_cons_self means

/-! ## Names -/

theorem forced_of_find? {slot : Slot} (found : scene.find? name = some (owner, slot)) :
    scene.skeleton.forced name = slot.forced owner.skeleton := by
  rw [Scene.forced, scene.find?_skeleton, found]
  cases slot <;> rfl

theorem called_of_find? {slot : Slot} (found : scene.find? name = some (owner, slot)) :
    scene.skeleton.called name = slot.called owner.skeleton := by
  rw [Scene.called, scene.find?_skeleton, found]
  cases slot <;> rfl

theorem resolve {named : Named} (plain : scene.Plain)
    (found : mean.resolve scene name = .ok named) :
    Asks mean (fun mean => mean.resolve scene name) (scene.skeleton.forced name) named := by
  cases mean.resolve_eq_ok.mp found with
  | ready holds =>
    rw [forced_of_find? holds]
    exact ⟨fun _ none => absurd none List.not_mem_nil,
      fun other _ => other.resolve_eq_ok.mpr (.ready holds)⟩
  | function holds =>
    rw [forced_of_find? holds]
    exact ⟨fun _ none => absurd none List.not_mem_nil,
      fun other _ => other.resolve_eq_ok.mpr (.function holds)⟩
  | pending holds means =>
    rw [forced_of_find? holds]
    rcases plain.find? name _ holds with ⟨plain, same⟩
    have asked := expression plain (Slot.pending.inj same) means
    exact ⟨asked.known, fun other agree =>
      other.resolve_eq_ok.mpr (.pending holds (asked.enough other agree))⟩

theorem force (plain : scene.Plain) (found : mean.force scene name = .ok value) :
    Asks mean (fun mean => mean.force scene name) (scene.skeleton.forced name) value := by
  rcases outcome_bind_eq_ok.mp found with ⟨named, resolved, same⟩
  have asked := resolve plain resolved
  exact ⟨asked.known, fun other agree =>
    outcome_bind_eq_ok.mpr ⟨named, asked.enough other agree, same⟩⟩

theorem call {arguments : List Value} {result : Value × List Value} (plain : scene.Plain)
    (same : body.bare = body)
    (found : mean.call name arguments parameter body scene = .ok result) :
    Asks mean (fun mean => mean.call name arguments parameter body scene)
      [scene.skeleton.core parameter body] result := by
  induction arguments generalizing scene parameter body with
  | nil => cases found
  | cons argument rest ih =>
    have inside : Scene.Plain (.ofArgument parameter argument :: scene) :=
      plain.ofArgument (fun _ => rfl) parameter
    cases body with
    | function lambda =>
      rcases lambda with ⟨inner, body⟩
      exact ih inside (Lambda.mk.inj (Expr.function.inj same)).2 found
    | _ =>
      rcases outcome_bind_eq_ok.mp found with ⟨value, means, equal⟩
      cases equal
      exact (expression inside same means).map _

/-- Without a definition a name is called if it is resolved to a function. -/
theorem apply_eq (mean : Meaning) (name : String) (scene : Scene) (arguments : List Value) :
    mean.apply name none scene arguments =
      mean.resolve scene name >>= fun
        | .function lambda owner => mean.call name arguments lambda.parameter lambda.body owner
        | .value value => return (value, arguments) := by
  rw [Meaning.apply]
  cases mean.resolve scene name with
  | ok named => cases named <;> rfl
  | error failure => cases failure <;> rfl

theorem apply {arguments : List Value} {result : Value × List Value} (plain : scene.Plain)
    (found : mean.apply name none scene arguments = .ok result) :
    Asks mean (fun mean => mean.apply name none scene arguments) (scene.skeleton.ofName name)
      result := by
  simp only [apply_eq] at found ⊢
  rcases outcome_bind_eq_ok.mp found with ⟨named, resolved, found⟩
  have asked := resolve plain resolved
  refine asked.bind ?_
  cases mean.resolve_eq_ok.mp resolved with
  | ready holds | pending holds means =>
    cases found
    rw [called_of_find? holds]
    exact .pure _
  | @function owner lambda holds =>
    rcases lambda with ⟨parameter, body⟩
    rcases plain.find? name _ holds with ⟨plain, same⟩
    rw [called_of_find? holds]
    exact call plain (Lambda.mk.inj (Slot.function.inj same)).2 found

theorem operandValue {arguments : List Value} {result : Value × List Value} (plain : scene.Plain)
    (same : operand.bare = operand)
    (found : mean.operandValue scene arguments operand = .ok result) :
    Asks mean (fun mean => mean.operandValue scene arguments operand)
      (scene.skeleton.ofOperand operand) result := by
  cases operand with
  | application name operands definition =>
    cases (Expr.application.inj same).2.2
    cases operands with
    | nil => exact apply plain found
    | cons first rest =>
      rcases outcome_bind_eq_ok.mp found with ⟨value, means, equal⟩
      cases equal
      exact (expression plain same means).map _
  | _ =>
    rcases outcome_bind_eq_ok.mp found with ⟨value, means, equal⟩
    cases equal
    exact (expression plain same means).map _

theorem arguments {values : List Value} (plain : scene.Plain)
    (same : bareAll expressions = expressions)
    (found : mean.arguments scene expressions = .ok values) :
    Asks mean (fun mean => mean.arguments scene expressions)
      (scene.skeleton.ofOperands expressions) values := by
  induction expressions generalizing values with
  | nil =>
    cases found
    exact .pure _
  | cons operand rest ih =>
    rcases outcome_bind_eq_ok.mp found with ⟨left, behind, found⟩
    rcases outcome_bind_eq_ok.mp found with ⟨result, first, equal⟩
    cases equal
    rcases List.cons.inj same with ⟨head, tail⟩
    exact (ih tail behind).bind ((operandValue plain head first).map fun result =>
      result.1 :: result.2)

theorem application (plain : scene.Plain) (same : bareAll expressions = expressions)
    (found : mean.application name expressions none scene = .ok value) :
    Asks mean (fun mean => mean.application name expressions none scene)
      (scene.skeleton.ofOperands expressions ++ scene.skeleton.ofName name) value := by
  rcases outcome_bind_eq_ok.mp found with ⟨values, operands, found⟩
  rcases outcome_bind_eq_ok.mp found with ⟨result, applied, taken⟩
  have asked : Asks mean (fun mean => mean.arguments scene expressions >>= fun values =>
      mean.apply name none scene values)
      (scene.skeleton.ofOperands expressions ++ scene.skeleton.ofName name) result :=
    (arguments plain same operands).bind (apply plain applied)
  exact ⟨asked.known, fun other agree => by
    rw [Meaning.application_eq]
    exact outcome_bind_eq_ok.mpr ⟨result, asked.enough other agree, taken⟩⟩

/-! ## Blocks -/

theorem gather {expression : Expr} {harvest after : Harvest} (plain : scene.Plain)
    (same : expression.bare = expression)
    (found : mean.gather scene harvest expression = .ok after) :
    Asks mean (fun mean => mean.gather scene harvest expression)
      (scene.skeleton.ofMember expression) after := by
  cases expression with
  | assignment key operand =>
    rcases Meaning.gather_assignment_eq_ok.mp found with ⟨value, forced, equal⟩
    rw [Scene.ofMember]
    by_cases function : operand.isFunction = true
    · rw [if_pos function]
      exact ⟨fun _ none => absurd none List.not_mem_nil, fun other _ =>
        Meaning.gather_assignment_eq_ok.mpr
          ⟨value, (fun plain => by cases function.symm.trans plain), equal⟩⟩
    · rw [if_neg function]
      have asked := force plain (forced (Bool.eq_false_iff.mpr function))
      exact ⟨asked.known, fun other agree =>
        Meaning.gather_assignment_eq_ok.mpr ⟨value, fun _ => asked.enough other agree, equal⟩⟩
  | yield operand =>
    rcases outcome_bind_eq_ok.mp found with ⟨value, means, equal⟩
    cases equal
    exact (expression plain (Expr.yield.inj same) means).map _
  | _ =>
    rcases outcome_bind_eq_ok.mp found with ⟨value, means, equal⟩
    cases equal
    exact (expression plain same means).map _

theorem gatherAll {harvest after : Harvest} (plain : scene.Plain)
    (same : bareAll expressions = expressions)
    (found : mean.gatherAll scene harvest expressions = .ok after) :
    Asks mean (fun mean => mean.gatherAll scene harvest expressions)
      (expressions.flatMap scene.skeleton.ofMember) after := by
  induction expressions generalizing harvest with
  | nil =>
    cases found
    exact .pure _
  | cons expression rest ih =>
    rcases outcome_bind_eq_ok.mp found with ⟨middle, first, behind⟩
    rcases List.cons.inj same with ⟨head, tail⟩
    exact (gather plain head first).bind (ih tail behind)

end Asks

/-- Inside a section without definitions there are none either. -/
theorem Scene.Plain.inside (plain : scene.Plain) {part : Section Expr} (same : part.bare = part) :
    Scene.Plain (Meaning.inside scene part) := by
  refine ⟨fun name slot holds => ?_, plain⟩
  rw [Layer.get?_ofSection] at holds
  rcases Option.map_eq_some_iff.mp holds with ⟨operand, last, rfl⟩
  have kept := Section.lastOperand?_bare part.expressions name
  rw [← part.expressions_bare, same, last] at kept
  rw [← Slot.ofOperand_bare, ← Option.some.inj kept]

theorem Meaning.skeleton_inside (scene : Scene) (part : Section Expr) :
    (Meaning.inside scene part).skeleton = Meaning.inside scene.skeleton part :=
  congrArg (· :: scene.skeleton) (Layer.skeleton_ofSection part.expressions)

namespace Asks

variable {β δ : Type} {mean : Meaning}

theorem sectionValue {part : Section Expr} (plain : scene.Plain) (same : part.bare = part)
    (found : mean.sectionValue scene part = .ok value) :
    Asks mean (fun mean => mean.sectionValue scene part) (scene.skeleton.ofSection part) value := by
  rcases outcome_bind_eq_ok.mp found with ⟨harvest, gathered, equal⟩
  cases equal
  have expressions : bareAll part.expressions = part.expressions := by
    rw [← part.expressions_bare, same]
  have asked := gatherAll (plain.inside same) expressions gathered
  rw [Meaning.skeleton_inside] at asked
  exact asked.map Harvest.value

theorem sectionValues {sections : List (Section Expr)} {values : List Value}
    (plain : scene.Plain) (same : bareSections sections = sections)
    (found : mean.sectionValues scene sections = .ok values) :
    Asks mean (fun mean => mean.sectionValues scene sections)
      (sections.flatMap scene.skeleton.ofSection) values := by
  induction sections generalizing values with
  | nil =>
    cases found
    exact .pure _
  | cons part rest ih =>
    rcases outcome_bind_eq_ok.mp found with ⟨value, first, found⟩
    rcases outcome_bind_eq_ok.mp found with ⟨others, behind, equal⟩
    cases equal
    rcases List.cons.inj same with ⟨head, tail⟩
    exact (sectionValue plain head first).bind ((ih tail behind).map (value :: ·))

theorem blockValue {sections : List (Section Expr)} (plain : scene.Plain)
    (same : bareSections sections = sections)
    (found : mean.blockValue scene sections = .ok value) :
    Asks mean (fun mean => mean.blockValue scene sections) (scene.skeleton.ofBlock sections)
      value := by
  match sections with
  | [] =>
    cases found
    exact .pure _
  | [only] =>
    rw [Scene.ofBlock, List.flatMap_nil, List.append_nil]
    exact sectionValue plain (List.cons.inj same).1 found
  | front :: second :: rest =>
    rcases outcome_bind_eq_ok.mp found with ⟨first, valued, found⟩
    rcases outcome_bind_eq_ok.mp found with ⟨values, behind, equal⟩
    cases equal
    rcases List.cons.inj same with ⟨head, tail⟩
    have others := sectionValues (plain.inside head) tail behind
    rw [Meaning.skeleton_inside] at others
    exact (sectionValue plain head valued).bind (others.map fun values =>
      Value.sequence (first :: values))

/-! ## Expressions -/

theorem items {values : List Value} (plain : scene.Plain)
    (same : bareAll expressions = expressions)
    (found : mean.items scene expressions = .ok values) :
    Asks mean (fun mean => mean.items scene expressions)
      (expressions.map fun item => (scene.skeleton, item)) values := by
  induction expressions generalizing values with
  | nil =>
    cases found
    exact .pure _
  | cons item rest ih =>
    rcases outcome_bind_eq_ok.mp found with ⟨value, first, found⟩
    rcases outcome_bind_eq_ok.mp found with ⟨others, behind, equal⟩
    cases equal
    rcases List.cons.inj same with ⟨head, tail⟩
    exact (expression plain head first).bind ((ih tail behind).map (value :: ·))

theorem step {expression : Expr} (plain : scene.Plain) (same : expression.bare = expression)
    (found : mean.step scene expression = .ok value) :
    Asks mean (fun mean => mean.step scene expression) (scene.skeleton.calls expression)
      value := by
  cases expression with
  | unit | scalar held =>
    cases found
    exact .pure _
  | vector items =>
    rcases outcome_bind_eq_ok.mp found with ⟨values, means, equal⟩
    cases equal
    exact (Asks.items plain (Expr.vector.inj same) means).map Value.sequence
  | assignment key operand => exact Asks.expression plain (Expr.assignment.inj same).2 found
  | «yield» operand => exact Asks.expression plain (Expr.yield.inj same) found
  | «scope» id operand => exact Asks.expression plain (Expr.scope.inj same).2 found
  | application name operands definition =>
    cases (Expr.application.inj same).2.2
    exact application plain (Expr.application.inj same).2.1 found
  | function lambda => cases found
  | lift operand =>
    rcases outcome_bind_eq_ok.mp found with ⟨held, means, equal⟩
    have asked := Asks.expression plain (Expr.lift.inj same) means
    exact ⟨asked.known, fun other agree =>
      outcome_bind_eq_ok.mpr ⟨held, asked.enough other agree, equal⟩⟩
  | block sections => exact blockValue plain (Expr.block.inj same) found
  | merge left right mode =>
    rcases outcome_bind_eq_ok.mp found with ⟨first, means, found⟩
    rcases outcome_bind_eq_ok.mp found with ⟨second, further, equal⟩
    rcases Expr.merge.inj same with ⟨one, two, _⟩
    have before := Asks.expression plain one means
    have behind := Asks.expression plain two further
    exact before.bind ⟨behind.known, fun other agree =>
      outcome_bind_eq_ok.mpr ⟨second, behind.enough other agree, equal⟩⟩
  | access target field =>
    rcases outcome_bind_eq_ok.mp found with ⟨held, means, equal⟩
    have asked := Asks.expression plain (Expr.access.inj same).1 means
    exact ⟨asked.known, fun other agree =>
      outcome_bind_eq_ok.mpr ⟨held, asked.enough other agree, equal⟩⟩
  | pipeline left right => cases found
  | patternMatch subject pattern => cases found

end Asks

/-- The depth that an expression needs does not depend on the values in sight. -/
theorem meaning_of_alike {expression : Expr} {held : Value} (plain : scene.Plain)
    (same : expression.bare = expression) (plainOther : other.Plain)
    (alike : scene.skeleton = other.skeleton) (means : meaning depth scene expression = .ok value)
    (reached : meaning further other expression = .ok held) :
    meaning depth other expression = .ok held := by
  induction depth generalizing scene other expression value held further with
  | zero => cases means
  | succ depth ih =>
    cases further with
    | zero => cases reached
    | succ further =>
      have asked := Asks.step plain same (means : (meaning depth).step scene expression = _)
      have asking :=
        Asks.step plainOther same (reached : (meaning further).step other expression = _)
      refine asking.enough (meaning depth) fun place inner found plain member reached => ?_
      rw [← alike] at member
      rcases asked.known _ member with ⟨bare, source, known, plainSource, equal, means⟩
      exact ih plainSource bare plain equal means reached

end Manifest
