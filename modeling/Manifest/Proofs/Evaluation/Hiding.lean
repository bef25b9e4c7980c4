import Manifest.Proofs.Evaluation.Transfer
import Manifest.Proofs.Parts

/-!
# Keys of values

A key that begins with an underscore is for use inside its section only.  Merging
values brings no key about that neither of them has.  So where neither the literals
of a document nor the values in sight have such a key, no value that comes about has
one, since the mapping of a section leaves such keys out.
-/

namespace Manifest

/-- A key that begins with an underscore. -/
def isPrivate (key : String) : Bool :=
  key.toList.head? == some '_'

theorem isHidden_eq (key : String) (operand : Expr) :
    isHidden key operand = (isPrivate key || operand.isFunction) := rfl

namespace Value

mutual
/-- The keys of all mappings in a value, at any depth. -/
def keys : Value → List String
  | .sequence items => keysOfItems items
  | .mapping fields => keysOfFields fields
  | _ => []
termination_by structural value => value

def keysOfItems : List Value → List String
  | [] => []
  | item :: rest => item.keys ++ keysOfItems rest
termination_by structural items => items

def keysOfFields : List (String × Value) → List String
  | [] => []
  | (key, value) :: rest => key :: (value.keys ++ keysOfFields rest)
termination_by structural fields => fields
end

variable {name key : String} {fields incoming merged : Fields Value} {items more : List Value}
  {value left right joined : Value} {mode : MergeMode} {path : List String}

theorem mem_keysOfItems : name ∈ keysOfItems items ↔ ∃ item ∈ items, name ∈ item.keys := by
  induction items with
  | nil => simp [keysOfItems]
  | cons item rest ih => simp [keysOfItems, ih]

theorem mem_keysOfFields :
    name ∈ keysOfFields fields ↔ ∃ field ∈ fields, name = field.1 ∨ name ∈ field.2.keys := by
  induction fields with
  | nil => simp [keysOfFields]
  | cons field rest ih =>
    rcases field with ⟨key, value⟩
    simp [keysOfFields, ih, or_assoc]

theorem keysOfItems_append :
    keysOfItems (items ++ more) = keysOfItems items ++ keysOfItems more := by
  induction items with
  | nil => rfl
  | cons item rest ih => rw [List.cons_append, keysOfItems, keysOfItems, ih, List.append_assoc]

/-! ## Merging -/

theorem keysOfFields_insert :
    keysOfFields (Fields.insert fields key value) ⊆ key :: (value.keys ++ keysOfFields fields) := by
  induction fields with
  | nil => exact List.Subset.refl _
  | cons field rest ih =>
    rcases field with ⟨other, held⟩
    rw [Fields.insert]
    split
    · exact List.Subset.refl _
    · split
      · intro name member
        simp only [keysOfFields, List.mem_cons, List.mem_append] at member ⊢
        tauto
      · intro name member
        have behind := @ih name
        simp only [keysOfFields, List.mem_cons, List.mem_append] at member behind ⊢
        tauto

/-- What a key holds is a part of the mapping. -/
theorem keys_of_get? (found : Fields.get? fields key = some value) :
    key ∈ keysOfFields fields ∧ value.keys ⊆ keysOfFields fields := by
  have inside := Fields.mem_of_get? found
  exact ⟨mem_keysOfFields.mpr ⟨_, inside, .inl rfl⟩,
    fun name member => mem_keysOfFields.mpr ⟨_, inside, .inr member⟩⟩

/-- A scalar or a unit takes the place of a value or leaves it. -/
theorem eq_or_eq_of_merge (plain : right.isContainer = false)
    (merges : merge mode path left right = .ok joined) : joined = left ∨ joined = right := by
  cases right with
  | sequence | mapping => cases plain
  | unit =>
    left
    cases left <;> cases merges <;> rfl
  | _ =>
    cases left with
    | unit =>
      cases merges
      exact .inr rfl
    | sequence | mapping => cases merges
    | _ =>
      cases mode with
      | hard =>
        cases merges
        exact .inr rfl
      | soft =>
        cases merges
        exact .inl rfl

theorem keys_subset_of_eq_or_eq (same : joined = left ∨ joined = right) :
    joined.keys ⊆ left.keys ++ right.keys := by
  rcases same with rfl | rfl
  · exact List.subset_append_left _ _
  · exact List.subset_append_right _ _

mutual
/-- A merge has no key that neither of its operands has. -/
theorem keys_merge : ∀ (right : Value) {path : List String} {left joined : Value},
    merge mode path left right = .ok joined → joined.keys ⊆ left.keys ++ right.keys
  | .mapping incoming, path, left, joined, merges => by
    cases left with
    | mapping fields =>
      rw [merge] at merges
      split at merges
      · rename_i merged settled
        cases merges
        exact keys_mergeFields incoming settled
      · cases merges
    | unit =>
      cases merges
      exact List.subset_append_right _ _
    | _ => cases merges
  | .sequence more, path, left, joined, merges => by
    cases left with
    | sequence items =>
      cases merges
      rw [keys, keysOfItems_append]
      exact List.Subset.refl _
    | unit =>
      cases merges
      exact List.subset_append_right _ _
    | _ => cases merges
  | .unit, _, _, _, merges | .text _, _, _, _, merges | .number _, _, _, _, merges
  | .boolean _, _, _, _, merges => keys_subset_of_eq_or_eq (eq_or_eq_of_merge rfl merges)

theorem keys_mergeFields : ∀ (incoming : List (String × Value)) {path : List String}
    {fields merged : Fields Value}, mergeFields mode path fields incoming = .ok merged →
      keysOfFields merged ⊆ keysOfFields fields ++ keysOfFields incoming
  | [], path, fields, merged, merges => by
    cases merges
    exact List.subset_append_left _ _
  | (key, value) :: rest, path, fields, merged, merges => by
    rw [mergeFields] at merges
    -- whatever is entered for the key, the rest is merged behind it
    have behind {held : Value} (known : held.keys ⊆ keysOfFields fields ++ value.keys)
        (merges : mergeFields mode path (Fields.insert fields key held) rest = .ok merged) :
        keysOfFields merged ⊆ keysOfFields fields ++ keysOfFields ((key, value) :: rest) := by
      intro name member
      have further := keys_mergeFields rest merges member
      have entered := @keysOfFields_insert key fields held name
      have own := @known name
      simp only [keysOfFields, List.mem_cons, List.mem_append] at further entered own ⊢
      tauto
    split at merges
    · exact behind (List.subset_append_right _ _) merges
    · rename_i existing found
      split at merges
      · rename_i joined settled
        refine behind (fun name member => ?_) merges
        rcases List.mem_append.mp (keys_merge value settled member) with first | second
        · exact List.mem_append_left _ ((keys_of_get? found).2 first)
        · exact List.mem_append_right _ second
      · cases merges
end

/-! ## Values without private keys -/

/-- No key is private, at any depth. -/
def Public (value : Value) : Prop :=
  ∀ key ∈ value.keys, isPrivate key = false

instance : DecidablePred Public := fun value =>
  inferInstanceAs (Decidable (∀ key ∈ value.keys, isPrivate key = false))

theorem public_sequence : (sequence items).Public ↔ ∀ item ∈ items, item.Public := by
  constructor
  · intro known item inside key member
    exact known key (mem_keysOfItems.mpr ⟨item, inside, member⟩)
  · intro known key member
    rcases mem_keysOfItems.mp member with ⟨item, inside, member⟩
    exact known item inside key member

theorem public_insert (visible : isPrivate key = false) (known : value.Public)
    (others : (mapping fields).Public) : (mapping (Fields.insert fields key value)).Public := by
  intro name member
  rcases List.mem_cons.mp (keysOfFields_insert member) with rfl | further
  · exact visible
  · exact (List.mem_append.mp further).elim (known name) (others name)

theorem Public.of_subset (known : left.Public) (further : right.Public)
    (subset : joined.keys ⊆ left.keys ++ right.keys) : joined.Public :=
  fun key member => (List.mem_append.mp (subset member)).elim (known key) (further key)

end Value

/-- Adding to a sequence brings no key about either. -/
theorem Evaluator.keys_mergeValues {expected : Cardinality} {mode : MergeMode}
    {left right joined : Value}
    (merges : (Evaluator.mergeValues expected mode left right).outcome = .ok joined) :
    joined.keys ⊆ left.keys ++ right.keys := by
  have appended (merges : (Evaluator.appendTo left right).outcome = .ok joined) :
      joined.keys ⊆ left.keys ++ right.keys := by
    cases left with
    | sequence items =>
      cases right with
      | sequence more =>
        cases merges
        rw [Value.keys, Value.keysOfItems_append]
        exact List.Subset.refl _
      | unit =>
        cases merges
        exact List.subset_append_left _ _
      | _ =>
        cases merges
        rw [Value.keys, Value.keysOfItems_append, Value.keysOfItems, Value.keysOfItems,
          List.append_nil]
        exact List.Subset.refl _
    | _ => cases merges
  have merged (merges : (Evaluator.mergeValues .scalar mode left right).outcome = .ok joined) :
      joined.keys ⊆ left.keys ++ right.keys := by
    unfold Evaluator.mergeValues at merges
    dsimp only at merges
    rw [if_neg Bool.false_ne_true] at merges
    cases settled : left.merge mode [] right with
    | ok merged =>
      rw [settled] at merges
      cases merges
      exact Value.keys_merge right settled
    | error conflict =>
      rw [settled] at merges
      cases merges
  cases expected with
  | vector => exact appended merges
  | unit | scalar => exact merged merges
  | unknown =>
    cases known : left.isSequence with
    | true =>
      rw [Evaluator.mergeValues, known] at merges
      exact appended merges
    | false =>
      rw [Evaluator.mergeValues, known] at merges
      exact merged merges

/-! ## Scenes without private keys -/

/-- A literal has no private keys. -/
def Expr.PublicLiteral : Expr → Prop
  | .scalar value => value.Public
  | _ => True

abbrev Expr.Public (expression : Expr) : Prop :=
  expression.Every Expr.PublicLiteral

/-- Neither the value of a name nor what it is evaluated from has private keys. -/
def Slot.Public : Slot → Prop
  | .pending operand => operand.Public
  | .resolving => True
  | .ready value => value.Public
  | .function lambda => lambda.body.Public

abbrev Scene.Public (scene : Scene) : Prop :=
  scene.Every fun _ slot => slot.Public

def Named.Public : Named → Prop
  | .value held => held.Public
  | .function lambda scene => lambda.body.Public ∧ scene.Public

/-- Nothing that a section has produced has private keys. -/
structure Harvest.Public (harvest : Harvest) : Prop where
  fields : (Value.mapping harvest.fields).Public
  yields : ∀ value ∈ harvest.yields, value.Public
  trailing : ∀ value ∈ harvest.trailing, value.Public

theorem Harvest.Public.empty : Harvest.empty.Public where
  fields _ member := nomatch member
  yields _ member := nomatch member
  trailing _ member := nomatch member

theorem Harvest.Public.value {harvest : Harvest} (known : harvest.Public) :
    harvest.value.Public := by
  rw [Harvest.value]
  split
  · exact Value.public_sequence.mpr known.yields
  · cases trails : harvest.trailing with
    | some value => exact known.trailing value trails
    | none => exact known.fields

variable {scene : Scene} {part : Section Expr} {expressions : List Expr} {expression body : Expr}
  {name : String} {value : Value} {waiting : List Value}

/-- Inside a section names stand for operands of the section. -/
theorem Scene.Public.inside (known : scene.Public)
    (literals : ∀ expression ∈ part.expressions, expression.Public) :
    Scene.Public (Meaning.inside scene part) := by
  refine ⟨fun name slot holds => ?_, known⟩
  rw [Layer.get?_ofSection] at holds
  rcases Option.map_eq_some_iff.mp holds with ⟨operand, last, rfl⟩
  have own : operand.Public :=
    (literals _ (Section.mem_of_lastOperand? last)).child List.mem_cons_self
  cases operand with
  | function lambda => exact own.child List.mem_cons_self
  | _ => exact own

/-! ## Rules -/

/-- Where nothing in sight has private keys, no value that is found has any. -/
def Meaning.Public (mean : Meaning) : Prop :=
  ∀ {scene : Scene} {expression : Expr} {value : Value}, scene.Public → expression.Public →
    mean scene expression = .ok value → value.Public

namespace Meaning.Public

variable {mean : Meaning} (clean : mean.Public) (known : scene.Public)

include clean known

theorem resolve {named : Named} (found : mean.resolve scene name = .ok named) :
    named.Public := by
  cases mean.resolve_eq_ok.mp found with
  | ready holds => exact (known.find? name _ holds).2
  | pending holds means =>
    rcases known.find? name _ holds with ⟨around, operand⟩
    exact clean around operand means
  | function holds =>
    rcases known.find? name _ holds with ⟨around, body⟩
    exact ⟨body, around⟩

theorem force (found : mean.force scene name = .ok value) : value.Public := by
  rcases outcome_bind_eq_ok.mp found with ⟨named, resolved, same⟩
  have known := clean.resolve known resolved
  cases named with
  | value held =>
    cases same
    exact known
  | function lambda owner =>
    cases same
    exact fun _ member => nomatch member

omit known in
/-- The value of a call, and the arguments that are left. -/
theorem call {parameter : String} {result : Value × List Value} (known : scene.Public)
    (given : ∀ argument ∈ waiting, argument.Public) (literals : body.Public)
    (found : mean.call name waiting parameter body scene = .ok result) :
    ∀ held ∈ result.1 :: result.2, held.Public := by
  induction waiting generalizing scene parameter body with
  | nil => cases found
  | cons argument rest ih =>
    rcases List.forall_mem_cons.mp given with ⟨first, others⟩
    have inside : Scene.Public (.ofArgument parameter argument :: scene) :=
      known.ofArgument (fun _ => first) parameter
    cases body with
    | function lambda => exact ih inside others (literals.child List.mem_cons_self) found
    | _ =>
      rcases outcome_bind_eq_ok.mp found with ⟨value, means, same⟩
      cases same
      exact List.forall_mem_cons.mpr ⟨clean inside literals means, others⟩

theorem apply {definition : Option (Lambda Expr)} {result : Value × List Value}
    (given : ∀ argument ∈ waiting, argument.Public)
    (literals : ∀ lambda ∈ definition, lambda.body.Public)
    (found : mean.apply name definition scene waiting = .ok result) :
    ∀ held ∈ result.1 :: result.2, held.Public := by
  rw [Meaning.apply] at found
  cases resolved : mean.resolve scene name with
  | ok named =>
    have own := clean.resolve known resolved
    rw [resolved] at found
    cases named with
    | value held =>
      cases found
      exact List.forall_mem_cons.mpr ⟨own, given⟩
    | function lambda owner => exact clean.call own.2 given own.1 found
  | error failure =>
    rw [resolved] at found
    cases failure with
    | unresolvedIdentifier missing =>
      cases definition with
      | none => cases found
      | some lambda => exact clean.call known given (literals lambda rfl) found
    | _ => cases found

theorem operandValue {result : Value × List Value}
    (given : ∀ argument ∈ waiting, argument.Public) (literals : expression.Public)
    (found : mean.operandValue scene waiting expression = .ok result) :
    ∀ held ∈ result.1 :: result.2, held.Public := by
  fun_cases Meaning.operandValue mean scene waiting expression with
  | case1 name definition =>
    refine clean.apply known given (fun lambda defined => ?_) found
    exact literals.child (List.mem_append_right _ (by rw [defined]; exact List.mem_cons_self))
  | case2 _ plain =>
    rw [Meaning.operandValue_of_not_name _ plain] at found
    rcases outcome_bind_eq_ok.mp found with ⟨value, means, same⟩
    cases same
    exact List.forall_mem_cons.mpr ⟨clean known literals means, given⟩

theorem arguments {values : List Value} (literals : ∀ operand ∈ expressions, operand.Public)
    (found : mean.arguments scene expressions = .ok values) :
    ∀ value ∈ values, value.Public := by
  induction expressions generalizing values with
  | nil =>
    cases found
    exact fun _ member => nomatch member
  | cons operand rest ih =>
    rcases List.forall_mem_cons.mp literals with ⟨own, literals⟩
    rcases outcome_bind_eq_ok.mp found with ⟨others, behind, found⟩
    rcases outcome_bind_eq_ok.mp found with ⟨result, first, same⟩
    cases same
    exact clean.operandValue known (ih literals behind) own first

theorem application {definition : Option (Lambda Expr)}
    (literals : (Expr.application name expressions definition).Public)
    (found : mean.application name expressions definition scene = .ok value) : value.Public := by
  rcases outcome_bind_eq_ok.mp found with ⟨values, operands, found⟩
  rcases outcome_bind_eq_ok.mp found with ⟨result, applied, taken⟩
  have given := clean.arguments known
    (fun operand member => literals.child (List.mem_append_left _ member)) operands
  have held := clean.apply known given (fun lambda defined =>
    literals.child (List.mem_append_right _ (by rw [defined]; exact List.mem_cons_self))) applied
  rcases result with ⟨first, left⟩
  cases left with
  | nil =>
    cases taken
    exact held _ List.mem_cons_self
  | cons => cases taken

/-! ## Blocks -/

theorem gather {harvest after : Harvest} (earlier : harvest.Public) (literals : expression.Public)
    (found : mean.gather scene harvest expression = .ok after) : after.Public := by
  have trailing (value : Value) (member : value ∈ (none : Option Value)) : value.Public :=
    nomatch member
  cases expression with
  | assignment key operand =>
    rcases Meaning.gather_assignment_eq_ok.mp found with ⟨value, forced, rfl⟩
    refine ⟨?_, earlier.yields, trailing⟩
    rw [Meaning.enter]
    dsimp only
    cases hidden : isHidden key operand with
    | true => exact earlier.fields
    | false =>
      rcases Bool.or_eq_false_iff.mp hidden with ⟨visible, plain⟩
      exact Value.public_insert visible (clean.force known (forced plain)) earlier.fields
  | «yield» operand =>
    rcases outcome_bind_eq_ok.mp found with ⟨value, means, same⟩
    cases same
    refine ⟨earlier.fields, fun held member => ?_, trailing⟩
    rcases List.mem_append.mp member with front | last
    · exact earlier.yields held front
    · rw [List.mem_singleton.mp last]
      exact clean known (literals.child List.mem_cons_self) means
  | _ =>
    rcases outcome_bind_eq_ok.mp found with ⟨value, means, same⟩
    cases same
    refine ⟨earlier.fields, earlier.yields, fun held member => ?_⟩
    cases member
    exact clean known literals means

theorem gatherAll {harvest after : Harvest} (earlier : harvest.Public)
    (literals : ∀ expression ∈ expressions, expression.Public)
    (found : mean.gatherAll scene harvest expressions = .ok after) : after.Public := by
  induction expressions generalizing harvest with
  | nil =>
    cases found
    exact earlier
  | cons expression rest ih =>
    rcases List.forall_mem_cons.mp literals with ⟨own, literals⟩
    rcases outcome_bind_eq_ok.mp found with ⟨middle, first, behind⟩
    exact ih (clean.gather known earlier own first) literals behind

theorem sectionValue (literals : ∀ expression ∈ part.expressions, expression.Public)
    (found : mean.sectionValue scene part = .ok value) : value.Public := by
  rcases outcome_bind_eq_ok.mp found with ⟨harvest, gathered, same⟩
  cases same
  exact (clean.gatherAll (known.inside literals) .empty literals gathered).value

theorem sectionValues {sections : List (Section Expr)} {values : List Value}
    (literals : ∀ part ∈ sections, ∀ expression ∈ part.expressions, expression.Public)
    (found : mean.sectionValues scene sections = .ok values) : ∀ value ∈ values, value.Public := by
  induction sections generalizing values with
  | nil =>
    cases found
    exact fun _ member => nomatch member
  | cons part rest ih =>
    rcases List.forall_mem_cons.mp literals with ⟨own, literals⟩
    rcases outcome_bind_eq_ok.mp found with ⟨value, first, found⟩
    rcases outcome_bind_eq_ok.mp found with ⟨others, behind, same⟩
    cases same
    exact List.forall_mem_cons.mpr ⟨clean.sectionValue known own first, ih literals behind⟩

theorem blockValue {sections : List (Section Expr)}
    (literals : ∀ part ∈ sections, ∀ expression ∈ part.expressions, expression.Public)
    (found : mean.blockValue scene sections = .ok value) : value.Public := by
  match sections with
  | [] =>
    cases found
    exact fun _ member => nomatch member
  | [only] => exact clean.sectionValue known (literals only List.mem_cons_self) found
  | front :: second :: rest =>
    rcases List.forall_mem_cons.mp literals with ⟨own, literals⟩
    rcases outcome_bind_eq_ok.mp found with ⟨first, valued, found⟩
    rcases outcome_bind_eq_ok.mp found with ⟨others, behind, same⟩
    cases same
    exact Value.public_sequence.mpr (List.forall_mem_cons.mpr
      ⟨clean.sectionValue known own valued,
        clean.sectionValues (known.inside own) literals behind⟩)

/-! ## Expressions -/

theorem items {values : List Value} (literals : ∀ item ∈ expressions, item.Public)
    (found : mean.items scene expressions = .ok values) : ∀ value ∈ values, value.Public := by
  induction expressions generalizing values with
  | nil =>
    cases found
    exact fun _ member => nomatch member
  | cons item rest ih =>
    rcases List.forall_mem_cons.mp literals with ⟨own, literals⟩
    rcases outcome_bind_eq_ok.mp found with ⟨value, first, found⟩
    rcases outcome_bind_eq_ok.mp found with ⟨others, behind, same⟩
    cases same
    exact List.forall_mem_cons.mpr ⟨clean known own first, ih literals behind⟩

theorem step (literals : expression.Public) (found : mean.step scene expression = .ok value) :
    value.Public := by
  cases expression with
  | unit =>
    cases found
    exact fun _ member => nomatch member
  | scalar held =>
    cases found
    exact literals.own
  | vector items =>
    rcases outcome_bind_eq_ok.mp found with ⟨values, means, same⟩
    cases same
    exact Value.public_sequence.mpr
      (clean.items known (fun _ inside => literals.child inside) means)
  | «yield» operand | assignment key operand | «scope» id operand =>
    exact clean known (literals.child List.mem_cons_self) found
  | application name operands definition => exact clean.application known literals found
  | function lambda => cases found
  | lift operand =>
    rcases outcome_bind_eq_ok.mp found with ⟨held, means, same⟩
    have own := clean known (literals.child List.mem_cons_self) means
    have lifted : (Value.sequence [held]).Public :=
      Value.public_sequence.mpr (List.forall_mem_singleton.mpr own)
    cases held with
    | sequence items =>
      cases same
      exact own
    | _ =>
      cases same
      exact lifted
  | block sections =>
    exact clean.blockValue known (fun part member expression inside =>
      literals.child (List.mem_flatMap.mpr ⟨part, member, inside⟩)) found
  | merge left right mode =>
    rcases outcome_bind_eq_ok.mp found with ⟨first, means, found⟩
    rcases outcome_bind_eq_ok.mp found with ⟨second, further, merges⟩
    exact (clean known (literals.child List.mem_cons_self) means).of_subset
      (clean known (literals.child (List.mem_cons_of_mem _ List.mem_cons_self)) further)
      (Evaluator.keys_mergeValues merges)
  | access target field =>
    rcases outcome_bind_eq_ok.mp found with ⟨held, means, taken⟩
    rcases Evaluator.fieldOf_eq_ok taken with ⟨fields, rfl, present⟩
    have own := clean known (literals.child List.mem_cons_self) means
    exact fun key member => own key ((Value.keys_of_get? present).2 member)
  | pipeline left right => cases found
  | patternMatch subject pattern => cases found

end Meaning.Public

/-- To every depth, what is found has no private keys. -/
theorem public_meaning (depth : Nat) : (meaning depth).Public := by
  induction depth with
  | zero => exact fun _ _ found => by cases found
  | succ depth ih => exact fun known literals found => ih.step known literals found

end Manifest
