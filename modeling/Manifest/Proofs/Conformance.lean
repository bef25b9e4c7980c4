import Manifest.Pattern.Reader
import Manifest.Schema.Conform

/-!
# Faults and conformance

A value without faults should be a value that conforms.  The two checks go
different ways where several schemas are possible.  Conformance asks for one
that admits the value, so that nothing conforms where no schema is possible.
The faults turn the alternatives into one schema first, and no alternatives
become the schema of a unit.  Both ask the same engine about patterns, whichever it is.

So the faults judge by a schema of their own, in which every empty set of
alternatives that they come across holds a unit.  They agree with conformance
wherever that schema admits nothing more.
-/

namespace Manifest
namespace Schema

def isUnion : Schema → Bool
  | union _ => true
  | _ => false

mutual
/-- The schema that the faults of a value are found by. -/
def completed : Schema → Schema
  | struct fields => struct (completedFields fields)
  | vector items => vector (if items.isEmpty then [] else completedSome items)
  | union members => union (completedSome members)
  | other => other
termination_by structural schema => schema

/-- Of several alternatives none is looked into, and no union that is alone. -/
def completedSome : List Schema → List Schema
  | [] => [unit]
  | [only] => if only.isUnion then [only] else [only.completed]
  | first :: second :: rest => first :: second :: rest
termination_by structural schemas => schemas

def completedFields : List (String × List Schema) → List (String × List Schema)
  | [] => []
  | (name, alternatives) :: rest => (name, completedSome alternatives) :: completedFields rest
termination_by structural fields => fields
end

mutual
/-- Some schema is possible for every field and in every union. -/
def isComplete : Schema → Bool
  | struct fields => areComplete fields
  | vector items => items.isEmpty || someComplete items
  | union members => someComplete members
  | _ => true
termination_by structural schema => schema

/-- There are alternatives, and one that is alone and no union is complete. -/
def someComplete : List Schema → Bool
  | [] => false
  | [only] => only.isUnion || only.isComplete
  | _ :: _ :: _ => true
termination_by structural schemas => schemas

def areComplete : List (String × List Schema) → Bool
  | [] => true
  | (_, alternatives) :: rest => someComplete alternatives && areComplete rest
termination_by structural fields => fields
end

/-! ## What the completed schema admits -/

mutual
/-- A complete schema is completed already. -/
theorem completed_eq_self : ∀ {schema : Schema}, schema.isComplete = true →
    schema.completed = schema
  | struct fields, complete => congrArg struct (completedFields_eq_self complete)
  | vector items, complete => by
    rw [completed]
    rcases (Bool.or_eq_true _ _).mp complete with empty | complete
    · rw [if_pos empty, List.isEmpty_iff.mp empty]
    · rw [completedSome_eq_self complete, ite_eq_right_iff.mpr fun empty =>
        (List.isEmpty_iff.mp empty).symm]
  | union members, complete => congrArg union (completedSome_eq_self complete)
  | unit, _ | text _, _ | number _ _, _ | boolean, _ | any, _ | unresolved, _ | resource, _ => rfl

theorem completedSome_eq_self : ∀ {schemas : List Schema}, someComplete schemas = true →
    completedSome schemas = schemas
  | [], complete => nomatch complete
  | [only], complete => by
    rw [completedSome]
    split
    · rfl
    · rename_i noUnion
      rcases (Bool.or_eq_true _ _).mp complete with isUnion | complete
      · exact absurd isUnion noUnion
      · rw [completed_eq_self complete]
  | _ :: _ :: _, _ => rfl

theorem completedFields_eq_self : ∀ {fields : List (String × List Schema)},
    areComplete fields = true → completedFields fields = fields
  | [], _ => rfl
  | (name, alternatives) :: rest, complete => by
    rcases (Bool.and_eq_true _ _).mp complete with ⟨first, further⟩
    rw [completedFields, completedSome_eq_self first, completedFields_eq_self further]
end

section Engine

variable [Pattern.Engine]

mutual
/-- A value that conforms still conforms to the completed schema. -/
theorem admits_completed : ∀ {schema : Schema} {value : Value}, schema.admits value = true →
    schema.completed.admits value = true
  | struct fields, .mapping values, admitted => admitsFields_completed admitted
  | vector items, .sequence elements, admitted => by
    rw [completed, admits]
    split
    · rfl
    · rename_i filled
      rcases (Bool.or_eq_true _ _).mp admitted with empty | each
      · exact absurd empty filled
      · refine (Bool.or_eq_true _ _).mpr (.inr (List.all_eq_true.mpr fun element inside => ?_))
        exact admitsSome_completed (List.all_eq_true.mp each element inside)
  | union members, value, admitted => by
    rw [completed, admits]
    rw [admits] at admitted
    exact admitsSome_completed admitted
  | struct _, .unit, admitted | struct _, .text _, admitted | struct _, .number _, admitted
  | struct _, .boolean _, admitted | struct _, .sequence _, admitted => nomatch admitted
  | vector _, .unit, admitted | vector _, .text _, admitted | vector _, .number _, admitted
  | vector _, .boolean _, admitted | vector _, .mapping _, admitted => nomatch admitted
  | unit, _, admitted | text _, _, admitted | number _ _, _, admitted | boolean, _, admitted
  | any, _, admitted | unresolved, _, admitted | resource, _, admitted => admitted

theorem admitsSome_completed : ∀ {schemas : List Schema} {value : Value},
    admitsSome schemas value = true → admitsSome (completedSome schemas) value = true
  | [], _, admitted => nomatch admitted
  | [only], value, admitted => by
    rw [completedSome]
    split
    · exact admitted
    · rw [admitsSome, admitsSome, Bool.or_false] at admitted ⊢
      exact admits_completed admitted
  | _ :: _ :: _, _, admitted => admitted

theorem admitsFields_completed : ∀ {fields : List (String × List Schema)} {values : Fields Value},
    admitsFields fields values = true → admitsFields (completedFields fields) values = true
  | [], _, _ => rfl
  | (name, alternatives) :: rest, values, admitted => by
    rw [admitsFields, Bool.and_eq_true] at admitted
    rw [completedFields, admitsFields, Bool.and_eq_true]
    refine ⟨?_, admitsFields_completed admitted.2⟩
    have first := admitted.1
    split at first
    · exact admitsSome_completed first
    · cases first
end

end Engine

end Schema

/-! ## Resources -/

/-- A mapping with a version and a kind, both of them strings. -/
def Value.IsResource (value : Value) : Prop :=
  ∃ fields version kind, value = .mapping fields ∧
    Fields.get? fields "apiVersion" = some (.text version) ∧
    Fields.get? fields "kind" = some (.text kind)

namespace Schema

theorem holdsText_iff {fields : Fields Value} {name : String} :
    (match Fields.get? fields name with
      | some (.text _) => true
      | _ => false) = true ↔ ∃ content, Fields.get? fields name = some (.text content) := by
  constructor
  · intro holds
    split at holds
    · rename_i content found
      exact ⟨content, found⟩
    · cases holds
  · rintro ⟨content, found⟩
    rw [found]

theorem admits_resource_iff [Pattern.Engine] {value : Value} :
    resource.admits value = true ↔ value.IsResource := by
  constructor
  · intro admitted
    cases value with
    | mapping fields =>
      rcases (Bool.and_eq_true _ _).mp admitted with ⟨version, kind⟩
      rcases holdsText_iff.mp version with ⟨version, hasVersion⟩
      rcases holdsText_iff.mp kind with ⟨kind, hasKind⟩
      exact ⟨fields, version, kind, rfl, hasVersion, hasKind⟩
    | _ => cases admitted
  · rintro ⟨fields, version, kind, rfl, hasVersion, hasKind⟩
    exact (Bool.and_eq_true _ _).mpr
      ⟨holdsText_iff.mpr ⟨version, hasVersion⟩, holdsText_iff.mpr ⟨kind, hasKind⟩⟩

/-! ## Faults -/

/-- A number is outside of a range exactly if it is not in it. -/
theorem outsideRange_eq_not (least greatest : Option Number) (number : Number) :
    outsideRange least greatest number = !inRange least greatest number := by
  have below : least.any (fun bound => decide (number < bound)) =
      !least.all (fun bound => decide (bound ≤ number)) := by
    cases least with
    | none => rfl
    | some bound => simp [← Number.not_lt]
  have above : greatest.any (fun bound => decide (bound < number)) =
      !greatest.all (fun bound => decide (number ≤ bound)) := by
    cases greatest with
    | none => rfl
    | some bound => simp [← Number.not_lt]
  rw [outsideRange, inRange, Bool.not_and, below, above]

/-- There is always something left to judge by. -/
theorem isEmpty_completedSome (schemas : List Schema) :
    (completedSome schemas).isEmpty = false := by
  match schemas with
  | [] => rfl
  | [only] =>
    rw [completedSome]
    split <;> rfl
  | _ :: _ :: _ => rfl

section Engine

variable [Pattern.Engine] {schema : Schema} {value : Value} {path : List String}

theorem formFaults_eq_nil : formFaults path schema value = [] ↔ schema.admits value = true := by
  rw [formFaults]
  split <;> simp_all

theorem patternFaults_eq_nil {pattern content : String} :
    patternFaults path pattern content = [] ↔
      (text (some pattern)).admits (.text content) = true := by
  rw [patternFaults, admits]
  cases Pattern.Engine.test pattern content with
  | error failure => simp [Except.toOption]
  | ok found => cases found <;> simp [Except.toOption]

/-- A resource has two fields that hold strings. -/
theorem textFieldFaults_eq_nil {values : Fields Value} {name : String} :
    textFieldFaults path values name = [] ↔
      (match Fields.get? values name with
        | some (.text _) => true
        | _ => false) = true := by
  rw [textFieldFaults]
  cases Fields.get? values name with
  | none => simp
  | some held =>
    refine formFaults_eq_nil.trans ?_
    cases held <;> rfl

theorem faultsOfSome_singleton : faultsOfSome path value [schema] =
    if schema.isUnion then formFaults path schema value
    else if schema.admits value then [] else schema.faults path value := by
  cases schema <;> rfl

mutual
/-- No fault is found exactly if the value conforms to the completed schema. -/
theorem faults_eq_nil : ∀ (schema : Schema) {path : List String} {value : Value},
    schema.faults path value = [] ↔ schema.completed.admits value = true
  | struct fields, path, value => by
    cases value with
    | mapping values => exact fieldFaults_eq_nil fields
    | _ => exact formFaults_eq_nil
  | vector items, path, value => by
    cases value with
    | sequence elements =>
      rw [faults, completed, admits]
      split
      · exact ⟨fun _ => rfl, fun _ => rfl⟩
      · rw [isEmpty_completedSome, Bool.false_or, List.flatMap_eq_nil_iff, List.all_eq_true]
        constructor
        · intro none element inside
          rcases List.mem_iff_getElem?.mp inside with ⟨index, found⟩
          exact (faultsOfSome_eq_nil items).mp
            (none (element, index) (List.mk_mem_zipIdx_iff_getElem?.mpr found))
        · rintro each ⟨element, index⟩ inside
          exact (faultsOfSome_eq_nil items).mpr
            (each element (List.fst_mem_of_mem_zipIdx inside))
    | _ => exact formFaults_eq_nil
  | union members, path, value => by
    rw [faults, completed, admits]
    exact faultsOfSome_eq_nil members
  | text pattern, path, value => by
    cases value with
    | text content =>
      cases pattern with
      | none => exact ⟨fun _ => rfl, fun _ => rfl⟩
      | some pattern => exact patternFaults_eq_nil
    | _ => exact formFaults_eq_nil
  | number least greatest, path, value => by
    cases value with
    | number found =>
      change (if outsideRange least greatest found then _ else _) = [] ↔
        inRange least greatest found = true
      rw [outsideRange_eq_not]
      cases inRange least greatest found <;> simp
    | _ => exact formFaults_eq_nil
  | resource, path, value => by
    cases value with
    | mapping values =>
      rw [faults, List.append_eq_nil_iff]
      exact (and_congr textFieldFaults_eq_nil textFieldFaults_eq_nil).trans
        (Bool.and_eq_true _ _).symm.to_iff
    | _ => exact formFaults_eq_nil
  | any, _, _ | unresolved, _, _ => ⟨fun _ => rfl, fun _ => rfl⟩
  | unit, _, _ | boolean, _, _ => formFaults_eq_nil

theorem faultsOfSome_eq_nil : ∀ (schemas : List Schema) {path : List String} {value : Value},
    faultsOfSome path value schemas = [] ↔ admitsSome (completedSome schemas) value = true
  | [], path, value => by
    rw [faultsOfSome, formFaults_eq_nil, completedSome, admitsSome, admitsSome, Bool.or_false]
  | [only], path, value => by
    rw [faultsOfSome_singleton, completedSome]
    split
    · rw [formFaults_eq_nil, admitsSome, admitsSome, Bool.or_false]
    · rw [admitsSome, admitsSome, Bool.or_false]
      split
      · rename_i admitted
        exact ⟨fun _ => admits_completed admitted, fun _ => rfl⟩
      · exact faults_eq_nil only
  | first :: second :: rest, path, value => by
    rw [faultsOfSome, formFaults_eq_nil, admits, completedSome]

theorem fieldFaults_eq_nil : ∀ (fields : List (String × List Schema)) {path : List String}
    {values : Fields Value},
    fieldFaults path values fields = [] ↔ admitsFields (completedFields fields) values = true
  | [], _, _ => ⟨fun _ => rfl, fun _ => rfl⟩
  | (name, alternatives) :: rest, path, values => by
    rw [fieldFaults, List.append_eq_nil_iff, fieldFaults_eq_nil rest, completedFields,
      admitsFields, Bool.and_eq_true]
    refine and_congr_left fun _ => ?_
    cases Fields.get? values name with
    | none => simp
    | some held => exact faultsOfSome_eq_nil alternatives
end

end Engine

end Schema

/-- The faults agree with conformance about a value exactly if the completed
schema admits it no sooner than the schema itself, and about every value if the
schema is complete. -/
theorem faultless_iff_conforms [Pattern.Engine] (schema : Schema) (value : Value) :
    ((schema.validate value = [] ↔ schema.admits value = true) ↔
      (schema.completed.admits value = true → schema.admits value = true)) ∧
    (schema.isComplete = true →
      (schema.validate value = [] ↔ schema.admits value = true)) := by
  have judged : schema.validate value = [] ↔ schema.completed.admits value = true :=
    Schema.faults_eq_nil schema
  constructor
  · rw [judged]
    exact ⟨Iff.mp, fun sooner => ⟨sooner, Schema.admits_completed⟩⟩
  · intro complete
    rw [judged, Schema.completed_eq_self complete]

/-- A field with two alternatives beside a sequence about whose items nothing is said. -/
theorem faultless_iff_conforms_two_fields :
    (Schema.struct [("a", [.text none, .unit]), ("b", [.vector []])]).isComplete = true ∧
    (Schema.struct [("a", [.text none, .unit]), ("b", [.vector []])]).validate
      (.mapping [("a", .unit), ("b", .sequence [.boolean true])]) = [] ∧
    (Schema.struct [("a", [.text none, .unit]), ("b", [.vector []])]).validate
      (.mapping [("a", .boolean true), ("b", .sequence [])]) ≠ [] := by
  refine ⟨by decide, ((faultless_iff_conforms _ _).2 (by decide)).mpr (by decide), fun none => ?_⟩
  have admitted := ((faultless_iff_conforms _ _).2 (by decide)).mp none
  revert admitted
  decide

/-- A unit in a field for which no schema is possible has no fault, and does not conform. -/
theorem unit_without_alternatives_faultless :
    (Schema.struct [("a", [])]).validate (.mapping [("a", .unit)]) = [] ∧
      (Schema.struct [("a", [])]).admits (.mapping [("a", .unit)]) = false := by
  exact ⟨by rfl, by decide⟩

end Manifest
