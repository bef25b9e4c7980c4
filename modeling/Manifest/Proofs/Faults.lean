import Manifest.Proofs.Conformance

/-!
# Where faults are

The path of a fault is a way through the value that was checked.  In a sequence a step goes to
the item whose index it writes, and in a mapping to the field that it names, even if the name
looks like an index.  The way ends at the part that the fault is about, or, where a required
field is missing, at the mapping in which the last step finds nothing.

The checks go down fields, items and alternatives, and each of them adds to the path exactly
the step that it takes in the value.  So a fault of a part is a fault of the whole, one step
further down.
-/

namespace Manifest

namespace Schema

/-- The steps of different indices differ. -/
theorem indexStep_inj {index other : Nat} : indexStep index = indexStep other ↔ index = other := by
  refine ⟨fun same => ?_, congrArg indexStep⟩
  rw [indexStep, indexStep, String.append_left_inj, String.append_right_inj] at same
  have digits : Nat.toDigits 10 index = Nat.toDigits 10 other := by
    rw [← Nat.toList_repr, ← Nat.toList_repr]
    exact congrArg String.toList same
  rw [← Nat.ofDigitChars_ten_toDigits (n := index), digits, Nat.ofDigitChars_ten_toDigits]

end Schema

namespace Value

/-- The part that a step leads to: of a sequence the item whose index the step writes, of a
mapping the field that the step names. -/
def step? : Value → String → Option Value
  | sequence items, step =>
      ((List.range items.length).find? fun index => Schema.indexStep index == step).bind
        (items[·]?)
  | mapping fields, step => Fields.get? fields step
  | _, _ => none

/-- The part that a path leads to. -/
def follow? : Value → List String → Option Value
  | value, [] => some value
  | value, step :: path => (value.step? step).bind fun part => part.follow? path

variable {value part : Value} {step : String} {path : List String}

/-- The step of an index leads to the item with this index. -/
theorem step?_indexStep {items : List Value} {index : Nat} (found : items[index]? = some part) :
    (sequence items).step? (Schema.indexStep index) = some part := by
  have inside : index < items.length := (List.getElem?_eq_some_iff.mp found).1
  have selected : ((List.range items.length).find? fun other =>
      Schema.indexStep other == Schema.indexStep index) = some index := by
    refine List.find?_range_eq_some.mpr ⟨beq_self_eq_true _, List.mem_range.mpr inside, ?_⟩
    intro other less
    simp [Schema.indexStep_inj, Nat.ne_of_lt less]
  rw [step?, selected, Option.bind_some, found]

theorem follow?_cons (taken : value.step? step = some part) :
    value.follow? (step :: path) = part.follow? path := by
  rw [follow?, taken, Option.bind_some]

end Value

section Engine

variable [Pattern.Engine]

namespace Departure

variable {value part : Value} {step : String} {path : List String} {departure : Departure}

/-- A departure tells the truth about the part that a path leads to. -/
def HoldsAt (value : Value) (path : List String) : Departure → Prop
  | wrongKind expected found => value.follow? path = some found ∧ expected.admits found = false
  | missingField name => ∃ above fields, path = above ++ [name] ∧
      value.follow? above = some (.mapping fields) ∧ Fields.get? fields name = none
  | outOfRange number least greatest =>
      value.follow? path = some (.number number) ∧ Schema.inRange least greatest number = false
  | patternMismatch content pattern =>
      value.follow? path = some (.text content) ∧ Pattern.Engine.test pattern content = .ok false
  | invalidPattern pattern refusal => ∃ content, value.follow? path = some (.text content) ∧
      Pattern.Engine.test pattern content = .error refusal

/-- What is true of a part is true of the whole, one step further down. -/
theorem HoldsAt.below (taken : value.step? step = some part)
    (holds : departure.HoldsAt part path) : departure.HoldsAt value (step :: path) := by
  cases departure with
  | missingField name =>
    rcases holds with ⟨above, fields, rfl, reached, absent⟩
    exact ⟨step :: above, fields, rfl, (Value.follow?_cons taken).trans reached, absent⟩
  | invalidPattern pattern refusal =>
    rcases holds with ⟨content, reached, refused⟩
    exact ⟨content, (Value.follow?_cons taken).trans reached, refused⟩
  | _ => exact ⟨(Value.follow?_cons taken).trans holds.1, holds.2⟩

end Departure

namespace Fault

variable {value part : Value} {step : String} {base : List String} {fault : Fault}

/-- A fault tells the truth about a value that stands at the end of a path. -/
def PointsInto (base : List String) (value : Value) (fault : Fault) : Prop :=
  ∃ path, fault.path = base ++ path ∧ fault.departure.HoldsAt value path

theorem PointsInto.below (taken : value.step? step = some part)
    (points : fault.PointsInto (base ++ [step]) part) : fault.PointsInto base value := by
  rcases points with ⟨path, same, holds⟩
  exact ⟨step :: path, by rw [same, List.append_assoc, List.singleton_append], holds.below taken⟩

/-- A fault that is found where the value itself stands. -/
theorem PointsInto.here {departure : Departure} (holds : departure.HoldsAt value []) :
    (Fault.mk base departure).PointsInto base value :=
  ⟨[], (List.append_nil base).symm, holds⟩

/-- A field that is missing in the value itself. -/
theorem PointsInto.missing {values : Fields Value} {name : String}
    (absent : Fields.get? values name = none) :
    (Fault.mk (base ++ [name]) (.missingField name)).PointsInto base (.mapping values) :=
  ⟨[name], rfl, [], values, rfl, rfl, absent⟩

end Fault

/-! ## The faults of the checks -/

namespace Schema

variable {schema : Schema} {value : Value} {path : List String} {fault : Fault}

theorem pointsInto_of_mem_formFaults (inside : fault ∈ formFaults path schema value) :
    fault.PointsInto path value := by
  rw [formFaults] at inside
  split at inside
  · cases inside
  · rename_i refused
    cases List.mem_singleton.mp inside
    exact .here ⟨rfl, Bool.eq_false_iff.mpr refused⟩

theorem pointsInto_of_mem_patternFaults {pattern content : String}
    (inside : fault ∈ patternFaults path pattern content) :
    fault.PointsInto path (.text content) := by
  rw [patternFaults] at inside
  split at inside
  · rename_i refusal refused
    cases List.mem_singleton.mp inside
    exact .here ⟨content, rfl, refused⟩
  · cases inside
  · rename_i differs
    cases List.mem_singleton.mp inside
    exact .here ⟨rfl, differs⟩

theorem pointsInto_of_mem_textFieldFaults {values : Fields Value} {name : String}
    (inside : fault ∈ textFieldFaults path values name) :
    fault.PointsInto path (.mapping values) := by
  rw [textFieldFaults] at inside
  split at inside
  · rename_i absent
    cases List.mem_singleton.mp inside
    exact .missing absent
  · rename_i held found
    exact (pointsInto_of_mem_formFaults inside).below found

mutual
/-- Every fault of a value at a path points into the value. -/
theorem pointsInto_of_mem_faults : ∀ (schema : Schema) {path : List String} {value : Value}
    {fault : Fault}, fault ∈ schema.faults path value → fault.PointsInto path value
  | .struct fields, path, value, fault, inside => by
    cases value with
    | mapping values => exact pointsInto_of_mem_fieldFaults fields inside
    | _ => exact pointsInto_of_mem_formFaults inside
  | .vector elements, path, value, fault, inside => by
    cases value with
    | sequence items =>
      rw [faults] at inside
      split at inside
      · cases inside
      · rcases List.mem_flatMap.mp inside with ⟨⟨item, index⟩, among, inside⟩
        have found : items[index]? = some item := List.mk_mem_zipIdx_iff_getElem?.mp among
        exact (pointsInto_of_mem_faultsOfSome elements inside).below (Value.step?_indexStep found)
    | _ => exact pointsInto_of_mem_formFaults inside
  | .union members, path, value, fault, inside => by
    rw [faults] at inside
    exact pointsInto_of_mem_faultsOfSome members inside
  | .text pattern, path, value, fault, inside => by
    cases value with
    | text content =>
      cases pattern with
      | none => cases inside
      | some pattern => exact pointsInto_of_mem_patternFaults inside
    | _ => exact pointsInto_of_mem_formFaults inside
  | .number least greatest, path, value, fault, inside => by
    cases value with
    | number found =>
      rw [faults, outsideRange_eq_not] at inside
      split at inside
      · rename_i outside
        cases List.mem_singleton.mp inside
        exact .here ⟨rfl, by simpa using outside⟩
      · cases inside
    | _ => exact pointsInto_of_mem_formFaults inside
  | .resource, path, value, fault, inside => by
    cases value with
    | mapping values =>
      rw [faults] at inside
      exact (List.mem_append.mp inside).elim pointsInto_of_mem_textFieldFaults
        pointsInto_of_mem_textFieldFaults
    | _ => exact pointsInto_of_mem_formFaults inside
  | .any, _, _, _, inside | .unresolved, _, _, _, inside => nomatch inside
  | .unit, _, _, _, inside | .boolean, _, _, _, inside => pointsInto_of_mem_formFaults inside

theorem pointsInto_of_mem_faultsOfSome : ∀ (schemas : List Schema) {path : List String}
    {value : Value} {fault : Fault}, fault ∈ faultsOfSome path value schemas →
      fault.PointsInto path value
  | [], _, _, _, inside => pointsInto_of_mem_formFaults inside
  | [only], path, value, fault, inside => by
    rw [faultsOfSome_singleton] at inside
    split at inside
    · exact pointsInto_of_mem_formFaults inside
    · split at inside
      · cases inside
      · exact pointsInto_of_mem_faults only inside
  | _ :: _ :: _, _, _, _, inside => by
    rw [faultsOfSome] at inside
    exact pointsInto_of_mem_formFaults inside

theorem pointsInto_of_mem_fieldFaults : ∀ (fields : List (String × List Schema))
    {path : List String} {values : Fields Value} {fault : Fault},
    fault ∈ fieldFaults path values fields → fault.PointsInto path (.mapping values)
  | (name, alternatives) :: rest, path, values, fault, inside => by
    rw [fieldFaults, List.mem_append] at inside
    rcases inside with first | further
    · split at first
      · rename_i held found
        exact (pointsInto_of_mem_faultsOfSome alternatives first).below found
      · rename_i absent
        cases List.mem_singleton.mp first
        exact .missing absent
    · exact pointsInto_of_mem_fieldFaults rest further
end

end Schema

end Engine

end Manifest
