import Manifest.Proofs.Faults

/-!
# Faults of emitted resources

What a manifest emits is one resource, a sequence of resources, or nothing.  A resource is a
mapping with two strings, its version and its kind.

The faults of what is emitted come from the check of each value against the schema of a
resource, which goes on to required fields and from them to alternatives.  Here they are told
without any schema: what is found about a value that is no mapping, and what about each of the
two fields of a mapping, in their order.
-/

namespace Manifest

/-- What a reader is told about one fault. -/
structure Finding where
  code : String
  path : List String
  message : String

/-- What is told about a fault. -/
def Fault.finding (fault : Fault) : Finding := ⟨fault.code, fault.path, fault.message⟩

namespace Value

/-- The values that are emitted, each with the path that leads to it. -/
def emitted : Value → List (List String × Value)
  | unit => []
  | sequence items => items.zipIdx.map fun (item, index) => ([Schema.indexStep index], item)
  | other => [([], other)]

/-- What is found about a field that has to hold a string. -/
def fieldFinding (path : List String) (fields : Fields Value) (name : String) : Option Finding :=
  match Fields.get? fields name with
  | none => some ⟨"missing-required", path ++ [name], "Missing required field \"" ++ name ++ "\""⟩
  | some (text _) => none
  | some held => some ⟨"wrong-type", path ++ [name], "Expected string but found " ++ held.kind⟩

/-- What is found about a value that has to be a resource. -/
def findings (path : List String) : Value → List Finding
  | mapping fields => ["apiVersion", "kind"].filterMap (fieldFinding path fields)
  | other => [⟨"wrong-type", path, "Expected KubernetesResource but found " ++ other.kind⟩]

end Value

/-! ## One resource -/

namespace Schema

variable [Pattern.Engine] {path : List String}

/-- A string that is the only alternative is checked like a string. -/
theorem faultsOfSome_text (path : List String) (value : Value) :
    faultsOfSome path value [text none] = formFaults path (text none) value := by
  rw [faultsOfSome_singleton, formFaults]
  cases value <;> rfl

theorem textFieldFaults_eq_fieldFaults (path : List String) (values : Fields Value)
    (name : String) :
    textFieldFaults path values name = fieldFaults path values [(name, [text none])] := by
  rw [textFieldFaults, fieldFaults, fieldFaults, List.append_nil]
  cases Fields.get? values name with
  | none => rfl
  | some held => exact (faultsOfSome_text (path ++ [name]) held).symm

/-- The fields of a resource are checked like two required strings. -/
theorem faults_resource_mapping (path : List String) (values : Fields Value) :
    resource.faults path (.mapping values) =
      fieldFaults path values (["apiVersion", "kind"].map fun name => (name, [text none])) := by
  rw [faults, textFieldFaults_eq_fieldFaults, textFieldFaults_eq_fieldFaults]
  simp only [fieldFaults, List.map_cons, List.map_nil, List.append_nil]

/-- Of required strings every one is told that is missing or of another kind. -/
theorem findings_fieldFaults (path : List String) (values : Fields Value) (names : List String) :
    (fieldFaults path values (names.map fun name => (name, [text none]))).map Fault.finding =
      names.filterMap (Value.fieldFinding path values) := by
  induction names with
  | nil => rfl
  | cons name rest ih =>
    rw [List.map_cons, fieldFaults, List.map_append, ih, List.filterMap_cons, Value.fieldFinding]
    cases Fields.get? values name with
    | none => rfl
    | some held =>
      dsimp only
      rw [faultsOfSome_text]
      cases held <;> simp [formFaults, admits, Fault.finding, Fault.code, Fault.message, describe]

theorem findings_formFaults (value : Value) :
    (formFaults path resource value).map Fault.finding = if resource.admits value then [] else
      [⟨"wrong-type", path, "Expected KubernetesResource but found " ++ value.kind⟩] := by
  rw [formFaults]
  split
  · rfl
  · simp [Fault.finding, Fault.code, Fault.message, describe]

/-- The check of a resource finds what is told about the value. -/
theorem findings_faults (path : List String) (value : Value) :
    (resource.faults path value).map Fault.finding = value.findings path := by
  cases value with
  | mapping fields => rw [faults_resource_mapping, findings_fieldFaults, Value.findings]
  | _ => exact findings_formFaults _

theorem faults_resource_eq_nil {value : Value} :
    resource.faults path value = [] ↔ value.IsResource :=
  (faults_eq_nil resource).trans admits_resource_iff

end Schema

namespace Value

variable {value : Value}

/-! ## What is emitted -/

/-- The path of an emitted value leads to it. -/
theorem follow?_of_mem_emitted {place : List String × Value} (inside : place ∈ value.emitted) :
    value.follow? place.1 = some place.2 := by
  cases value with
  | unit => cases inside
  | sequence items =>
    rcases List.mem_map.mp inside with ⟨⟨item, index⟩, among, rfl⟩
    have found : items[index]? = some item := List.mk_mem_zipIdx_iff_getElem?.mp among
    exact follow?_cons (step?_indexStep found)
  | _ =>
    rw [List.mem_singleton.mp inside]
    rfl

theorem resourceFaults_eq_flatMap [Pattern.Engine] (value : Value) :
    value.resourceFaults = value.emitted.flatMap fun place =>
      Schema.resource.faults place.1 place.2 := by
  cases value with
  | sequence items => rw [resourceFaults, emitted, List.flatMap_map]
  | unit => rfl
  | _ => exact (List.flatMap_singleton ..).symm

theorem forall_emitted_iff : (∀ place ∈ value.emitted, place.2.IsResource) ↔ value = .unit ∨
    (∃ items, value = .sequence items ∧ ∀ item ∈ items, item.IsResource) ∨
    value.IsResource := by
  cases value with
  | unit => simp [emitted]
  | sequence items =>
    have items_eq : (sequence items).emitted.map Prod.snd = items := by
      rw [emitted, List.map_map]
      exact List.zipIdx_map_fst 0 items
    have each : (∀ place ∈ (sequence items).emitted, place.2.IsResource) ↔
        ∀ item ∈ items, item.IsResource :=
      List.forall_mem_map.symm.trans (by rw [items_eq])
    rw [each]
    refine ⟨fun all => .inr (.inl ⟨items, rfl, all⟩), ?_⟩
    rintro (same | ⟨others, same, all⟩ | ⟨fields, _, _, same, _⟩)
    · cases same
    · cases same
      exact all
    · cases same
  | _ => simp [emitted]

end Value

/-- The faults of what is emitted are exactly those of each value that is emitted, in order: a
wrong kind for what is no mapping, and for a mapping what is missing or no string of its
version and then of its kind.  So nothing is found exactly if nothing is emitted, or a
sequence of resources, or one resource. -/
theorem resource_faults_exact [Pattern.Engine] (value : Value) :
    (value.resourceFaults = [] ↔ value = .unit ∨
      (∃ items, value = .sequence items ∧ ∀ item ∈ items, item.IsResource) ∨
      value.IsResource) ∧
    (∀ place ∈ value.emitted, value.follow? place.1 = some place.2) ∧
    value.resourceFaults.map Fault.finding =
      value.emitted.flatMap fun place => place.2.findings place.1 := by
  rw [Value.resourceFaults_eq_flatMap]
  refine ⟨?_, fun place => Value.follow?_of_mem_emitted, ?_⟩
  · rw [List.flatMap_eq_nil_iff]
    simp only [Schema.faults_resource_eq_nil]
    exact Value.forall_emitted_iff
  · rw [List.map_flatMap]
    simp only [Schema.findings_faults]

/-- All kinds of faults in one sequence, beside a resource without any. -/
theorem resource_faults_exact_mixed :
    let value := Value.sequence [.mapping [("apiVersion", .text "v1"), ("kind", .text "Pod")],
      .unit, .mapping [("apiVersion", .boolean true)]]
    value.resourceFaults ≠ [] ∧ value.follow? ["[1]"] = some .unit ∧
      value.resourceFaults.map Fault.finding =
        [⟨"wrong-type", ["[1]"], "Expected KubernetesResource but found unit"⟩,
          ⟨"wrong-type", ["[2]", "apiVersion"], "Expected string but found boolean"⟩,
          ⟨"missing-required", ["[2]", "kind"], "Missing required field \"kind\""⟩] := by
  intro value
  rcases resource_faults_exact value with ⟨_, places, told⟩
  have findings := told.trans (show _ = [_, _, _] from rfl)
  refine ⟨fun none => ?_, places (["[1]"], .unit) (.tail _ (.head _)), findings⟩
  rw [none] at findings
  cases findings

end Manifest
