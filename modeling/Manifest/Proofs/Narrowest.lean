import Manifest.Pattern.Reader
import Manifest.Proofs.Assignability
import Manifest.Proofs.Inference.Schemas

/-!
# The narrowest schema of a value

A value has a schema of its own, which is never a union, and in which items of the same schema
count only once.  The value conforms to it, and it is assignable to every other schema that the
value conforms to.  So a value that conforms at run time would have been accepted by its schema
before.

A name about which nothing is known is the exception: every value conforms to it, but the
schema of no value is assignable to it.
-/

namespace Manifest
namespace Schema

variable {schema atom : Schema} {value : Value}

/-! ## Conformance to atoms -/

section Engine

variable [Pattern.Engine]

mutual
/-- A value conforms to a schema exactly if it conforms to one of the atoms. -/
theorem admits_iff_atoms : ∀ (schema : Schema) {value : Value},
    schema.admits value = true ↔ ∃ atom ∈ schema.atoms, atom.admits value = true
  | .union members, _ => by
    rw [admits]
    exact admitsSome_iff_atoms members
  | .unit, _ | .text _, _ | .number _ _, _ | .boolean, _ | .struct _, _ | .vector _, _
  | .any, _ | .unresolved, _ | .resource, _ => by simp [atoms]

theorem admitsSome_iff_atoms : ∀ (schemas : List Schema) {value : Value},
    admitsSome schemas value = true ↔ ∃ atom ∈ atomsOfAll schemas, atom.admits value = true
  | [], _ => by simp [admitsSome, atomsOfAll]
  | schema :: rest, _ => by
    rw [admitsSome, Bool.or_eq_true, admits_iff_atoms schema, admitsSome_iff_atoms rest,
      atomsOfAll]
    simp only [List.mem_append, or_and_right, exists_or]
end

end Engine

/-! ## The schema of a value -/

theorem isUnion_ofValue (value : Value) : (ofValue value).isUnion = false := by
  cases value <;> rfl

/-- Every field has the schema of what it holds as its only alternative. -/
theorem get?_ofFields (fields : Fields Value) (name : String) :
    Fields.get? (ofFields fields) name =
      (Fields.get? fields name).map fun held => [ofValue held] := by
  induction fields with
  | nil => rfl
  | cons field rest ih =>
    rcases field with ⟨key, held⟩
    rw [ofFields, Fields.get?, Fields.get?, ih]
    split <;> rfl

/-- A field that holds a string is known to hold one. -/
theorem hasTextField_ofFields {fields : Fields Value} {name content : String}
    (found : Fields.get? fields name = some (.text content)) :
    hasTextField (ofFields fields) name = true := by
  rw [hasTextField, get?_ofFields, found]
  rfl

/-- The schema of a value fits every atom to which the value conforms. -/
theorem fits_ofValue [Pattern.Engine] (simple : atom.isUnion = false) (known : atom ≠ unresolved)
    (admitted : atom.admits value = true) : (ofValue value).fits atom = true := by
  cases atom with
  | union members => cases simple
  | unresolved => exact absurd rfl known
  | any => rw [fits]
  | resource =>
    rcases admits_resource_iff.mp admitted with ⟨fields, version, kind, rfl, hasVersion, hasKind⟩
    exact (Bool.and_eq_true _ _).mpr
      ⟨hasTextField_ofFields hasVersion, hasTextField_ofFields hasKind⟩
  | text pattern => cases value <;> cases pattern <;> first | rfl | cases admitted
  | _ => cases value <;> first | rfl | cases admitted

/-- Conformance shows in assignability wherever every atom asks for something known. -/
theorem assignableTo_of_admits [Pattern.Engine] (known : unresolved ∉ schema.atoms)
    (admitted : schema.admits value = true) : (ofValue value).assignableTo schema = true := by
  rcases (admits_iff_atoms schema).mp admitted with ⟨atom, inside, conforms⟩
  have simple := isUnion_of_mem_atoms inside
  rw [assignableTo_of_not_isUnion (isUnion_ofValue value)]
  refine (fits_iff schema).mpr ⟨atom, inside, fits_ofValue simple ?_ conforms⟩
  exact fun same => known (same ▸ inside)

end Schema

/-- A value with the keys of its mappings in order conforms to its own schema.  The schema of
any value is assignable to every schema that the value conforms to, if no atom of that schema
is a name about which nothing is known. -/
theorem schema_of_value_narrowest [Pattern.Engine] (value : Value) :
    (value.Canonical → (Schema.ofValue value).admits value = true) ∧
    ∀ schema : Schema, Schema.unresolved ∉ schema.atoms → schema.admits value = true →
      (Schema.ofValue value).assignableTo schema = true :=
  ⟨Schema.admits_ofValue, fun _ => Schema.assignableTo_of_admits⟩

/-- A resource with two ports of the same schema, in a union within a union. -/
theorem schema_of_value_narrowest_resource :
    let value := Value.mapping [("apiVersion", .text "v1"), ("kind", .text "Service"),
      ("ports", .sequence [.boolean true, .unit, .boolean false])]
    let schema := Schema.union [.unit, .union [.vector [], .resource]]
    value.Canonical ∧ (Schema.ofValue value).admits value = true ∧
      Schema.unresolved ∉ schema.atoms ∧ schema.admits value = true ∧
      (Schema.ofValue value).assignableTo schema = true := by
  intro value schema
  have canonical : value.Canonical := by
    simp only [value, Value.Canonical, FieldsCanonical, AllCanonical, Fields.Ordered]
    decide
  have known : Schema.unresolved ∉ schema.atoms := by
    simp [schema, Schema.atoms, Schema.atomsOfAll]
  have admitted : schema.admits value = true := by decide
  rcases schema_of_value_narrowest value with ⟨own, narrowest⟩
  exact ⟨canonical, own canonical, known, admitted, narrowest schema known admitted⟩

/-- Every value conforms where nothing is known, and no schema of a value is assignable there. -/
example : Schema.unresolved.admits (.boolean true) = true ∧
    (Schema.ofValue (.boolean true)).assignableTo .unresolved = false := by
  decide

end Manifest
