import Manifest.Proofs.Json.Assembly

/-!
# Values that survive being written as JSON

A value whose numbers are integers of less than fifty-three bits is read back
from its text as it was, in either layout and with any strings and keys, as long
as it is not nested more deeply than a text may be.
-/

namespace Manifest
namespace Json

/-- A text with the tokens of a value is read as that value. -/
theorem read_of_scans {value : Value} (canonical : value.Canonical) (shallow : value.depth ≤ 127)
    {text : String} (scans : Token.Scans text.toList (tokensOf value)) :
    read text = some value := by
  rw [read, readWithin, scan_eq_of_scans scans]
  exact Assembly.value?_tokensOf canonical (Nat.lt_succ_of_le shallow)

theorem readBindings_of_read {fields : Fields Value} {text : String}
    (found : read text = some (.mapping fields)) : readBindings text = .ok fields := by
  have fromLibrary : Library.read text = some (.mapping fields) := found
  rw [readBindings, fromLibrary]

/-- A value is read back from its compact and from its indented text, and a
mapping gives its fields as bindings. -/
theorem read_written {value : Value} (canonical : value.Canonical) (whole : value.WholeNumbers)
    (shallow : value.depth ≤ 127) :
    read (compact value) = some value ∧ read (pretty value) = some value ∧
      ∀ fields, value = .mapping fields →
        readBindings (compact value) = .ok fields ∧ readBindings (pretty value) = .ok fields := by
  have fromCompact : read (compact value) = some value :=
    read_of_scans canonical shallow (scans_compact whole)
  have fromPretty : read (pretty value) = some value :=
    read_of_scans canonical shallow (scans_indented 0 whole)
  refine ⟨fromCompact, fromPretty, ?_⟩
  rintro fields rfl
  exact ⟨readBindings_of_read fromCompact, readBindings_of_read fromPretty⟩

/-- A value with an empty key, an empty container and characters to escape. -/
theorem read_written_escapes : ∃ value : Value,
    compact value = "\x7b\"\":[],\"\\\"\\\\\":[\"\\n\\u0001é\",-5]\x7d" ∧
      value.Canonical ∧ value.WholeNumbers ∧ value.depth ≤ 127 ∧
      read (compact value) = some value ∧ read (pretty value) = some value := by
  let value : Value := .mapping [("", .sequence []),
    ("\"\\", .sequence [.text "\n\u0001é", .number (.ofDecimal true 5 0)])]
  have ordered : Fields.Ordered [("", Value.sequence []),
      ("\"\\", .sequence [.text "\n\u0001é", .number (.ofDecimal true 5 0)])] :=
    List.pairwise_pair.mpr (by decide)
  have canonical : value.Canonical := ⟨ordered, trivial, ⟨trivial, trivial, trivial⟩, trivial⟩
  have five : (Number.ofDecimal true 5 0).Whole :=
    ⟨by decide +kernel, 5, by decide, by decide +kernel, by decide⟩
  have whole : value.WholeNumbers := ⟨trivial, ⟨trivial, five, trivial⟩, trivial⟩
  have shallow : value.depth ≤ 127 := by decide
  have ⟨fromCompact, fromPretty, _⟩ := read_written canonical whole shallow
  exact ⟨value, by decide +kernel, canonical, whole, shallow, fromCompact, fromPretty⟩

end Json
end Manifest
