/-!
# Fields

The fields of a mapping are kept in the order of their keys, each key once.
Strings compare by code points, which is also the order of their bytes.
-/

namespace Manifest

/-- Keys with what they hold, in the order of the keys. -/
abbrev Fields (α : Type) := List (String × α)

namespace Fields

variable {α : Type}

/-- What a key holds. -/
def get? : Fields α → String → Option α
  | [], _ => none
  | (key, held) :: rest, wanted => if key = wanted then some held else get? rest wanted

/-- Let a key hold something, in place of what it held. -/
def insert : Fields α → String → α → Fields α
  | [], key, value => [(key, value)]
  | (other, held) :: rest, key, value =>
      if key < other then (key, value) :: (other, held) :: rest
      else if key = other then (key, value) :: rest
      else (other, held) :: insert rest key value

/-- The keys stand in strictly increasing order. -/
def Ordered (fields : Fields α) : Prop :=
  fields.Pairwise fun earlier later => earlier.1 < later.1

/-- Entering a key introduces no key but that one. -/
theorem mem_keys_insert {fields : Fields α} {key other : String} {value : α} :
    other ∈ (insert fields key value).map Prod.fst ↔
      other = key ∨ other ∈ fields.map Prod.fst := by
  induction fields with
  | nil => simp [insert]
  | cons field rest ih =>
    obtain ⟨first, held⟩ := field
    simp only [insert]
    split
    · simp
    · split
      · rename_i same
        simp [same]
      · simp only [List.map_cons, List.mem_cons, ih, or_left_comm]

/-- Entering a key keeps the order. -/
theorem ordered_insert {fields : Fields α} (ordered : Ordered fields) (key : String) (value : α) :
    Ordered (insert fields key value) := by
  induction fields with
  | nil => simp [insert, Ordered]
  | cons field rest ih =>
    obtain ⟨first, held⟩ := field
    obtain ⟨least, behind⟩ := List.pairwise_cons.mp ordered
    simp only [insert]
    split
    · rename_i before
      refine List.pairwise_cons.mpr ⟨?_, ordered⟩
      intro later found
      cases found with
      | head => exact before
      | tail _ found => exact String.lt_trans before (least later found)
    · split
      · rename_i same
        subst same
        exact List.pairwise_cons.mpr ⟨least, behind⟩
      · rename_i notBefore different
        have before : first < key :=
          Std.lt_of_le_of_ne (String.not_lt.mp notBefore) (Ne.symm different)
        refine List.pairwise_cons.mpr ⟨?_, ih behind⟩
        intro later found
        rcases mem_keys_insert.mp (List.mem_map_of_mem found) with same | known
        · exact same ▸ before
        · obtain ⟨field, member, same⟩ := List.mem_map.mp known
          exact same ▸ least field member

theorem get?_insert_self (fields : Fields α) (key : String) (value : α) :
    get? (insert fields key value) key = some value := by
  induction fields with
  | nil => simp [insert, get?]
  | cons field rest ih =>
    obtain ⟨other, held⟩ := field
    simp only [insert]
    split
    · simp [get?]
    · split
      · simp [get?]
      · rename_i _ different
        have same : other ≠ key := fun equal => different equal.symm
        simp [get?, same, ih]

theorem get?_insert_of_ne (fields : Fields α) (key other : String) (value : α)
    (different : other ≠ key) :
    get? (insert fields key value) other = get? fields other := by
  induction fields with
  | nil => simp [insert, get?, Ne.symm different]
  | cons field rest ih =>
    obtain ⟨first, held⟩ := field
    simp only [insert]
    split
    · simp [get?, Ne.symm different]
    · split
      · rename_i _ same
        subst same
        simp [get?, Ne.symm different]
      · simp [get?, ih]

/-- The order in which different keys are entered does not matter. -/
theorem insert_comm {key other : String} (different : key ≠ other) (fields : Fields α)
    (value held : α) :
    insert (insert fields key value) other held = insert (insert fields other held) key value := by
  induction fields with
  | nil =>
    simp only [insert]
    grind [String.lt_trans, String.not_lt, String.lt_irrefl]
  | cons field rest ih =>
    obtain ⟨first, kept⟩ := field
    grind [insert, String.lt_trans, String.not_lt, String.lt_irrefl, String.le_antisymm]

theorem mem_of_get? {fields : Fields α} {key : String} {held : α}
    (found : get? fields key = some held) : (key, held) ∈ fields := by
  induction fields with
  | nil => cases found
  | cons field rest ih =>
    rcases field with ⟨other, first⟩
    rw [get?] at found
    split at found
    · rename_i same
      cases found
      rw [same]
      exact List.mem_cons_self
    · exact List.mem_cons_of_mem _ (ih found)

end Fields
end Manifest
