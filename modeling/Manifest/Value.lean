import Manifest.Fields
import Manifest.Number

/-!
# Values

A value is what a manifest stands for: plain data without names or layout.
-/

namespace Manifest

inductive Value where
  /-- The absence of a value. -/
  | unit
  | text (content : String)
  | number (number : Number)
  | boolean (truth : Bool)
  | sequence (items : List Value)
  | mapping (fields : List (String × Value))

namespace Value

instance : Inhabited Value := ⟨unit⟩

/-- The bindings a document is evaluated with. -/
abbrev Bindings := Fields Value

/-- How messages call a value. -/
def kind : Value → String
  | unit => "unit"
  | text _ => "string"
  | number _ => "number"
  | boolean _ => "boolean"
  | sequence _ => "sequence"
  | mapping _ => "mapping"

def isUnit : Value → Bool
  | unit => true
  | _ => false

def isSequence : Value → Bool
  | sequence _ => true
  | _ => false

/-- The field of a mapping. -/
def get? : Value → String → Option Value
  | mapping fields, key => Fields.get? fields key
  | _, _ => none

mutual
/-- Equality of values can be decided, numbers being compared by their bits. -/
def decEq : (left right : Value) → Decidable (left = right)
  | unit, unit => isTrue rfl
  | text left, text right =>
      if same : left = right then isTrue (same ▸ rfl)
      else isFalse fun equal => same (by injection equal)
  | number left, number right =>
      if same : left = right then isTrue (same ▸ rfl)
      else isFalse fun equal => same (by injection equal)
  | boolean left, boolean right =>
      if same : left = right then isTrue (same ▸ rfl)
      else isFalse fun equal => same (by injection equal)
  | sequence left, sequence right =>
      match decEqItems left right with
      | isTrue same => isTrue (same ▸ rfl)
      | isFalse different => isFalse fun equal => different (by injection equal)
  | mapping left, mapping right =>
      match decEqFields left right with
      | isTrue same => isTrue (same ▸ rfl)
      | isFalse different => isFalse fun equal => different (by injection equal)
  | unit, text _ | unit, number _ | unit, boolean _ | unit, sequence _ | unit, mapping _
  | text _, unit | text _, number _ | text _, boolean _ | text _, sequence _ | text _, mapping _
  | number _, unit | number _, text _ | number _, boolean _ | number _, sequence _
  | number _, mapping _
  | boolean _, unit | boolean _, text _ | boolean _, number _ | boolean _, sequence _
  | boolean _, mapping _
  | sequence _, unit | sequence _, text _ | sequence _, number _ | sequence _, boolean _
  | sequence _, mapping _
  | mapping _, unit | mapping _, text _ | mapping _, number _ | mapping _, boolean _
  | mapping _, sequence _ => isFalse fun equal => by injection equal

def decEqItems : (left right : List Value) → Decidable (left = right)
  | [], [] => isTrue rfl
  | [], _ :: _ => isFalse fun equal => by injection equal
  | _ :: _, [] => isFalse fun equal => by injection equal
  | left :: lefts, right :: rights =>
      match decEq left right, decEqItems lefts rights with
      | isTrue same, isTrue rest => isTrue (by rw [same, rest])
      | isFalse different, _ => isFalse fun equal => different (by injection equal)
      | _, isFalse different => isFalse fun equal => different (by injection equal)

def decEqFields : (left right : List (String × Value)) → Decidable (left = right)
  | [], [] => isTrue rfl
  | [], _ :: _ => isFalse fun equal => by injection equal
  | _ :: _, [] => isFalse fun equal => by injection equal
  | (key, left) :: lefts, (other, right) :: rights =>
      if sameKey : key = other then
        match decEq left right, decEqFields lefts rights with
        | isTrue same, isTrue rest => isTrue (by rw [sameKey, same, rest])
        | isFalse different, _ =>
            isFalse fun equal => different (by injection equal with pair; injection pair)
        | _, isFalse different => isFalse fun equal => different (by injection equal)
      else isFalse fun equal => sameKey (by injection equal with pair; injection pair)
end

instance : DecidableEq Value := decEq

end Value
end Manifest
