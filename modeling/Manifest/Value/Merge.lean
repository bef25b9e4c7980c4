import Manifest.Expr

/-!
# Merging values

Mappings merge key by key and sequences are joined.  Two scalars are a
conflict that the mode settles.  A mapping or sequence does not merge with
anything else; the place of such a pair is reported by the keys that lead to
it.
-/

namespace Manifest

/-- Two values that do not merge, by their kinds, and the keys that lead to them. -/
structure MergeConflict where
  left : String
  right : String
  path : List String
deriving DecidableEq

/-- The text of a path. -/
def MergeConflict.place (conflict : MergeConflict) : String :=
  if conflict.path.isEmpty then "$" else ".".intercalate conflict.path

namespace Value

/-- Whether a value holds other values. -/
def isContainer : Value → Bool
  | sequence _ | mapping _ => true
  | _ => false

mutual
/-- Merge a value into another that stands at the given path. -/
def merge (mode : MergeMode) (path : List String) : Value → Value → Except MergeConflict Value
  | mapping fields, mapping incoming =>
      match mergeFields mode path fields incoming with
      | .ok merged => .ok (mapping merged)
      | .error conflict => .error conflict
  | sequence items, sequence more => .ok (sequence (items ++ more))
  | unit, right => .ok right
  | left, unit => .ok left
  | left, right =>
      if left.isContainer || right.isContainer then .error ⟨left.kind, right.kind, path⟩
      else match mode with
        | .hard => .ok right
        | .soft => .ok left
termination_by structural _ right => right

/-- Merge fields one after the other into the fields of a mapping. -/
def mergeFields (mode : MergeMode) (path : List String) (fields : Fields Value) :
    List (String × Value) → Except MergeConflict (Fields Value)
  | [] => .ok fields
  | (key, value) :: rest =>
      match Fields.get? fields key with
      | none => mergeFields mode path (Fields.insert fields key value) rest
      | some existing =>
          match merge mode (path ++ [key]) existing value with
          | .ok merged => mergeFields mode path (Fields.insert fields key merged) rest
          | .error conflict => .error conflict
termination_by structural incoming => incoming
end

/-- Join values into one sequence: sequences give their items, a unit gives
nothing, and any other value gives itself. -/
def concat (values : List Value) : Value :=
  .sequence (values.flatMap fun
    | .sequence items => items
    | .unit => []
    | other => [other])

end Value
end Manifest
