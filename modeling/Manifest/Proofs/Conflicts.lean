import Manifest.Proofs.Modes

/-!
# Where merges fail

A merge goes down the keys that both sides have, the smaller ones first, and fails at the
first place where a mapping or sequence meets something that it does not merge with.

On its way a merge may keep the keys above it in one list.  A common key is put at the end
of the list when it is entered, and taken away when it is left.  A failure leaves no key, so
the list names the place of the conflict; after a success it is the list of the beginning.
-/

namespace Manifest
namespace Value

variable {mode : MergeMode} {path keys : List String} {left right lower upper merged : Value}
  {conflict : MergeConflict}

/-! ## One list of keys -/

/-- A step of a merge that keeps the keys above it in one list. -/
abbrev Descent := EStateM MergeConflict (List String)

/-- Take a step below a key. -/
def Descent.below {α : Type} (key : String) (step : Descent α) : Descent α := do
  modify (· ++ [key])
  let result ← step
  modify List.dropLast
  return result

mutual
/-- Merge a value into another at the place that the list of keys names. -/
def descend (mode : MergeMode) : Value → Value → Descent Value
  | mapping fields, mapping incoming => do return mapping (← descendFields mode fields incoming)
  | sequence items, sequence more => return sequence (items ++ more)
  | unit, right => return right
  | left, unit => return left
  | left, right => do
      if left.isContainer || right.isContainer then throw ⟨left.kind, right.kind, ← get⟩
      else return settle mode left right
termination_by structural _ right => right

def descendFields (mode : MergeMode) (fields : Fields Value) :
    List (String × Value) → Descent (Fields Value)
  | [] => return fields
  | (key, value) :: rest => do
      let held ← match Fields.get? fields key with
        | some existing => Descent.below key (descend mode existing value)
        | none => pure value
      descendFields mode (Fields.insert fields key held) rest
termination_by structural incoming => incoming
end

/-- The end of a merge that began at some place. -/
def Descent.endOf {α : Type} (path : List String) :
    Except MergeConflict α → EStateM.Result MergeConflict (List String) α
  | .ok result => .ok result path
  | .error conflict => .error conflict conflict.path

theorem Descent.below_eq {α : Type} {key : String} {step : Descent α}
    {outcome : Except MergeConflict α}
    (ran : step (path ++ [key]) = endOf (path ++ [key]) outcome) :
    Descent.below key step path = endOf path outcome := by
  have entered : (modify (· ++ [key]) : Descent PUnit) path = .ok ⟨⟩ (path ++ [key]) := rfl
  rw [below, Stepwise.bind_of_ok _ entered]
  cases outcome with
  | ok result =>
    have left : (modify List.dropLast : Descent PUnit) (path ++ [key]) = .ok ⟨⟩ path :=
      congrArg (EStateM.Result.ok PUnit.unit) List.dropLast_concat
    rw [Stepwise.bind_of_ok _ ran, Stepwise.bind_of_ok _ left]
    rfl
  | error conflict =>
    exact Stepwise.bind_eq_error.mpr (.inl ran)

mutual
/-- With one list of keys, a merge gives the same, and leaves the list as it was or at the
place of the conflict. -/
theorem descend_eq (mode : MergeMode) : ∀ (right left : Value) (path : List String),
    descend mode left right path = Descent.endOf path (merge mode path left right)
  | .mapping incoming, left, path => by
    cases left with
    | mapping fields =>
      have inside := descendFields_eq mode incoming fields path
      rw [descend, merge]
      cases merged : mergeFields mode path fields incoming with
      | ok result =>
        rw [merged] at inside
        exact Stepwise.bind_of_ok _ inside
      | error conflict =>
        rw [merged] at inside
        exact Stepwise.bind_eq_error.mpr (.inl inside)
    | _ => rfl
  | .sequence more, left, path => by cases left <;> rfl
  | .unit, left, path => by cases left <;> rfl
  | .text _, left, path | .number _, left, path | .boolean _, left, path => by
    cases left <;> first | rfl | (cases mode <;> rfl)

theorem descendFields_eq (mode : MergeMode) :
    ∀ (incoming : List (String × Value)) (fields : Fields Value) (path : List String),
      descendFields mode fields incoming path =
        Descent.endOf path (mergeFields mode path fields incoming)
  | [], fields, path => rfl
  | (key, value) :: rest, fields, path => by
    rw [descendFields, mergeFields]
    cases found : Fields.get? fields key with
    | none => exact descendFields_eq mode rest (Fields.insert fields key value) path
    | some existing =>
      have below := Descent.below_eq (descend_eq mode value existing (path ++ [key]))
      dsimp only
      cases joined : merge mode (path ++ [key]) existing value with
      | ok held =>
        rw [joined] at below
        rw [Stepwise.bind_of_ok _ below]
        exact descendFields_eq mode rest (Fields.insert fields key held) path
      | error conflict =>
        rw [joined] at below
        exact Stepwise.bind_eq_error.mpr (.inl below)
end

/-! ## The place of a conflict -/

/-- Two values that never merge: a mapping or a sequence with something of another kind. -/
structure Unmergeable (left right : Value) : Prop where
  container : left.isContainer = true ∨ right.isContainer = true
  left_ne_unit : left ≠ .unit
  right_ne_unit : right ≠ .unit
  notMappings : ∀ fields incoming, ¬ (left = .mapping fields ∧ right = .mapping incoming)
  notSequences : ∀ items more, ¬ (left = .sequence items ∧ right = .sequence more)

/-- A value merges into another, wherever the two stand. -/
def MergesInto (mode : MergeMode) (left right : Value) : Prop :=
  ∀ path, ∃ merged, merge mode path left right = .ok merged

/-- Some keys lead from two values to two others that never merge.  On the way there are
mappings on both sides, and every key of both that is smaller merges. -/
inductive ClashAt (mode : MergeMode) (lower upper : Value) : List String → Value → Value → Prop
  | here : Unmergeable lower upper → ClashAt mode lower upper [] lower upper
  | under {fields incoming : Fields Value} {key : String} {left right : Value}
      {keys : List String} :
      Fields.get? fields key = some left → Fields.get? incoming key = some right →
      (∀ smaller < key, ∀ held other, Fields.get? fields smaller = some held →
        Fields.get? incoming smaller = some other → MergesInto mode held other) →
      ClashAt mode lower upper keys left right →
      ClashAt mode lower upper (key :: keys) (.mapping fields) (.mapping incoming)

theorem mergesInto_of_merge (canonical : left.Canonical) (further : right.Canonical)
    (joined : merge mode path left right = .ok merged) : MergesInto mode left right := by
  intro other
  rcases merge_mirrored canonical further joined other with ⟨_, mirrored, _⟩
  rcases merge_mirrored further canonical mirrored other with ⟨again, back, _⟩
  exact ⟨again, by cases mode <;> exact back⟩

theorem mergeHeld_eq_error_iff {first second : Option Value} :
    mergeHeld mode path first second = .error conflict ↔
      ∃ left right, first = some left ∧ second = some right ∧
        merge mode path left right = .error conflict := by
  cases first with
  | none => simp [mergeHeld]
  | some left =>
    cases second with
    | none => simp [mergeHeld]
    | some right =>
      rw [mergeHeld]
      cases joined : merge mode path left right with
      | ok merged => simp [Except.map, joined]
      | error clash => simp [Except.map, joined]

/-- Fields fail to merge at the smallest key that does. -/
theorem mergeFields_eq_error_iff {fields incoming : Fields Value} (sorted : incoming.Ordered) :
    mergeFields mode path fields incoming = .error conflict ↔
      ∃ key, mergeHeld mode (path ++ [key]) (Fields.get? fields key) (Fields.get? incoming key) =
          .error conflict ∧
        ∀ smaller < key, ∃ held, mergeHeld mode (path ++ [smaller]) (Fields.get? fields smaller)
          (Fields.get? incoming smaller) = .ok held := by
  induction incoming generalizing fields with
  | nil => simp [mergeFields, Fields.get?, mergeHeld_none]
  | cons field rest ih =>
    rcases field with ⟨key, value⟩
    rcases List.pairwise_cons.mp sorted with ⟨least, behind⟩
    -- in front of the first key nothing comes in
    have before : ∀ smaller < key, mergeHeld mode (path ++ [smaller])
        (Fields.get? fields smaller) (Fields.get? ((key, value) :: rest) smaller) =
          .ok (Fields.get? fields smaller) := by
      intro smaller less
      have ahead : ∀ field ∈ (key, value) :: rest, smaller < field.1 := List.forall_mem_cons.mpr
        ⟨less, fun field inside => String.lt_trans less (least field inside)⟩
      rw [Fields.get?_eq_none_of_least ahead, mergeHeld_none]
    have first : Fields.get? ((key, value) :: rest) key = some value := if_pos rfl
    rcases mergeHeld_some mode (path ++ [key]) (Fields.get? fields key) value with
      ⟨held, settled⟩ | ⟨found, clash⟩
    · rw [mergeFields_cons_of_ok settled, ih behind]
      simp only [mergeHeld_insert sorted settled]
    · rw [mergeFields_cons_of_error clash, Except.error.injEq]
      rw [← first] at clash
      constructor
      · rintro rfl
        exact ⟨key, clash, fun smaller less => ⟨_, before smaller less⟩⟩
      · rintro ⟨other, failed, merges⟩
        rcases Std.lt_trichotomy other key with less | rfl | greater
        · cases (before other less).symm.trans failed
        · exact Except.error.inj (clash.symm.trans failed)
        · rcases merges key greater with ⟨held, settled⟩
          cases clash.symm.trans settled

/-- Values that never merge fail where they stand. -/
theorem Unmergeable.merge_eq (unmergeable : Unmergeable left right) (mode : MergeMode)
    (path : List String) :
    merge mode path left right = .error ⟨left.kind, right.kind, path⟩ := by
  rcases unmergeable with ⟨container, present, rightPresent, notMappings, notSequences⟩
  cases left with
  | unit => exact absurd rfl present
  | mapping fields =>
    cases right with
    | unit => exact absurd rfl rightPresent
    | mapping incoming => exact absurd ⟨rfl, rfl⟩ (notMappings fields incoming)
    | _ => rfl
  | sequence items =>
    cases right with
    | unit => exact absurd rfl rightPresent
    | sequence more => exact absurd ⟨rfl, rfl⟩ (notSequences items more)
    | _ => rfl
  | _ =>
    cases right with
    | unit => exact absurd rfl rightPresent
    | sequence | mapping => rfl
    | _ => rcases container with none | none <;> cases none

/-- A merge fails with the two values themselves, or below two mappings. -/
theorem merge_eq_error_cases (failed : merge mode path left right = .error conflict) :
    (Unmergeable left right ∧ conflict = ⟨left.kind, right.kind, path⟩) ∨
      ∃ fields incoming, left = .mapping fields ∧ right = .mapping incoming ∧
        mergeFields mode path fields incoming = .error conflict := by
  rw [merge.eq_def] at failed
  split at failed
  · rename_i fields incoming
    split at failed
    · cases failed
    · rename_i found inside
      cases failed
      exact .inr ⟨fields, incoming, rfl, rfl, inside⟩
  · cases failed
  · cases failed
  · cases failed
  · rename_i present rightPresent notMappings notSequences
    split at failed
    · rename_i container
      cases failed
      refine .inl ⟨⟨Bool.or_eq_true_iff.mp container, present, rightPresent, ?_, ?_⟩, rfl⟩
      · rintro fields incoming ⟨rfl, rfl⟩
        exact notMappings fields incoming rfl rfl
      · rintro items more ⟨rfl, rfl⟩
        exact notSequences items more rfl rfl
    · split at failed <;> cases failed

/-- A merge fails exactly if there is a clash, and its conflict tells the kinds that clash and
the keys that lead to them. -/
theorem merge_eq_error_iff (canonical : left.Canonical) (further : right.Canonical) :
    merge mode path left right = .error conflict ↔ ∃ keys lower upper,
      ClashAt mode lower upper keys left right ∧
        conflict = ⟨lower.kind, upper.kind, path ++ keys⟩ := by
  constructor
  · intro failed
    induction left using held_induction generalizing path right with
    | step left deeper =>
    rcases merge_eq_error_cases failed with
      ⟨unmergeable, same⟩ | ⟨fields, incoming, rfl, rfl, inside⟩
    · exact ⟨[], left, right, .here unmergeable, by rw [List.append_nil, same]⟩
    · rcases (mergeFields_eq_error_iff further.1).mp inside with ⟨key, clash, smaller⟩
      rcases mergeHeld_eq_error_iff.mp clash with ⟨first, second, holds, keeps, failed⟩
      rcases deeper fields key first rfl holds (canonical_of_get? canonical holds)
        (canonical_of_get? further keeps) failed with ⟨keys, lower, upper, clash, same⟩
      refine ⟨key :: keys, lower, upper, .under holds keeps ?_ clash, ?_⟩
      · intro less before held other front behind
        rcases smaller less before with ⟨both, merges⟩
        rw [front, behind] at merges
        rcases mergeHeld_some_eq_ok_iff.mp merges with ⟨merged, joined, _⟩
        exact mergesInto_of_merge (canonical_of_get? canonical front)
          (canonical_of_get? further behind) joined
      · rw [same, List.append_assoc]
        rfl
  · rintro ⟨keys, lower, upper, clash, rfl⟩
    induction clash generalizing path with
    | here unmergeable =>
      rw [List.append_nil]
      exact unmergeable.merge_eq mode path
    | @under fields incoming key first second keys holds keeps smaller clash ih =>
      have failed : merge mode (path ++ [key]) first second = .error _ :=
        ih (canonical_of_get? canonical holds) (canonical_of_get? further keeps)
      rw [List.append_assoc] at failed
      suffices inside : mergeFields mode path fields incoming = .error _ by
        rw [merge, inside]
      refine (mergeFields_eq_error_iff further.1).mpr ⟨key,
        mergeHeld_eq_error_iff.mpr ⟨first, second, holds, keeps, failed⟩, fun less before => ?_⟩
      cases front : Fields.get? fields less with
      | none => exact ⟨_, rfl⟩
      | some held =>
        cases behind : Fields.get? incoming less with
        | none => exact ⟨_, rfl⟩
        | some other =>
          rcases smaller less before held other front behind (path ++ [less]) with
            ⟨merged, joined⟩
          exact ⟨some merged, mergeHeld_some_eq_ok_iff.mpr ⟨merged, joined, rfl⟩⟩

/-- A merge either succeeds, where nothing clashes, and leaves the list of keys as it was, or
fails with the kinds of two values that clash.  Then the list of keys is the one from the
beginning with the keys that lead to the two values, and the text of the conflict shows it. -/
theorem conflict_located (canonical : left.Canonical) (further : right.Canonical)
    (mode : MergeMode) (path : List String) :
    (∃ merged, merge mode path left right = .ok merged ∧
      descend mode left right path = .ok merged path ∧
      ∀ keys lower upper, ¬ ClashAt mode lower upper keys left right) ∨
    ∃ keys lower upper, ClashAt mode lower upper keys left right ∧
      merge mode path left right = .error ⟨lower.kind, upper.kind, path ++ keys⟩ ∧
      descend mode left right path =
        .error ⟨lower.kind, upper.kind, path ++ keys⟩ (path ++ keys) ∧
      MergeConflict.place ⟨lower.kind, upper.kind, path ++ keys⟩ =
        if path ++ keys = [] then "$" else ".".intercalate (path ++ keys) := by
  have walked := descend_eq mode right left path
  cases joined : merge mode path left right with
  | ok merged =>
    rw [joined] at walked
    refine .inl ⟨merged, rfl, walked, fun keys lower upper clash => ?_⟩
    have failed : merge mode path left right = .error _ :=
      (merge_eq_error_iff canonical further).mpr ⟨keys, lower, upper, clash, rfl⟩
    cases joined.symm.trans failed
  | error conflict =>
    rw [joined] at walked
    rcases (merge_eq_error_iff canonical further).mp joined with ⟨keys, lower, upper, clash, rfl⟩
    refine .inr ⟨keys, lower, upper, clash, rfl, walked, ?_⟩
    rw [MergeConflict.place]
    simp only [List.isEmpty_iff]

/-- The key that merges is left again in front of the one that does not. -/
theorem conflict_located_behind_key :
    let left := Value.mapping [("spec", .mapping [("env", .unit), ("ports", .boolean true)])]
    let right := Value.mapping [("spec", .mapping [("env", .text "x"), ("ports", .sequence [])])]
    left.Canonical ∧ right.Canonical ∧
      descend .soft left right ["app"] =
        .error ⟨"boolean", "sequence", ["app", "spec", "ports"]⟩ ["app", "spec", "ports"] ∧
      ∃ keys lower upper, ClashAt .soft lower upper keys left right ∧
        MergeConflict.place ⟨lower.kind, upper.kind, ["app"] ++ keys⟩ = "app.spec.ports" := by
  intro left right
  have canonical : left.Canonical ∧ right.Canonical := by
    simp only [left, right, Canonical, FieldsCanonical, AllCanonical, Fields.Ordered]
    decide
  have failed : merge .soft ["app"] left right =
      .error ⟨"boolean", "sequence", ["app", "spec", "ports"]⟩ := by rfl
  refine ⟨canonical.1, canonical.2, by rw [descend_eq, failed]; rfl, ?_⟩
  rcases conflict_located canonical.1 canonical.2 .soft ["app"] with
    ⟨merged, joined, _⟩ | ⟨keys, lower, upper, clash, located, _, shown⟩
  · cases failed.symm.trans joined
  · refine ⟨keys, lower, upper, clash, shown.trans ?_⟩
    have same := congrArg MergeConflict.path (Except.error.inj (located.symm.trans failed))
    dsimp only at same
    rw [same]
    rfl

end Value
end Manifest
