import Manifest.Proofs.Inference.Schemas
import Manifest.Value.Merge

/-!
# Merging as a partial monoid

A mapping whose keys stand in order is known by what each key holds, and a
merge of two mappings is settled key by key.  This turns the laws of merging
into laws about the values of one key, which hold by induction on the left
value.  A merge can fail, so the laws equate what comes out once the place of
a conflict is forgotten: the two groupings of a merge meet a conflict at
different places.
-/

namespace Manifest

namespace Fields

variable {α : Type}

theorem get?_eq_none_of_least {fields : Fields α} {key : String}
    (least : ∀ field ∈ fields, key < field.1) : get? fields key = none := by
  induction fields with
  | nil => rfl
  | cons field rest ih =>
    rcases field with ⟨first, held⟩
    have before : key < first := least _ List.mem_cons_self
    rw [get?, if_neg (Ne.symm (String.ne_of_lt before))]
    exact ih fun field inside => least field (List.mem_cons_of_mem _ inside)

/-- Two mappings of ordered keys are equal when every key holds the same. -/
theorem ext_get? {left right : Fields α} (ordered : left.Ordered) (sorted : right.Ordered)
    (same : ∀ key, get? left key = get? right key) : left = right := by
  induction left generalizing right with
  | nil =>
    cases right with
    | nil => rfl
    | cons field rest =>
      have lost := same field.1
      rw [get?, get?, if_pos rfl] at lost
      cases lost
  | cons field rest ih =>
    rcases field with ⟨key, held⟩
    rcases List.pairwise_cons.mp ordered with ⟨least, behind⟩
    cases right with
    | nil =>
      have lost := same key
      rw [get?, get?, if_pos rfl] at lost
      cases lost
    | cons other further =>
      rcases other with ⟨other, kept⟩
      rcases List.pairwise_cons.mp sorted with ⟨lowest, beyond⟩
      have equal : key = other := by
        rcases Std.lt_trichotomy key other with before | equal | after
        · have lost := same key
          rw [get?, if_pos rfl, get?_eq_none_of_least] at lost
          · cases lost
          · exact List.forall_mem_cons.mpr
              ⟨before, fun field inside => String.lt_trans before (lowest field inside)⟩
        · exact equal
        · have lost := same other
          rw [get?_eq_none_of_least, get?, if_pos rfl] at lost
          · cases lost
          · exact List.forall_mem_cons.mpr
              ⟨after, fun field inside => String.lt_trans after (least field inside)⟩
      subst equal
      have first := same key
      rw [get?, get?, if_pos rfl, if_pos rfl, Option.some.injEq] at first
      subst first
      refine congrArg _ (ih behind beyond fun wanted => ?_)
      by_cases found : key = wanted
      · subst found
        rw [get?_eq_none_of_least least, get?_eq_none_of_least lowest]
      · have rest := same wanted
        rwa [get?, get?, if_neg found, if_neg found] at rest

end Fields

theorem FieldsCanonical.of_mem {fields : List (String × Value)} (canonical : FieldsCanonical fields)
    {key : String} {held : Value} (inside : (key, held) ∈ fields) : held.Canonical := by
  induction fields with
  | nil => cases inside
  | cons field rest ih =>
    rcases canonical with ⟨first, further⟩
    rcases List.mem_cons.mp inside with same | inside
    · subst same
      exact first
    · exact ih further inside

theorem FieldsCanonical.of_forall {fields : List (String × Value)}
    (every : ∀ field ∈ fields, field.2.Canonical) : FieldsCanonical fields := by
  induction fields with
  | nil => trivial
  | cons field rest ih =>
    rcases List.forall_mem_cons.mp every with ⟨first, further⟩
    exact ⟨first, ih further⟩

theorem AllCanonical.append {items more : List Value} (canonical : AllCanonical items)
    (further : AllCanonical more) : AllCanonical (items ++ more) := by
  induction items with
  | nil => exact further
  | cons item rest ih => exact ⟨canonical.1, ih canonical.2⟩

namespace Value

variable {mode : MergeMode} {path : List String} {left middle right merged : Value}

/-! ## What a merge gives -/

theorem merge_unit_left (mode : MergeMode) (path : List String) (right : Value) :
    merge mode path .unit right = .ok right := by
  cases right <;> rfl

theorem merge_unit_right (mode : MergeMode) (path : List String) (left : Value) :
    merge mode path left .unit = .ok left := by
  cases left <;> rfl

/-- Merge what a key holds on either side, where it may hold nothing. -/
def mergeHeld (mode : MergeMode) (path : List String) :
    Option Value → Option Value → Except MergeConflict (Option Value)
  | none, right => .ok right
  | left, none => .ok left
  | some left, some right => (merge mode path left right).map some

theorem mergeHeld_none (mode : MergeMode) (path : List String) (left : Option Value) :
    mergeHeld mode path left none = .ok left := by
  cases left <;> rfl

theorem mergeHeld_some (mode : MergeMode) (path : List String) (left : Option Value)
    (right : Value) :
    (∃ held, mergeHeld mode path left (some right) = .ok (some held)) ∨
      ∃ conflict, mergeHeld mode path left (some right) = .error conflict := by
  cases left with
  | none => exact .inl ⟨right, rfl⟩
  | some left =>
    cases joined : merge mode path left right with
    | ok held => exact .inl ⟨held, by rw [mergeHeld, joined, Except.map]⟩
    | error conflict => exact .inr ⟨conflict, by rw [mergeHeld, joined, Except.map]⟩

section

variable {fields rest : Fields Value} {key : String} {value held : Value}

theorem mergeFields_cons_of_ok
    (settled : mergeHeld mode (path ++ [key]) (Fields.get? fields key) (some value) =
      .ok (some held)) :
    mergeFields mode path fields ((key, value) :: rest) =
      mergeFields mode path (Fields.insert fields key held) rest := by
  rw [mergeFields]
  cases existing : Fields.get? fields key with
  | none =>
    rw [existing, mergeHeld, Except.ok.injEq, Option.some.injEq] at settled
    rw [settled]
  | some left =>
    rw [existing, mergeHeld] at settled
    cases joined : merge mode (path ++ [key]) left value with
    | ok merged =>
      rw [joined, Except.map, Except.ok.injEq, Option.some.injEq] at settled
      simp only [joined, settled]
    | error conflict =>
      rw [joined] at settled
      cases settled

theorem mergeFields_cons_of_error {conflict : MergeConflict}
    (clash : mergeHeld mode (path ++ [key]) (Fields.get? fields key) (some value) =
      .error conflict) :
    mergeFields mode path fields ((key, value) :: rest) = .error conflict := by
  rw [mergeFields]
  cases existing : Fields.get? fields key with
  | none =>
    rw [existing] at clash
    cases clash
  | some left =>
    rw [existing, mergeHeld] at clash
    cases joined : merge mode (path ++ [key]) left value with
    | ok merged =>
      rw [joined] at clash
      cases clash
    | error found =>
      rw [joined, Except.map, Except.error.injEq] at clash
      simp only [joined, clash]

/-- Entering the outcome of the first key leaves what the other keys settle. -/
theorem mergeHeld_insert (sorted : Fields.Ordered ((key, value) :: rest))
    (settled : mergeHeld mode (path ++ [key]) (Fields.get? fields key) (some value) =
      .ok (some held)) (wanted : String) :
    mergeHeld mode (path ++ [wanted]) (Fields.get? (Fields.insert fields key held) wanted)
        (Fields.get? rest wanted) =
      mergeHeld mode (path ++ [wanted]) (Fields.get? fields wanted)
        (Fields.get? ((key, value) :: rest) wanted) := by
  rcases List.pairwise_cons.mp sorted with ⟨least, -⟩
  by_cases same : key = wanted
  · subst same
    rw [Fields.get?_eq_none_of_least least, Fields.get?_insert_self, mergeHeld_none, Fields.get?,
      if_pos rfl, settled]
  · rw [Fields.get?_insert_of_ne _ _ _ _ (Ne.symm same), Fields.get?, if_neg same]

end

/-- The fields of a merge are settled key by key. -/
theorem mergeFields_eq_ok_iff {fields incoming merged : Fields Value} (ordered : fields.Ordered)
    (sorted : incoming.Ordered) :
    mergeFields mode path fields incoming = .ok merged ↔
      merged.Ordered ∧ ∀ key, mergeHeld mode (path ++ [key]) (Fields.get? fields key)
        (Fields.get? incoming key) = .ok (Fields.get? merged key) := by
  induction incoming generalizing fields with
  | nil =>
    simp only [mergeFields, Fields.get?, mergeHeld_none, Except.ok.injEq]
    constructor
    · rintro rfl
      exact ⟨ordered, fun key => rfl⟩
    · rintro ⟨kept, same⟩
      exact Fields.ext_get? ordered kept same
  | cons field rest ih =>
    rcases field with ⟨key, value⟩
    rcases mergeHeld_some mode (path ++ [key]) (Fields.get? fields key) value with
      ⟨held, settled⟩ | ⟨conflict, clash⟩
    · rw [mergeFields_cons_of_ok settled,
        ih (Fields.ordered_insert ordered key held) (List.pairwise_cons.mp sorted).2]
      simp only [mergeHeld_insert sorted settled]
    · rw [mergeFields_cons_of_error clash]
      constructor
      · rintro ⟨⟩
      · rintro ⟨_, every⟩
        have lost := every key
        rw [Fields.get?, if_pos rfl, clash] at lost
        cases lost

/-- Fields merge when what every key holds does. -/
theorem exists_mergeFields {fields incoming : Fields Value} (sorted : incoming.Ordered)
    (every : ∀ key, ∃ held, mergeHeld mode (path ++ [key]) (Fields.get? fields key)
      (Fields.get? incoming key) = .ok held) :
    ∃ merged, mergeFields mode path fields incoming = .ok merged := by
  induction incoming generalizing fields with
  | nil => exact ⟨fields, rfl⟩
  | cons field rest ih =>
    rcases field with ⟨key, value⟩
    rcases mergeHeld_some mode (path ++ [key]) (Fields.get? fields key) value with
      ⟨held, settled⟩ | ⟨conflict, clash⟩
    · rw [mergeFields_cons_of_ok settled]
      refine ih (List.pairwise_cons.mp sorted).2 fun wanted => ?_
      rw [mergeHeld_insert sorted settled]
      exact every wanted
    · rcases every key with ⟨held, settled⟩
      rw [Fields.get?, if_pos rfl, clash] at settled
      cases settled

theorem merge_mapping_eq_ok_iff {fields incoming : Fields Value} (ordered : fields.Ordered)
    (sorted : incoming.Ordered) :
    merge mode path (.mapping fields) (.mapping incoming) = .ok merged ↔
      ∃ joined, merged = .mapping joined ∧ Fields.Ordered joined ∧
        ∀ key, mergeHeld mode (path ++ [key]) (Fields.get? fields key)
          (Fields.get? incoming key) = .ok (Fields.get? joined key) := by
  simp only [← mergeFields_eq_ok_iff ordered sorted, merge]
  cases mergeFields mode path fields incoming with
  | ok joined => simp [eq_comm]
  | error conflict => simp

/-- Mappings merge when what every key holds does, and what is known of the
outcome of every key is known of their merge. -/
theorem exists_merge_mapping {fields incoming : Fields Value} (ordered : fields.Ordered)
    (sorted : incoming.Ordered) {outcome : String → Option Value → Prop}
    (every : ∀ key, ∃ held, mergeHeld mode (path ++ [key]) (Fields.get? fields key)
      (Fields.get? incoming key) = .ok held ∧ outcome key held) :
    ∃ joined, merge mode path (.mapping fields) (.mapping incoming) = .ok (.mapping joined) ∧
      Fields.Ordered joined ∧ ∀ key, outcome key (Fields.get? joined key) := by
  rcases exists_mergeFields sorted fun key => (every key).imp fun _ => And.left with
    ⟨joined, found⟩
  rcases (mergeFields_eq_ok_iff ordered sorted).mp found with ⟨kept, settled⟩
  refine ⟨joined, by rw [merge, found], kept, fun key => ?_⟩
  rcases every key with ⟨held, merges, known⟩
  cases (settled key).symm.trans merges
  exact known

/-- A value that is neither missing nor a holder of others. -/
def IsAtom : Value → Prop
  | .text _ | .number _ | .boolean _ => True
  | _ => False

/-- Which side of a conflict a mode keeps. -/
def settle (mode : MergeMode) (left right : Value) : Value :=
  match mode with
  | .hard => right
  | .soft => left

theorem isAtom_settle (atom : left.IsAtom) (further : right.IsAtom) :
    (settle mode left right).IsAtom := by
  cases mode with
  | hard => exact further
  | soft => exact atom

theorem settle_assoc (left middle right : Value) :
    settle mode (settle mode left middle) right = settle mode left (settle mode middle right) := by
  cases mode <;> rfl

/-- What two values merge into. -/
inductive Merges (mode : MergeMode) (path : List String) : Value → Value → Value → Prop
  | fresh (right : Value) : Merges mode path .unit right right
  | kept (left : Value) : Merges mode path left .unit left
  | joined (items more : List Value) :
      Merges mode path (.sequence items) (.sequence more) (.sequence (items ++ more))
  | fieldwise {fields incoming merged : Fields Value} (ordered : merged.Ordered)
      (settled : ∀ key, mergeHeld mode (path ++ [key]) (Fields.get? fields key)
        (Fields.get? incoming key) = .ok (Fields.get? merged key)) :
      Merges mode path (.mapping fields) (.mapping incoming) (.mapping merged)
  | conflict {left right : Value} (atom : left.IsAtom) (further : right.IsAtom) :
      Merges mode path left right (settle mode left right)

theorem merge_of_atoms (path : List String) (atom : left.IsAtom) (further : right.IsAtom) :
    merge mode path left right = .ok (settle mode left right) := by
  cases left <;> cases right <;> first
    | exact False.elim atom
    | exact False.elim further
    | cases mode <;> rfl

theorem merges_of_atoms (atom : left.IsAtom) (further : right.IsAtom)
    (joined : merge mode path left right = .ok merged) : Merges mode path left right merged := by
  cases (merge_of_atoms path atom further).symm.trans joined
  exact .conflict atom further

theorem merge_eq_ok_iff (canonical : left.Canonical) (further : right.Canonical) :
    merge mode path left right = .ok merged ↔ Merges mode path left right merged := by
  constructor
  · intro joined
    cases left with
    | unit =>
      cases (merge_unit_left mode path right).symm.trans joined
      exact .fresh right
    | sequence items =>
      cases right <;> cases joined
      · exact .kept _
      · exact .joined items _
    | mapping fields =>
      cases right with
      | unit =>
        cases joined
        exact .kept _
      | mapping incoming =>
        rcases (merge_mapping_eq_ok_iff canonical.1 further.1).mp joined with
          ⟨merged, rfl, ordered, settled⟩
        exact .fieldwise ordered settled
      | _ => cases joined
    | _ =>
      cases right with
      | unit =>
        cases joined
        exact .kept _
      | sequence | mapping => cases joined
      | _ => exact merges_of_atoms trivial trivial joined
  · intro merges
    cases merges with
    | fresh => exact merge_unit_left mode path _
    | kept => exact merge_unit_right mode path _
    | joined => rfl
    | fieldwise ordered settled =>
      exact (merge_mapping_eq_ok_iff canonical.1 further.1).mpr ⟨_, rfl, ordered, settled⟩
    | conflict atom further => exact merge_of_atoms path atom further

/-! ## Order of keys -/

/-- What holds of a value when it holds of whatever the keys of that value
hold, holds of every value. -/
theorem held_induction {motive : Value → Prop}
    (step : ∀ value, (∀ fields key held, value = .mapping fields →
      Fields.get? fields key = some held → motive held) → motive value)
    (value : Value) : motive value := by
  induction size : sizeOf value using Nat.strongRecOn generalizing value with
  | ind size ih =>
    refine step value ?_
    rintro fields key held rfl found
    have inside := List.sizeOf_lt_of_mem (Fields.mem_of_get? found)
    rw [Prod.mk.sizeOf_spec] at inside
    rw [Value.mapping.sizeOf_spec] at size
    exact ih (sizeOf held) (by omega) held rfl

theorem canonical_of_get? {fields : Fields Value} (canonical : (Value.mapping fields).Canonical)
    {key : String} {held : Value} (found : Fields.get? fields key = some held) :
    held.Canonical :=
  FieldsCanonical.of_mem canonical.2 (Fields.mem_of_get? found)

theorem mergeHeld_some_eq_ok_iff {held : Option Value} :
    mergeHeld mode path (some left) (some right) = .ok held ↔
      ∃ merged, merge mode path left right = .ok merged ∧ held = some merged := by
  rw [mergeHeld]
  cases merge mode path left right with
  | ok merged => simp [Except.map, eq_comm]
  | error conflict => simp [Except.map]

/-- A merge keeps the order of the keys at every depth. -/
theorem canonical_merge (canonical : left.Canonical) (further : right.Canonical)
    (joined : merge mode path left right = .ok merged) : merged.Canonical := by
  induction left using held_induction generalizing path right merged with
  | step left deeper =>
  cases (merge_eq_ok_iff canonical further).mp joined with
  | fresh => exact further
  | kept => exact canonical
  | joined => exact AllCanonical.append canonical further
  | conflict =>
    cases mode with
    | hard => exact further
    | soft => exact canonical
  | @fieldwise fields incoming merged ordered settled =>
    refine ⟨ordered, FieldsCanonical.of_forall ?_⟩
    rintro ⟨key, held⟩ inside
    have settled := settled key
    rw [Fields.get?_of_mem ordered inside] at settled
    cases found : Fields.get? fields key with
    | none =>
      rw [found, mergeHeld, Except.ok.injEq] at settled
      exact canonical_of_get? further settled
    | some first =>
      cases incomes : Fields.get? incoming key with
      | none =>
        rw [found, incomes, mergeHeld_none, Except.ok.injEq] at settled
        exact canonical_of_get? canonical (found.trans settled)
      | some second =>
        rw [found, incomes] at settled
        rcases mergeHeld_some_eq_ok_iff.mp settled with ⟨both, joined, same⟩
        cases same
        exact deeper fields key first rfl found (canonical_of_get? canonical found)
          (canonical_of_get? further incomes) joined

/-! ## The laws -/

/-- Both groupings of three operands give the same results. -/
def Associates {α : Type} (join : α → α → Except MergeConflict α) (first second third : α) :
    Prop :=
  ∀ merged, (∃ joined, join first second = .ok joined ∧ join joined third = .ok merged) ↔
    ∃ joined, join second third = .ok joined ∧ join first joined = .ok merged

theorem associates_mergeHeld {first second third : Option Value}
    (deeper : ∀ left middle right, first = some left → second = some middle →
      third = some right → Associates (merge mode path) left middle right) :
    Associates (mergeHeld mode path) first second third := by
  intro merged
  rcases first with _ | left
  · simp [mergeHeld]
  rcases second with _ | middle
  · simp [mergeHeld]
  rcases third with _ | right
  · simp [mergeHeld_none]
  have same := deeper left middle right rfl rfl rfl
  constructor
  · rintro ⟨_, grouped, both⟩
    rcases mergeHeld_some_eq_ok_iff.mp grouped with ⟨joined, front, rfl⟩
    rcases mergeHeld_some_eq_ok_iff.mp both with ⟨whole, ends, rfl⟩
    rcases (same whole).mp ⟨joined, front, ends⟩ with ⟨joined, behind, both⟩
    exact ⟨some joined, mergeHeld_some_eq_ok_iff.mpr ⟨joined, behind, rfl⟩,
      mergeHeld_some_eq_ok_iff.mpr ⟨whole, both, rfl⟩⟩
  · rintro ⟨_, grouped, both⟩
    rcases mergeHeld_some_eq_ok_iff.mp grouped with ⟨joined, behind, rfl⟩
    rcases mergeHeld_some_eq_ok_iff.mp both with ⟨whole, ends, rfl⟩
    rcases (same whole).mpr ⟨joined, behind, ends⟩ with ⟨joined, front, both⟩
    exact ⟨some joined, mergeHeld_some_eq_ok_iff.mpr ⟨joined, front, rfl⟩,
      mergeHeld_some_eq_ok_iff.mpr ⟨whole, both, rfl⟩⟩

/-- The groupings of three mappings agree when they agree at every key. -/
theorem associates_mapping {first second third : Fields Value} (ordered : first.Ordered)
    (sorted : second.Ordered) (last : third.Ordered)
    (deeper : ∀ key, Associates (mergeHeld mode (path ++ [key])) (Fields.get? first key)
      (Fields.get? second key) (Fields.get? third key)) :
    Associates (merge mode path) (.mapping first) (.mapping second) (.mapping third) := by
  intro merged
  constructor
  · rintro ⟨_, grouped, both⟩
    rcases (merge_mapping_eq_ok_iff ordered sorted).mp grouped with ⟨joined, rfl, kept, front⟩
    rcases (merge_mapping_eq_ok_iff kept last).mp both with ⟨whole, rfl, complete, both⟩
    rcases exists_merge_mapping sorted last
      fun key => (deeper key _).mp ⟨_, front key, both key⟩ with ⟨joined, behind, kept, both⟩
    exact ⟨.mapping joined, behind,
      (merge_mapping_eq_ok_iff ordered kept).mpr ⟨whole, rfl, complete, both⟩⟩
  · rintro ⟨_, grouped, both⟩
    rcases (merge_mapping_eq_ok_iff sorted last).mp grouped with ⟨joined, rfl, kept, behind⟩
    rcases (merge_mapping_eq_ok_iff ordered kept).mp both with ⟨whole, rfl, complete, both⟩
    rcases exists_merge_mapping ordered sorted
      fun key => (deeper key _).mpr ⟨_, behind key, both key⟩ with ⟨joined, front, kept, both⟩
    exact ⟨.mapping joined, front,
      (merge_mapping_eq_ok_iff kept last).mpr ⟨whole, rfl, complete, both⟩⟩

theorem Merges.of_atom (merges : Merges mode path left right merged) (atom : left.IsAtom)
    (present : right ≠ .unit) : right.IsAtom ∧ merged = settle mode left right := by
  cases merges with
  | conflict atom further => exact ⟨further, rfl⟩
  | kept => exact absurd rfl present
  | _ => exact atom.elim

theorem Merges.to_atom (merges : Merges mode path left right merged) (atom : right.IsAtom)
    (present : left ≠ .unit) : left.IsAtom ∧ merged = settle mode left right := by
  cases merges with
  | conflict further atom => exact ⟨further, rfl⟩
  | fresh => exact absurd rfl present
  | _ => exact atom.elim

theorem Merges.of_sequence {items : List Value}
    (merges : Merges mode path (.sequence items) right merged) (present : right ≠ .unit) :
    ∃ more, right = .sequence more ∧ merged = .sequence (items ++ more) := by
  cases merges with
  | joined items more => exact ⟨more, rfl, rfl⟩
  | kept => exact absurd rfl present
  | conflict atom => exact atom.elim

theorem Merges.to_sequence {more : List Value}
    (merges : Merges mode path left (.sequence more) merged) (present : left ≠ .unit) :
    ∃ items, left = .sequence items ∧ merged = .sequence (items ++ more) := by
  cases merges with
  | joined items more => exact ⟨items, rfl, rfl⟩
  | fresh => exact absurd rfl present
  | conflict _ atom => exact atom.elim

theorem Merges.of_mapping {fields : Fields Value}
    (merges : Merges mode path (.mapping fields) right merged) (present : right ≠ .unit) :
    ∃ incoming, right = .mapping incoming := by
  cases merges with
  | @fieldwise _ incoming => exact ⟨incoming, rfl⟩
  | kept => exact absurd rfl present
  | conflict atom => exact atom.elim

theorem Merges.to_mapping {incoming : Fields Value}
    (merges : Merges mode path left (.mapping incoming) merged) (present : left ≠ .unit) :
    ∃ fields, left = .mapping fields := by
  cases merges with
  | @fieldwise fields => exact ⟨fields, rfl⟩
  | fresh => exact absurd rfl present
  | conflict _ atom => exact atom.elim

theorem associates_merge (canonical : left.Canonical) (further : middle.Canonical)
    (last : right.Canonical) : Associates (merge mode path) left middle right := by
  induction left using held_induction generalizing path middle right with
  | step left deeper =>
  by_cases missing : left = .unit
  · subst missing
    simp [Associates, merge_unit_left]
  by_cases absent : middle = .unit
  · subst absent
    simp [Associates, merge_unit_left, merge_unit_right]
  by_cases lacking : right = .unit
  · subst lacking
    simp [Associates, merge_unit_right]
  have keyed first second third (begins : left = .mapping first) (goes : middle = .mapping second)
      (ends : right = .mapping third) : Associates (merge mode path) left middle right := by
    subst begins goes ends
    refine associates_mapping canonical.1 further.1 last.1 fun key => associates_mergeHeld ?_
    intro front between behind holds keeps has
    exact deeper first key front rfl holds (canonical_of_get? canonical holds)
      (canonical_of_get? further keeps) (canonical_of_get? last has)
  intro merged
  constructor
  · rintro ⟨joined, grouped, both⟩
    have whole := (merge_eq_ok_iff (canonical_merge canonical further grouped) last).mp both
    cases (merge_eq_ok_iff canonical further).mp grouped with
    | fresh => exact absurd rfl missing
    | kept => exact absurd rfl absent
    | joined items more =>
      rcases whole.of_sequence lacking with ⟨rest, rfl, rfl⟩
      exact ⟨.sequence (more ++ rest), rfl, by rw [List.append_assoc, merge]⟩
    | @fieldwise first second front ordered settled =>
      rcases whole.of_mapping lacking with ⟨third, rfl⟩
      exact (keyed first second third rfl rfl rfl merged).mp ⟨_, grouped, both⟩
    | conflict atom among =>
      rcases whole.of_atom (isAtom_settle atom among) lacking with ⟨behind, rfl⟩
      exact ⟨settle mode middle right, merge_of_atoms path among behind, by
        rw [merge_of_atoms path atom (isAtom_settle among behind), settle_assoc]⟩
  · rintro ⟨joined, grouped, both⟩
    have whole := (merge_eq_ok_iff canonical (canonical_merge further last grouped)).mp both
    cases (merge_eq_ok_iff further last).mp grouped with
    | fresh => exact absurd rfl absent
    | kept => exact absurd rfl lacking
    | joined items more =>
      rcases whole.to_sequence missing with ⟨first, rfl, rfl⟩
      exact ⟨.sequence (first ++ items), rfl, by rw [← List.append_assoc, merge]⟩
    | @fieldwise second third behind ordered settled =>
      rcases whole.to_mapping missing with ⟨first, rfl⟩
      exact (keyed first second third rfl rfl rfl merged).mpr ⟨_, grouped, both⟩
    | conflict among atom =>
      rcases whole.to_atom (isAtom_settle among atom) missing with ⟨front, rfl⟩
      exact ⟨settle mode left middle, merge_of_atoms path front among, by
        rw [merge_of_atoms path (isAtom_settle front among) atom, settle_assoc]⟩

theorem toOption_eq {α ε : Type} {left right : Except ε α}
    (same : ∀ value, left = .ok value ↔ right = .ok value) : left.toOption = right.toOption := by
  cases left with
  | ok value => rw [(same value).mp rfl]
  | error conflict =>
    cases right with
    | ok value => cases (same value).mpr rfl
    | error other => rfl

theorem bind_eq_ok_iff {first : Except MergeConflict Value}
    {next : Value → Except MergeConflict Value} :
    first.bind next = .ok merged ↔ ∃ joined, first = .ok joined ∧ next joined = .ok merged := by
  cases first <;> simp [Except.bind]

/-- Merging is a partial monoid in either mode.  Of three values whose mappings
have their keys in order, both groupings fail or both give the same value; the
unit changes no value, and the empty mapping changes no mapping. -/
theorem merge_monoid (mode : MergeMode) (path : List String) :
    (∀ left middle right : Value, left.Canonical → middle.Canonical → right.Canonical →
      ((merge mode path left middle).bind fun joined => merge mode path joined right).toOption =
        ((merge mode path middle right).bind fun joined =>
          merge mode path left joined).toOption) ∧
      (∀ value : Value, merge mode path .unit value = .ok value ∧
        merge mode path value .unit = .ok value) ∧
      ∀ fields : Fields Value, (Value.mapping fields).Canonical →
        merge mode path (.mapping []) (.mapping fields) = .ok (.mapping fields) ∧
          merge mode path (.mapping fields) (.mapping []) = .ok (.mapping fields) := by
  refine ⟨fun left middle right canonical further last => ?_, fun value => ?_,
    fun fields canonical => ⟨?_, ?_⟩⟩
  · refine toOption_eq fun merged => ?_
    rw [bind_eq_ok_iff, bind_eq_ok_iff]
    exact associates_merge canonical further last merged
  · exact ⟨merge_unit_left mode path value, merge_unit_right mode path value⟩
  · exact (merge_mapping_eq_ok_iff .nil canonical.1).mpr ⟨fields, rfl, canonical.1, fun _ => rfl⟩
  · rfl

/-- A field without a value and a field that only the last operand has, below
a key of all three. -/
theorem merge_monoid_nested :
    let left := Value.mapping [("a", .mapping [("x", .text "l"), ("y", .unit)])]
    let middle := Value.mapping [("a", .mapping [("y", .text "m")])]
    let right := Value.mapping [("a", .mapping [("y", .text "r"), ("z", .text "r")])]
    let merged := Value.mapping
      [("a", .mapping [("x", .text "l"), ("y", .text "m"), ("z", .text "r")])]
    ((merge .soft [] left middle).bind fun joined => merge .soft [] joined right).toOption =
        some merged ∧
      ((merge .soft [] middle right).bind fun joined => merge .soft [] left joined).toOption =
        some merged := by
  intro left middle right merged
  have canonical : left.Canonical ∧ middle.Canonical ∧ right.Canonical := by
    simp only [left, middle, right, Canonical, FieldsCanonical, Fields.Ordered]
    decide
  rcases canonical with ⟨canonical, further, last⟩
  have grouped := (merge_monoid .soft []).1 left middle right canonical further last
  have front : ((merge .soft [] left middle).bind fun joined =>
      merge .soft [] joined right).toOption = some merged := by decide +kernel
  exact ⟨front, grouped.symm.trans front⟩

/-- The groupings of three values of different kinds fail at different pairs. -/
example :
    merge .hard [] (.text "l") (.sequence []) = .error ⟨"string", "sequence", []⟩ ∧
      merge .hard [] (.sequence []) (.mapping []) = .error ⟨"sequence", "mapping", []⟩ :=
  ⟨rfl, rfl⟩

end Value
end Manifest
