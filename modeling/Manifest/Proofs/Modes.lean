import Manifest.Proofs.Merging

/-!
# The two modes of merging

A hard merge lets the value that is merged in win, and a soft merge the one that was there
before.  So each mode is the other one with the sides exchanged.  Only sequences tell the
two apart, since they are joined in the order of the sides.  Which keys a merge has, and
what it takes over from one side alone, does not depend on the mode.
-/

namespace Manifest

/-- The mode that settles a conflict the other way. -/
def MergeMode.mirrored : MergeMode → MergeMode
  | .hard => .soft
  | .soft => .hard

/-- The keys of some fields are those that hold something. -/
theorem Fields.isSome_get?_iff {α : Type} {fields : Fields α} {key : String} :
    (get? fields key).isSome = true ↔ key ∈ fields.map Prod.fst := by
  induction fields with
  | nil => simp [get?]
  | cons field rest ih =>
    rcases field with ⟨other, held⟩
    rw [get?]
    by_cases same : other = key
    · simp [same]
    · rw [if_neg same, ih, List.map_cons, List.mem_cons]
      exact ⟨.inr, fun inside => inside.resolve_left (Ne.symm same)⟩

theorem Fields.get?_eq_none_of_notMem {α : Type} {fields : Fields α} {key : String}
    (absent : key ∉ fields.map Prod.fst) : get? fields key = none :=
  Option.not_isSome_iff_eq_none.mp (mt isSome_get?_iff.mp absent)

namespace Value

variable {mode : MergeMode} {path : List String} {left right merged : Value}

/-- A value holds no sequence, at whatever depth. -/
inductive SequenceFree : Value → Prop
  | unit : SequenceFree .unit
  | text (content : String) : SequenceFree (.text content)
  | number (number : Number) : SequenceFree (.number number)
  | boolean (truth : Bool) : SequenceFree (.boolean truth)
  | mapping {fields : List (String × Value)} :
      (∀ field ∈ fields, SequenceFree field.2) → SequenceFree (.mapping fields)

theorem SequenceFree.of_get? {fields : Fields Value} (free : (Value.mapping fields).SequenceFree)
    {key : String} {held : Value} (found : Fields.get? fields key = some held) :
    held.SequenceFree := by
  cases free with
  | mapping every => exact every (key, held) (Fields.mem_of_get? found)

/-! ## Exchanging the sides -/

theorem settle_mirrored (mode : MergeMode) (left right : Value) :
    settle mode.mirrored right left = settle mode left right := by
  cases mode <;> rfl

/-- What a key holds on either side is exchanged as well. -/
theorem mergeHeld_mirrored {other : List String} {first second held : Option Value}
    (deeper : ∀ {left right merged : Value}, first = some left → second = some right →
      merge mode path left right = .ok merged →
      ∃ exchanged, merge mode.mirrored other right left = .ok exchanged ∧
        (left.SequenceFree → right.SequenceFree → exchanged = merged))
    (settled : mergeHeld mode path first second = .ok held) :
    ∃ exchanged, mergeHeld mode.mirrored other second first = .ok exchanged ∧
      ((∀ left ∈ first, left.SequenceFree) → (∀ right ∈ second, right.SequenceFree) →
        exchanged = held) := by
  cases first with
  | none =>
    cases settled
    exact ⟨second, mergeHeld_none _ _ _, fun _ _ => rfl⟩
  | some left =>
    cases second with
    | none =>
      cases settled
      exact ⟨some left, rfl, fun _ _ => rfl⟩
    | some right =>
      rcases mergeHeld_some_eq_ok_iff.mp settled with ⟨merged, joined, rfl⟩
      rcases deeper rfl rfl joined with ⟨exchanged, mirrored, same⟩
      refine ⟨some exchanged, mergeHeld_some_eq_ok_iff.mpr ⟨exchanged, mirrored, rfl⟩, ?_⟩
      intro free further
      rw [same (free left rfl) (further right rfl)]

/-- Where a value merges into another, the other merges into it in the other mode.  Without
sequences both merges give the same. -/
theorem merge_mirrored (canonical : left.Canonical) (further : right.Canonical)
    (joined : merge mode path left right = .ok merged) (other : List String) :
    ∃ exchanged, merge mode.mirrored other right left = .ok exchanged ∧
      (left.SequenceFree → right.SequenceFree → exchanged = merged) := by
  induction left using held_induction generalizing path other right merged with
  | step left deeper =>
  cases (merge_eq_ok_iff canonical further).mp joined with
  | fresh => exact ⟨right, merge_unit_right _ _ _, fun _ _ => rfl⟩
  | kept => exact ⟨left, merge_unit_left _ _ _, fun _ _ => rfl⟩
  | joined items more => exact ⟨.sequence (more ++ items), rfl, fun free => nomatch free⟩
  | conflict atom among =>
    exact ⟨_, merge_of_atoms other among atom, fun _ _ => settle_mirrored mode left right⟩
  | @fieldwise fields incoming merged ordered settled =>
    have keyed key := @mergeHeld_mirrored mode (path ++ [key]) (other ++ [key]) _ _ _
      (fun holds keeps joined => deeper fields key _ rfl holds (canonical_of_get? canonical holds)
        (canonical_of_get? further keeps) joined _) (settled key)
    rcases exists_merge_mapping further.1 canonical.1 keyed with
      ⟨exchanged, mirrored, kept, same⟩
    refine ⟨.mapping exchanged, mirrored, fun free freeIncoming => ?_⟩
    refine congrArg Value.mapping (Fields.ext_get? kept ordered fun key => ?_)
    exact same key (fun held found => free.of_get? found)
      fun held found => freeIncoming.of_get? found

/-! ## The keys of a merge -/

/-- A merged key holds something if it does on either side. -/
theorem isSome_of_mergeHeld {first second held : Option Value}
    (settled : mergeHeld mode path first second = .ok held) :
    held.isSome = true ↔ first.isSome = true ∨ second.isSome = true := by
  cases first with
  | none =>
    cases settled
    simp
  | some left =>
    cases second with
    | none =>
      cases settled
      simp
    | some right =>
      rcases mergeHeld_some_eq_ok_iff.mp settled with ⟨merged, _, rfl⟩
      simp

/-- A mapping merged into another has the keys of both, and a key of one of them alone
holds what it held. -/
theorem keys_of_merge {fields incoming : Fields Value}
    (canonical : (Value.mapping fields).Canonical) (further : (Value.mapping incoming).Canonical)
    (joined : merge mode path (.mapping fields) (.mapping incoming) = .ok merged) :
    ∃ result, merged = .mapping result ∧
      (∀ key, key ∈ result.map Prod.fst ↔
        key ∈ fields.map Prod.fst ∨ key ∈ incoming.map Prod.fst) ∧
      (∀ key, key ∉ incoming.map Prod.fst → Fields.get? result key = Fields.get? fields key) ∧
      ∀ key, key ∉ fields.map Prod.fst → Fields.get? result key = Fields.get? incoming key := by
  rcases (merge_mapping_eq_ok_iff canonical.1 further.1).mp joined with
    ⟨result, rfl, ordered, settled⟩
  refine ⟨result, rfl, fun key => ?_, fun key absent => ?_, fun key absent => ?_⟩
  · have held := isSome_of_mergeHeld (settled key)
    rwa [Fields.isSome_get?_iff, Fields.isSome_get?_iff, Fields.isSome_get?_iff] at held
  · have settled := settled key
    rw [Fields.get?_eq_none_of_notMem absent, mergeHeld_none, Except.ok.injEq] at settled
    exact settled.symm
  · have settled := settled key
    rw [Fields.get?_eq_none_of_notMem absent, mergeHeld, Except.ok.injEq] at settled
    exact settled.symm

/-- A hard merge of two values succeeds exactly if the soft merge with the sides exchanged
does, and of values that hold no sequence both are the same.  In either mode, mappings that
merge give the keys of both, and a key of one of them alone keeps its value. -/
theorem hard_mirrors_soft :
    (∀ left right : Value, left.Canonical → right.Canonical → ∀ path other : List String,
      ((∃ merged, merge .hard path left right = .ok merged) ↔
        ∃ merged, merge .soft other right left = .ok merged) ∧
      (left.SequenceFree → right.SequenceFree →
        (merge .hard path left right).toOption = (merge .soft other right left).toOption)) ∧
    ∀ (mode : MergeMode) (path : List String) (fields incoming : Fields Value) (merged : Value),
      (Value.mapping fields).Canonical → (Value.mapping incoming).Canonical →
      merge mode path (.mapping fields) (.mapping incoming) = .ok merged →
      ∃ result, merged = .mapping result ∧
        (∀ key, key ∈ result.map Prod.fst ↔
          key ∈ fields.map Prod.fst ∨ key ∈ incoming.map Prod.fst) ∧
        (∀ key, key ∉ incoming.map Prod.fst → Fields.get? result key = Fields.get? fields key) ∧
        ∀ key, key ∉ fields.map Prod.fst → Fields.get? result key = Fields.get? incoming key := by
  refine ⟨fun left right canonical further path other => ⟨⟨?_, ?_⟩, fun free freeRight => ?_⟩,
    fun _ _ _ _ _ => keys_of_merge⟩
  · rintro ⟨merged, joined⟩
    exact (merge_mirrored canonical further joined other).imp fun _ => And.left
  · rintro ⟨merged, joined⟩
    exact (merge_mirrored further canonical joined path).imp fun _ => And.left
  · refine toOption_eq fun merged => ⟨fun joined => ?_, fun joined => ?_⟩
    · rcases merge_mirrored canonical further joined other with
        ⟨exchanged, mirrored, same⟩
      exact same free freeRight ▸ mirrored
    · rcases merge_mirrored further canonical joined path with
        ⟨exchanged, mirrored, same⟩
      exact same freeRight free ▸ mirrored

/-- A unit, a key of both sides and a key of one side alone. -/
theorem hard_mirrors_soft_nested :
    let left := Value.mapping [("a", .mapping [("x", .text "l"), ("y", .unit)]), ("b", .unit)]
    let right := Value.mapping [("a", .mapping [("x", .text "r"), ("y", .boolean true)])]
    let merged := Value.mapping
      [("a", .mapping [("x", .text "r"), ("y", .boolean true)]), ("b", .unit)]
    (merge .hard [] left right).toOption = some merged ∧
      (merge .soft [] right left).toOption = some merged ∧
      ∃ result, merged = .mapping result ∧
        ∀ key, key ∈ result.map Prod.fst ↔ key ∈ ["a", "b"] ∨ key ∈ ["a"] := by
  intro left right merged
  have canonical : left.Canonical ∧ right.Canonical := by
    simp only [left, right, Canonical, FieldsCanonical, Fields.Ordered]
    decide
  have inner : (Value.mapping [("x", .text "l"), ("y", .unit)]).SequenceFree :=
    .mapping (List.forall_mem_cons.mpr ⟨.text "l", List.forall_mem_singleton.mpr .unit⟩)
  have innerRight : (Value.mapping [("x", .text "r"), ("y", .boolean true)]).SequenceFree :=
    .mapping (List.forall_mem_cons.mpr ⟨.text "r", List.forall_mem_singleton.mpr (.boolean true)⟩)
  have free : left.SequenceFree :=
    .mapping (List.forall_mem_cons.mpr ⟨inner, List.forall_mem_singleton.mpr .unit⟩)
  have freeRight : right.SequenceFree := .mapping (List.forall_mem_singleton.mpr innerRight)
  rcases canonical with ⟨canonical, further⟩
  have joined : merge .hard [] left right = .ok merged := by rfl
  have mirrored := (hard_mirrors_soft.1 left right canonical further [] []).2 free freeRight
  rw [joined] at mirrored
  refine ⟨congrArg Except.toOption joined, mirrored.symm, ?_⟩
  rcases hard_mirrors_soft.2 .hard [] _ _ merged canonical further joined with
    ⟨result, same, keys, _⟩
  exact ⟨result, same, keys⟩

end Value
end Manifest
