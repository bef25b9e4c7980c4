import Manifest.Proofs.Inference.Settled

/-!
# Schemas and the values they admit

Alternatives are kept without repetition, where repetition means equality of
form.  Schemas of equal form admit the same values, so nothing is lost.
-/

namespace Manifest

namespace Schema

variable {schema other : Schema} {schemas alternatives : List Schema} {value : Value}

/-! ## Equality of form -/

/-- Bounds with the same key pass the same tests of their key. -/
theorem all_of_sameBound {bound other : Option Number} (same : sameBound bound other = true)
    {test : Number → Bool}
    (keyed : ∀ first second : Number, first.key = second.key → test first = test second) :
    bound.all test = other.all test := by
  cases bound with
  | none =>
    cases other with
    | none => rfl
    | some _ => cases same
  | some first =>
    cases other with
    | none => cases same
    | some second => exact keyed first second (beq_iff_eq.mp same)

theorem inRange_of_sameBound {least greatest otherLeast otherGreatest : Option Number}
    (below : sameBound least otherLeast = true) (above : sameBound greatest otherGreatest = true)
    (number : Number) :
    inRange least greatest number = inRange otherLeast otherGreatest number := by
  have lower : least.all (fun bound => decide (bound ≤ number)) =
      otherLeast.all (fun bound => decide (bound ≤ number)) := by
    refine all_of_sameBound below fun first second key => ?_
    change decide (first.key ≤ number.key) = decide (second.key ≤ number.key)
    rw [key]
  have upper : greatest.all (fun bound => decide (number ≤ bound)) =
      otherGreatest.all (fun bound => decide (number ≤ bound)) := by
    refine all_of_sameBound above fun first second key => ?_
    change decide (number.key ≤ first.key) = decide (number.key ≤ second.key)
    rw [key]
  rw [inRange, inRange, lower, upper]

section Engine

variable [Pattern.Engine]

mutual
theorem admits_of_same : ∀ {schema other : Schema}, schema.same other = true →
    ∀ value, schema.admits value = other.admits value
  | .unit, other, same, value => by cases other <;> first | rfl | cases same
  | .boolean, other, same, value => by cases other <;> first | rfl | cases same
  | .any, other, same, value => by cases other <;> first | rfl | cases same
  | .unresolved, other, same, value => by cases other <;> first | rfl | cases same
  | .resource, other, same, value => by cases other <;> first | rfl | cases same
  | .text pattern, other, same, value => by
    cases other with
    | text _ =>
      have pattern : _ = _ := beq_iff_eq.mp same
      rw [pattern]
    | _ => cases same
  | .number least greatest, other, same, value => by
    cases other with
    | number otherLeast otherGreatest =>
      rcases (Bool.and_eq_true _ _).mp same with ⟨below, above⟩
      cases value with
      | number found => exact inRange_of_sameBound below above found
      | _ => rfl
    | _ => cases same
  | .struct fields, other, same, value => by
    cases other with
    | struct others =>
      cases value with
      | mapping values => exact admitsFields_of_same same values
      | _ => rfl
    | _ => cases same
  | .vector elements, other, same, value => by
    cases other with
    | vector others =>
      have all := admitsSome_of_same same
      have empty : elements.isEmpty = others.isEmpty := by
        cases elements <;> cases others <;> first | rfl | cases same
      cases value with
      | sequence items =>
        change (elements.isEmpty || items.all fun item => admitsSome elements item) =
          (others.isEmpty || items.all fun item => admitsSome others item)
        rw [empty, funext all]
      | _ => rfl
    | _ => cases same
  | .union members, other, same, value => by
    cases other with
    | union others =>
      rw [admits, admits]
      exact admitsSome_of_same same value
    | _ => cases same

theorem admitsSome_of_same : ∀ {schemas others : List Schema}, sameAll schemas others = true →
    ∀ value, admitsSome schemas value = admitsSome others value
  | [], others, same, value => by cases others <;> first | rfl | cases same
  | schema :: rest, others, same, value => by
    cases others with
    | nil => cases same
    | cons other others =>
      rcases (Bool.and_eq_true _ _).mp same with ⟨first, further⟩
      rw [admitsSome, admitsSome, admits_of_same first value, admitsSome_of_same further value]

theorem admitsFields_of_same : ∀ {fields others : List (String × List Schema)},
    sameFields fields others = true →
    ∀ values, admitsFields fields values = admitsFields others values
  | [], others, same, values => by cases others <;> first | rfl | cases same
  | (name, alternatives) :: rest, others, same, values => by
    cases others with
    | nil => cases same
    | cons other others =>
      rcases other with ⟨otherName, otherAlternatives⟩
      rcases (Bool.and_eq_true _ _).mp same with ⟨first, further⟩
      rcases (Bool.and_eq_true _ _).mp first with ⟨key, first⟩
      have name : name = otherName := beq_iff_eq.mp key
      rw [admitsFields, admitsFields, admitsFields_of_same further values, name,
        funext (admitsSome_of_same first)]
end

/-! ## Alternatives -/

theorem admitsSome_iff : admitsSome schemas value = true ↔
    ∃ schema ∈ schemas, schema.admits value = true := by
  induction schemas with
  | nil => simp [admitsSome]
  | cons schema rest ih => simp [admitsSome, ih]

theorem admitsSome_append (more : List Schema) :
    admitsSome (schemas ++ more) value = (admitsSome schemas value || admitsSome more value) := by
  induction schemas with
  | nil => rfl
  | cons schema rest ih => rw [List.cons_append, admitsSome, admitsSome, ih, Bool.or_assoc]

/-- What is added is admitted, and what was admitted before still is. -/
theorem admitsSome_insert (alternatives : Alternatives) (schema : Schema) (value : Value) :
    admitsSome (alternatives.insert schema) value =
      (admitsSome alternatives value || schema.admits value) := by
  rw [Alternatives.insert]
  split
  · rename_i contained
    rcases List.any_eq_true.mp contained with ⟨other, inside, same⟩
    cases admitted : schema.admits value with
    | false => rw [Bool.or_false]
    | true =>
      rw [Bool.or_true]
      exact admitsSome_iff.mpr ⟨other, inside, (admits_of_same same value).trans admitted⟩
  · rw [admitsSome_append, admitsSome, admitsSome, Bool.or_false]

theorem admitsSome_extend (alternatives : Alternatives) (more : List Schema) (value : Value) :
    admitsSome (alternatives.extend more) value =
      (admitsSome alternatives value || admitsSome more value) := by
  induction more generalizing alternatives with
  | nil => rw [admitsSome, Bool.or_false]; rfl
  | cons schema rest ih =>
    change admitsSome ((alternatives.insert schema).extend rest) value = _
    rw [ih, admitsSome_insert, admitsSome, Bool.or_assoc]

theorem admitsSome_ofList (schemas : List Schema) (value : Value) :
    admitsSome (Alternatives.ofList schemas) value = admitsSome schemas value := by
  rw [Alternatives.ofList, admitsSome_extend]
  rfl

/-- One schema for several alternatives admits what one of them admits. -/
theorem admits_toSchema (admitted : admitsSome alternatives value = true) :
    (Alternatives.toSchema alternatives).admits value = true := by
  match alternatives with
  | [] => cases admitted
  | [only] =>
    rw [admitsSome, admitsSome, Bool.or_false] at admitted
    exact admitted
  | first :: second :: rest =>
    change (union (first :: second :: rest)).admits value = true
    rw [admits]
    exact admitted

/-! ## Open schemas -/

theorem admits_of_isOpen (free : schema.isOpen = true) (value : Value) :
    schema.admits value = true := by
  cases schema <;> first | rfl | cases free

mutual
theorem admits_of_isFree : ∀ {schema : Schema}, schema.isFree = true →
    ∀ value, schema.admits value = true
  | .any, _, _ | .unresolved, _, _ => by rw [admits]
  | .union members, free, value => by
    rw [admits]
    exact admitsSome_of_someFree free value
  | .unit, free, _ | .text _, free, _ | .number _ _, free, _ | .boolean, free, _
  | .struct _, free, _ | .vector _, free, _ | .resource, free, _ => by cases free

theorem admitsSome_of_someFree : ∀ {schemas : List Schema}, someFree schemas = true →
    ∀ value, admitsSome schemas value = true
  | schema :: rest, free, value => by
    rw [admitsSome]
    rcases (Bool.or_eq_true _ _).mp free with free | free
    · rw [admits_of_isFree free value, Bool.true_or]
    · rw [admitsSome_of_someFree free value, Bool.or_true]
end

mutual
/-- A sequence conforms only to a schema that may be a sequence's. -/
theorem maySequence_of_admits : ∀ {schema : Schema} {items : List Value},
    schema.admits (.sequence items) = true → schema.maySequence = true
  | .any, _, _ | .unresolved, _, _ | .vector _, _, _ => rfl
  | .union members, _, admitted => by
    rw [admits] at admitted
    exact someMaySequence_of_admitsSome admitted
  | .unit, _, admitted | .text none, _, admitted | .text (some _), _, admitted
  | .number _ _, _, admitted | .boolean, _, admitted | .struct _, _, admitted
  | .resource, _, admitted => by cases admitted

theorem someMaySequence_of_admitsSome : ∀ {schemas : List Schema} {items : List Value},
    admitsSome schemas (.sequence items) = true → someMaySequence schemas = true
  | schema :: rest, _, admitted => by
    rw [admitsSome] at admitted
    rw [someMaySequence]
    rcases (Bool.or_eq_true _ _).mp admitted with admitted | admitted
    · rw [maySequence_of_admits admitted, Bool.true_or]
    · rw [someMaySequence_of_admitsSome admitted, Bool.or_true]
end

/-! ## Parts of values -/

theorem admits_vector {items : List Value} (elements : List Schema)
    (admitted : ∀ item ∈ items, admitsSome elements item = true) :
    (vector elements).admits (.sequence items) = true := by
  rw [admits]
  exact (Bool.or_eq_true _ _).mpr (.inr (List.all_eq_true.mpr admitted))

/-- The value of a lift. -/
def liftValue : Value → Value
  | .sequence items => .sequence items
  | other => .sequence [other]

/-- A lift whose kind is foretold has the lifted schema. -/
theorem admits_lifted (liftable : schema.liftable = true) (admitted : schema.admits value = true) :
    schema.lifted.admits (liftValue value) = true := by
  have single : ∀ {value : Value}, schema.admits value = true →
      (vector [schema]).admits (.sequence [value]) = true := by
    intro value admitted
    refine admits_vector [schema] fun item inside => ?_
    rw [List.mem_singleton.mp inside, admitsSome, admitted, Bool.true_or]
  cases value with
  | sequence items =>
    cases schema with
    | any | unresolved =>
      refine admits_vector _ fun item _ => ?_
      rw [admitsSome, admits, Bool.true_or]
    | vector elements => exact admitted
    | union members =>
      refine admits_vector _ fun item _ => ?_
      rcases (Bool.or_eq_true _ _).mp liftable with free | never
      · rw [admitsSome, admits, admitsSome_of_someFree free item, Bool.true_or]
      · rw [admits] at admitted
        rw [someMaySequence_of_admitsSome admitted] at never
        cases never
    | text pattern => cases pattern <;> cases admitted
    | _ => cases admitted
  | _ =>
    cases schema with
    | vector elements => cases admitted
    | _ => exact single admitted

theorem admitsFields_iff {fields : List (String × List Schema)} {values : Fields Value} :
    admitsFields fields values = true ↔ ∀ field ∈ fields, ∃ value,
      Fields.get? values field.1 = some value ∧ admitsSome field.2 value = true := by
  induction fields with
  | nil => simp [admitsFields]
  | cons field rest ih =>
    rcases field with ⟨name, alternatives⟩
    rw [admitsFields, Bool.and_eq_true, ih, List.forall_mem_cons]
    refine and_congr_left fun _ => ?_
    dsimp only
    split
    · rename_i value found
      simp [found]
    · rename_i absent
      simp [absent]

/-- A field of a value conforms to the schema of the field. -/
theorem admits_field {fields : Fields Value} {name : String}
    (admitted : schema.admits (.mapping fields) = true)
    (found : Fields.get? fields name = some value) :
    (schema.field name).admits value = true := by
  cases schema with
  | struct declared =>
    rw [field]
    split
    · rename_i alternatives declares
      have inside : (name, alternatives) ∈ declared := Fields.mem_of_get? declares
      rcases admitsFields_iff.mp admitted _ inside with ⟨held, holds, conforms⟩
      cases found.symm.trans holds
      exact admits_toSchema conforms
    · rw [admits]
  | resource =>
    rw [field]
    split
    · rename_i known
      rw [admits, Bool.and_eq_true] at admitted
      simp only [Bool.or_eq_true, decide_eq_true_eq] at known
      rcases known with rfl | rfl
      · rw [found] at admitted
        cases value <;> first | rfl | cases admitted.1
      · rw [found] at admitted
        cases value <;> first | rfl | cases admitted.2
    · rw [admits]
  | _ =>
    change unresolved.admits value = true
    rw [admits]

end Engine

end Schema

/-! ## Schemas of values -/

mutual
/-- The keys of every mapping inside stand in order. -/
def Value.Canonical : Value → Prop
  | .sequence items => AllCanonical items
  | .mapping fields => Fields.Ordered fields ∧ FieldsCanonical fields
  | _ => True

def AllCanonical : List Value → Prop
  | [] => True
  | item :: rest => item.Canonical ∧ AllCanonical rest

def FieldsCanonical : List (String × Value) → Prop
  | [] => True
  | (_, value) :: rest => value.Canonical ∧ FieldsCanonical rest
end

theorem Fields.get?_of_mem {α : Type} {fields : Fields α} (ordered : fields.Ordered) {key : String}
    {held : α} (inside : (key, held) ∈ fields) : Fields.get? fields key = some held := by
  induction fields with
  | nil => cases inside
  | cons field rest ih =>
    rcases field with ⟨other, first⟩
    rcases List.pairwise_cons.mp ordered with ⟨least, behind⟩
    rw [get?]
    rcases List.mem_cons.mp inside with same | inside
    · cases same
      exact if_pos rfl
    · have later : other < key := least _ inside
      rw [if_neg (by rintro rfl; exact absurd later (String.lt_irrefl other))]
      exact ih behind inside

namespace Schema

theorem mem_ofItems {items : List Value} {item : Value} (inside : item ∈ items) :
    ofValue item ∈ ofItems items := by
  induction items with
  | nil => cases inside
  | cons first rest ih =>
    rcases List.mem_cons.mp inside with rfl | inside
    · exact List.mem_cons_self
    · exact List.mem_cons_of_mem _ (ih inside)

theorem mem_ofFields {fields : List (String × Value)} {name : String}
    {alternatives : List Schema} (inside : (name, alternatives) ∈ ofFields fields) :
    ∃ value, (name, value) ∈ fields ∧ alternatives = [ofValue value] := by
  induction fields with
  | nil => cases inside
  | cons field rest ih =>
    rcases field with ⟨key, value⟩
    rcases List.mem_cons.mp inside with same | inside
    · cases same
      exact ⟨value, List.mem_cons_self, rfl⟩
    · rcases ih inside with ⟨held, inside, same⟩
      exact ⟨held, List.mem_cons_of_mem _ inside, same⟩

variable [Pattern.Engine]

mutual
/-- A value conforms to its own schema. -/
theorem admits_ofValue : ∀ {value : Value}, value.Canonical → (ofValue value).admits value = true
  | .unit, _ | .text _, _ | .number _, _ | .boolean _, _ => rfl
  | .sequence items, canonical => by
    refine admits_vector _ fun item inside => ?_
    rw [admitsSome_ofList]
    exact admitsSome_iff.mpr ⟨_, mem_ofItems inside, admits_ofValue_item canonical inside⟩
  | .mapping fields, ⟨ordered, canonical⟩ => by
    refine admitsFields_iff.mpr fun field inside => ?_
    rcases field with ⟨name, alternatives⟩
    rcases mem_ofFields inside with ⟨value, held, rfl⟩
    refine ⟨value, Fields.get?_of_mem ordered held, ?_⟩
    rw [admitsSome, admits_ofValue_field canonical held, Bool.true_or]

theorem admits_ofValue_item : ∀ {items : List Value} {item : Value}, AllCanonical items →
    item ∈ items → (ofValue item).admits item = true
  | first :: rest, item, ⟨canonical, further⟩, inside => by
    rcases List.mem_cons.mp inside with same | inside
    · rw [same]
      exact admits_ofValue canonical
    · exact admits_ofValue_item further inside

theorem admits_ofValue_field : ∀ {fields : List (String × Value)} {name : String} {value : Value},
    FieldsCanonical fields → (name, value) ∈ fields → (ofValue value).admits value = true
  | (key, first) :: rest, name, value, ⟨canonical, further⟩, inside => by
    rcases List.mem_cons.mp inside with same | inside
    · cases same
      exact admits_ofValue canonical
    · exact admits_ofValue_field further inside
end

end Schema

end Manifest
