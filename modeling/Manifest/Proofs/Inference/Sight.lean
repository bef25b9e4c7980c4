import Mathlib.Data.Nat.Find
import Manifest.Proofs.Evaluation.Transfer
import Manifest.Proofs.Inference.Sections
import Manifest.Proofs.Parts

/-!
# Names whose schemas are known

A table of schemas is right about a name if every value the name stands for
conforms to its schema.  About stale names nothing is said, nor about names
with an open schema, to which every value conforms.

What a name of a section stands for is found to a smaller depth than what asks
for it.  So the table is right about the names of a section to some depth if the
schemas of expressions are right to every smaller depth.
-/

namespace Manifest

variable [Pattern.Engine] {depth shallow : Nat} {scene owner : Scene} {table : SchemaTable}
  {stale : List String} {expression operand : Expr} {value : Value} {name : String}
  {schema : Schema}

/-- To a limited depth every value of a slot conforms to a schema. -/
def Slot.Keeps (depth : Nat) (owner : Scene) (schema : Schema) : Slot → Prop
  | .ready value => schema.admits value = true
  | .pending operand => ∀ shallow < depth, ∀ value,
      meaning shallow owner operand = .ok value → schema.admits value = true
  | _ => False

/-- To a limited depth a table is right about the names that are not stale. -/
def Sees (depth : Nat) (scene : Scene) (table : SchemaTable) (stale : List String) : Prop :=
  ∀ name schema, name ∉ stale → table.get? name = some schema → schema.isOpen = false →
    ∃ owner slot, scene.find? name = some (owner, slot) ∧ slot.Keeps depth owner schema

theorem Slot.Keeps.mono {slot : Slot} (keeps : slot.Keeps depth owner schema)
    (le : shallow ≤ depth) : slot.Keeps shallow owner schema := by
  cases slot with
  | ready value => exact keeps
  | pending operand =>
    exact fun shallower less => keeps shallower (Nat.lt_of_lt_of_le less le)
  | _ => exact keeps

theorem Sees.mono (sees : Sees depth scene table stale) (le : shallow ≤ depth) :
    Sees shallow scene table stale := by
  intro name schema fresh inferred closed
  rcases sees name schema fresh inferred closed with ⟨owner, slot, found, keeps⟩
  exact ⟨owner, slot, found, keeps.mono le⟩

/-- A scalar conforms to its own schema. -/
def Expr.Literal : Expr → Prop
  | .scalar value => (Schema.ofValue value).admits value = true
  | _ => True

/-- What is needed of an expression for its schema to be right. -/
structure Inferable (scene : Scene) (table : SchemaTable) (stale : List String)
    (expression : Expr) : Prop where
  anchored : expression.Anchored scene.names
  literals : Expr.Every Expr.Literal expression
  settled : expression.settled table stale = true

/-- To a limited depth the schemas of expressions are right. -/
def Conforms (depth : Nat) : Prop :=
  ∀ {scene : Scene} {table : SchemaTable} {stale : List String} {expression : Expr}
    {value : Value}, scene.Sound → Sees depth scene table stale →
    Inferable scene table stale expression → meaning depth scene expression = .ok value →
    (expression.schema table).admits value = true

/-- What is needed of a section in which names are looked up. -/
structure Surveyed (scene : Scene) (table : SchemaTable) (stale : List String)
    (part : Section Expr) : Prop where
  sound : Scene.Sound (Meaning.inside scene part)
  anchored : AnchoredAll (Meaning.inside scene part).names part.expressions
  literals : ∀ expression ∈ part.expressions, Expr.Every Expr.Literal expression
  settled : settledAll (Section.staleAmong part.expressions stale) table part.expressions = true

namespace Surveyed

variable {part : Section Expr} {front rest : List Expr}

/-- The end of a section is settled behind its beginning. -/
theorem settled_rest (surveyed : Surveyed scene table stale part)
    (split : part.expressions = front ++ rest) :
    settledAll (Section.staleAmong part.expressions stale) (enterAll table front) rest = true := by
  have settled := surveyed.settled
  generalize Section.staleAmong part.expressions stale = staleIn at settled ⊢
  rw [split] at settled
  exact Section.settledAll_append settled

/-- What stands in a section may use what can be seen inside it. -/
theorem of_mem (surveyed : Surveyed scene table stale part)
    (member : expression ∈ part.expressions) :
    expression.Anchored (Meaning.inside scene part).names ∧
      Expr.Every Expr.Literal expression :=
  ⟨anchoredAll_iff.mp surveyed.anchored _ member, surveyed.literals _ member⟩

/-- The operand of the last assignment to a name, from the names in front of it. -/
theorem inferable (surveyed : Surveyed scene table stale part)
    (split : part.expressions = front ++ .assignment name operand :: rest)
    (last : Section.assigns rest name = false) :
    Inferable (Meaning.inside scene part) (enterAll table front)
      (Section.staleAmong part.expressions stale rest) operand := by
  have member : .assignment name operand ∈ part.expressions := by
    rw [split]
    exact List.mem_append_right _ List.mem_cons_self
  rcases surveyed.of_mem member with ⟨anchored, literals⟩
  have settled := surveyed.settled_rest split
  rw [settledAll, last, Bool.false_or] at settled
  exact ⟨anchored, literals.child List.mem_cons_self, ((Bool.and_eq_true _ _).mp settled).1⟩

/-- A name that is asked for while it is evaluated itself has no value to a
depth at which nothing has been found before. -/
theorem keeps_last (surveyed : Surveyed scene table stale part)
    (split : part.expressions = front ++ .assignment name operand :: rest)
    (last : Section.assigns rest name = false) (plain : operand.isFunction = false)
    (conforms : ∀ shallow < depth, Conforms shallow)
    (sees : ∀ shallow < depth, Sees shallow (Meaning.inside scene part) (enterAll table front)
      (Section.staleAmong part.expressions stale (.assignment name operand :: rest))) :
    (Slot.pending operand).Keeps depth (Meaning.inside scene part)
      (operand.schema (enterAll table front)) := by
  intro shallow less value means
  -- the smallest depth to which the operand is found
  have reached : ∃ shallow, ∃ value,
      meaning shallow (Meaning.inside scene part) operand = .ok value := ⟨shallow, value, means⟩
  classical
  rcases Nat.find_spec reached with ⟨first, found⟩
  have le : Nat.find reached ≤ shallow := Nat.find_min' reached ⟨value, means⟩
  have same := (Steady.expression (Meaning.inside scene part) operand).ok_of_le found le
  cases same.symm.trans means
  have early := Nat.lt_of_le_of_lt le less
  refine conforms _ early surveyed.sound ?_ (surveyed.inferable split last) found
  intro wanted schema fresh inferred closed
  by_cases own : wanted = name
  · subst own
    refine ⟨Meaning.inside scene part, .pending operand, ?_, fun shallower less value means => ?_⟩
    · refine Meaning.find?_inside_of_last scene ?_ plain
      rw [split, Section.lastOperand?_append, Section.lastOperand?,
        Section.lastOperand?_eq_none last, Option.none_or, if_pos rfl, Option.some_or]
    · exact absurd ⟨value, means⟩ (Nat.find_min reached less)
  · refine sees _ early wanted schema (fun staleThen => fresh ?_) inferred closed
    rw [Section.staleAmong, Section.assigned, List.cons_append] at staleThen
    exact (List.mem_cons.mp staleThen).resolve_left own

/-- Inside a section the table is right about its names as well, wherever it is used. -/
theorem sees (surveyed : Surveyed scene table stale part)
    (conforms : ∀ shallow < depth, Conforms shallow) (outer : Sees depth scene table stale)
    (split : part.expressions = front ++ rest) :
    Sees depth (Meaning.inside scene part) (enterAll table front)
      (Section.staleAmong part.expressions stale rest) := by
  induction depth using Nat.strongRecOn generalizing front rest with
  | ind depth ih =>
    intro name schema fresh inferred closed
    rcases Section.not_mem_staleAmong fresh with ⟨settledThen, known⟩
    rw [Section.get?_enterAll] at inferred
    cases last : Section.lastOperand? part.expressions name with
    | none =>
      have absent : Section.assigns part.expressions name = false := by
        rw [Section.assigns, last]
        rfl
      have outside := known.resolve_left (by rw [absent]; exact Bool.false_ne_true)
      have before : Section.assigns front name = false := by
        rw [split, Section.lastOperand?_append] at last
        rw [Section.assigns, (Option.or_eq_none_iff.mp last).2]
        rfl
      rw [Section.lastSchema?_eq_none before, Option.none_or] at inferred
      rcases outer name schema outside inferred closed with ⟨owner, slot, found, keeps⟩
      refine ⟨owner, slot, ?_, keeps⟩
      exact (Meaning.find?_inside_of_none scene last).trans found
    | some operand =>
      rcases Section.lastOperand?_split last with ⟨ahead, behind, place, ends⟩
      have latest : Section.lastSchema? table part.expressions name =
          some (operand.schema (enterAll table ahead)) := by
        rw [place, Section.lastSchema?_split ends]
      have settledThere : Section.lastSchema? table part.expressions name =
          Section.lastSchema? table front name := by
        rw [split, Section.lastSchema?_append, Section.lastSchema?_eq_none settledThen,
          Option.none_or]
      rw [← settledThere, latest, Option.some_or] at inferred
      cases inferred
      have plain : operand.isFunction = false := by
        refine Bool.eq_false_iff.mpr fun function => ?_
        cases closed.symm.trans (Section.isOpen_of_isFunction last function latest)
      refine ⟨Meaning.inside scene part, .pending operand,
        Meaning.find?_inside_of_last scene last plain, ?_⟩
      refine surveyed.keeps_last place ends plain conforms fun shallow less => ?_
      have conforms : ∀ shallower < shallow, Conforms shallower := fun shallower further =>
        conforms shallower (Nat.lt_trans further less)
      exact ih shallow less conforms (outer.mono (Nat.le_of_lt less)) place

end Surveyed
end Manifest
