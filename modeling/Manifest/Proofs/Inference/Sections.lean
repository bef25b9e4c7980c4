import Manifest.Proofs.Inference.Schemas

/-!
# Names of a section

The last assignment to a name decides about it, both in the table behind a
section and for those parts of the section that stand behind it.
-/

namespace Manifest

/-- What is inferred of a section, before it becomes a schema. -/
def collect (table : SchemaTable) (found : SectionSchema) : List Expr → SectionSchema
  | [] => found
  | .assignment key operand :: rest =>
      collect (table.enter key (operand.schema table))
        (found.assign key (isHidden key operand) (operand.schema table)) rest
  | .yield operand :: rest => collect table (found.yield (operand.schema table)) rest
  | other :: rest => collect table { found with trailing := some (other.schema table) } rest

theorem inferAll_eq (table : SchemaTable) (found : SectionSchema) (expressions : List Expr) :
    inferAll table found expressions = (collect table found expressions).schema := by
  induction expressions generalizing table found with
  | nil => rfl
  | cons expression rest ih => cases expression <;> exact ih _ _

namespace Section

variable {expressions front rest : List Expr} {name key : String} {operand : Expr}
  {table : SchemaTable} {found : SectionSchema} {schema : Schema}

/-! ## Last assignments -/

/-- The schema of the last assignment to a name, as it is inferred there. -/
def lastSchema? (table : SchemaTable) : List Expr → String → Option Schema
  | [], _ => none
  | .assignment key operand :: rest, name =>
      (lastSchema? (table.enter key (operand.schema table)) rest name).or
        (if key = name then some (operand.schema table) else none)
  | _ :: rest, name => lastSchema? table rest name

theorem lastSchema?_append : lastSchema? table (front ++ rest) name =
    (lastSchema? (enterAll table front) rest name).or (lastSchema? table front name) := by
  induction front generalizing table with
  | nil => exact Option.or_none.symm
  | cons expression front ih =>
    cases expression with
    | assignment key operand =>
      rw [List.cons_append, lastSchema?, lastSchema?, ih, Option.or_assoc]
      rfl
    | _ => exact ih

theorem isSome_lastSchema? :
    (lastSchema? table expressions name).isSome = assigns expressions name := by
  rw [assigns]
  induction expressions generalizing table with
  | nil => rfl
  | cons expression rest ih =>
    cases expression with
    | assignment key operand =>
      rw [lastSchema?, lastOperand?, Option.isSome_or, Option.isSome_or, ih]
      by_cases same : key = name
      · rw [if_pos same, if_pos same]
        rfl
      · rw [if_neg same, if_neg same]
        rfl
    | _ => exact ih

theorem lastSchema?_eq_none (absent : assigns expressions name = false) :
    lastSchema? table expressions name = none := by
  have none := absent
  rw [← @isSome_lastSchema? expressions name table] at none
  exact Option.isNone_iff_eq_none.mp (Option.isSome_eq_false_iff.mp none)

theorem get?_enterAll : (enterAll table expressions).get? name =
    (lastSchema? table expressions name).or (table.get? name) := by
  induction expressions generalizing table with
  | nil => rfl
  | cons expression rest ih =>
    cases expression with
    | assignment key operand =>
      rw [enterAll, ih, lastSchema?, Option.or_assoc]
      refine congrArg _ ?_
      rw [SchemaTable.get?, SchemaTable.enter, List.find?_cons]
      by_cases same : key = name
      · rw [if_pos same, beq_iff_eq.mpr same]
        rfl
      · rw [if_neg same, beq_eq_false_iff_ne.mpr same]
        rfl
    | _ => exact ih

/-- Where the last assignment to a name stands, its schema is inferred. -/
theorem lastSchema?_split (absent : assigns rest name = false) :
    lastSchema? table (front ++ .assignment name operand :: rest) name =
      some (operand.schema (enterAll table front)) := by
  rw [lastSchema?_append, lastSchema?, lastSchema?_eq_none absent, Option.none_or, if_pos rfl]
  rfl

/-- Nothing is inferred about a name that ends as a function. -/
theorem isOpen_of_isFunction (found : lastOperand? expressions name = some operand)
    (function : operand.isFunction = true)
    (inferred : lastSchema? table expressions name = some schema) : schema.isOpen = true := by
  rcases lastOperand?_split found with ⟨front, rest, rfl, absent⟩
  rw [lastSchema?_split absent] at inferred
  cases inferred
  cases operand <;> first | rfl | cases function

/-! ## Settled sections -/

theorem settledAll_append [Pattern.Engine] {staleIn : List Expr → List String}
    (settled : settledAll staleIn table (front ++ rest) = true) :
    settledAll staleIn (enterAll table front) rest = true := by
  induction front generalizing table with
  | nil => exact settled
  | cons expression front ih =>
    cases expression <;> exact ih ((Bool.and_eq_true _ _).mp settled).2

/-- A name that is not stale is settled in front of the rest, or comes from outside. -/
theorem not_mem_staleAmong {outer : List String} {rest : List Expr}
    (fresh : name ∉ staleAmong expressions outer rest) :
    assigns rest name = false ∧ (assigns expressions name = true ∨ name ∉ outer) := by
  rw [staleAmong, List.mem_append, not_or] at fresh
  rcases fresh with ⟨here, outside⟩
  rw [mem_assigned] at here
  refine ⟨Bool.eq_false_iff.mpr here, ?_⟩
  cases known : assigns expressions name with
  | true => exact .inl rfl
  | false =>
    refine .inr fun inside => outside ?_
    exact List.mem_filter.mpr ⟨inside, by rw [known]; rfl⟩

/-! ## Fields -/

/-- A name is assigned a value that the mapping of the section shows. -/
def shows (name : String) (expressions : List Expr) : Bool :=
  expressions.any fun
    | .assignment key operand => key == name && !isHidden key operand
    | _ => false

/-- The last assignment to a name that is shown is shown as well, unless it is a function. -/
theorem last_of_shows (shown : shows name expressions = true) :
    ∃ operand, lastOperand? expressions name = some operand ∧
      (operand.isFunction = false → isHidden name operand = false) := by
  rcases List.any_eq_true.mp shown with ⟨expression, member, visible⟩
  cases expression with
  | assignment key operand =>
    change (key == name && !isHidden key operand) = true at visible
    rw [Bool.and_eq_true, beq_iff_eq, Bool.not_eq_true'] at visible
    rcases visible with ⟨rfl, visible⟩
    rcases Option.isSome_iff_exists.mp (assigns_of_mem member) with ⟨last, found⟩
    refine ⟨last, found, fun plain => ?_⟩
    rw [isHidden, plain, Bool.or_false]
    exact (Bool.or_eq_false_iff.mp visible).1
  | _ => cases visible

/-- Every field comes from an assignment that is shown. -/
theorem keys_collect {alternatives : Schema.Alternatives}
    (inside : (name, alternatives) ∈ (collect table found expressions).fields) :
    name ∈ found.fields.map Prod.fst ∨ shows name expressions = true := by
  induction expressions generalizing table found with
  | nil => exact .inl (List.mem_map_of_mem inside)
  | cons expression rest ih =>
    cases expression with
    | assignment key operand =>
      rw [shows, List.any_cons]
      rcases ih inside with known | later
      · rw [SectionSchema.assign] at known
        dsimp only at known
        cases hidden : isHidden key operand with
        | true =>
          rw [hidden, if_pos rfl] at known
          exact .inl known
        | false =>
          rw [hidden, if_neg Bool.false_ne_true] at known
          rcases Fields.mem_keys_insert.mp known with rfl | known
          · refine .inr ((Bool.or_eq_true _ _).mpr (.inl ?_))
            change (name == name && !isHidden name operand) = true
            rw [hidden, beq_self_eq_true]
            rfl
          · exact .inl known
      · exact .inr ((Bool.or_eq_true _ _).mpr (.inr later))
    | _ =>
      rcases ih inside with known | later
      · exact .inl known
      · exact .inr later

/-- The alternatives of a field only become more. -/
theorem kept_collect [Pattern.Engine] {alternatives : Schema.Alternatives}
    (holds : Fields.get? found.fields name = some alternatives) :
    ∃ more, Fields.get? (collect table found expressions).fields name = some more ∧
      ∀ value, Schema.admitsSome alternatives value = true →
        Schema.admitsSome more value = true := by
  induction expressions generalizing table found alternatives with
  | nil => exact ⟨alternatives, holds, fun _ admitted => admitted⟩
  | cons expression rest ih =>
    cases expression with
    | assignment key operand =>
      rw [collect]
      have step : ∃ next, Fields.get? (found.assign key (isHidden key operand)
          (operand.schema table)).fields name = some next ∧
            ∀ value, Schema.admitsSome alternatives value = true →
              Schema.admitsSome next value = true := by
        rw [SectionSchema.assign]
        dsimp only
        split
        · exact ⟨alternatives, holds, fun _ admitted => admitted⟩
        · by_cases same : name = key
          · subst same
            rw [Fields.get?_insert_self, holds]
            refine ⟨_, rfl, fun value admitted => ?_⟩
            rw [Option.getD_some, Schema.admitsSome_insert, admitted, Bool.true_or]
          · rw [Fields.get?_insert_of_ne _ _ _ _ same]
            exact ⟨alternatives, holds, fun _ admitted => admitted⟩
      rcases step with ⟨next, holds, grows⟩
      rcases ih holds with ⟨more, kept, further⟩
      exact ⟨more, kept, fun value admitted => further value (grows value admitted)⟩
    | _ => exact ih holds

/-- The last assignment to a name, if it is shown, is among the alternatives of its field. -/
theorem last_collect [Pattern.Engine] (last : lastOperand? expressions name = some operand)
    (shown : isHidden name operand = false)
    (inferred : lastSchema? table expressions name = some schema) :
    ∃ alternatives, Fields.get? (collect table found expressions).fields name =
      some alternatives ∧ ∀ value, schema.admits value = true →
        Schema.admitsSome alternatives value = true := by
  induction expressions generalizing table found with
  | nil => cases last
  | cons expression rest ih =>
    cases expression with
    | assignment key held =>
      rw [lastOperand?] at last
      rw [lastSchema?] at inferred
      cases again : assigns rest name with
      | true =>
        rcases Option.isSome_iff_exists.mp again with ⟨other, behind⟩
        have known : (lastSchema? (table.enter key (held.schema table)) rest name).isSome = true :=
          isSome_lastSchema?.trans again
        rcases Option.isSome_iff_exists.mp known with ⟨later, latest⟩
        rw [behind, Option.some_or] at last
        rw [latest, Option.some_or] at inferred
        exact ih (behind.trans last) (latest.trans inferred)
      | false =>
        rw [lastOperand?_eq_none again, Option.none_or] at last
        rw [lastSchema?_eq_none again, Option.none_or] at inferred
        split at last
        · rename_i same
          subst same
          cases last
          rw [if_pos rfl] at inferred
          cases inferred
          rw [collect, SectionSchema.assign, shown, if_neg Bool.false_ne_true]
          rcases @kept_collect rest key (table.enter key (operand.schema table))
            { found with
              fields := Fields.insert found.fields key
                (((Fields.get? found.fields key).getD []).insert (operand.schema table))
              trailing := none } _ _ (Fields.get?_insert_self _ _ _) with ⟨more, kept, grows⟩
          refine ⟨more, kept, fun value admitted => grows value ?_⟩
          rw [Schema.admitsSome_insert, admitted, Bool.or_true]
        · cases last
    | _ => exact ih last inferred

theorem ordered_collect (ordered : Fields.Ordered found.fields) :
    Fields.Ordered (collect table found expressions).fields := by
  induction expressions generalizing table found with
  | nil => exact ordered
  | cons expression rest ih =>
    cases expression with
    | assignment key operand =>
      refine ih ?_
      rw [SectionSchema.assign]
      dsimp only
      split
      · exact ordered
      · exact Fields.ordered_insert ordered _ _
    | _ => exact ih ordered

/-! ## The form of a section -/

theorem yields_collect (none : (collect table found expressions).yields = none) :
    found.yields = Option.none ∧ expressions.any Expr.isYield = false := by
  induction expressions generalizing table found with
  | nil => exact ⟨none, rfl⟩
  | cons expression rest ih =>
    cases expression with
    | yield operand => cases (ih none).1
    | _ =>
      rcases ih none with ⟨before, quiet⟩
      exact ⟨before, quiet⟩

/-- Without something that trails, an assignment or a yield comes last. -/
theorem trailing_collect (none : (collect table found expressions).trailing = none) :
    expressions.getLast?.all (fun last => last.isAssignment || last.isYield) = true := by
  induction expressions generalizing table found with
  | nil => rfl
  | cons expression rest ih =>
    cases rest with
    | nil => cases expression <;> first | rfl | cases none
    | cons second rest =>
      rw [List.getLast?_cons_cons]
      cases expression <;> exact ih none

theorem isMapping_collect (noYields : (collect table found expressions).yields = none)
    (noTrailing : (collect table found expressions).trailing = none) :
    isMapping expressions = true := by
  have quiet := (yields_collect noYields).2
  have ends := trailing_collect noTrailing
  rw [isMapping, quiet]
  cases last : expressions.getLast? with
  | none => rfl
  | some expression =>
    rw [last, Option.all_some] at ends
    have inside := List.mem_of_getLast? last
    have noYield : expression.isYield = false := by
      refine Bool.eq_false_iff.mpr fun yields => ?_
      rw [List.any_eq_true.mpr ⟨expression, inside, yields⟩] at quiet
      cases quiet
    rw [noYield, Bool.or_false] at ends
    rw [Option.all_some, ends]
    rfl

end Section
end Manifest
