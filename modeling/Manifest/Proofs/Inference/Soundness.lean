import Manifest.Proofs.Inference.Sight

/-!
# Values of settled expressions

What a settled expression means conforms to the schema that is inferred of it,
in every scene about which the table of schemas is right.  This is by induction
on the depth to which a value is found: a name stands for an operand that is
found to a smaller depth.
-/

namespace Manifest

variable {depth : Nat} {scene owner : Scene} {table : SchemaTable} {stale : List String}
  {expression operand : Expr} {value : Value} {name : String} {schema : Schema}
  {expressions front rest : List Expr} {harvest after : Harvest} {mean : Meaning}

/-! ## Names -/

/-- A name that is found and has a value has the value of its slot, unless it is
called. -/
theorem Scene.Sound.value_of_apply {slot : Slot} {definition : Option (Lambda Expr)}
    {arguments : List Value} {result : Value × List Value} (sound : scene.Sound)
    (found : scene.find? name = some (owner, slot))
    (applied : (meaning depth).apply name definition scene arguments = .ok result) :
    slot = .ready result.1 ∨
      (∃ operand, slot = .pending operand ∧ meaning depth owner operand = .ok result.1) ∨
      ∃ lambda, slot = .function lambda := by
  rw [Meaning.apply] at applied
  cases resolved : (meaning depth).resolve scene name with
  | ok named =>
    rw [resolved] at applied
    cases (meaning depth).resolve_eq_ok.mp resolved with
    | ready holds =>
      cases found.symm.trans holds
      cases applied
      exact .inl rfl
    | pending holds means =>
      cases found.symm.trans holds
      cases applied
      exact .inr (.inl ⟨_, rfl, means⟩)
    | function holds =>
      cases found.symm.trans holds
      exact .inr (.inr ⟨_, rfl⟩)
  | error failure =>
    rw [resolved] at applied
    cases failure with
    | unresolvedIdentifier missing =>
      exact absurd (Scene.mem_names_of_find? found) (sound.not_mem_of_unresolved resolved)
    | _ => cases applied

theorem admits_application [Pattern.Engine] {operands : List Expr}
    {definition : Option (Lambda Expr)}
    (sound : scene.Sound) (sees : Sees (depth + 1) scene table stale)
    (settled : (Expr.application name operands definition).settled table stale = true)
    (found : (meaning depth).application name operands definition scene = .ok value) :
    ((table.get? name).getD .unresolved).admits value = true := by
  rw [Expr.settled, Bool.or_eq_true] at settled
  cases known : ((table.get? name).getD .unresolved).isOpen with
  | true => exact Schema.admits_of_isOpen known value
  | false =>
    have fresh := settled.resolve_right (by rw [known]; exact Bool.false_ne_true)
    rw [Bool.not_eq_true', List.contains_eq_mem, decide_eq_false_iff_not] at fresh
    cases inferred : table.get? name with
    | none =>
      rw [inferred] at known
      cases known
    | some schema =>
      rw [inferred] at known
      rcases sees name schema fresh inferred known with ⟨owner, slot, place, keeps⟩
      rcases outcome_bind_eq_ok.mp found with ⟨arguments, _, found⟩
      rcases outcome_bind_eq_ok.mp found with ⟨⟨result, left⟩, applied, taken⟩
      have same : result = value := by
        cases left with
        | nil => exact Except.ok.inj taken
        | cons => cases taken
      rw [Option.getD_some, ← same]
      rcases sound.value_of_apply place applied with rfl | ⟨operand, rfl, means⟩ | ⟨lambda, rfl⟩
      · exact keeps
      · exact keeps depth (Nat.lt_succ_self depth) _ means
      · exact keeps.elim

/-! ## Sections -/

theorem enterAll_append (front rest : List Expr) :
    enterAll table (front ++ rest) = enterAll (enterAll table front) rest := by
  induction front generalizing table with
  | nil => rfl
  | cons expression front ih => cases expression <;> exact ih

/-- A name that ends as a function is a unit. -/
theorem Meaning.eq_unit_of_forced {part : Section Expr}
    (last : Section.lastOperand? part.expressions name = some operand)
    (function : operand.isFunction = true)
    (forced : mean.force (Meaning.inside scene part) name = .ok value) : value = .unit := by
  cases operand with
  | function lambda =>
    rcases outcome_bind_eq_ok.mp forced with ⟨named, resolved, same⟩
    have own := Meaning.find?_inside scene last
    cases mean.resolve_eq_ok.mp resolved with
    | ready holds => cases own.symm.trans holds
    | pending holds means => cases own.symm.trans holds
    | function holds => exact (Except.ok.inj same).symm
  | _ => cases function

/-- A name that a section shows has its value in the mapping of the section. -/
theorem field_of_gatherAll (gathered : mean.gatherAll scene harvest expressions = .ok after)
    (held : Section.shows name expressions = true ∨ ∃ value, mean.force scene name = .ok value ∧
      Fields.get? harvest.fields name = some value) :
    ∃ value, mean.force scene name = .ok value ∧ Fields.get? after.fields name = some value := by
  induction expressions generalizing harvest with
  | nil =>
    cases gathered
    exact held.resolve_left Bool.false_ne_true
  | cons expression rest ih =>
    rcases outcome_bind_eq_ok.mp gathered with ⟨middle, first, behind⟩
    refine ih behind ?_
    cases expression with
    | assignment key operand =>
      rcases Meaning.gather_assignment_eq_ok.mp first with ⟨value, forced, rfl⟩
      change (key == name && !isHidden key operand || Section.shows name rest) = true ∨ _ at held
      cases hidden : isHidden key operand with
      | true =>
        rw [Meaning.enter, hidden, if_pos rfl]
        rw [hidden, Bool.not_true, Bool.and_false, Bool.false_or] at held
        exact held
      | false =>
        rw [Meaning.enter, hidden, if_neg Bool.false_ne_true]
        by_cases same : key = name
        · subst same
          rw [isHidden, Bool.or_eq_false_iff] at hidden
          exact .inr ⟨value, forced hidden.2, Fields.get?_insert_self _ _ _⟩
        · rw [beq_eq_false_iff_ne.mpr same, Bool.false_and, Bool.false_or] at held
          rcases held with later | ⟨held, forced, known⟩
          · exact .inl later
          · refine .inr ⟨held, forced, ?_⟩
            exact (Fields.get?_insert_of_ne _ _ _ _ (Ne.symm same)).trans known
    | yield operand =>
      rcases outcome_bind_eq_ok.mp first with ⟨value, _, same⟩
      cases same
      exact held
    | _ =>
      rcases outcome_bind_eq_ok.mp first with ⟨value, _, same⟩
      cases same
      exact held

variable [Pattern.Engine]

/-- What has been gathered of a section conforms to what is inferred of it.  Of
what trails this is known only at the end. -/
structure Gathers (rest : List Expr) (found : SectionSchema) (harvest : Harvest) : Prop where
  quiet : found.yields = none → harvest.yields = []
  items : ∀ alternatives, found.yields = some alternatives → harvest.yields ≠ [] ∧
    ∀ item ∈ harvest.yields, Schema.admitsSome alternatives item = true
  trailing : Option.Rel (fun schema value => rest = [] → schema.admits value = true)
    found.trailing harvest.trailing

namespace Gathers

variable {found : SectionSchema}

theorem empty (rest : List Expr) : Gathers rest .empty .empty :=
  ⟨fun _ => rfl, (by rintro _ ⟨⟩), .none⟩

theorem assign (gathers : Gathers (.assignment name operand :: rest) found harvest)
    (hidden : Bool) (schema : Schema) (value : Value) :
    Gathers rest (found.assign name hidden schema) (Meaning.enter harvest name operand value) :=
  ⟨gathers.quiet, gathers.items, .none⟩

theorem yield (gathers : Gathers (.yield operand :: rest) found harvest)
    (admitted : schema.admits value = true) :
    Gathers rest (found.yield schema)
      { harvest with yields := harvest.yields ++ [value], trailing := none } := by
  refine ⟨(by rintro ⟨⟩), fun alternatives same => ?_, .none⟩
  cases same
  refine ⟨List.append_ne_nil_of_right_ne_nil _ (List.cons_ne_nil _ _), fun item member => ?_⟩
  rw [Schema.admitsSome_insert]
  rcases List.mem_append.mp member with known | new
  · cases yields : found.yields with
    | none =>
      rw [gathers.quiet yields] at known
      cases known
    | some alternatives =>
      rw [Option.getD_some, (gathers.items alternatives yields).2 item known, Bool.true_or]
  · rw [List.mem_singleton.mp new, admitted, Bool.or_true]

theorem trail (gathers : Gathers (expression :: rest) found harvest)
    (admitted : rest = [] → schema.admits value = true) :
    Gathers rest { found with trailing := some schema } { harvest with trailing := some value } :=
  ⟨gathers.quiet, gathers.items, .some admitted⟩

/-- What a section is the value of conforms to its schema, if its fields do. -/
theorem admits (gathers : Gathers [] found harvest)
    (fields : found.yields = none → found.trailing = none → ∀ field ∈ found.fields, ∃ value,
      Fields.get? harvest.fields field.1 = some value ∧
        Schema.admitsSome field.2 value = true) :
    found.schema.admits harvest.value = true := by
  rw [SectionSchema.schema, Harvest.value]
  cases yields : found.yields with
  | some alternatives =>
    rcases gathers.items alternatives yields with ⟨filled, admitted⟩
    rw [if_pos (by rw [Bool.not_eq_true', List.isEmpty_eq_false_iff]; exact filled)]
    exact Schema.admits_vector alternatives admitted
  | none =>
    rw [gathers.quiet yields, if_neg (by exact Bool.false_ne_true)]
    have trailing := gathers.trailing
    cases inferred : found.trailing with
    | some schema =>
      rw [inferred] at trailing
      cases held : harvest.trailing with
      | some value =>
        rw [held] at trailing
        cases trailing with
        | some admitted => exact admitted rfl
      | none =>
        rw [held] at trailing
        cases trailing
    | none =>
      rw [inferred] at trailing
      cases held : harvest.trailing with
      | some value =>
        rw [held] at trailing
        cases trailing
      | none => exact Schema.admitsFields_iff.mpr (fields yields inferred)

end Gathers

namespace Surveyed

variable {part : Section Expr} (surveyed : Surveyed scene table stale part)
  (conforms : ∀ shallow ≤ depth, Conforms shallow) (sees : Sees (depth + 1) scene table stale)

include surveyed conforms sees

/-- The schema of an operand of a section is right where it is settled. -/
theorem admits (split : part.expressions = front ++ rest)
    (anchored : operand.Anchored (Meaning.inside scene part).names)
    (literals : Expr.Every Expr.Literal operand)
    (settled : operand.settled (enterAll table front)
      (Section.staleAmong part.expressions stale rest) = true)
    (means : meaning depth (Meaning.inside scene part) operand = .ok value) :
    (operand.schema (enterAll table front)).admits value = true :=
  conforms depth (Nat.le_refl depth) surveyed.sound
    (surveyed.sees (fun shallow less => conforms shallow (Nat.le_of_lt less))
      (sees.mono (Nat.le_succ depth)) split)
    ⟨anchored, literals, settled⟩ means

/-- Every expression of a section conforms where it counts. -/
theorem gathers (split : part.expressions = front ++ rest) {found : SectionSchema}
    (gathers : Gathers rest found harvest)
    (gathered : (meaning depth).gatherAll (Meaning.inside scene part) harvest rest = .ok after) :
    Gathers [] (collect (enterAll table front) found rest) after := by
  induction rest generalizing front found harvest with
  | nil =>
    cases gathered
    exact gathers
  | cons expression rest ih =>
    rcases outcome_bind_eq_ok.mp gathered with ⟨middle, first, behind⟩
    have further : part.expressions = (front ++ [expression]) ++ rest := by
      rw [split, List.append_assoc]
      rfl
    have next : ∀ {found}, Gathers rest found middle →
        Gathers [] (collect (enterAll (enterAll table front) [expression]) found rest) after := by
      intro found gathers
      rw [← enterAll_append]
      exact ih further gathers behind
    rcases surveyed.of_mem (by rw [split]; exact List.mem_append_right _ List.mem_cons_self)
      with ⟨anchored, literals⟩
    have settled := surveyed.settled_rest split
    cases expression with
    | assignment key operand =>
      rcases Meaning.gather_assignment_eq_ok.mp first with ⟨value, _, rfl⟩
      exact next (gathers.assign _ _ value)
    | yield operand =>
      rcases outcome_bind_eq_ok.mp first with ⟨value, means, same⟩
      cases same
      refine next (gathers.yield ?_)
      exact surveyed.admits conforms sees split anchored (literals.child List.mem_cons_self)
        ((Bool.and_eq_true _ _).mp settled).1 means
    | _ =>
      -- any other expression counts only if it is the last one
      rcases outcome_bind_eq_ok.mp first with ⟨value, means, same⟩
      cases same
      refine next (gathers.trail fun ends => ?_)
      subst ends
      exact surveyed.admits conforms sees split anchored literals
        ((Bool.and_eq_true _ _).mp settled).1 means

/-- Behind a section everything that is known there is right. -/
theorem sees_behind : Sees (depth + 1) (Meaning.inside scene part)
    (enterAll table part.expressions) (Section.staleAmong part.expressions stale []) :=
  surveyed.sees (fun shallow less => conforms shallow (Nat.le_of_lt_succ less)) sees
    (List.append_nil _).symm

/-- What is inferred last about a name of a section is right about its value. -/
theorem admits_forced (last : Section.lastOperand? part.expressions name = some operand)
    (plain : operand.isFunction = false)
    (inferred : Section.lastSchema? table part.expressions name = some schema)
    (forced : (meaning depth).force (Meaning.inside scene part) name = .ok value) :
    schema.admits value = true := by
  cases closed : schema.isOpen with
  | true => exact Schema.admits_of_isOpen closed value
  | false =>
    have seen := surveyed.sees_behind conforms sees
    have fresh : name ∉ Section.staleAmong part.expressions stale [] := by
      intro outside
      have absent := (List.mem_filter.mp outside).2
      rw [Section.assigns, last] at absent
      cases absent
    have known : (enterAll table part.expressions).get? name = some schema := by
      rw [Section.get?_enterAll, inferred, Option.some_or]
    rcases seen name schema fresh known closed with ⟨owner, slot, found, keeps⟩
    have own := Meaning.find?_inside_of_last scene last plain
    cases own.symm.trans found
    rcases outcome_bind_eq_ok.mp forced with ⟨named, resolved, same⟩
    cases (meaning depth).resolve_eq_ok.mp resolved with
    | ready holds => cases own.symm.trans holds
    | function holds => cases own.symm.trans holds
    | pending holds means =>
      cases own.symm.trans holds
      cases same
      exact keeps depth (Nat.lt_succ_self depth) _ means

/-- The fields of a section that is a mapping conform to what is inferred of them. -/
theorem fields (keeps : Section.keepsFields part.expressions
      (inferAll table .empty part.expressions) = true)
    (gathered : (meaning depth).gatherAll (Meaning.inside scene part) .empty part.expressions =
      .ok after)
    (noYields : (collect table .empty part.expressions).yields = none)
    (noTrailing : (collect table .empty part.expressions).trailing = none) :
    ∀ field ∈ (collect table .empty part.expressions).fields, ∃ value,
      Fields.get? after.fields field.1 = some value ∧
        Schema.admitsSome field.2 value = true := by
  rintro ⟨name, alternatives⟩ member
  have shown := (Section.keys_collect member).resolve_left List.not_mem_nil
  rcases field_of_gatherAll gathered (.inl shown) with ⟨value, forced, held⟩
  refine ⟨value, held, ?_⟩
  rcases Section.last_of_shows shown with ⟨operand, last, visible⟩
  cases function : operand.isFunction with
  | true =>
    -- the field is a unit, and this is one of the places that have to be settled
    rw [Meaning.eq_unit_of_forced last function forced]
    rw [inferAll_eq, SectionSchema.schema, noYields, noTrailing] at keeps
    change (!Section.isMapping part.expressions || _) = true at keeps
    rw [Section.isMapping_collect noYields noTrailing, Bool.not_true, Bool.false_or] at keeps
    have kept := List.all_eq_true.mp keeps _ member
    change (!(Section.lastOperand? part.expressions name).any Expr.isFunction || _) = true at kept
    rw [last, Option.any_some, function, Bool.not_true, Bool.false_or] at kept
    exact Schema.admitsSome_iff.mpr (List.any_eq_true.mp kept)
  | false =>
    have known : (Section.lastSchema? table part.expressions name).isSome = true := by
      rw [Section.isSome_lastSchema?, Section.assigns, last]
      rfl
    rcases Option.isSome_iff_exists.mp known with ⟨schema, inferred⟩
    rcases Section.last_collect last (visible function) inferred with ⟨more, collected, admits⟩
    have ordered : Fields.Ordered (collect table .empty part.expressions).fields :=
      Section.ordered_collect List.Pairwise.nil
    cases (Fields.get?_of_mem ordered member).symm.trans collected
    exact admits value (surveyed.admits_forced conforms sees last function inferred forced)

/-- The value of a section conforms to what is inferred of the section. -/
theorem whole (keeps : Section.keepsFields part.expressions
      (inferAll table .empty part.expressions) = true)
    (gathered : (meaning depth).gatherAll (Meaning.inside scene part) .empty part.expressions =
      .ok after) :
    (inferAll table .empty part.expressions).admits after.value = true := by
  rw [inferAll_eq]
  have split : part.expressions = [] ++ part.expressions := rfl
  exact (surveyed.gathers conforms sees split (.empty _) gathered).admits
    (surveyed.fields conforms sees keeps gathered)

end Surveyed

/-- What is found of the sections in front is kept. -/
theorem Schema.admitsSome_laterSchemas (sections : List (Section Expr))
    {alternatives : Schema.Alternatives} (admitted : Schema.admitsSome alternatives value = true) :
    Schema.admitsSome (laterSchemas table alternatives sections) value = true := by
  induction sections generalizing alternatives with
  | nil => exact admitted
  | cons part rest ih =>
    refine ih ?_
    rw [Schema.admitsSome_insert, admitted, Bool.true_or]

namespace Inference

variable (conforms : ∀ shallow ≤ depth, Conforms shallow) (sound : scene.Sound)
  (sees : Sees (depth + 1) scene table stale)

include conforms sound sees

/-- The value of a section, and what is known inside it. -/
theorem sectionValue {part : Section Expr} (anchored : part.Anchored scene.names)
    (literals : ∀ expression ∈ part.expressions, Expr.Every Expr.Literal expression)
    (settled : part.settled table stale = true)
    (found : (meaning depth).sectionValue scene part = .ok value) :
    (part.schema table).admits value = true ∧ Scene.Sound (Meaning.inside scene part) ∧
      Sees (depth + 1) (Meaning.inside scene part) (part.enterNames table)
        (Section.staleAmong part.expressions stale []) := by
  rcases outcome_bind_eq_ok.mp found with ⟨after, gathered, same⟩
  cases same
  have inside := sound.inside anchored gathered
  rcases part with ⟨scope, expressions⟩
  rw [Section.settled, Bool.and_eq_true] at settled
  have surveyed : Surveyed scene table stale ⟨scope, expressions⟩ :=
    ⟨inside, AnchoredAll.mono _ (assigned_subset_names scene ⟨scope, expressions⟩) anchored,
      literals, settled.2⟩
  exact ⟨surveyed.whole conforms sees settled.1 gathered, inside,
    surveyed.sees_behind conforms sees⟩

theorem sectionValues {sections : List (Section Expr)} {values : List Value}
    (anchored : AnchoredSections scene.names sections)
    (literals : ∀ part ∈ sections, ∀ expression ∈ part.expressions,
      Expr.Every Expr.Literal expression)
    (settled : laterSettled table stale sections = true)
    (found : (meaning depth).sectionValues scene sections = .ok values)
    (alternatives : Schema.Alternatives) :
    ∀ item ∈ values, Schema.admitsSome (laterSchemas table alternatives sections) item = true := by
  induction sections generalizing values alternatives with
  | nil =>
    cases found
    exact fun _ none => absurd none List.not_mem_nil
  | cons part rest ih =>
    rcases outcome_bind_eq_ok.mp found with ⟨value, first, found⟩
    rcases outcome_bind_eq_ok.mp found with ⟨others, behind, same⟩
    cases same
    rcases (Bool.and_eq_true _ _).mp settled with ⟨settled, further⟩
    rcases List.forall_mem_cons.mp literals with ⟨own, literals⟩
    refine List.forall_mem_cons.mpr ⟨?_, ih anchored.2 literals further behind _⟩
    refine Schema.admitsSome_laterSchemas rest ?_
    rw [Schema.admitsSome_insert,
      (sectionValue conforms sound sees anchored.1 own settled first).1, Bool.or_true]

theorem blockValue {sections : List (Section Expr)}
    (inferable : Inferable scene table stale (.block sections))
    (found : (meaning depth).blockValue scene sections = .ok value) :
    (blockSchema table sections).admits value = true := by
  have literals : ∀ part ∈ sections, ∀ expression ∈ part.expressions,
      Expr.Every Expr.Literal expression := fun part member expression inside =>
    inferable.literals.child (List.mem_flatMap.mpr ⟨part, member, inside⟩)
  rcases (Bool.or_eq_true _ _).mp inferable.settled with free | settled
  · exact Schema.admits_of_isOpen free value
  -- only the names of the first section are seen by the others
  cases sections with
  | nil =>
    cases found
    rfl
  | cons front rest =>
    rcases List.forall_mem_cons.mp literals with ⟨own, literals⟩
    rcases (Bool.and_eq_true _ _).mp settled with ⟨settledHere, further⟩
    cases rest with
    | nil => exact (sectionValue conforms sound sees inferable.anchored.1 own settledHere found).1
    | cons second rest =>
      rcases outcome_bind_eq_ok.mp found with ⟨first, valued, found⟩
      rcases outcome_bind_eq_ok.mp found with ⟨others, behind, same⟩
      cases same
      rcases sectionValue conforms sound sees inferable.anchored.1 own settledHere valued with
        ⟨admitted, inside, seen⟩
      have anchored := AnchoredSections.mono _ (assigned_subset_names scene front)
        inferable.anchored.2
      refine Schema.admits_vector _ (List.forall_mem_cons.mpr ⟨?_, ?_⟩)
      · refine Schema.admitsSome_laterSchemas _ ?_
        rw [Schema.admitsSome, admitted, Bool.true_or]
      · exact sectionValues conforms inside seen anchored literals further behind _

/-! ## Parts of expressions -/

theorem items {items : List Expr} {values : List Value} (anchored : AnchoredAll scene.names items)
    (literals : ∀ item ∈ items, Expr.Every Expr.Literal item)
    (settled : settledItems table stale items = true)
    (found : (meaning depth).items scene items = .ok values) :
    ∀ value ∈ values, Schema.admitsSome (itemSchemas table items) value = true := by
  induction items generalizing values with
  | nil =>
    cases found
    exact fun _ none => absurd none List.not_mem_nil
  | cons item rest ih =>
    rcases outcome_bind_eq_ok.mp found with ⟨value, first, found⟩
    rcases outcome_bind_eq_ok.mp found with ⟨others, behind, same⟩
    cases same
    rcases (Bool.and_eq_true _ _).mp settled with ⟨settled, further⟩
    rcases List.forall_mem_cons.mp literals with ⟨own, literals⟩
    intro held member
    rw [itemSchemas, Schema.admitsSome]
    rcases List.mem_cons.mp member with rfl | later
    · rw [conforms depth (Nat.le_refl depth) sound (sees.mono (Nat.le_succ depth))
        ⟨anchored.1, own, settled⟩ first, Bool.true_or]
    · rw [ih anchored.2 literals further behind held later, Bool.or_true]

theorem step (inferable : Inferable scene table stale expression)
    (found : (meaning depth).step scene expression = .ok value) :
    (expression.schema table).admits value = true := by
  rcases inferable with ⟨anchored, literals, settled⟩
  have deeper : ∀ operand ∈ expression.children, operand.Anchored scene.names →
      operand.settled table stale = true → ∀ value, meaning depth scene operand = .ok value →
        (operand.schema table).admits value = true :=
    fun operand member anchored settled _ =>
      conforms depth (Nat.le_refl depth) sound (sees.mono (Nat.le_succ depth))
        ⟨anchored, literals.child member, settled⟩
  cases expression with
  | unit =>
    cases found
    rfl
  | scalar held =>
    cases found
    exact literals.own
  | vector items =>
    rcases outcome_bind_eq_ok.mp found with ⟨values, means, same⟩
    cases same
    refine Schema.admits_vector _ fun item member => ?_
    rw [Schema.admitsSome_ofList]
    exact Inference.items conforms sound sees anchored (fun _ inside => literals.child inside)
      settled means item member
  | application name operands definition =>
    exact admits_application sound sees settled found
  | function lambda => cases found
  | lift operand =>
    rcases outcome_bind_eq_ok.mp found with ⟨held, means, same⟩
    rcases (Bool.and_eq_true _ _).mp settled with ⟨settled, liftable⟩
    have admitted := deeper operand List.mem_cons_self anchored settled held means
    have lifted := Schema.admits_lifted liftable admitted
    cases held <;> cases same <;> exact lifted
  | merge left right mode => exact Schema.admits_of_isOpen settled value
  | yield operand | assignment _ operand | scope _ operand =>
    exact deeper operand List.mem_cons_self anchored settled value found
  | block sections => exact blockValue conforms sound sees ⟨anchored, literals, settled⟩ found
  | access target name =>
    rcases outcome_bind_eq_ok.mp found with ⟨held, means, taken⟩
    rcases (Bool.or_eq_true _ _).mp settled with free | settled
    · exact Schema.admits_of_isOpen free value
    · have admitted := deeper target List.mem_cons_self anchored settled held means
      rcases Evaluator.fieldOf_eq_ok taken with ⟨fields, rfl, present⟩
      exact Schema.admits_field admitted present
  | pipeline left right | patternMatch left right => cases found

end Inference

/-- To every depth the schemas of expressions are right. -/
theorem conforms_meaning (depth : Nat) : Conforms depth := by
  induction depth using Nat.strongRecOn with
  | ind depth ih =>
    intro scene table stale expression value sound sees inferable found
    cases depth with
    | zero => cases found
    | succ depth =>
      exact Inference.step (fun shallow le => ih shallow (Nat.lt_succ_of_le le)) sound sees
        inferable found

end Manifest
