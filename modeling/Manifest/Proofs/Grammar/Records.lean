import Manifest.Proofs.Grammar.Numbering

/-!
# The records of scopes

Scopes are opened and filled at different moments of a parse, and a section gets
its names while what its expressions open is already filled.  So the records are
compared with the tree when the whole document has been read: a record does not
change any more once its section or its body has been left.
-/

namespace Manifest

/-- What an expression enters into the scope of its section. -/
def Expr.entry? : Expr → Option (String × Binding)
  | .assignment key operand => some (key, .expression operand)
  | _ => none

/-- The names of a section, with what they stand for. -/
def Section.symbols (expressions : List Expr) : List (String × Binding) :=
  expressions.filterMap Expr.entry?

/-- The names of a function. -/
def parameterSymbols (names : List String) : List (String × Binding) :=
  names.map fun name => (name, .parameter)

mutual
/-- An expression stands in a scope as the records tell: the sections and functions
in it have records of their own, whose parents and names are those of the text. -/
def Expr.StandsIn (scopes : Scopes) (around : Nat) : Expr → Prop
  | .unit | .scalar _ => True
  | .vector items => AllStandIn scopes around items
  | .assignment _ operand | .lift operand | .yield operand | .access operand _ =>
      operand.StandsIn scopes around
  | .application _ operands definition =>
      DefinitionStands scopes definition ∧ AllStandIn scopes around operands
  | .function lambda => lambda.StandsIn scopes around []
  | .merge left right _ | .pipeline left right | .patternMatch left right =>
      left.StandsIn scopes around ∧ right.StandsIn scopes around
  | .block sections => BlockStandsIn scopes around sections
  | .scope _ _ => False
termination_by structural expression => expression

/-- An expression is the body of functions with some parameters.  A function that
is such a body itself has a further parameter, and their scope is the same. -/
def Expr.IsBody (scopes : Scopes) (around : Nat) (names : List String) : Expr → Prop
  | .function lambda => lambda.StandsIn scopes around names
  | .scope id operand =>
      scopes.get? id = some ⟨some around, parameterSymbols names⟩ ∧ operand.StandsIn scopes id
  | _ => False
termination_by structural expression => expression

def AllStandIn (scopes : Scopes) (around : Nat) : List Expr → Prop
  | [] => True
  | expression :: rest => expression.StandsIn scopes around ∧ AllStandIn scopes around rest
termination_by structural expressions => expressions

/-- A definition stands in a scope of its own, not in that of the name. -/
def DefinitionStands (scopes : Scopes) : Option (Lambda Expr) → Prop
  | none => True
  | some lambda => ∃ home, lambda.StandsIn scopes home []
termination_by structural definition => definition

def Lambda.StandsIn (scopes : Scopes) (around : Nat) (names : List String) : Lambda Expr → Prop
  | ⟨parameter, body⟩ => body.IsBody scopes around (names ++ [parameter])
termination_by structural lambda => lambda

/-- The first section of a block stands in the scope around the block, and the
later ones stand in the scope of the first. -/
def BlockStandsIn (scopes : Scopes) (around : Nat) : List (Section Expr) → Prop
  | [] => True
  | front :: rest => front.StandsIn scopes around ∧ SectionsStandIn scopes front.scope rest
termination_by structural sections => sections

def SectionsStandIn (scopes : Scopes) (around : Nat) : List (Section Expr) → Prop
  | [] => True
  | part :: rest => part.StandsIn scopes around ∧ SectionsStandIn scopes around rest
termination_by structural sections => sections

/-- The record of a section has the names that its expressions assign, in their order. -/
def Section.StandsIn (scopes : Scopes) (around : Nat) : Section Expr → Prop
  | ⟨id, expressions⟩ => scopes.get? id = some ⟨some around, Section.symbols expressions⟩ ∧
      AllStandIn scopes id expressions
termination_by structural part => part
end

variable {scopes after final : Scopes} {around parent scope : Nat}

theorem allStandIn_iff {expressions : List Expr} :
    AllStandIn scopes around expressions ↔
      ∀ expression ∈ expressions, expression.StandsIn scopes around := by
  induction expressions with
  | nil => exact ⟨fun _ _ none => absurd none List.not_mem_nil, fun _ => trivial⟩
  | cons expression rest ih =>
    rw [List.forall_mem_cons, ← ih]
    exact Iff.rfl

theorem sectionsStandIn_concat {first : List (Section Expr)} {part : Section Expr}
    (stand : SectionsStandIn scopes around first) (last : part.StandsIn scopes around) :
    SectionsStandIn scopes around (first ++ [part]) := by
  induction first with
  | nil => exact ⟨last, trivial⟩
  | cons other first ih => exact ⟨stand.1, ih stand.2⟩

theorem Section.symbols_concat (expressions : List Expr) (expression : Expr) :
    Section.symbols (expressions ++ [expression]) =
      Section.symbols expressions ++ expression.entry?.toList := by
  rw [Section.symbols, List.filterMap_append]
  cases entered : expression.entry? <;> simp [Section.symbols, entered]

theorem Expr.entry?_eq_none {expression : Expr} (plain : expression.isAssignment = false) :
    expression.entry? = none := by
  cases expression <;> first | rfl | cases plain

/-! ## Single records -/

namespace Scopes

/-- A scope is younger than the scope around it. -/
def Older (scopes : Scopes) : Prop :=
  ∀ id record parent, scopes.get? id = some record → record.parent = some parent → parent < id

theorem get?_push_self (scopes : Scopes) (parent : Option Nat) :
    (scopes.push parent).2.get? scopes.size = some ⟨parent, []⟩ := by
  rw [push, get?, Array.getElem?_push]
  exact if_pos rfl

theorem get?_bind_self {record : ScopeRecord} (found : scopes.get? scope = some record)
    (name : String) (binding : Binding) : (scopes.bind scope name binding).get? scope =
      some { record with symbols := record.symbols ++ [(name, binding)] } := by
  have stands : scopes.records[scope]? = some record := found
  rw [bind, get?, Array.getElem?_modify, if_pos rfl, stands]
  rfl

theorem lt_size_of_get? {record : ScopeRecord} (found : scopes.get? scope = some record) :
    scope < scopes.size :=
  (Array.getElem?_eq_some_iff.mp found).1

theorem Older.push_of {around : Option Nat} (older : Older scopes)
    (inside : ∀ outer ∈ around, outer < scopes.size) : Older (scopes.push around).2 := by
  intro id record parent found named
  rcases Nat.lt_or_ge id scopes.size with within | beyond
  · rw [get?_push_of_lt around within] at found
    exact older id record parent found named
  · have small : id < (scopes.push around).2.size := lt_size_of_get? found
    rw [size_push] at small
    have same : id = scopes.size := by omega
    subst same
    rw [get?_push_self] at found
    cases found
    exact inside parent named

theorem Older.push (older : Older scopes) (inside : scope < scopes.size) :
    Older (scopes.push (some scope)).2 :=
  older.push_of fun _ same => Option.mem_some.mp same ▸ inside

theorem Older.bind (older : Older scopes) (scope : Nat) (name : String) (binding : Binding) :
    Older (scopes.bind scope name binding) := by
  intro id record parent found named
  by_cases same : id = scope
  · subst same
    have within := lt_size_of_get? found
    rw [size_bind] at within
    have stands : scopes.get? id = some scopes.records[id] := Array.getElem?_eq_getElem within
    rw [get?_bind_self stands] at found
    cases found
    exact older id _ parent stands named
  · rw [get?_bind_of_ne (Ne.symm same)] at found
    exact older id record parent found named

end Scopes

namespace Grammar

variable {goal : Goal} {start finish : Point} {result : Expr} {names : List String}

theorem get?_withParameters {record : ScopeRecord} (found : scopes.get? scope = some record)
    (names : List String) : (withParameters scopes scope names).get? scope =
      some { record with symbols := record.symbols ++ parameterSymbols names } := by
  induction names generalizing scopes record with
  | nil => rw [parameterSymbols, List.map_nil, List.append_nil]; exact found
  | cons name names ih =>
    have bound := ih (Scopes.get?_bind_self found name .parameter)
    rw [List.append_assoc] at bound
    exact bound

theorem older_withParameters (older : scopes.Older) (scope : Nat) (names : List String) :
    (withParameters scopes scope names).Older := by
  induction names generalizing scopes with
  | nil => exact older
  | cons name names ih => exact ih (older.bind scope name .parameter)

/-! ## Goals in open scopes -/

/-- The scopes that a goal names are open. -/
def Goal.Inside (scopes : Scopes) : Goal → Prop
  | .block scope _ | .statement scope | .chain scope | .links scope _ | .proceed scope _
  | .term scope | .application _ scope | .operands _ _ scope | .operand scope
  | .function scope _ => scope < scopes.size
  | .sections _ finished part _ =>
      part.scope < scopes.size ∧ ∀ earlier ∈ finished, earlier.scope < scopes.size
  | .path _ => True

theorem front_lt {finished : List (Section Expr)} {part : Section Expr}
    (inside : part.scope < scopes.size)
    (earlier : ∀ earlier ∈ finished, earlier.scope < scopes.size) :
    front finished part < scopes.size := by
  cases finished with
  | nil => exact inside
  | cons first later => exact earlier first List.mem_cons_self

/-- A further section is open, and those in front of it still are. -/
theorem inside_divide {stop : BlockEnd} {finished : List (Section Expr)} {part : Section Expr}
    (inside : part.scope < scopes.size)
    (earlier : ∀ earlier ∈ finished, earlier.scope < scopes.size) (outer : Option Nat) :
    (Goal.sections stop (finished ++ [part]) ⟨scopes.size, []⟩ false).Inside
      (scopes.push outer).2 := by
  have size : (scopes.push outer).2.size = scopes.size + 1 := Scopes.size_push _
  refine ⟨by rw [size]; exact Nat.lt_succ_self _, fun other member => ?_⟩
  rw [size]
  rcases List.mem_append.mp member with known | new
  · exact Nat.lt_succ_of_lt (earlier other known)
  · rw [List.mem_singleton.mp new]
    exact Nat.lt_succ_of_lt inside

theorem Derives.older (derived : Derives goal start scopes result finish after)
    (inside : goal.Inside scopes) (older : scopes.Older) : after.Older := by
  induction derived with
  | @block parent _ _ _ _ scopes _ _ ih =>
    have size : (scopes.push (some parent)).2.size = scopes.size + 1 := Scopes.size_push _
    refine ih ⟨by rw [size]; exact Nat.lt_succ_self _, fun _ none => nomatch none⟩ ?_
    exact older.push inside
  | skip _ _ ih | lead _ ih => exact ih inside older
  | divide _ _ ih =>
    exact ih (inside_divide inside.1 inside.2 _) (older.push (front_lt inside.1 inside.2))
  | state first _ ihFirst ihSecond =>
    have grew := first.size_le
    refine ihSecond ⟨Nat.lt_of_lt_of_le inside.1 grew, fun earlier member => ?_⟩
      (ihFirst inside.1 older)
    exact Nat.lt_of_lt_of_le (inside.2 earlier member) grew
  | closeBlock | closeDocument | finish | behindBlock | literal | enough | bareName | reached =>
    exact older
  | nested _ ih | yielded _ _ ih | plain _ _ ih | chain _ ih | further _ _ ih | lifted _ ih
  | grouped _ ih | inner _ ih | named _ ih | applied _ _ ih | liftedOperand _ ih
  | simple _ _ _ ih => exact ih inside older
  | assigned _ ih => exact (ih inside older).bind _ _ _
  | operator _ first _ ihFirst ihSecond | arrow _ first _ ihFirst ihSecond
  | begin _ first _ ihFirst ihSecond | more _ first _ ihFirst ihSecond =>
    exact ihSecond (Nat.lt_of_lt_of_le inside first.size_le) (ihFirst inside older)
  | selected _ _ ih | selectedOperand _ _ ih | field _ ih => exact ih trivial older
  | @body scope names _ _ _ scopes _ _ ih =>
    have size : (scopes.push (some scope)).2.size = scopes.size + 1 := Scopes.size_push _
    have opened := (Retains.withParameters (scopes.push (some scope)).2 scopes.size names).size_le
    refine ih ?_ (older_withParameters (older.push inside) _ _)
    change scopes.size < _
    omega

/-! ## What a statement enters -/

/-- The goals of whatever is no statement, where nothing before was an assignment. -/
def Goal.Plain : Goal → Prop
  | .statement _ => False
  | .links _ stack | .proceed _ stack => ∀ expression ∈ stack, expression.isAssignment = false
  | .path target => target.isAssignment = false
  | _ => True

/-- Only a statement is an assignment. -/
theorem Derives.isAssignment_eq (derived : Derives goal start scopes result finish after)
    (plain : goal.Plain) : result.isAssignment = false := by
  have settles : ∀ {stack : List Expr} {result : Expr},
      (∀ expression ∈ stack, expression.isAssignment = false) → settle stack = some result →
        result.isAssignment = false := by
    intro stack result given settled
    match stack, settled with
    | [], settled => cases settled; rfl
    | [expression], settled => cases settled; exact given _ List.mem_cons_self
  induction derived with
  | block _ ih | skip _ _ ih | lead _ ih | divide _ _ ih | state _ _ _ ih | applied _ _ ih
  | named _ ih | inner _ ih | grouped _ ih => exact ih trivial
  | closeBlock | closeDocument | lifted | enough | bareName | liftedOperand => rfl
  | nested | yielded | assigned | plain => exact plain.elim
  | chain _ ih => exact ih fun _ none => nomatch none
  | finish _ settled | behindBlock _ settled => exact settles plain settled
  | @operator _ _ lexeme _ _ _ _ _ _ _ _ _ _ _ _ _ _ ih =>
    refine ih (List.forall_mem_cons.mpr ⟨?_, (List.forall_mem_cons.mp plain).2⟩)
    cases lexeme <;> rfl
  | @arrow _ _ _ _ _ _ _ _ _ _ _ _ _ _ _ first ih =>
    exact ih (List.forall_mem_singleton.mpr (first trivial))
  | begin _ _ _ first ih => exact ih (List.forall_mem_singleton.mpr (first trivial))
  | further _ _ ih => exact ih plain
  | literal reads =>
    rename_i lexeme _ _ _ _
    cases lexeme <;> cases reads <;> rfl
  | selected _ _ ih | selectedOperand _ _ ih => exact ih rfl
  | more _ _ _ _ ih | simple _ _ _ ih => exact ih trivial
  | field _ ih => exact ih rfl
  | reached => exact plain
  | @body _ names =>
    cases names <;> rfl

/-- A statement enters itself into its scope if it is an assignment. -/
theorem Derives.enters {record : ScopeRecord}
    (derived : Derives (.statement scope) start scopes result finish after)
    (found : scopes.get? scope = some record) : after.get? scope =
      some { record with symbols := record.symbols ++ result.entry?.toList } := by
  have alone : ∀ {expression : Expr}, Retains none scopes after →
      expression.isAssignment = false → after.get? scope =
        some { record with symbols := record.symbols ++ expression.entry?.toList } := by
    intro expression retains plain
    rw [Expr.entry?_eq_none plain, Option.toList_none, List.append_nil,
      retains.get?_eq scope (Scopes.lt_size_of_get? found) (by rintro ⟨⟩), found]
  cases derived with
  | nested inner => exact alone inner.retains_scopes (inner.isAssignment_eq trivial)
  | yielded _ inner => exact alone inner.retains_scopes rfl
  | plain _ inner => exact alone inner.retains_scopes (inner.isAssignment_eq trivial)
  | assigned inner =>
    refine Scopes.get?_bind_self ?_ _ _
    rw [inner.retains_scopes.get?_eq scope (Scopes.lt_size_of_get? found) (by rintro ⟨⟩), found]

/-! ## Records of the whole document -/

/-- The records that have been opened from a number on are the final ones. -/
def Agrees (final : Scopes) (low : Nat) (after : Scopes) : Prop :=
  ∀ id, low ≤ id → id < after.size → final.get? id = after.get? id

theorem Agrees.mono {low high : Nat} (agrees : Agrees final low after) (le : low ≤ high) :
    Agrees final high after :=
  fun id above below => agrees id (Nat.le_trans le above) below

/-- What is read further on leaves the records alone. -/
theorem Agrees.front {low : Nat} {written : Option Nat} (agrees : Agrees final low after)
    (retains : Retains written scopes after) (outside : ∀ id, written = some id → id < low) :
    Agrees final low scopes := by
  intro id above below
  rw [agrees id above (Nat.lt_of_lt_of_le below retains.size_le), retains.get?_eq id below]
  intro same
  exact absurd (outside id same) (Nat.not_lt_of_le above)

/-- An expression stands in some scope as the final records tell. -/
def Placed (final : Scopes) (expression : Expr) : Prop :=
  ∃ around, expression.StandsIn final around

theorem definitionStands (holds : Holds (Placed final) scopes) (scope : Nat) (name : String) :
    DefinitionStands final (definition scopes scope name) := by
  cases found : definition scopes scope name with
  | none => trivial
  | some lambda => exact holds.definition found

/-- What has been read of a block stands as the final records tell, and the open
section has the names that have been assigned so far. -/
structure Gathers (final : Scopes) (parent : Nat) (finished : List (Section Expr))
    (part : Section Expr) (scopes : Scopes) : Prop where
  record : scopes.get? part.scope =
    some ⟨some ((finished.head?.map Section.scope).getD parent), Section.symbols part.expressions⟩
  stand : AllStandIn final part.scope part.expressions
  behind : BlockStandsIn final parent finished

namespace Gathers

variable {finished : List (Section Expr)} {part : Section Expr}

/-- The open section is left, and its record is final. -/
theorem concat (gathers : Gathers final parent finished part scopes)
    (same : final.get? part.scope = scopes.get? part.scope) :
    BlockStandsIn final parent (finished ++ [part]) := by
  rcases part with ⟨id, expressions⟩
  have record := same.trans gathers.record
  cases finished with
  | nil => exact ⟨⟨record, gathers.stand⟩, trivial⟩
  | cons first later =>
    exact ⟨gathers.behind.1, sectionsStandIn_concat gathers.behind.2 ⟨record, gathers.stand⟩⟩

theorem closed {parts : List (Section Expr)} (gathers : Gathers final parent finished part scopes)
    (same : final.get? part.scope = scopes.get? part.scope)
    (ended : closed finished part = some parts) : BlockStandsIn final parent parts := by
  rw [Grammar.closed] at ended
  split at ended
  · cases ended
    exact gathers.concat same
  · split at ended
    · cases ended
      exact trivial
    · cases ended

/-- A further section begins. -/
theorem divide (gathers : Gathers final parent finished part scopes)
    (same : final.get? part.scope = scopes.get? part.scope) :
    Gathers final parent (finished ++ [part]) ⟨scopes.size, []⟩
      (scopes.push (some (front finished part))).2 := by
  refine ⟨?_, trivial, gathers.concat same⟩
  rw [Scopes.get?_push_self]
  cases finished <;> rfl

/-- A further expression of the section. -/
theorem grow {expression : Expr} (gathers : Gathers final parent finished part scopes)
    (entered : ∀ {record : ScopeRecord}, scopes.get? part.scope = some record →
      after.get? part.scope =
        some { record with symbols := record.symbols ++ expression.entry?.toList })
    (stands : expression.StandsIn final part.scope) :
    Gathers final parent finished (grown part expression) after := by
  refine ⟨?_, ?_, gathers.behind⟩
  · rw [grown, Section.symbols_concat]
    exact entered gathers.record
  · refine allStandIn_iff.mpr (List.forall_mem_append.mpr ⟨?_, ?_⟩)
    · exact allStandIn_iff.mp gathers.stand
    · exact List.forall_mem_singleton.mpr stands

end Gathers

/-- What is read at a goal stands in its scope as the final records tell. -/
def Goal.Places (final : Scopes) : Goal → Scopes → Expr → Scopes → Prop
  | .block scope _, _, result, _ | .statement scope, _, result, _ | .chain scope, _, result, _
  | .term scope, _, result, _ | .application _ scope, _, result, _
  | .operand scope, _, result, _ => result.StandsIn final scope
  | .function scope names, _, result, _ => names ≠ [] → result.StandsIn final scope
  | .links scope given, _, result, _ | .proceed scope given, _, result, _
  | .operands _ given scope, _, result, _ =>
      (∀ expression ∈ given, expression.StandsIn final scope) → result.StandsIn final scope
  | .path target, _, result, _ =>
      ∀ scope, target.StandsIn final scope → result.StandsIn final scope
  | .sections _ finished part _, scopes, result, after =>
      final.get? part.scope = after.get? part.scope →
        ∀ parent, Gathers final parent finished part scopes → result.StandsIn final parent

theorem standsIn_settle {stack : List Expr}
    (given : ∀ expression ∈ stack, expression.StandsIn final scope)
    (settled : settle stack = some result) : result.StandsIn final scope := by
  cases stack with
  | nil =>
    cases settled
    exact trivial
  | cons expression stack =>
    cases stack with
    | nil =>
      cases settled
      exact given result List.mem_cons_self
    | cons second stack => cases settled

theorem standsIn_combine {left right : Expr} (lexeme : Lexeme)
    (first : left.StandsIn final scope) (second : right.StandsIn final scope) :
    (Parser.combine lexeme left right).StandsIn final scope := by
  cases lexeme <;> exact ⟨first, second⟩

theorem standsIn_literal {lexeme : Lexeme} (reads : lexeme.literal? = some result) :
    result.StandsIn final scope := by
  cases lexeme <;> cases reads <;> trivial

theorem standsIn_reference (name : String) : (Expr.reference name).StandsIn final scope :=
  ⟨trivial, trivial⟩

/-- The functions of some parameters have one scope, with all of their names. -/
theorem isBody_curried {id : Nat} {body : Expr} (front names : List String)
    (record : final.get? id = some ⟨some scope, parameterSymbols (front ++ names)⟩)
    (stands : body.StandsIn final id) :
    (curried names (.scope id body)).IsBody final scope front := by
  induction names generalizing front with
  | nil =>
    rw [List.append_nil] at record
    exact ⟨record, stands⟩
  | cons name names ih =>
    refine ih (front ++ [name]) ?_
    rw [List.append_assoc]
    exact record

theorem standsIn_curried {id : Nat} {body : Expr} (filled : names ≠ [])
    (record : final.get? id = some ⟨some scope, parameterSymbols names⟩)
    (stands : body.StandsIn final id) : (curried names (.scope id body)).StandsIn final scope := by
  cases names with
  | nil => exact absurd rfl filled
  | cons name names => exact isBody_curried [name] names record stands

theorem parameters_ne_nil {stack : List Expr} (named : parameters stack = some names) :
    names ≠ [] := by
  rintro rfl
  rw [parameters] at named
  split at named
  · split at named
    · cases named
    · rename_i filled
      exact filled (List.isEmpty_iff.mpr (Option.some.inj named))
  · cases named

/-- Where its scopes are open and the records that it adds are final, a goal is
read in place. -/
def ReadsInPlace (final : Scopes) (goal : Goal) (scopes : Scopes) (result : Expr)
    (after : Scopes) : Prop :=
  goal.Inside scopes → Holds (Placed final) scopes → Agrees final scopes.size after →
    goal.Places final scopes result after ∧ Holds (Placed final) after

/-- Two goals are read one behind the other. -/
theorem ReadsInPlace.both {inner next : Goal} {middle : Point} {between : Scopes} {operand : Expr}
    (first : ReadsInPlace final inner scopes operand between)
    (second : ReadsInPlace final next between result after)
    (front : Derives inner start scopes operand middle between)
    (behind : Derives next middle between result finish after)
    (apart : ∀ id, next.written = some id → id < scopes.size)
    (inside : inner.Inside scopes) (insideBehind : next.Inside between)
    (holds : Holds (Placed final) scopes) (agrees : Agrees final scopes.size after) :
    inner.Places final scopes operand between ∧ next.Places final between result after ∧
      Holds (Placed final) after := by
  rcases first inside holds (agrees.front behind.retains_scopes apart) with ⟨stands, held⟩
  exact ⟨stands, second insideBehind held (agrees.mono front.size_le)⟩

theorem Derives.places (derived : Derives goal start scopes result finish after)
    (inside : goal.Inside scopes) (holds : Holds (Placed final) scopes)
    (agrees : Agrees final scopes.size after) :
    goal.Places final scopes result after ∧ Holds (Placed final) after := by
  induction derived with
  | @block parent _ _ _ _ scopes after inner ih =>
    have size : (scopes.push (some parent)).2.size = scopes.size + 1 := Scopes.size_push _
    have grew := inner.size_le
    rcases ih ⟨by rw [size]; exact Nat.lt_succ_self _, fun _ none => nomatch none⟩ (holds.push _)
      (agrees.mono (by omega)) with ⟨places, held⟩
    refine ⟨places (agrees scopes.size (Nat.le_refl _) (by omega)) parent ?_, held⟩
    exact ⟨Scopes.get?_push_self _ _, trivial, trivial⟩
  | skip _ _ ih | lead _ ih => exact ih inside holds agrees
  | @divide _ finished part _ _ _ _ _ scopes after _ inner ih =>
    have size : (scopes.push (some (front finished part))).2.size = scopes.size + 1 :=
      Scopes.size_push _
    have grew := inner.size_le
    have within := inside.1
    rcases ih (inside_divide inside.1 inside.2 _) (holds.push _) (agrees.mono (by omega)) with
      ⟨places, held⟩
    refine ⟨fun same parent gathers => ?_, held⟩
    have kept : after.get? part.scope = scopes.get? part.scope := by
      rw [inner.retains_scopes.get?_eq part.scope (by omega)
        (by simp only [Goal.written, ne_eq, Option.some.injEq]; omega),
        Scopes.get?_push_of_lt _ within]
    exact places (agrees scopes.size (Nat.le_refl _) (by omega)) parent
      (gathers.divide (same.trans kept))
  | state first second ihFirst ihSecond =>
    have grew := first.size_le
    rcases ReadsInPlace.both ihFirst ihSecond first second
      (fun id same => Option.some.inj same ▸ inside.1) inside.1
      ⟨Nat.lt_of_lt_of_le inside.1 grew, fun earlier member =>
        Nat.lt_of_lt_of_le (inside.2 earlier member) grew⟩ holds agrees with ⟨stands, places, held⟩
    exact ⟨fun same parent gathers => places same parent (gathers.grow first.enters stands), held⟩
  | closeBlock ended | closeDocument ended =>
    exact ⟨fun same parent gathers => gathers.closed same ended, holds⟩
  | nested _ ih | plain _ _ ih | inner _ ih | grouped _ ih | named _ ih | yielded _ _ ih
  | lifted _ ih | liftedOperand _ ih | simple _ _ _ ih | further _ _ ih =>
    exact ih inside holds agrees
  | @assigned scope name _ _ _ _ _ _ after inner ih =>
    have kept : Agrees final _ after :=
      agrees.front (.bind after scope name _) fun id same => Option.some.inj same ▸ inside
    rcases ih inside holds kept with ⟨stands, held⟩
    refine ⟨stands, held.bind _ _ fun operand same => ?_⟩
    cases same
    exact ⟨scope, stands⟩
  | chain _ ih | applied _ _ ih =>
    rcases ih inside holds agrees with ⟨places, held⟩
    exact ⟨places (fun _ none => nomatch none), held⟩
  | finish _ settled | behindBlock _ settled =>
    exact ⟨fun given => standsIn_settle given settled, holds⟩
  | operator _ first second ihFirst ihSecond =>
    rcases ReadsInPlace.both ihFirst ihSecond first second (by rintro _ ⟨⟩) inside
      (Nat.lt_of_lt_of_le inside first.size_le) holds agrees with ⟨stands, places, held⟩
    refine ⟨fun given => places ?_, held⟩
    rcases List.forall_mem_cons.mp given with ⟨left, others⟩
    exact List.forall_mem_cons.mpr ⟨standsIn_combine _ left stands, others⟩
  | arrow named first second ihFirst ihSecond =>
    rcases ReadsInPlace.both ihFirst ihSecond first second (by rintro _ ⟨⟩) inside
      (Nat.lt_of_lt_of_le inside first.size_le) holds agrees with ⟨stands, places, held⟩
    refine ⟨fun _ => places ?_, held⟩
    exact List.forall_mem_singleton.mpr (stands (parameters_ne_nil named))
  | begin _ first second ihFirst ihSecond =>
    rcases ReadsInPlace.both ihFirst ihSecond first second (by rintro _ ⟨⟩) inside
      (Nat.lt_of_lt_of_le inside first.size_le) holds agrees with ⟨stands, places, held⟩
    exact ⟨fun _ => places (List.forall_mem_singleton.mpr stands), held⟩
  | literal reads => exact ⟨standsIn_literal reads, holds⟩
  | selected _ _ ih | selectedOperand _ _ ih =>
    rcases ih trivial holds agrees with ⟨places, held⟩
    exact ⟨places _ (standsIn_reference _), held⟩
  | more _ first second ihFirst ihSecond =>
    rcases ReadsInPlace.both ihFirst ihSecond first second (by rintro _ ⟨⟩) inside
      (Nat.lt_of_lt_of_le inside first.size_le) holds agrees with ⟨stands, places, held⟩
    refine ⟨fun given => places (List.forall_mem_append.mpr ⟨given, ?_⟩), held⟩
    exact List.forall_mem_singleton.mpr stands
  | enough =>
    exact ⟨fun given => ⟨definitionStands holds _ _, allStandIn_iff.mpr given⟩, holds⟩
  | bareName => exact ⟨⟨definitionStands holds _ _, trivial⟩, holds⟩
  | field _ ih => exact ih trivial holds agrees
  | reached => exact ⟨fun _ given => given, holds⟩
  | @body scope names _ _ _ scopes after inner ih =>
    have size : (scopes.push (some scope)).2.size = scopes.size + 1 := Scopes.size_push _
    have opened := (Retains.withParameters (scopes.push (some scope)).2 scopes.size names).size_le
    have grew := inner.size_le
    have within : scopes.size <
        (withParameters (scopes.push (some scope)).2 scopes.size names).size := by omega
    rcases ih within ((holds.push _).withParameters _ _) (agrees.mono (by omega)) with
      ⟨stands, held⟩
    refine ⟨fun filled => standsIn_curried filled ?_ stands, held⟩
    rw [agrees scopes.size (Nat.le_refl _) (by omega),
      inner.retains_scopes.get?_eq scopes.size within (by rintro ⟨⟩),
      get?_withParameters (Scopes.get?_push_self scopes (some scope)) names]
    rfl

end Grammar
end Manifest
