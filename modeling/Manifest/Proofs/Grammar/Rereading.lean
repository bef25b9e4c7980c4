import Manifest.Proofs.Grammar.Completeness
import Manifest.Proofs.Grammar.Writing

/-!
# Reading what was written

Every phrase is read back as the expression that it writes, up to its outline.
What stands behind a phrase decides how far it is read, so each statement here
is about all lexemes that may follow: behind an operand neither a field nor
the sign of an assignment, behind a term no further operand either, and behind
a whole chain only what ends it.
-/

namespace Manifest
namespace Grammar

open Manifest.Parser

/-! ## Outlines of what is read -/

theorem outline_pathOf (target : Expr) (fields : List String) :
    (fields.foldl Expr.access target).outline = fields.foldl .access target.outline := by
  induction fields generalizing target with
  | nil => rfl
  | cons field fields ih => exact ih (.access target field)

theorem outline_curried (names : List String) (body : Expr) :
    (curried names body).outline = curried names body.outline := by
  induction names with
  | nil => rfl
  | cons name names ih =>
    exact congrArg (fun inner => Expr.function ⟨name, inner⟩) ih

/-- Only a name by itself has the outline of one. -/
theorem bareName?_of_outline {expression : Expr} {name : String}
    (same : expression.outline = .application name [] none) :
    bareName? expression = some name := by
  cases expression with
  | application found operands definition =>
    cases operands with
    | nil =>
      cases same
      rfl
    | cons => cases same
  | _ => cases same

theorem bareNames_of_outline {operands : List Expr} {names : List String}
    (same : operands.map Expr.outline = names.map (.application · [] none)) :
    operands.mapM bareName? = some names := by
  induction operands generalizing names with
  | nil =>
    cases names with
    | nil => rfl
    | cons => cases same
  | cons operand operands ih =>
    cases names with
    | nil => cases same
    | cons name names =>
      rw [List.map_cons, List.map_cons, List.cons.injEq] at same
      rw [List.mapM_cons, bareName?_of_outline same.1, ih same.2]
      rfl

/-! ## How phrases begin -/

/-- An operand begins with a mark of its own, or with a name in front of
nothing or of a field. -/
inductive BeginsOperand : List Lexeme → Prop
  | mark {lexeme : Lexeme} {more : List Lexeme} : lexeme.startsTerm = true → lexeme ≠ .indent →
      (∀ name, lexeme ≠ .symbol name) → BeginsOperand (lexeme :: more)
  | name (name : String) : BeginsOperand [.symbol name]
  | path (name : String) (more : List Lexeme) : BeginsOperand (.symbol name :: .accessor :: more)

/-- What may stand behind an operand. -/
structure FollowsOperand (next : Lexeme) : Prop where
  noField : next ≠ .accessor
  noSign : next.isAssignment = false

/-- What may stand behind a term. -/
structure FollowsTerm (next : Lexeme) : Prop extends FollowsOperand next where
  noOperand : next.startsTerm = false

theorem FollowsTerm.of_endsChain {next : Lexeme} (ends : next.endsChain = true) :
    FollowsTerm next := by
  cases next <;> first | (cases ends; done) | exact ⟨⟨nofun, rfl⟩, rfl⟩

theorem FollowsTerm.of_isOperator {next : Lexeme} (joins : next.isOperator = true) :
    FollowsTerm next := by
  cases next <;> first | (cases joins; done) | exact ⟨⟨nofun, rfl⟩, rfl⟩

theorem FollowsOperand.of_startsTerm {next : Lexeme} (starts : next.startsTerm = true) :
    FollowsOperand next := by
  cases next <;> first | (cases starts; done) | exact ⟨nofun, rfl⟩

namespace BeginsOperand

variable {lexemes before rest : List Lexeme} {next : Lexeme}

theorem eq_cons (begins : BeginsOperand lexemes) :
    ∃ first more, lexemes = first :: more ∧ first.startsTerm = true := by
  cases begins with
  | mark starts => exact ⟨_, _, rfl, starts⟩
  | name | path => exact ⟨_, _, rfl, rfl⟩

theorem takesOperand (begins : BeginsOperand lexemes) (follows : FollowsOperand next) :
    takesOperand ⟨before, lexemes ++ next :: rest⟩ = true := by
  cases begins with
  | @mark lexeme _ starts inner noSymbol =>
    cases lexeme <;> first
      | exact starts
      | exact absurd rfl inner
      | exact absurd rfl (noSymbol _)
  | name => exact congrArg (!·) follows.noSign
  | path => rfl

theorem startsChain (begins : BeginsOperand lexemes) (follows : FollowsTerm next) :
    startsChain ⟨before, lexemes ++ next :: rest⟩ = true := by
  cases begins with
  | @mark lexeme _ starts inner noSymbol =>
    cases lexeme <;> first
      | exact starts
      | exact absurd rfl inner
      | exact absurd rfl (noSymbol _)
  | name name =>
    change (!(decide (name = "yield") && next.startsTerm) && !next.isAssignment) = true
    rw [follows.noOperand, follows.noSign, Bool.and_false]
    rfl
  | path name =>
    change (!(decide (name = "yield") && false) && !false) = true
    rw [Bool.and_false]
    rfl

end BeginsOperand

theorem FollowsTerm.takesOperand {next : Lexeme} (follows : FollowsTerm next)
    (before rest : List Lexeme) : takesOperand ⟨before, next :: rest⟩ = false := by
  have none := follows.noOperand
  cases next <;> first | rfl | cases none

/-! ## Operands and chains -/

/-- Lexemes in front of a next one are read as a goal.  The last of them does
not close a block. -/
def ReadAs (goal : Goal) (expression : Expr) (lexemes : List Lexeme) (next : Lexeme) : Prop :=
  ∀ (before rest : List Lexeme) (scopes : Scopes), ∃ result latest last after,
    result.outline = expression.outline ∧ latest ≠ .outdent ∧
      Derives goal ⟨before, lexemes ++ next :: rest⟩ scopes result ⟨latest :: last, next :: rest⟩
        after

/-- An operand is read by itself, and as a term where no operand follows. -/
structure ReadsOperand (expression : Expr) (lexemes : List Lexeme) : Prop where
  begins : BeginsOperand lexemes
  operand : ∀ (next : Lexeme) (scope : Nat), FollowsOperand next →
    ReadAs (.operand scope) expression lexemes next
  term : ∀ (next : Lexeme) (scope : Nat), FollowsTerm next →
    ReadAs (.term scope) expression lexemes next

/-- What stands between parentheses is read up to what ends the chain. -/
def ReadsInside (expression : Expr) (lexemes : List Lexeme) : Prop :=
  ∀ (next : Lexeme) (scope : Nat) (before rest : List Lexeme) (scopes : Scopes),
    next.endsChain = true → ∃ result last after, result.outline = expression.outline ∧
      Derives (.chain scope) ⟨before, lexemes ++ next :: rest⟩ scopes result ⟨last, next :: rest⟩
        after

variable {expression left right : Expr} {lexemes front behind : List Lexeme} {next : Lexeme}
  {scope : Nat}

/-- A term that ends its chain is the chain. -/
theorem ReadAs.chain (begins : ∃ first more, lexemes = first :: more ∧ first.startsTerm = true)
    (term : ReadAs (.term scope) expression lexemes next) (ends : next.endsChain = true) :
    ReadAs (.chain scope) expression lexemes next := by
  intro before rest scopes
  rcases term before rest scopes with ⟨result, latest, last, after, same, apart, derived⟩
  refine ⟨result, latest, last, after, same, apart, .chain (.begin ?_ derived ?_)⟩
  · rcases begins with ⟨first, more, rfl, starts⟩
    exact starts
  · exact .further apart (.finish ends rfl)

theorem ReadsOperand.chain (reads : ReadsOperand expression lexemes) (scope : Nat)
    (ends : next.endsChain = true) : ReadAs (.chain scope) expression lexemes next :=
  (reads.term next scope (.of_endsChain ends)).chain reads.begins.eq_cons ends

theorem ReadAs.forget (reads : ∀ (next : Lexeme) (scope : Nat), next.endsChain = true →
    ReadAs (.chain scope) expression lexemes next) : ReadsInside expression lexemes := by
  intro next scope before rest scopes ends
  rcases reads next scope ends before rest scopes with
    ⟨result, latest, last, after, same, _, derived⟩
  exact ⟨result, _, after, same, derived⟩

theorem readsOperand_literal {lexeme : Lexeme} {value : Expr}
    (reads : lexeme.literal? = some value) :
    ReadsOperand value [lexeme] := by
  have known : lexeme.startsTerm = true ∧ lexeme ≠ .indent ∧ (∀ name, lexeme ≠ .symbol name) ∧
      lexeme ≠ .lift ∧ lexeme ≠ .outdent := by
    cases lexeme <;> first | (cases reads; done) | exact ⟨rfl, nofun, nofun, nofun, nofun⟩
  rcases known with ⟨starts, inner, noSymbol, noLift, noClose⟩
  refine ⟨.mark starts inner noSymbol, ?_, ?_⟩
  · intro next scope _ before rest scopes
    exact ⟨value, lexeme, before, scopes, rfl, noClose, .simple noSymbol noLift (.literal reads)⟩
  · intro next scope _ before rest scopes
    exact ⟨value, lexeme, before, scopes, rfl, noClose, .literal reads⟩

/-- The fields of a path are read one after the other. -/
theorem derives_path (fields : List String) (target : Expr) (noField : next ≠ .accessor)
    {latest : Lexeme} (apart : latest ≠ .outdent) (before rest : List Lexeme) (scopes : Scopes) :
    ∃ found last, found ≠ .outdent ∧
      Derives (.path target) ⟨latest :: before, fieldsBehind fields ++ next :: rest⟩ scopes
        (fields.foldl .access target) ⟨found :: last, next :: rest⟩ scopes := by
  induction fields generalizing target latest before with
  | nil => exact ⟨latest, before, apart, .reached noField⟩
  | cons field fields ih =>
    have inner : Lexeme.symbol field ≠ .outdent := nofun
    rcases ih (.access target field) inner (.accessor :: latest :: before) with
      ⟨found, last, other, derived⟩
    exact ⟨found, last, other, .field derived⟩

theorem readsOperand_path (name : String) (definition : Option (Lambda Expr))
    (fields : List String) :
    ReadsOperand (pathOf name definition fields) (.symbol name :: fieldsBehind fields) := by
  have inner : Lexeme.symbol name ≠ .outdent := nofun
  cases fields with
  | nil =>
    refine ⟨.name name, ?_, ?_⟩
    · intro next scope follows before rest scopes
      have noField : (⟨.symbol name :: before, next :: rest⟩ : Point).next ≠ .accessor :=
        follows.noField
      exact ⟨.application name [] (Grammar.definition scopes scope name), _, before, scopes, rfl,
        inner, .bareName noField⟩
    · intro next scope follows before rest scopes
      have noField : (⟨.symbol name :: before, next :: rest⟩ : Point).next ≠ .accessor :=
        follows.noField
      exact ⟨.application name [] (Grammar.definition scopes scope name), _, before, scopes, rfl,
        inner, .named (.applied noField (.enough (follows.takesOperand _ _)))⟩
  | cons field fields =>
    have outlines : (pathOf name none (field :: fields)).outline =
        (pathOf name definition (field :: fields)).outline := by
      rw [pathOf, pathOf, outline_pathOf, outline_pathOf]
      rfl
    refine ⟨.path name _, ?_, ?_⟩
    · intro next scope follows before rest scopes
      rcases derives_path (field :: fields) (.reference name) follows.noField inner before rest
        scopes with ⟨latest, last, apart, derived⟩
      exact ⟨_, latest, last, scopes, outlines, apart, .selectedOperand rfl derived⟩
    · intro next scope follows before rest scopes
      rcases derives_path (field :: fields) (.reference name) follows.noField inner before rest
        scopes with ⟨latest, last, apart, derived⟩
      exact ⟨_, latest, last, scopes, outlines, apart, .named (.selected rfl derived)⟩

theorem readsOperand_grouped (reads : ReadsInside expression lexemes) :
    ReadsOperand expression (.openParen :: (lexemes ++ [.closeParen])) := by
  have term : ∀ next scope,
      ReadAs (.term scope) expression (.openParen :: (lexemes ++ [.closeParen])) next := by
    intro next scope before rest scopes
    rcases reads .closeParen scope (.openParen :: before) (next :: rest) scopes rfl with
      ⟨result, last, after, same, derived⟩
    refine ⟨result, .closeParen, last, after, same, nofun, ?_⟩
    rw [List.cons_append, List.append_assoc]
    exact .grouped derived
  refine ⟨.mark rfl nofun nofun, ?_, fun next scope _ => term next scope⟩
  intro next scope _ before rest scopes
  rcases term next scope before rest scopes with ⟨result, latest, last, after, same, apart, derived⟩
  exact ⟨result, latest, last, after, same, apart, .simple nofun nofun derived⟩

theorem readsInside_unit : ReadsInside .unit [] := by
  intro next scope before rest scopes ends
  exact ⟨.unit, before, scopes, rfl, .chain (.finish ends rfl)⟩

theorem readsInside_alone (reads : ReadsOperand expression lexemes) :
    ReadsInside expression lexemes :=
  ReadAs.forget fun _ scope ends => reads.chain scope ends

theorem readsInside_lift (reads : ReadsOperand expression lexemes) :
    ReadsInside (.lift expression) (.lift :: lexemes) := by
  refine ReadAs.forget fun next scope ends => ReadAs.chain ⟨_, _, rfl, rfl⟩ ?_ ends
  intro before rest scopes
  rcases reads.term next scope (.of_endsChain ends) (.lift :: before) rest scopes with
    ⟨result, latest, last, after, same, apart, derived⟩
  exact ⟨.lift result, latest, last, after, congrArg Expr.lift same, apart, .lifted derived⟩

/-- Two operands with an operator between them. -/
theorem readsInside_combine (operator : Lexeme) (joins : operator.isOperator = true)
    (first : ReadsOperand left front) (second : ReadsOperand right behind) :
    ReadsInside (combine operator left right) (front ++ operator :: behind) := by
  intro next scope before rest scopes ends
  rcases first.term operator scope (.of_isOperator joins) before (behind ++ next :: rest)
    scopes with ⟨leftResult, latest, middle, between, leftSame, apart, leftDerived⟩
  rcases second.term next scope (.of_endsChain ends) (operator :: latest :: middle) rest
    between with ⟨rightResult, final, last, after, rightSame, still, rightDerived⟩
  refine ⟨combine operator leftResult rightResult, final :: last, after, ?_, ?_⟩
  · cases operator <;> first
      | (cases joins; done)
      | simp only [combine, Expr.outline, leftSame, rightSame]
  · rw [List.append_assoc, List.cons_append]
    refine .chain (.begin ?_ leftDerived ?_)
    · rcases first.begins.eq_cons with ⟨lexeme, more, rfl, starts⟩
      exact starts
    · exact .further apart (.operator joins rightDerived (.further still (.finish ends rfl)))

/-! ## Applications and functions -/

/-- Operands in front of a next lexeme begin with one that may follow an operand. -/
theorem exists_operand_next {operands : List Phrase}
    (reads : ∀ operand ∈ operands, ReadsOperand operand.expression operand.lexemes)
    (follows : FollowsOperand next) (rest : List Lexeme) :
    ∃ first more, operands.flatMap Phrase.lexemes ++ next :: rest = first :: more ∧
      FollowsOperand first := by
  cases operands with
  | nil => exact ⟨next, rest, rfl, follows⟩
  | cons operand operands =>
    rcases (reads operand List.mem_cons_self).begins.eq_cons with ⟨first, more, split, starts⟩
    rw [List.flatMap_cons, split]
    exact ⟨first, _, rfl, .of_startsTerm starts⟩

/-- Operands are read one after the other. -/
theorem derives_operands {operands : List Phrase}
    (reads : ∀ operand ∈ operands, ReadsOperand operand.expression operand.lexemes)
    (follows : FollowsTerm next) (name : String) (taken : List Expr) {latest : Lexeme}
    (apart : latest ≠ .outdent) (before rest : List Lexeme) (scopes : Scopes) :
    ∃ results definition found last after,
      results.map Expr.outline = operands.map (Expr.outline ∘ Phrase.expression) ∧
      found ≠ .outdent ∧
      Derives (.operands name taken scope)
        ⟨latest :: before, operands.flatMap Phrase.lexemes ++ next :: rest⟩ scopes
        (.application name (taken ++ results) definition) ⟨found :: last, next :: rest⟩ after := by
  induction operands generalizing taken latest before scopes with
  | nil =>
    refine ⟨[], definition scopes scope name, latest, before, scopes, rfl, apart, ?_⟩
    rw [List.append_nil]
    exact .enough (follows.takesOperand _ _)
  | cons operand operands ih =>
    rcases List.forall_mem_cons.mp reads with ⟨first, others⟩
    rcases exists_operand_next others follows.toFollowsOperand rest with ⟨lexeme, more, split, may⟩
    rcases first.operand lexeme scope may (latest :: before) more scopes with
      ⟨result, closing, middle, between, same, still, derived⟩
    rcases ih others (taken ++ [result]) still middle between with
      ⟨results, definition, found, last, after, outlines, inner, further⟩
    rw [← split] at derived
    refine ⟨result :: results, definition, found, last, after, ?_, inner, ?_⟩
    · rw [List.map_cons, List.map_cons, outlines, same]
      rfl
    · rw [List.flatMap_cons, List.append_assoc, List.append_cons taken result results]
      refine .more ?_ derived further
      rw [split]
      exact first.begins.takesOperand may

/-- A name in front of operands is read as their application. -/
theorem readAs_application (name : String) (operands : List Phrase)
    (definition : Option (Lambda Expr))
    (reads : ∀ operand ∈ operands, ReadsOperand operand.expression operand.lexemes)
    (follows : FollowsTerm next) (scope : Nat) :
    ReadAs (.term scope) (.application name (operands.map Phrase.expression) definition)
      (.symbol name :: operands.flatMap Phrase.lexemes) next := by
  intro before rest scopes
  have inner : Lexeme.symbol name ≠ .outdent := nofun
  rcases derives_operands reads follows name [] inner before rest scopes with
    ⟨results, found, latest, last, after, outlines, apart, derived⟩
  rcases exists_operand_next reads follows.toFollowsOperand rest with ⟨first, more, split, may⟩
  refine ⟨.application name ([] ++ results) found, latest, last, after, ?_, apart, ?_⟩
  · rw [List.nil_append, Expr.outline, Expr.outline, outlineAll_eq, outlineAll_eq, outlines,
      List.map_map]
  · rw [List.cons_append]
    refine .named (.applied ?_ derived)
    rw [split]
    exact may.noField

theorem readsInside_application (name : String) (operands : List Phrase)
    (definition : Option (Lambda Expr))
    (reads : ∀ operand ∈ operands, ReadsOperand operand.expression operand.lexemes) :
    ReadsInside (.application name (operands.map Phrase.expression) definition)
      (.symbol name :: operands.flatMap Phrase.lexemes) :=
  ReadAs.forget fun _ scope ends =>
    (readAs_application name operands definition reads (.of_endsChain ends) scope).chain
      ⟨_, _, rfl, rfl⟩ ends

/-- A parameter is written like a name. -/
def parameterPhrase (name : String) : Phrase :=
  ⟨.application name [] none, [.symbol name]⟩

/-- Parameters are read as an application, which the arrow turns into their names. -/
theorem readsInside_function (id : Nat) (first : String) (others : List String)
    (reads : ReadsOperand expression lexemes) :
    ReadsInside (curried (first :: others) (.scope id expression))
      ((first :: others).map .symbol ++ .arrow :: lexemes) := by
  intro next scope before rest scopes ends
  have bare : ∀ operand ∈ others.map parameterPhrase,
      ReadsOperand operand.expression operand.lexemes := by
    intro operand inside
    rcases List.mem_map.mp inside with ⟨name, _, rfl⟩
    exact readsOperand_path name none []
  have inner : Lexeme.symbol first ≠ .outdent := nofun
  have follows : FollowsTerm .arrow := ⟨⟨nofun, rfl⟩, rfl⟩
  rcases derives_operands bare follows first [] inner before (lexemes ++ next :: rest) scopes with
    ⟨results, definition, latest, middle, between, outlines, apart, derived⟩
  rcases exists_operand_next bare follows.toFollowsOperand (lexemes ++ next :: rest) with
    ⟨lexeme, more, split, may⟩
  have named : parameters [.application first ([] ++ results) definition] =
      some (first :: others) := by
    have names : results.mapM bareName? = some others := by
      refine bareNames_of_outline (outlines.trans ?_)
      rw [List.map_map]
      rfl
    simp [parameters, parameterNames?, names]
  rcases reads.chain between.size ends (.arrow :: latest :: middle) rest
      (withParameters (between.push (some scope)).2 between.size (first :: others)) with
    ⟨body, final, last, after, same, still, bodyDerived⟩
  refine ⟨curried (first :: others) (.scope between.size body), final :: last, after, ?_, ?_⟩
  · rw [outline_curried, outline_curried, Expr.outline, Expr.outline, same]
  · have signs : (others.map parameterPhrase).flatMap Phrase.lexemes = others.map .symbol := by
      rw [List.flatMap_map]
      exact List.map_eq_flatMap.symm
    rw [signs] at derived split
    rw [List.map_cons, List.cons_append, List.cons_append, List.append_assoc, List.cons_append]
    refine .chain (.begin rfl (.named (.applied ?_ derived)) ?_)
    · rw [split]
      exact may.noField
    · exact .further apart (.arrow named (.body bodyDerived) (.further still (.finish ends rfl)))

/-! ## Statements -/

/-- An expression of a section is read up to the end of its line or its block. -/
def ReadsStatement (expression : Expr) (lexemes : List Lexeme) : Prop :=
  ∀ (next : Lexeme) (scope : Nat), next.endsChain = true →
    ReadAs (.statement scope) expression lexemes next

theorem readsStatement_assigned (key : String) (literal : Bool)
    (reads : ReadsOperand expression lexemes) :
    ReadsStatement (.assignment key expression)
      (.symbol key :: .assignment literal :: lexemes) := by
  intro next scope ends before rest scopes
  rcases reads.chain scope ends (.assignment literal :: .symbol key :: before) rest scopes with
    ⟨result, latest, last, after, same, apart, derived⟩
  exact ⟨.assignment key result, latest, last, _, congrArg (Expr.assignment key) same, apart,
    .assigned derived⟩

theorem readsStatement_yielded (reads : ReadsOperand expression lexemes) :
    ReadsStatement (.yield expression) (.symbol "yield" :: lexemes) := by
  intro next scope ends before rest scopes
  rcases reads.chain scope ends (.symbol "yield" :: before) rest scopes with
    ⟨result, latest, last, after, same, apart, derived⟩
  rcases reads.begins.eq_cons with ⟨first, more, rfl, starts⟩
  exact ⟨.yield result, latest, last, after, congrArg Expr.yield same, apart,
    .yielded starts derived⟩

theorem readsStatement_plain (reads : ReadsOperand expression lexemes) :
    ReadsStatement expression lexemes := by
  intro next scope ends before rest scopes
  rcases reads.chain scope ends before rest scopes with
    ⟨result, latest, last, after, same, apart, derived⟩
  have starts := @BeginsOperand.startsChain _ before rest _ reads.begins (.of_endsChain ends)
  exact ⟨result, latest, last, after, same, apart, .plain starts derived⟩

/-! ## Sections -/

/-- Reading one goal leads to another: what is read there is read here. -/
def Leads (goal : Goal) (start : Point) (scopes : Scopes) (other : Goal) (middle : Point)
    (between : Scopes) : Prop :=
  ∀ {result : Expr} {finish : Point} {after : Scopes},
    Derives other middle between result finish after →
    Derives goal start scopes result finish after

variable (stop : BlockEnd) (finished : List (Section Expr)) (leading : Bool)

/-- Further lines end the chain of the line in front of them, and so does what
ends the section. -/
theorem exists_lineEnd (lines : List (Nat × Phrase)) (ends : next.endsChain = true)
    (rest : List Lexeme) : ∃ lexeme more, Passage.linesBehind lines ++ next :: rest =
      lexeme :: more ∧ lexeme.endsChain = true := by
  cases lines with
  | nil => exact ⟨next, rest, rfl, ends⟩
  | cons line lines => exact ⟨_, _, rfl, rfl⟩

/-- A statement is one more expression of the open section. -/
theorem leads_statement (reads : ReadsStatement expression lexemes) (ends : next.endsChain = true)
    (scope : Nat) (taken : List Expr) (before rest : List Lexeme) (scopes : Scopes) :
    ∃ result last after, result.outline = expression.outline ∧
      Leads (.sections stop finished ⟨scope, taken⟩ leading)
        ⟨before, lexemes ++ next :: rest⟩ scopes
        (.sections stop finished ⟨scope, taken ++ [result]⟩ false) ⟨last, next :: rest⟩ after := by
  rcases reads next scope ends before rest scopes with
    ⟨result, latest, last, after, same, _, derived⟩
  exact ⟨result, _, after, same, fun behind => .state derived behind⟩

/-- Further lines are further expressions of the open section. -/
theorem leads_lines {lines : List (Nat × Phrase)}
    (reads : ∀ phrase ∈ lines.map Prod.snd, ReadsStatement phrase.expression phrase.lexemes)
    (ends : next.endsChain = true) (scope : Nat) (taken : List Expr) (before rest : List Lexeme)
    (scopes : Scopes) :
    ∃ results last after, results.map Expr.outline =
        (lines.map Prod.snd).map (Expr.outline ∘ Phrase.expression) ∧
      Leads (.sections stop finished ⟨scope, taken⟩ false)
        ⟨before, Passage.linesBehind lines ++ next :: rest⟩ scopes
        (.sections stop finished ⟨scope, taken ++ results⟩ false) ⟨last, next :: rest⟩ after := by
  induction lines generalizing taken before scopes with
  | nil =>
    refine ⟨[], before, scopes, rfl, fun derived => ?_⟩
    rw [List.append_nil] at derived
    exact derived
  | cons line lines ih =>
    rcases line with ⟨column, phrase⟩
    rcases List.forall_mem_cons.mp reads with ⟨first, others⟩
    rcases exists_lineEnd lines ends rest with ⟨lexeme, more, split, lineEnds⟩
    rcases leads_statement stop finished false first lineEnds scope taken
      (.newline column :: before) more scopes with
      ⟨result, middle, between, same, stated⟩
    rcases ih others (taken ++ [result]) middle between with
      ⟨results, last, after, outlines, further⟩
    rw [← split] at stated
    refine ⟨result :: results, last, after, ?_, fun derived => ?_⟩
    · rw [List.map_cons, same, outlines]
      rfl
    · rw [List.append_cons taken result results] at derived
      have read := stated (further derived)
      rw [← List.append_assoc] at read
      exact .skip rfl read

/-- A passage is read as a section with the expressions that it writes. -/
theorem leads_passage {passage : Passage}
    (reads : ∀ phrase ∈ passage.phrases, ReadsStatement phrase.expression phrase.lexemes)
    (ends : next.endsChain = true) (scope : Nat) (before rest : List Lexeme) (scopes : Scopes) :
    ∃ part last after, part.expressions ≠ [] ∧ part.outline = passage.part.outline ∧
      Leads (.sections stop finished ⟨scope, []⟩ leading)
        ⟨before, passage.lexemes ++ next :: rest⟩ scopes
        (.sections stop finished part false) ⟨last, next :: rest⟩ after := by
  rcases List.forall_mem_cons.mp reads with ⟨first, others⟩
  rcases exists_lineEnd passage.others ends rest with ⟨lexeme, more, split, lineEnds⟩
  rcases leads_statement stop finished leading first lineEnds scope [] before more scopes with
    ⟨result, middle, between, same, stated⟩
  rcases leads_lines stop finished others ends scope ([] ++ [result]) middle rest between with
    ⟨results, last, after, outlines, further⟩
  rw [← split] at stated
  refine ⟨⟨scope, [] ++ [result] ++ results⟩, last, after, ?_, ?_, fun derived => ?_⟩
  · exact List.cons_ne_nil _ _
  · rw [Section.outline, Passage.part, Section.outline, outlineAll_eq, outlineAll_eq, List.map_map,
      List.nil_append, List.map_append, List.map_singleton, same, outlines]
    rfl
  · rw [Passage.lexemes, List.append_assoc]
    exact stated (further derived)

/-- Further passages end the section in front of them, and so does what ends
the block. -/
theorem exists_sectionEnd (passages : List Passage) (ends : next.endsChain = true)
    (rest : List Lexeme) : ∃ lexeme more, Passage.passagesBehind passages ++ next :: rest =
      lexeme :: more ∧ lexeme.endsChain = true := by
  cases passages with
  | nil => exact ⟨next, rest, rfl, ends⟩
  | cons passage passages => exact ⟨_, _, rfl, rfl⟩

/-- Further passages are read as further sections. -/
theorem leads_passages {passages : List Passage}
    (reads : ∀ passage ∈ passages, ∀ phrase ∈ passage.phrases,
      ReadsStatement phrase.expression phrase.lexemes)
    (ends : next.endsChain = true) {part : Section Expr} (filled : part.expressions ≠ [])
    (before rest : List Lexeme) (scopes : Scopes) :
    ∃ earlier final last after, final.expressions ≠ [] ∧
      (earlier ++ [final]).map Section.outline =
        (finished ++ [part]).map Section.outline ++ passages.map (Section.outline ∘ Passage.part) ∧
      Leads (.sections stop finished part false)
        ⟨before, Passage.passagesBehind passages ++ next :: rest⟩ scopes
        (.sections stop earlier final false) ⟨last, next :: rest⟩ after := by
  induction passages generalizing finished part before scopes with
  | nil =>
    refine ⟨finished, part, before, scopes, filled, ?_, fun derived => derived⟩
    rw [List.map_nil, List.append_nil]
  | cons passage passages ih =>
    rcases List.forall_mem_cons.mp reads with ⟨first, others⟩
    rcases exists_sectionEnd passages ends rest with ⟨lexeme, more, split, sectionEnds⟩
    rcases leads_passage stop (finished ++ [part]) false first sectionEnds scopes.size
      (.sectionStart :: before) more (scopes.push (some (front finished part))).2 with
      ⟨opened, middle, between, some, same, read⟩
    rcases ih (finished ++ [part]) others some middle between with
      ⟨earlier, final, last, after, still, outlines, further⟩
    rw [← split] at read
    refine ⟨earlier, final, last, after, still, ?_, fun derived => ?_⟩
    · rw [outlines, List.map_append, List.map_singleton, same, List.append_assoc]
      rfl
    · have divided : Derives (.sections stop finished part false) ⟨before, .sectionStart ::
          (passage.lexemes ++ (Passage.passagesBehind passages ++ next :: rest))⟩ scopes _ _ _ :=
        .divide filled (read (further derived))
      rw [← List.append_assoc] at divided
      exact divided

/-! ## Blocks -/

/-- The sections of a block are read up to what ends the block. -/
def ReadsBlock (expression : Expr) (lexemes : List Lexeme) : Prop :=
  ∀ (stop : BlockEnd) (next : Lexeme) (scope : Nat) (before rest : List Lexeme) (scopes : Scopes),
    next.endsChain = true → ∃ parts finished part leading last after,
      (Expr.block parts).outline = expression.outline ∧ closed finished part = some parts ∧
      Leads (.block scope stop) ⟨before, lexemes ++ next :: rest⟩ scopes
        (.sections stop finished part leading) ⟨last, next :: rest⟩ after

theorem readsBlock_passages {passages : List Passage}
    (reads : ∀ passage ∈ passages, ∀ phrase ∈ passage.phrases,
      ReadsStatement phrase.expression phrase.lexemes) :
    ReadsBlock (.block (passages.map Passage.part)) (Passage.lexemesOf passages) := by
  intro stop next scope before rest scopes ends
  cases passages with
  | nil => exact ⟨[], [], ⟨_, []⟩, true, before, _, rfl, rfl, fun derived => .block derived⟩
  | cons passage passages =>
    rcases List.forall_mem_cons.mp reads with ⟨first, others⟩
    rcases exists_sectionEnd passages ends rest with ⟨lexeme, more, split, sectionEnds⟩
    rcases leads_passage stop [] true first sectionEnds scopes.size before more
      (scopes.push (some scope)).2 with ⟨opened, middle, between, some, same, read⟩
    rcases leads_passages stop [] others ends some middle rest between with
      ⟨earlier, final, last, after, still, outlines, further⟩
    rw [← split] at read
    refine ⟨earlier ++ [final], earlier, final, false, last, after, ?_,
      if_pos (by simpa using still), fun derived => ?_⟩
    · rw [Expr.outline, Expr.outline, outlineSections_eq, outlineSections_eq, outlines,
        List.map_map, List.nil_append, List.map_singleton, same]
      rfl
    · have block := Derives.block (read (further derived))
      rw [← List.append_assoc] at block
      exact block

/-- A nested block is closed by the end of its level, which ends its chain too. -/
theorem readsInside_nested (reads : ReadsBlock expression lexemes) :
    ReadsInside expression (.indent :: (lexemes ++ [.outdent])) := by
  intro next scope before rest scopes ends
  rcases reads .outdent .outdent scope (.indent :: before) (next :: rest) scopes rfl with
    ⟨parts, finished, part, leading, last, after, same, ended, leads⟩
  refine ⟨.block parts, .outdent :: last, after, same, ?_⟩
  rw [List.cons_append, List.append_assoc]
  exact .chain (.begin rfl (.inner (leads (.closeBlock ended))) (.behindBlock rfl rfl))

/-! ## All phrases -/

/-- What is read back at a place. -/
def ReadsBack : Place → Expr → List Lexeme → Prop
  | .operand => ReadsOperand
  | .inside => ReadsInside
  | .statement => ReadsStatement
  | .block => ReadsBlock

theorem Writes.readsBack {place : Place} (writes : Writes place expression lexemes) :
    ReadsBack place expression lexemes := by
  induction writes with
  | literal reads => exact readsOperand_literal reads
  | path name definition fields => exact readsOperand_path name definition fields
  | grouped _ ih => exact readsOperand_grouped ih
  | alone _ ih => exact readsInside_alone ih
  | unit => exact readsInside_unit
  | application name operands definition _ ih =>
    exact readsInside_application name operands definition ih
  | lift _ ih => exact readsInside_lift ih
  | merge mode _ _ first second =>
    cases mode with
    | hard => exact readsInside_combine .hardMerge rfl first second
    | soft => exact readsInside_combine .softMerge rfl first second
  | pipeline _ _ first second =>
    exact readsInside_combine .pipeline rfl first second
  | patternMatch _ _ first second =>
    exact readsInside_combine .patternMatch rfl first second
  | function scope first others _ ih => exact readsInside_function scope first others ih
  | nested _ ih => exact readsInside_nested ih
  | block passages _ ih => exact readsBlock_passages ih
  | assigned key literal _ ih => exact readsStatement_assigned key literal ih
  | yielded _ ih => exact readsStatement_yielded ih
  | plain _ ih => exact readsStatement_plain ih

/-- A written block is the document of its lexemes. -/
theorem Writes.reads_document {lexemes : List Lexeme} {sections : List (Section Expr)}
    (writes : Writes .block (.block sections) lexemes) :
    ∃ parts scopes, (Expr.block parts).outline = (Expr.block sections).outline ∧
      Reads (lexemes ++ [.endOfInput]) ⟨.scope 0 (.block parts), scopes⟩ := by
  have reads : ReadsBlock (.block sections) lexemes := writes.readsBack
  rcases reads .endOfInput .endOfInput 0 [] [] (Scopes.empty.push none).2 rfl with
    ⟨parts, finished, part, leading, last, after, same, ended, leads⟩
  exact ⟨parts, after, same, _, _, leads (.closeDocument ended), rfl⟩

end Grammar
end Manifest
