import Manifest.Proofs.Grammar.Soundness

/-!
# Every derivation is a parse

A derivation is followed by the procedures if their depth allows it.  A goal
that takes no lexeme leads to a goal of less weight, and every other one to
lexemes further behind, so a multiple of the lexemes that are left is enough.
The depth of a document is chosen that way, and with it the documents are
exactly what the grammar derives.
-/

namespace Manifest

theorem endsWithEnd_eq_true_iff (tokens : List Token) :
    (Stream.ofTokens tokens).endsWithEnd = true ↔
      (tokens.map Token.lexeme).getLast? = some .endOfInput := by
  rw [Stream.endsWithEnd, Stream.ofTokens, List.back?_toArray, List.getLast?_map]
  cases tokens.getLast? with
  | none => simp
  | some last => simp

namespace Grammar

open Manifest.Parser ParserState

/-! ## Lexemes are read from front to back -/

/-- A point is reached from another by reading. -/
def Reaches (start finish : Point) : Prop :=
  ∃ read, start.rest = read ++ finish.rest ∧ finish.before = read.reverse ++ start.before

namespace Reaches

theorem refl (point : Point) : Reaches point point := ⟨[], rfl, rfl⟩

theorem trans {start middle finish : Point} (first : Reaches start middle)
    (second : Reaches middle finish) : Reaches start finish := by
  rcases first with ⟨front, frontRest, frontBefore⟩
  rcases second with ⟨back, backRest, backBefore⟩
  refine ⟨front ++ back, ?_, ?_⟩
  · rw [frontRest, backRest, List.append_assoc]
  · rw [backBefore, frontBefore, List.reverse_append, List.append_assoc]

/-- Behind one more lexeme. -/
theorem step {before rest : List Lexeme} {lexeme : Lexeme} {finish : Point}
    (behind : Reaches ⟨lexeme :: before, rest⟩ finish) :
    Reaches ⟨before, lexeme :: rest⟩ finish :=
  trans ⟨[lexeme], rfl, rfl⟩ behind

/-- One more lexeme behind. -/
theorem last {before rest : List Lexeme} {lexeme : Lexeme} {start : Point}
    (front : Reaches start ⟨before, lexeme :: rest⟩) :
    Reaches start ⟨lexeme :: before, rest⟩ :=
  front.trans ⟨[lexeme], rfl, rfl⟩

theorem length_le {start finish : Point} (reaches : Reaches start finish) :
    finish.rest.length ≤ start.rest.length := by
  rcases reaches with ⟨read, rest, _⟩
  rw [rest, List.length_append]
  exact Nat.le_add_left _ _

end Reaches

variable {goal : Goal} {start finish : Point} {scopes after : Scopes} {result : Expr}

theorem Derives.reaches (derived : Derives goal start scopes result finish after) :
    Reaches start finish := by
  induction derived with
  | block _ ih | plain _ _ ih | chain _ ih | further _ _ ih | selected _ _ ih | applied _ _ ih
  | simple _ _ _ ih | body _ ih => exact ih
  | skip _ _ ih | lead _ ih | divide _ _ ih | nested _ ih | yielded _ _ ih | lifted _ ih
  | inner _ ih | named _ ih | selectedOperand _ _ ih | liftedOperand _ ih => exact ih.step
  | assigned _ ih | field _ ih => exact ih.step.step
  | grouped _ ih => exact ih.step.last
  | state _ _ first second | begin _ _ _ first second | more _ _ _ first second =>
    exact first.trans second
  | operator _ _ _ first second | arrow _ _ _ first second => exact (first.trans second).step
  | closeBlock | literal | bareName => exact (Reaches.refl _).step
  | closeDocument | finish | behindBlock | enough | reached => exact Reaches.refl _

/-- The goals that end with the end of input. -/
def ClosesDocument : Goal → Prop
  | .block _ .endOfInput | .sections .endOfInput _ _ _ => True
  | _ => False

theorem Derives.closesDocument (derived : Derives goal start scopes result finish after)
    (closes : ClosesDocument goal) : ∃ rest, finish.rest = .endOfInput :: rest := by
  induction derived with
  | @block _ stop _ _ _ _ _ _ ih | @skip stop _ _ _ _ _ _ _ _ _ _ _ _ ih
  | @lead stop _ _ _ _ _ _ _ _ ih | @divide stop _ _ _ _ _ _ _ _ _ _ _ ih
  | @state stop _ _ _ _ _ _ _ _ _ _ _ _ _ _ ih =>
    cases stop with
    | outdent => exact closes.elim
    | endOfInput => exact ih trivial
  | closeDocument => exact ⟨_, rfl⟩
  | _ => exact closes.elim

/-- The goals that take a lexeme, where they stand in front of a term. -/
def Moves : Goal → Point → Prop
  | .term _, _ | .operand _, _ | .statement _, _ => True
  | .chain _, point | .links _ [], point => point.next.startsTerm = true
  | _, _ => False

theorem startsTerm_of_startsChain {point : Point} (starts : startsChain point = true) :
    point.next.startsTerm = true := by
  rw [startsChain] at starts
  cases next : point.next <;> rw [next] at starts <;> first | rfl | exact starts

theorem Derives.length_lt (derived : Derives goal start scopes result finish after)
    (moves : Moves goal start) : finish.rest.length < start.rest.length := by
  induction derived with
  | block | skip | lead | divide | state | closeBlock | closeDocument | operator | behindBlock
  | further | selected | applied | more | enough | field | reached | body => cases moves
  | nested inside | yielded _ inside | assigned inside | lifted inside | inner inside
  | named inside | selectedOperand _ inside | liftedOperand inside =>
    have behind := inside.reaches.length_le
    simp only [List.length_cons] at behind ⊢
    omega
  | grouped inside =>
    have behind := inside.reaches.length_le
    simp only [List.length_cons] at behind ⊢
    omega
  | plain starts _ ih => exact ih (startsTerm_of_startsChain starts)
  | chain _ ih => exact ih moves
  | @finish scope stack lexeme =>
    rename_i ends _
    cases stack with
    | nil =>
      have opens : lexeme.startsTerm = true := moves
      cases lexeme <;> first | (cases ends; done) | cases opens
    | cons => cases moves
  | @arrow scope stack =>
    cases stack with
    | nil =>
      have opens : Lexeme.arrow.startsTerm = true := moves
      cases opens
    | cons => cases moves
  | begin _ _ behind ih => exact Nat.lt_of_le_of_lt behind.reaches.length_le (ih trivial)
  | literal | bareName => exact Nat.lt_succ_self _
  | simple _ _ _ ih => exact ih trivial

/-! ## One rule after the other -/

/-- A procedure that reads what a derivation says, from every state that
stands where the derivation begins. -/
def Follows (depth : Nat) (goal : Goal) (start : Point) (scopes : Scopes) (result : Expr)
    (finish : Point) (after : Scopes) : Prop :=
  ∀ state : ParserState, Stands state start → state.scopes = scopes →
    ∃ final, run depth goal state = .ok result final ∧ final.scopes = after ∧
      Arrives goal final finish

namespace Follows

variable {depth scope : Nat} {stop : BlockEnd} {finished parts : List (Section Expr)}
  {part : Section Expr} {leading : Bool} {before rest : List Lexeme} {lexeme : Lexeme}
  {middle : Point} {between : Scopes} {stack taken : List Expr} {expression operand target : Expr}
  {name : String}

theorem block {parent : Nat}
    (inner : Follows depth (.sections stop [] ⟨scopes.size, []⟩ true) start
      (scopes.push (some parent)).2 result finish after) :
    Follows (depth + 1) (.block parent stop) start scopes result finish after := by
  intro state stands same
  subst same
  rcases inner _ (stands.ticked.withScopes _) rfl with ⟨final, succeeded, ended, arrived⟩
  refine ⟨final, succeeded, ended, ?_⟩
  cases stop <;> exact arrived

theorem skip (blank : lexeme.isLineBreak = true)
    (inner : Follows depth (.sections stop finished part leading) ⟨lexeme :: before, rest⟩ scopes
      result finish after) :
    Follows (depth + 1) (.sections stop finished part leading) ⟨before, lexeme :: rest⟩ scopes
      result finish after := by
  intro state stands same
  have more : lexeme ≠ .endOfInput := by
    intro equal
    cases equal
    cases blank
  rcases inner _ (stands.ticked.advanced more) same with ⟨final, succeeded, ended, arrived⟩
  exact ⟨final, (Stepwise.map_congr _ (sections_skip stands blank)).trans succeeded, ended,
    arrived⟩

theorem lead
    (inner : Follows depth (.sections stop [] ⟨scope, []⟩ false) ⟨.sectionStart :: before, rest⟩
      scopes result finish after) :
    Follows (depth + 1) (.sections stop [] ⟨scope, []⟩ true) ⟨before, .sectionStart :: rest⟩ scopes
      result finish after := by
  intro state stands same
  rcases inner _ (stands.ticked.advanced (by simp)) same with ⟨final, succeeded, ended, arrived⟩
  refine ⟨final, (Stepwise.map_congr _ (sections_lead stands rfl)).trans succeeded, ended, ?_⟩
  cases stop <;> exact arrived

theorem divide (filled : part.expressions ≠ [])
    (inner : Follows depth (.sections stop (finished ++ [part]) ⟨scopes.size, []⟩ false)
      ⟨.sectionStart :: before, rest⟩ (scopes.push (some (front finished part))).2
      result finish after) :
    Follows (depth + 1) (.sections stop finished part leading) ⟨before, .sectionStart :: rest⟩
      scopes result finish after := by
  intro state stands same
  subst same
  rcases inner _ ((stands.ticked.advanced (by simp)).withScopes _) rfl with
    ⟨final, succeeded, ended, arrived⟩
  refine ⟨final, (Stepwise.map_congr _ (sections_divide stands filled)).trans succeeded, ended, ?_⟩
  cases stop <;> exact arrived

theorem state (opens : lexeme.startsTerm = true)
    (first : Follows depth (.statement part.scope) ⟨before, lexeme :: rest⟩ scopes expression middle
      between)
    (second : Follows depth (.sections stop finished (grown part expression) false) middle between
      result finish after) :
    Follows (depth + 1) (.sections stop finished part leading) ⟨before, lexeme :: rest⟩ scopes
      result finish after := by
  intro state stands same
  rcases first _ stands.ticked same with ⟨middle, stated, reached, arrived⟩
  rcases second _ arrived reached with ⟨final, succeeded, ended, arrived⟩
  rcases Stepwise.map_eq_ok.mp succeeded with ⟨parts, continued, rfl⟩
  refine ⟨final, ?_, ended, ?_⟩
  · rw [run, Stepwise.map_congr _ (sections_state stands opens)]
    exact Stepwise.map_eq_ok.mpr ⟨parts, Stepwise.bind_eq_ok.mpr ⟨_, _, stated, continued⟩, rfl⟩
  · cases stop <;> exact arrived

theorem closeBlock (ended : closed finished part = some parts) :
    Follows (depth + 1) (.sections .outdent finished part leading) ⟨before, .outdent :: rest⟩ scopes
      (.block parts) ⟨.outdent :: before, rest⟩ scopes := by
  intro state stands same
  refine ⟨state.ticked.advanced, ?_, same, stands.ticked.advanced (by simp)⟩
  exact Stepwise.map_eq_ok.mpr
    ⟨parts, (sections_outdent stands).trans (closeHere_eq ended), rfl⟩

theorem closeDocument (ended : closed finished part = some parts) :
    Follows (depth + 1) (.sections .endOfInput finished part leading) ⟨before, .endOfInput :: rest⟩
      scopes (.block parts) finish scopes := by
  intro state stands same
  refine ⟨state.ticked.advanced, ?_, same, trivial⟩
  exact Stepwise.map_eq_ok.mpr
    ⟨parts, (sections_endOfInput stands).trans (closeHere_eq ended), rfl⟩

theorem nested
    (inner : Follows depth (.block scope .outdent) ⟨.indent :: before, rest⟩ scopes
      result finish after) :
    Follows depth (.statement scope) ⟨before, .indent :: rest⟩ scopes result finish after := by
  intro state stands same
  rcases inner _ (stands.advanced (by simp)) same with ⟨final, succeeded, ended, arrived⟩
  exact ⟨final, (entry_nested stands).trans succeeded, ended, arrived⟩

theorem yielded (opens : lexeme.startsTerm = true)
    (inner : Follows depth (.chain scope) ⟨.symbol "yield" :: before, lexeme :: rest⟩ scopes
      operand finish after) :
    Follows (depth + 1) (.statement scope) ⟨before, .symbol "yield" :: lexeme :: rest⟩ scopes
      (.yield operand) finish after := by
  intro state stands same
  rcases inner _ (stands.advanced (by simp)).ticked same with ⟨final, succeeded, ended, arrived⟩
  exact ⟨final, (entry_yielded stands opens).trans
    (Stepwise.map_eq_ok.mpr ⟨operand, succeeded, rfl⟩), ended, arrived⟩

theorem assigned {literal : Bool}
    (inner : Follows depth (.chain scope) ⟨.assignment literal :: .symbol name :: before, rest⟩
      scopes operand finish after) :
    Follows (depth + 1) (.statement scope) ⟨before, .symbol name :: .assignment literal :: rest⟩
      scopes (.assignment name operand) finish (after.bind scope name (.expression operand)) := by
  intro state stands same
  rcases inner _ ((stands.advanced (by simp)).ticked.advanced (by simp)) same with
    ⟨final, succeeded, ended, arrived⟩
  have read : Parser.chain depth scope state.advanced.ticked.advanced = .ok operand final :=
    succeeded
  subst ended
  refine ⟨final.withScopes _, ?_, rfl, arrived.withScopes _⟩
  rw [run, entry_assigned stands, Stepwise.bind_of_ok _ read]
  rfl

theorem plainSymbol (plain : startsChain ⟨before, .symbol name :: rest⟩ = true)
    (inner : Follows depth (.chain scope) ⟨before, .symbol name :: rest⟩ scopes
      result finish after) :
    Follows (depth + 1) (.statement scope) ⟨before, .symbol name :: rest⟩ scopes
      result finish after := by
  intro state stands same
  rcases inner _ stands.ticked same with ⟨final, succeeded, ended, arrived⟩
  exact ⟨final, (entry_plain_symbol stands plain).trans succeeded, ended, arrived⟩

theorem plainTerm (noSymbol : ∀ name, lexeme ≠ .symbol name)
    (plain : startsChain ⟨before, lexeme :: rest⟩ = true)
    (inner : Follows depth (.chain scope) ⟨before, lexeme :: rest⟩ scopes result finish after) :
    Follows depth (.statement scope) ⟨before, lexeme :: rest⟩ scopes result finish after := by
  intro state stands same
  rcases inner _ stands same with ⟨final, succeeded, ended, arrived⟩
  exact ⟨final, (entry_plain_term stands noSymbol plain).trans succeeded, ended, arrived⟩

theorem chain (inner : Follows depth (.links scope []) start scopes result finish after) :
    Follows (depth + 1) (.chain scope) start scopes result finish after := by
  intro state stands same
  exact inner _ stands.ticked same

theorem settled (ends : lexeme.endsChain = true) (settled : settle stack = some result) :
    Follows (depth + 1) (.links scope stack) ⟨before, lexeme :: rest⟩ scopes
      result ⟨before, lexeme :: rest⟩ scopes := by
  intro state stands same
  exact ⟨_, (links_finish stands ends).trans (settleHere_eq settled), same, stands.ticked⟩

theorem operator {left right : Expr} (joins : lexeme.isOperator = true)
    (first : Follows depth (.term scope) ⟨lexeme :: before, rest⟩ scopes right middle between)
    (second : Follows depth (.proceed scope (combine lexeme left right :: stack)) middle between
      result finish after) :
    Follows (depth + 1) (.links scope (left :: stack)) ⟨before, lexeme :: rest⟩ scopes
      result finish after := by
  intro state stands same
  have more : lexeme ≠ .endOfInput := by
    intro equal
    cases equal
    cases joins
  rcases first _ (stands.ticked.advanced more) same with ⟨middle, read, reached, arrived⟩
  rcases second _ arrived reached with ⟨final, succeeded, ended, arrived⟩
  exact ⟨final, (links_operator stands joins).trans
    (Stepwise.bind_eq_ok.mpr ⟨right, middle, read, succeeded⟩), ended, arrived⟩

theorem arrow {names : List String} {function : Expr} (named : parameters stack = some names)
    (first : Follows depth (.function scope names) ⟨.arrow :: before, rest⟩ scopes function middle
      between)
    (second : Follows depth (.proceed scope [function]) middle between result finish after) :
    Follows (depth + 1) (.links scope stack) ⟨before, .arrow :: rest⟩ scopes
      result finish after := by
  intro state stands same
  rcases first _ (stands.ticked.advanced (by simp)) same with ⟨middle, read, reached, arrived⟩
  rcases second _ arrived reached with ⟨final, succeeded, ended, arrived⟩
  exact ⟨final, (links_arrow stands named).trans
    (Stepwise.bind_eq_ok.mpr ⟨function, middle, read, succeeded⟩), ended, arrived⟩

theorem begin (opens : start.next.startsTerm = true)
    (first : Follows depth (.term scope) start scopes expression middle between)
    (second : Follows depth (.proceed scope [expression]) middle between result finish after) :
    Follows (depth + 1) (.links scope []) start scopes result finish after := by
  intro state stands same
  rcases first _ stands.ticked same with ⟨middle, read, reached, arrived⟩
  rcases second _ arrived reached with ⟨final, succeeded, ended, arrived⟩
  rcases stands.point_eq with ⟨before, lexeme, rest, rfl⟩
  exact ⟨final, (links_begin stands opens).trans
    (Stepwise.bind_eq_ok.mpr ⟨expression, middle, read, succeeded⟩), ended, arrived⟩

theorem behindBlock (behind : start.previous = .outdent) (settled : settle stack = some result) :
    Follows depth (.proceed scope stack) start scopes result start scopes := by
  intro state stands same
  exact ⟨state, (proceed_behindBlock stands behind).trans (settleHere_eq settled), same, stands⟩

theorem further (behind : start.previous ≠ .outdent)
    (inner : Follows depth (.links scope stack) start scopes result finish after) :
    Follows depth (.proceed scope stack) start scopes result finish after := by
  intro state stands same
  rcases inner _ stands same with ⟨final, succeeded, ended, arrived⟩
  exact ⟨final, (proceed_further stands behind).trans succeeded, ended, arrived⟩

theorem literal (reads : lexeme.literal? = some result) :
    Follows (depth + 1) (.term scope) ⟨before, lexeme :: rest⟩ scopes
      result ⟨lexeme :: before, rest⟩ scopes := by
  intro state stands same
  refine ⟨_, term_literal stands reads, same, stands.ticked.advanced ?_⟩
  intro equal
  cases equal
  cases reads

theorem lifted
    (inner : Follows depth (.term scope) ⟨.lift :: before, rest⟩ scopes operand finish after) :
    Follows (depth + 1) (.term scope) ⟨before, .lift :: rest⟩ scopes (.lift operand)
      finish after := by
  intro state stands same
  rcases inner _ (stands.ticked.advanced (by simp)) same with ⟨final, succeeded, ended, arrived⟩
  exact ⟨final, (term_lift stands).trans (Stepwise.map_eq_ok.mpr ⟨operand, succeeded, rfl⟩), ended,
    arrived⟩

theorem grouped {within behind : List Lexeme}
    (inner : Follows depth (.chain scope) ⟨.openParen :: before, rest⟩ scopes
      result ⟨within, .closeParen :: behind⟩ after) :
    Follows (depth + 1) (.term scope) ⟨before, .openParen :: rest⟩ scopes
      result ⟨.closeParen :: within, behind⟩ after := by
  intro state stands same
  rcases inner _ (stands.ticked.advanced (by simp)) same with ⟨middle, succeeded, ended, arrived⟩
  have reached : Stands middle ⟨within, .closeParen :: behind⟩ := arrived
  refine ⟨middle.advanced, (term_group stands).trans (Stepwise.bind_eq_ok.mpr
    ⟨result, middle, succeeded, ?_⟩), ended, reached.advanced (by simp)⟩
  rw [next_bind, reached.read_next, Point.next_cons, if_pos rfl]
  rfl

theorem inner
    (inner : Follows depth (.block scope .outdent) ⟨.indent :: before, rest⟩ scopes
      result finish after) :
    Follows (depth + 1) (.term scope) ⟨before, .indent :: rest⟩ scopes result finish after := by
  intro state stands same
  rcases inner _ (stands.ticked.advanced (by simp)) same with ⟨final, succeeded, ended, arrived⟩
  exact ⟨final, (term_nested stands).trans succeeded, ended, arrived⟩

theorem named
    (inner : Follows depth (.application name scope) ⟨.symbol name :: before, rest⟩ scopes
      result finish after) :
    Follows (depth + 1) (.term scope) ⟨before, .symbol name :: rest⟩ scopes
      result finish after := by
  intro state stands same
  rcases inner _ (stands.ticked.advanced (by simp)) same with ⟨final, succeeded, ended, arrived⟩
  exact ⟨final, (term_symbol stands).trans succeeded, ended, arrived⟩

theorem selected (selects : start.next = .accessor)
    (inner : Follows depth (.path (.reference name)) start scopes result finish after) :
    Follows (depth + 1) (.application name scope) start scopes result finish after := by
  intro state stands same
  rcases inner _ stands.ticked same with ⟨final, succeeded, ended, arrived⟩
  exact ⟨final, (application_selected stands selects).trans succeeded, ended, arrived⟩

theorem applied (applies : start.next ≠ .accessor)
    (inner : Follows depth (.operands name [] scope) start scopes result finish after) :
    Follows (depth + 1) (.application name scope) start scopes result finish after := by
  intro state stands same
  rcases inner _ stands.ticked same with ⟨final, succeeded, ended, arrived⟩
  exact ⟨final, (application_applied stands applies).trans succeeded, ended, arrived⟩

theorem more (takes : takesOperand start = true)
    (first : Follows depth (.operand scope) start scopes expression middle between)
    (second : Follows depth (.operands name (taken ++ [expression]) scope) middle between
      result finish after) :
    Follows (depth + 1) (.operands name taken scope) start scopes result finish after := by
  intro state stands same
  rcases first _ stands.ticked same with ⟨middle, read, reached, arrived⟩
  rcases second _ arrived reached with ⟨final, succeeded, ended, arrived⟩
  exact ⟨final, (operands_more stands takes).trans
    (Stepwise.bind_eq_ok.mpr ⟨expression, middle, read, succeeded⟩), ended, arrived⟩

theorem enough (takes : takesOperand start = false) :
    Follows (depth + 1) (.operands name taken scope) start scopes
      (.application name taken (definition scopes scope name)) start scopes := by
  intro state stands same
  subst same
  exact ⟨_, operands_enough stands takes, rfl, stands.ticked⟩

theorem bareName (bare : (⟨.symbol name :: before, rest⟩ : Point).next ≠ .accessor) :
    Follows (depth + 1) (.operand scope) ⟨before, .symbol name :: rest⟩ scopes
      (.application name [] (definition scopes scope name))
      ⟨.symbol name :: before, rest⟩ scopes := by
  intro state stands same
  subst same
  exact ⟨_, operand_symbol stands bare, rfl, stands.ticked.advanced (by simp)⟩

theorem selectedOperand (selects : (⟨.symbol name :: before, rest⟩ : Point).next = .accessor)
    (inner : Follows depth (.path (.reference name)) ⟨.symbol name :: before, rest⟩ scopes
      result finish after) :
    Follows (depth + 1) (.operand scope) ⟨before, .symbol name :: rest⟩ scopes
      result finish after := by
  intro state stands same
  rcases inner _ (stands.ticked.advanced (by simp)) same with ⟨final, succeeded, ended, arrived⟩
  exact ⟨final, (operand_selected stands selects).trans succeeded, ended, arrived⟩

theorem liftedOperand
    (inner : Follows depth (.operand scope) ⟨.lift :: before, rest⟩ scopes operand finish after) :
    Follows (depth + 1) (.operand scope) ⟨before, .lift :: rest⟩ scopes (.lift operand)
      finish after := by
  intro state stands same
  rcases inner _ (stands.ticked.advanced (by simp)) same with ⟨final, succeeded, ended, arrived⟩
  exact ⟨final, (operand_lift stands).trans (Stepwise.map_eq_ok.mpr ⟨operand, succeeded, rfl⟩),
    ended, arrived⟩

theorem simple (noSymbol : ∀ name, start.next ≠ .symbol name) (noLift : start.next ≠ .lift)
    (inner : Follows depth (.term scope) start scopes result finish after) :
    Follows (depth + 1) (.operand scope) start scopes result finish after := by
  intro state stands same
  rcases inner _ stands.ticked same with ⟨final, succeeded, ended, arrived⟩
  exact ⟨final, (operand_simple stands noSymbol noLift).trans succeeded, ended, arrived⟩

theorem field
    (inner : Follows depth (.path (.access target name))
      ⟨.symbol name :: .accessor :: before, rest⟩ scopes result finish after) :
    Follows (depth + 1) (.path target) ⟨before, .accessor :: .symbol name :: rest⟩ scopes
      result finish after := by
  intro state stands same
  rcases inner _ ((stands.ticked.advanced (by simp)).advanced (by simp)) same with
    ⟨final, succeeded, ended, arrived⟩
  exact ⟨final, (path_field stands).trans succeeded, ended, arrived⟩

theorem reached (ends : start.next ≠ .accessor) :
    Follows (depth + 1) (.path target) start scopes target start scopes := by
  intro state stands same
  exact ⟨_, path_reached stands ends, same, stands.ticked⟩

theorem body {names : List String}
    (inner : Follows depth (.chain scopes.size) start
      (withParameters (scopes.push (some scope)).2 scopes.size names) expression finish after) :
    Follows (depth + 1) (.function scope names) start scopes
      (curried names (.scope scopes.size expression)) finish after := by
  intro state stands same
  subst same
  rcases inner _ (stands.ticked.withScopes _) rfl with ⟨final, succeeded, ended, arrived⟩
  exact ⟨final, (function_eq _ _ _ _).trans (Stepwise.map_eq_ok.mpr ⟨expression, succeeded, rfl⟩),
    ended, arrived⟩

end Follows

/-! ## Enough depth -/

/-- How many calls lie between a goal and the next lexeme at most. -/
def Goal.weight : Goal → Nat
  | .path _ | .term _ => 1
  | .operand _ | .links _ _ | .proceed _ _ => 2
  | .operands _ _ _ | .chain _ => 3
  | .application _ _ | .function _ _ | .statement _ => 4
  | .sections _ _ _ _ => 5
  | .block _ _ => 6

/-- The depth that a goal needs at a point. -/
def depthAt (goal : Goal) (point : Point) : Nat := goal.weight + 6 * point.rest.length

theorem Goal.weight_pos (goal : Goal) : 0 < goal.weight := by
  cases goal <;> exact Nat.succ_pos _

theorem Goal.weight_le (goal : Goal) : goal.weight ≤ 6 := by
  cases goal <;> simp [Goal.weight]

variable {inner : Goal} {point : Point}

theorem depthAt_lt_of_weight (lighter : inner.weight < goal.weight) :
    depthAt inner start < depthAt goal start :=
  Nat.add_lt_add_right lighter _

/-- One lexeme outweighs every goal. -/
theorem depthAt_lt_of_length (shorter : point.rest.length < start.rest.length) :
    depthAt inner point < depthAt goal start := by
  have light := inner.weight_le
  have heavy := goal.weight_pos
  simp only [depthAt]
  omega

theorem depthAt_lt_behind {before read rest : List Lexeme} {lexeme : Lexeme} :
    depthAt inner ⟨read, rest⟩ < depthAt goal ⟨before, lexeme :: rest⟩ :=
  depthAt_lt_of_length (Nat.lt_succ_self _)

/-- A goal is followed at every depth that is enough for it. -/
def Followed (goal : Goal) (start : Point) (scopes : Scopes) (result : Expr) (finish : Point)
    (after : Scopes) : Prop :=
  ∀ depth, depthAt goal start ≤ depth → Follows depth goal start scopes result finish after

namespace Followed

variable {next : Goal} {middle target : Point} {opened between joined closed : Scopes}
  {inside behind : Expr}

theorem leaf (rule : ∀ {depth}, Follows (depth + 1) goal start scopes result finish after) :
    Followed goal start scopes result finish after := by
  intro depth enough
  cases depth with
  | zero => exact absurd enough (Nat.not_le_of_lt (Nat.add_pos_left goal.weight_pos _))
  | succ depth => exact rule

/-- A rule with two parts that both need less depth. -/
theorem andThen (first : Followed inner point opened inside middle between)
    (second : Followed next target joined behind finish closed)
    (less : depthAt inner point < depthAt goal start)
    (lessBehind : depthAt next target < depthAt goal start)
    (rule : ∀ {depth}, Follows depth inner point opened inside middle between →
      Follows depth next target joined behind finish closed →
      Follows (depth + 1) goal start scopes result finish after) :
    Followed goal start scopes result finish after := by
  intro depth enough
  cases depth with
  | zero => exact absurd (Nat.lt_of_lt_of_le less enough) (Nat.not_lt_zero _)
  | succ depth =>
    exact rule (first depth (Nat.le_of_lt_succ (Nat.lt_of_lt_of_le less enough)))
      (second depth (Nat.le_of_lt_succ (Nat.lt_of_lt_of_le lessBehind enough)))

/-- A rule with one part that needs less depth. -/
theorem within (followed : Followed inner point opened inside middle between)
    (less : depthAt inner point < depthAt goal start)
    (rule : ∀ {depth}, Follows depth inner point opened inside middle between →
      Follows (depth + 1) goal start scopes result finish after) :
    Followed goal start scopes result finish after := by
  intro depth enough
  cases depth with
  | zero => exact absurd (Nat.lt_of_lt_of_le less enough) (Nat.not_lt_zero _)
  | succ depth => exact rule (followed depth (Nat.le_of_lt_succ (Nat.lt_of_lt_of_le less enough)))

end Followed

/-- A statement begins with the lexeme of a term. -/
theorem exists_of_statement {scope : Nat}
    (derived : Derives (.statement scope) start scopes result finish after) :
    ∃ before lexeme rest, start = ⟨before, lexeme :: rest⟩ ∧ lexeme.startsTerm = true := by
  cases derived with
  | nested => exact ⟨_, _, _, rfl, rfl⟩
  | yielded => exact ⟨_, _, _, rfl, rfl⟩
  | assigned => exact ⟨_, _, _, rfl, rfl⟩
  | plain starts =>
    have opens := startsTerm_of_startsChain starts
    rcases start with ⟨before, rest⟩
    cases rest with
    | nil => cases opens
    | cons lexeme rest => exact ⟨before, lexeme, rest, rfl, opens⟩

/-- Every derivation is followed.  Most rules take depth and leave a lighter
goal or fewer lexemes; what stands behind a block, a statement that is a block
and one that is no symbol take none. -/
theorem Derives.follows (derived : Derives goal start scopes result finish after) :
    Followed goal start scopes result finish after := by
  induction derived with
  | block _ inside => exact inside.within (depthAt_lt_of_weight (by simp [Goal.weight])) .block
  | skip blank _ inside => exact inside.within depthAt_lt_behind (.skip blank)
  | lead _ inside => exact inside.within depthAt_lt_behind .lead
  | divide filled _ inside => exact inside.within depthAt_lt_behind (.divide filled)
  | state statement _ first second =>
    have shorter := statement.length_lt trivial
    rcases exists_of_statement statement with ⟨before, lexeme, rest, rfl, opens⟩
    exact first.andThen second (depthAt_lt_of_weight (by simp [Goal.weight]))
      (depthAt_lt_of_length shorter) (.state opens)
  | closeBlock ended => exact .leaf (.closeBlock ended)
  | closeDocument ended => exact .leaf (.closeDocument ended)
  | nested _ inside =>
    intro depth enough
    exact .nested (inside depth (Nat.le_trans (Nat.le_of_lt depthAt_lt_behind) enough))
  | yielded opens _ inside =>
    exact inside.within depthAt_lt_behind (.yielded opens)
  | assigned _ inside =>
    exact inside.within (depthAt_lt_of_length (by simp only [List.length_cons]; omega)) .assigned
  | @plain scope _ _ _ _ _ starts derived inside =>
    rcases exists_of_statement (.plain starts derived) with ⟨before, lexeme, rest, rfl, opens⟩
    have lighter : depthAt (.chain scope) ⟨before, lexeme :: rest⟩ <
        depthAt (.statement scope) ⟨before, lexeme :: rest⟩ :=
      depthAt_lt_of_weight (by simp [Goal.weight])
    by_cases named : ∃ name, lexeme = .symbol name
    · rcases named with ⟨name, rfl⟩
      exact inside.within lighter (.plainSymbol starts)
    · intro depth enough
      exact .plainTerm (fun name same => named ⟨name, same⟩) starts
        (inside depth (Nat.le_trans (Nat.le_of_lt lighter) enough))
  | chain _ inside => exact inside.within (depthAt_lt_of_weight (by simp [Goal.weight])) .chain
  | finish ends settled => exact .leaf (.settled ends settled)
  | operator joins term _ first second =>
    exact first.andThen second depthAt_lt_behind
      (depthAt_lt_of_length (Nat.lt_succ_of_lt (term.length_lt trivial))) (.operator joins)
  | arrow named function _ first second =>
    exact first.andThen second depthAt_lt_behind
      (depthAt_lt_of_length (Nat.lt_succ_of_le function.reaches.length_le)) (.arrow named)
  | begin opens term _ first second =>
    exact first.andThen second (depthAt_lt_of_weight (by simp [Goal.weight]))
      (depthAt_lt_of_length (term.length_lt trivial)) (.begin opens)
  | behindBlock behind settled => exact fun _ _ => .behindBlock behind settled
  | further behind _ inside => exact fun depth enough => .further behind (inside depth enough)
  | literal reads => exact .leaf (.literal reads)
  | lifted _ inside => exact inside.within depthAt_lt_behind .lifted
  | grouped _ inside => exact inside.within depthAt_lt_behind .grouped
  | inner _ inside => exact inside.within depthAt_lt_behind .inner
  | named _ inside => exact inside.within depthAt_lt_behind .named
  | selected selects _ inside =>
    exact inside.within (depthAt_lt_of_weight (by simp [Goal.weight])) (.selected selects)
  | applied applies _ inside =>
    exact inside.within (depthAt_lt_of_weight (by simp [Goal.weight])) (.applied applies)
  | more takes operand _ first second =>
    exact first.andThen second (depthAt_lt_of_weight (by simp [Goal.weight]))
      (depthAt_lt_of_length (operand.length_lt trivial)) (.more takes)
  | enough takes => exact .leaf (.enough takes)
  | bareName bare => exact .leaf (.bareName bare)
  | selectedOperand selects _ inside =>
    exact inside.within depthAt_lt_behind (.selectedOperand selects)
  | liftedOperand _ inside => exact inside.within depthAt_lt_behind .liftedOperand
  | simple noSymbol noLift _ inside =>
    exact inside.within (depthAt_lt_of_weight (by simp [Goal.weight])) (.simple noSymbol noLift)
  | field _ inside =>
    exact inside.within (depthAt_lt_of_length (by simp only [List.length_cons]; omega)) .field
  | reached ends => exact .leaf (.reached ends)
  | body _ inside => exact inside.within (depthAt_lt_of_weight (by simp [Goal.weight])) .body

/-! ## Documents -/

/-- The stream of a token sequence that finishes with the end of input stands
in front of its lexemes. -/
theorem stands_ofTokens {tokens : List Token}
    (ends : (Stream.ofTokens tokens).endsWithEnd = true) (scopes : Scopes) (work : Nat) :
    Stands ⟨.ofTokens tokens, scopes, work⟩ (.ofLexemes (tokens.map Token.lexeme)) := by
  refine ⟨rfl, by simp [Stream.ofTokens, Point.ofLexemes], rfl, ?_⟩
  simp only [Stream.endsWithEnd, Stream.ofTokens, List.back?_toArray] at ends
  rcases (Option.any_eq_true _ _).mp ends with ⟨last, found, same⟩
  simp only [Point.Ends, Point.ofLexemes, List.getLast?_map, found, Option.map_some]
  exact congrArg some (beq_iff_eq.mp same)

/-- What the grammar says about a whole document. -/
def Reads (lexemes : List Lexeme) (document : Document) : Prop :=
  ∃ block finish,
    Derives (.block 0 .endOfInput) (.ofLexemes lexemes) (Scopes.empty.push none).2 block finish
      document.scopes ∧ document.root = .scope 0 block

/-- The state in which the block of a document is read. -/
def opened (tokens : List Token) : ParserState :=
  ⟨.ofTokens tokens, (Scopes.empty.push none).2, 0⟩

theorem document_eq (depth : Nat) (tokens : List Token) :
    Parser.document depth ⟨.ofTokens tokens, .empty, 0⟩ =
      (if (Stream.ofTokens tokens).endsWithEnd then
        (openScope none >>= fun root => do
          return .scope root (.block (← Parser.block depth root .endOfInput)) : Parser Expr)
      else throw .missingEnd) ⟨.ofTokens tokens, .empty, 0⟩ := rfl

theorem parse_eq {tokens : List Token} (ends : (Stream.ofTokens tokens).endsWithEnd = true) :
    Document.parse tokens =
      (Expr.scope 0 <$> run (Document.depthFor tokens.length) (.block 0 .endOfInput))
        (opened tokens) := by
  rw [Document.parse, document_eq, if_pos ends, openScope_bind]
  simp only [run, ← bind_pure_comp, bind_assoc, pure_bind]
  rfl

theorem parse_fails {tokens : List Token} (unended : (Stream.ofTokens tokens).endsWithEnd = false) :
    Document.parse tokens = .error .missingEnd ⟨.ofTokens tokens, .empty, 0⟩ := by
  rw [Document.parse, document_eq, unended, if_neg Bool.false_ne_true]
  rfl

/-- The documents of token sequences are those that the grammar derives. -/
theorem ofTokens_eq_ok_iff {tokens : List Token} {document : Document} :
    Document.ofTokens tokens = .ok document ↔
      (Stream.ofTokens tokens).endsWithEnd = true ∧
        Reads (tokens.map Token.lexeme) document := by
  cases ends : (Stream.ofTokens tokens).endsWithEnd with
  | false =>
    rw [Document.ofTokens, parse_fails ends]
    simp
  | true =>
    have stands : Stands (opened tokens) (.ofLexemes (tokens.map Token.lexeme)) :=
      stands_ofTokens ends _ _
    simp only [Document.ofTokens, true_and]
    constructor
    · intro parsed
      cases run : Document.parse tokens with
      | error failure stop =>
        rw [run] at parsed
        cases parsed
      | ok root final =>
        rw [run] at parsed
        cases parsed
        rw [parse_eq ends, Stepwise.map_eq_ok] at run
        rcases run with ⟨block, succeeded, rfl⟩
        rcases sound _ _ _ _ _ _ stands succeeded with ⟨finish, derived, _⟩
        exact ⟨block, finish, derived, rfl⟩
    · rintro ⟨block, finish, derived, root⟩
      have enough : depthAt (.block 0 .endOfInput) (.ofLexemes (tokens.map Token.lexeme)) ≤
          Document.depthFor tokens.length := by
        simp only [depthAt, Goal.weight, Point.ofLexemes, List.length_map, Document.depthFor]
        omega
      rcases derived.follows _ enough _ stands rfl with ⟨final, succeeded, ended, _⟩
      have parsed : Document.parse tokens = .ok (.scope 0 block) final :=
        (parse_eq ends).trans (Stepwise.map_eq_ok.mpr ⟨block, succeeded, rfl⟩)
      rw [parsed]
      rcases document with ⟨found, scopes⟩
      cases root
      cases ended
      rfl

end Grammar
end Manifest
