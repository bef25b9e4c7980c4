import Manifest.Proofs.Grammar.Procedure

/-!
# Every parse is a derivation

A procedure that succeeds has found a derivation of its result.  The depth
only bounds the recursion, so the proof is an induction on it with one lemma
for each procedure.
-/

namespace Manifest
namespace Grammar

open Manifest.Parser ParserState

/-- The procedure for a goal. -/
def run (depth : Nat) : Goal → Parser Expr
  | .block parent stop => Expr.block <$> Parser.block depth parent stop
  | .sections stop finished part leading =>
      Expr.block <$> Parser.sections depth stop finished part leading
  | .statement scope => entry depth scope
  | .chain scope => Parser.chain depth scope
  | .links scope stack => Parser.links depth scope stack
  | .proceed scope stack => proceed depth scope stack
  | .term scope => Parser.term depth scope
  | .application name scope => Parser.application depth name scope
  | .operands name taken scope => Parser.operands depth name taken scope
  | .operand scope => Parser.operand depth scope
  | .path target => Parser.path depth target
  | .function scope parameters => Parser.function depth scope parameters

/-- Where a goal leaves the stream.  Behind a whole document it does not
matter any more. -/
def Arrives : Goal → ParserState → Point → Prop
  | .block _ .endOfInput, _, _ | .sections .endOfInput _ _ _, _, _ => True
  | _, state, point => Stands state point

/-- A goal whose successful runs are derivations. -/
def Sound (depth : Nat) (goal : Goal) : Prop :=
  ∀ (state : ParserState) (point : Point) (result : Expr) (final : ParserState),
    Stands state point → run depth goal state = .ok result final →
      ∃ finish, Derives goal point state.scopes result finish final.scopes ∧
        Arrives goal final finish

variable {depth scope : Nat}

theorem closed_of_ok {finished parts : List (Section Expr)} {part : Section Expr}
    {state final : ParserState} (succeeded : closeHere finished part state = .ok parts final) :
    closed finished part = some parts ∧ final = state := by
  cases ended : closed finished part with
  | none => exact absurd succeeded (closeHere_fails ended).ne_ok
  | some found =>
    rw [closeHere_eq ended] at succeeded
    cases succeeded
    exact ⟨rfl, rfl⟩

theorem settled_of_ok {stack : List Expr} {result : Expr} {state final : ParserState}
    (succeeded : settleHere stack state = .ok result final) :
    settle stack = some result ∧ final = state := by
  cases settled : settle stack with
  | none => exact absurd succeeded (settleHere_fails settled).ne_ok
  | some value =>
    rw [settleHere_eq settled] at succeeded
    cases succeeded
    exact ⟨rfl, rfl⟩

section Rules

variable (smaller : ∀ goal, Sound depth goal)
include smaller

private theorem block_sound (parent : Nat) (stop : BlockEnd) :
    Sound (depth + 1) (.block parent stop) := by
  intro state point result final stands succeeded
  simp only [run, Functor.map] at succeeded
  have inside := smaller (.sections stop [] ⟨state.scopes.size, []⟩ true) _ point result final
    (stands.ticked.withScopes (state.scopes.push (some parent)).2) succeeded
  rcases inside with ⟨finish, derived, arrived⟩
  refine ⟨finish, .block derived, ?_⟩
  cases stop <;> exact arrived

private theorem sections_sound (stop : BlockEnd) (finished : List (Section Expr))
    (part : Section Expr) (leading : Bool) :
    Sound (depth + 1) (.sections stop finished part leading) := by
  intro state point result final stands succeeded
  rcases stands.point_eq with ⟨before, lexeme, rest, rfl⟩
  by_cases blank : lexeme.isLineBreak = true
  · rw [run, Stepwise.map_congr _ (sections_skip stands blank)] at succeeded
    have inside := smaller (.sections stop finished part leading) _ _ result final
      (stands.ticked.advanced (by intro same; cases same; cases blank)) succeeded
    rcases inside with ⟨finish, derived, arrived⟩
    exact ⟨finish, .skip blank derived, arrived⟩
  by_cases opens : lexeme.startsTerm = true
  · rw [run, Stepwise.map_congr _ (sections_state stands opens), Stepwise.map_eq_ok] at succeeded
    rcases succeeded with ⟨parts, succeeded, rfl⟩
    rcases Stepwise.bind_eq_ok.mp succeeded with ⟨expression, between, stated, continued⟩
    rcases smaller (.statement part.scope) _ _ _ _ stands.ticked stated with
      ⟨middle, statement, reached⟩
    rcases smaller (.sections stop finished (grown part expression) false) _ _ _ final reached
      (Stepwise.map_eq_ok.mpr ⟨parts, continued, rfl⟩) with ⟨finish, derived, arrived⟩
    refine ⟨finish, .state statement derived, ?_⟩
    cases stop <;> exact arrived
  cases lexeme with
  | sectionStart =>
    have more : (⟨before, .sectionStart :: rest⟩ : Point).next ≠ .endOfInput := by simp
    by_cases filled : part.expressions = []
    · cases late : (finished.isEmpty && leading) with
      | false =>
        exact absurd succeeded ((sections_marker_fails stands filled late).map _).ne_ok
      | true =>
        rw [Bool.and_eq_true, List.isEmpty_iff] at late
        rcases late with ⟨rfl, rfl⟩
        rw [run, Stepwise.map_congr _ (sections_lead stands filled)] at succeeded
        rcases part with ⟨own, expressions⟩
        cases filled
        rcases smaller (.sections stop [] ⟨own, []⟩ false) _ _ result final
          (stands.ticked.advanced more) succeeded with ⟨finish, derived, arrived⟩
        refine ⟨finish, .lead derived, ?_⟩
        cases stop <;> exact arrived
    · rw [run, Stepwise.map_congr _ (sections_divide stands filled)] at succeeded
      rcases smaller (.sections stop (finished ++ [part]) ⟨state.scopes.size, []⟩ false) _ _ result
        final ((stands.ticked.advanced more).withScopes _) succeeded with
        ⟨finish, derived, arrived⟩
      refine ⟨finish, .divide filled derived, ?_⟩
      cases stop <;> exact arrived
  | outdent =>
    cases stop with
    | outdent =>
      rw [run, Stepwise.map_congr _ (sections_outdent stands), Stepwise.map_eq_ok] at succeeded
      rcases succeeded with ⟨parts, succeeded, rfl⟩
      rcases closed_of_ok succeeded with ⟨ended, rfl⟩
      exact ⟨_, .closeBlock ended, stands.ticked.advanced (by simp)⟩
    | endOfInput =>
      exact absurd succeeded
        ((sections_fails stands rfl rfl (by simp) (by simp) (by simp)).map _).ne_ok
  | endOfInput =>
    cases stop with
    | endOfInput =>
      rw [run, Stepwise.map_congr _ (sections_endOfInput stands), Stepwise.map_eq_ok] at succeeded
      rcases succeeded with ⟨parts, succeeded, rfl⟩
      rcases closed_of_ok succeeded with ⟨ended, rfl⟩
      exact ⟨_, .closeDocument ended, trivial⟩
    | outdent =>
      exact absurd succeeded
        ((sections_fails stands rfl rfl (by simp) (by simp) (by simp)).map _).ne_ok
  | _ =>
    exact absurd succeeded ((sections_fails stands (Bool.eq_false_iff.mpr blank)
      (Bool.eq_false_iff.mpr opens) (by simp) (by simp) (by simp)).map _).ne_ok

private theorem chain_sound : Sound (depth + 1) (.chain scope) := by
  intro state point result final stands succeeded
  rcases smaller (.links scope []) _ point result final stands.ticked succeeded with
    ⟨finish, derived, arrived⟩
  exact ⟨finish, .chain derived, arrived⟩

private theorem links_sound (stack : List Expr) : Sound (depth + 1) (.links scope stack) := by
  intro state point result final stands succeeded
  rw [run] at succeeded
  rcases stands.point_eq with ⟨before, lexeme, rest, rfl⟩
  by_cases ends : lexeme.endsChain = true
  · rw [links_finish stands ends] at succeeded
    rcases settled_of_ok succeeded with ⟨settled, rfl⟩
    exact ⟨_, .finish ends settled, stands.ticked⟩
  have more : lexeme ≠ .endOfInput := by
    intro same
    exact ends (same ▸ rfl)
  by_cases joins : lexeme.isOperator = true
  · cases stack with
    | nil => exact absurd succeeded (links_operator_fails stands joins).ne_ok
    | cons left stack =>
      rw [links_operator stands joins] at succeeded
      rcases Stepwise.bind_eq_ok.mp succeeded with ⟨right, between, read, continued⟩
      rcases smaller (.term scope) _ _ _ _ (stands.ticked.advanced more) read with
        ⟨middle, term, reached⟩
      rcases smaller (.proceed scope (combine lexeme left right :: stack)) _ _ result final reached
        continued with ⟨finish, derived, arrived⟩
      exact ⟨finish, .operator joins term derived, arrived⟩
  by_cases points : lexeme = .arrow
  · subst points
    cases named : parameters stack with
    | none => exact absurd succeeded (links_arrow_fails stands named).ne_ok
    | some names =>
      rw [links_arrow stands named] at succeeded
      rcases Stepwise.bind_eq_ok.mp succeeded with ⟨value, between, read, continued⟩
      rcases smaller (.function scope names) _ _ _ _ (stands.ticked.advanced more) read with
        ⟨middle, body, reached⟩
      rcases smaller (.proceed scope [value]) _ _ result final reached continued with
        ⟨finish, derived, arrived⟩
      exact ⟨finish, .arrow named body derived, arrived⟩
  by_cases opens : lexeme.startsTerm = true
  · cases stack with
    | nil =>
      rw [links_begin stands opens] at succeeded
      rcases Stepwise.bind_eq_ok.mp succeeded with ⟨expression, between, read, continued⟩
      rcases smaller (.term scope) _ _ _ _ stands.ticked read with ⟨middle, term, reached⟩
      rcases smaller (.proceed scope [expression]) _ _ result final reached continued with
        ⟨finish, derived, arrived⟩
      exact ⟨finish, .begin opens term derived, arrived⟩
    | cons expression stack => exact absurd succeeded (links_begin_fails stands opens).ne_ok
  exact absurd succeeded (links_fails stands (Bool.eq_false_iff.mpr ends)
    (Bool.eq_false_iff.mpr joins) points (Bool.eq_false_iff.mpr opens)).ne_ok

private theorem term_sound : Sound (depth + 1) (.term scope) := by
  intro state point result final stands succeeded
  rw [run] at succeeded
  rcases stands.point_eq with ⟨before, lexeme, rest, rfl⟩
  cases literal : lexeme.literal? with
  | some value =>
    rw [term_literal stands literal] at succeeded
    cases succeeded
    refine ⟨_, .literal literal, stands.ticked.advanced ?_⟩
    intro same
    cases same
    cases literal
  | none =>
    cases lexeme with
    | lift =>
      rw [term_lift stands, Stepwise.map_eq_ok] at succeeded
      rcases succeeded with ⟨operand, read, rfl⟩
      rcases smaller (.term scope) _ _ _ _ (stands.ticked.advanced (by simp)) read with
        ⟨finish, derived, arrived⟩
      exact ⟨finish, .lifted derived, arrived⟩
    | openParen =>
      rw [term_group stands] at succeeded
      rcases Stepwise.bind_eq_ok.mp succeeded with ⟨inside, between, read, continued⟩
      rcases smaller (.chain scope) _ _ _ _ (stands.ticked.advanced (by simp)) read with
        ⟨middle, derived, reached⟩
      rw [next_bind] at continued
      split at continued
      · rename_i closes
        rcases reached.point_eq with ⟨within, following, behind, rfl⟩
        rw [reached.read_next, Point.next_cons] at closes
        subst closes
        rcases Stepwise.pure_eq_ok.mp continued with ⟨rfl, rfl⟩
        exact ⟨_, .grouped derived, reached.advanced (by simp)⟩
      · cases continued
    | indent =>
      rw [term_nested stands] at succeeded
      rcases smaller (.block scope .outdent) _ _ _ _ (stands.ticked.advanced (by simp))
        succeeded with ⟨finish, derived, arrived⟩
      exact ⟨finish, .inner derived, arrived⟩
    | symbol name =>
      rw [term_symbol stands] at succeeded
      rcases smaller (.application name scope) _ _ _ _ (stands.ticked.advanced (by simp))
        succeeded with ⟨finish, derived, arrived⟩
      exact ⟨finish, .named derived, arrived⟩
    | text | number | boolean | emptyMapping | emptySequence => cases literal
    | _ => exact absurd succeeded (term_fails stands rfl).ne_ok

private theorem application_sound (name : String) :
    Sound (depth + 1) (.application name scope) := by
  intro state point result final stands succeeded
  rw [run] at succeeded
  by_cases selects : point.next = .accessor
  · rw [application_selected stands selects] at succeeded
    rcases smaller (.path (.reference name)) _ _ _ _ stands.ticked succeeded with
      ⟨finish, derived, arrived⟩
    exact ⟨finish, .selected selects derived, arrived⟩
  · rw [application_applied stands selects] at succeeded
    rcases smaller (.operands name [] scope) _ _ _ _ stands.ticked succeeded with
      ⟨finish, derived, arrived⟩
    exact ⟨finish, .applied selects derived, arrived⟩

private theorem operands_sound (name : String) (taken : List Expr) :
    Sound (depth + 1) (.operands name taken scope) := by
  intro state point result final stands succeeded
  rw [run] at succeeded
  cases takes : takesOperand point with
  | true =>
    rw [operands_more stands takes] at succeeded
    rcases Stepwise.bind_eq_ok.mp succeeded with ⟨expression, between, read, continued⟩
    rcases smaller (.operand scope) _ _ _ _ stands.ticked read with ⟨middle, operand, reached⟩
    rcases smaller (.operands name (taken ++ [expression]) scope) _ _ _ _ reached continued with
      ⟨finish, derived, arrived⟩
    exact ⟨finish, .more takes operand derived, arrived⟩
  | false =>
    rw [operands_enough stands takes] at succeeded
    cases succeeded
    exact ⟨point, .enough takes, stands.ticked⟩

private theorem operand_sound : Sound (depth + 1) (.operand scope) := by
  intro state point result final stands succeeded
  rw [run] at succeeded
  rcases stands.point_eq with ⟨before, lexeme, rest, rfl⟩
  cases lexeme with
  | symbol name =>
    by_cases selects : (⟨.symbol name :: before, rest⟩ : Point).next = .accessor
    · rw [operand_selected stands selects] at succeeded
      rcases smaller (.path (.reference name)) _ _ _ _ (stands.ticked.advanced (by simp))
        succeeded with ⟨finish, derived, arrived⟩
      exact ⟨finish, .selectedOperand selects derived, arrived⟩
    · rw [operand_symbol stands selects] at succeeded
      cases succeeded
      exact ⟨_, .bareName selects, stands.ticked.advanced (by simp)⟩
  | lift =>
    rw [operand_lift stands, Stepwise.map_eq_ok] at succeeded
    rcases succeeded with ⟨operand, read, rfl⟩
    rcases smaller (.operand scope) _ _ _ _ (stands.ticked.advanced (by simp)) read with
      ⟨finish, derived, arrived⟩
    exact ⟨finish, .liftedOperand derived, arrived⟩
  | _ =>
    rw [operand_simple stands (by simp) (by simp)] at succeeded
    rcases smaller (.term scope) _ _ _ _ stands.ticked succeeded with ⟨finish, derived, arrived⟩
    exact ⟨finish, .simple (by simp) (by simp) derived, arrived⟩

private theorem path_sound (target : Expr) : Sound (depth + 1) (.path target) := by
  intro state point result final stands succeeded
  rw [run] at succeeded
  by_cases selects : point.next = .accessor
  · rcases stands.point_eq with ⟨before, lexeme, rest, rfl⟩
    cases selects
    have behind := stands.ticked.advanced (by simp)
    rcases behind.point_eq with ⟨_, following, rest, same⟩
    cases same
    by_cases named : ∃ name, following = .symbol name
    · rcases named with ⟨name, rfl⟩
      rw [path_field stands] at succeeded
      rcases smaller (.path (.access target name)) _ _ _ _ (behind.advanced (by simp))
        succeeded with ⟨finish, derived, arrived⟩
      exact ⟨finish, .field derived, arrived⟩
    · refine absurd succeeded (path_field_fails stands ?_).ne_ok
      intro name same
      exact named ⟨name, same⟩
  · rw [path_reached stands selects] at succeeded
    cases succeeded
    exact ⟨point, .reached selects, stands.ticked⟩

private theorem function_sound (names : List String) :
    Sound (depth + 1) (.function scope names) := by
  intro state point result final stands succeeded
  rw [run, function_eq, Stepwise.map_eq_ok] at succeeded
  rcases succeeded with ⟨body, read, rfl⟩
  rcases smaller (.chain state.scopes.size) _ _ _ _ (stands.ticked.withScopes _) read with
    ⟨finish, derived, arrived⟩
  exact ⟨finish, .body derived, arrived⟩

end Rules

private theorem statement_sound (blocks : Sound depth (.block scope .outdent))
    (chains : Sound depth (.chain scope))
    (smaller : ∀ less, depth = less + 1 → Sound less (.chain scope)) :
    Sound depth (.statement scope) := by
  intro state point result final stands succeeded
  rw [run] at succeeded
  rcases stands.point_eq with ⟨before, lexeme, rest, rfl⟩
  by_cases nests : lexeme = .indent
  · subst nests
    rw [entry_nested stands] at succeeded
    rcases blocks _ _ _ _ (stands.advanced (by simp)) succeeded with ⟨finish, derived, arrived⟩
    exact ⟨finish, .nested derived, arrived⟩
  by_cases named : ∃ name, lexeme = .symbol name
  · rcases named with ⟨name, rfl⟩
    have behind := stands.advanced (by simp)
    rcases behind.point_eq with ⟨_, following, rest, same⟩
    cases same
    cases depth with
    | zero =>
      rw [entry, next_bind, stands.read_next] at succeeded
      cases succeeded
    | succ depth =>
      have chains := smaller depth rfl
      by_cases yields : name = "yield" ∧ following.startsTerm = true
      · rcases yields with ⟨rfl, opens⟩
        rw [entry_yielded stands opens, Stepwise.map_eq_ok] at succeeded
        rcases succeeded with ⟨operand, read, rfl⟩
        rcases chains _ _ _ _ behind.ticked read with ⟨finish, derived, arrived⟩
        exact ⟨finish, .yielded opens derived, arrived⟩
      by_cases assigns : ∃ literal, following = .assignment literal
      · rcases assigns with ⟨literal, rfl⟩
        rw [entry_assigned stands] at succeeded
        rcases Stepwise.bind_eq_ok.mp succeeded with ⟨operand, between, read, continued⟩
        rcases chains _ _ _ _ (behind.ticked.advanced (by simp)) read with
          ⟨finish, derived, arrived⟩
        cases continued
        exact ⟨finish, .assigned derived, arrived.withScopes _⟩
      have plain : startsChain ⟨before, .symbol name :: following :: rest⟩ = true := by
        have noYield : (decide (name = "yield") && following.startsTerm) = false := by
          rw [Bool.and_eq_false_iff, decide_eq_false_iff_not, ← Bool.not_eq_true]
          exact Classical.not_and_iff_not_or_not.mp yields
        have noAssignment : following.isAssignment = false := by
          cases following <;> first | rfl | exact absurd ⟨_, rfl⟩ assigns
        simp only [startsChain, Point.next_cons, Point.second, List.tail_cons, List.headD_cons,
          noYield, noAssignment, Bool.not_false, Bool.and_self]
      rw [entry_plain_symbol stands plain] at succeeded
      rcases chains _ _ _ _ stands.ticked succeeded with ⟨finish, derived, arrived⟩
      exact ⟨finish, .plain plain derived, arrived⟩
  have noSymbol : ∀ name, lexeme ≠ .symbol name := fun name same => named ⟨name, same⟩
  by_cases plain : startsChain ⟨before, lexeme :: rest⟩ = true
  · rw [entry_plain_term stands noSymbol plain] at succeeded
    rcases chains _ _ _ _ stands succeeded with ⟨finish, derived, arrived⟩
    exact ⟨finish, .plain plain derived, arrived⟩
  · exact absurd succeeded (entry_fails stands nests noSymbol plain).ne_ok

private theorem proceed_sound {stack : List Expr} (links : Sound depth (.links scope stack)) :
    Sound depth (.proceed scope stack) := by
  intro state point result final stands succeeded
  rw [run] at succeeded
  by_cases behind : point.previous = .outdent
  · rw [proceed_behindBlock stands behind] at succeeded
    rcases settled_of_ok succeeded with ⟨settled, rfl⟩
    exact ⟨point, .behindBlock behind settled, stands⟩
  · rw [proceed_further stands behind] at succeeded
    rcases links _ _ _ _ stands succeeded with ⟨finish, derived, arrived⟩
    exact ⟨finish, .further behind derived, arrived⟩

/-- Every successful run of a procedure is a derivation, at every depth. -/
theorem sound (depth : Nat) (goal : Goal) : Sound depth goal := by
  induction depth generalizing goal with
  | zero =>
    have chains : ∀ scope, Sound 0 (.chain scope) := by
      intro scope state point result final _ succeeded
      cases succeeded
    cases goal with
    | statement scope =>
      refine statement_sound ?_ (chains scope) (fun less equal => by cases equal)
      intro state point result final _ succeeded
      cases succeeded
    | proceed scope stack =>
      refine proceed_sound ?_
      intro state point result final _ succeeded
      cases succeeded
    | _ =>
      intro state point result final _ succeeded
      cases succeeded
  | succ depth smaller =>
    cases goal with
    | block parent stop => exact block_sound smaller parent stop
    | sections stop finished part leading => exact sections_sound smaller stop finished part leading
    | statement scope =>
      refine statement_sound (block_sound smaller scope .outdent) (chain_sound smaller) ?_
      intro less equal
      cases equal
      exact smaller _
    | chain scope => exact chain_sound smaller
    | links scope stack => exact links_sound smaller stack
    | proceed scope stack => exact proceed_sound (links_sound smaller stack)
    | term scope => exact term_sound smaller
    | application name scope => exact application_sound smaller name
    | operands name taken scope => exact operands_sound smaller name taken
    | operand scope => exact operand_sound smaller
    | path target => exact path_sound smaller target
    | function scope parameters => exact function_sound smaller parameters

end Grammar
end Manifest
