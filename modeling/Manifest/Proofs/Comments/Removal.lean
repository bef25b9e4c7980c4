import Manifest.Proofs.Comments.Strip

/-!
# Leaving comments out

Where comments do no harm, a derivation remains one without them.
-/

namespace Manifest
namespace Grammar

open Manifest.Parser

/-- Where a goal may stand so that comments do no harm to it.  Between the
expressions of a section every comment is skipped. -/
def CalmAt : Goal → Point → Prop
  | .block _ _, _ | .sections _ _ _ _, _ => True
  | .proceed _ _, point => point.Calm ∧ point.BehindContent
  | _, point => point.Calm

variable {goal : Goal} {start finish : Point} {scopes after : Scopes} {result : Expr}

/-- A rule that reads one lexeme, which is no comment. -/
theorem Derives.read {inner : Goal} {before rest : List Lexeme} {lexeme : Lexeme}
    {opened closed : Scopes} {part : Expr} {stop : Point}
    (behind : Derives inner (⟨lexeme :: before, rest⟩ : Point).withoutComments opened part stop
      closed)
    (content : lexeme.isComment = false)
    (rule : Derives inner ⟨lexeme :: withoutComments before, withoutComments rest⟩ opened part
        stop closed →
      Derives goal ⟨withoutComments before, lexeme :: withoutComments rest⟩ scopes result finish
        after) :
    Derives goal (⟨before, lexeme :: rest⟩ : Point).withoutComments scopes result finish after := by
  rw [Point.withoutComments_read content] at behind
  rw [Point.withoutComments_next content]
  exact rule behind

theorem Derives.withoutComments (derived : Derives goal start scopes result finish after)
    (tame : start.Tame) (calm : CalmAt goal start) :
    Derives goal start.withoutComments scopes result finish.withoutComments after := by
  induction derived with
  | block _ ih => exact .block (ih tame trivial)
  | @skip _ _ _ _ lexeme _ before rest _ _ _ blank _ ih =>
    have behind := ih tame.step trivial
    cases comment : lexeme.isComment with
    | true =>
      rw [Point.withoutComments_skip comment]
      exact behind
    | false => exact behind.read comment (.skip blank)
  | lead _ ih => exact (ih tame.step trivial).read rfl .lead
  | divide filled _ ih => exact (ih tame.step trivial).read rfl (.divide filled)
  | state statement _ first second =>
    rcases exists_of_statement statement with ⟨before, lexeme, rest, rfl, opens⟩
    have content : (⟨before, lexeme :: rest⟩ : Point).next.isComment = false :=
      Lexeme.isComment_of_startsTerm opens
    exact .state (first tame (Point.calm_of_next content))
      (second (tame.reaches statement.reaches) trivial)
  | closeBlock ended =>
    rw [Point.withoutComments_next rfl, Point.withoutComments_read rfl]
    exact .closeBlock ended
  | closeDocument ended =>
    rw [Point.withoutComments_next rfl]
    exact .closeDocument ended
  | nested _ ih => exact (ih tame.step trivial).read rfl .nested
  | @yielded _ lexeme _ before rest _ _ _ opens chain ih =>
    have content := Lexeme.isComment_of_startsTerm opens
    have behind := ih tame.step (Point.calm_of_next content)
    rw [Point.withoutComments_read rfl, withoutComments_cons content] at behind
    rw [Point.withoutComments_next rfl, withoutComments_cons content]
    exact .yielded opens behind
  | assigned _ ih =>
    have behind := ih tame.step.step (tame.step.step.calm (by simp))
    rw [Point.withoutComments_read rfl, withoutComments_cons rfl] at behind
    rw [Point.withoutComments_next rfl, withoutComments_cons rfl]
    exact .assigned behind
  | plain starts _ ih =>
    rw [← startsChain_withoutComments tame calm] at starts
    exact .plain starts (ih tame calm)
  | chain _ ih => exact .chain (ih tame calm)
  | @finish _ stack lexeme _ before rest _ ends settled =>
    rcases Point.Calm.next_cases calm with ⟨content, _⟩ | ⟨_, line, rest, found, lineEnds⟩
    · have content : lexeme.isComment = false := content
      rw [Point.withoutComments_next content]
      exact .finish ends settled
    · rw [found]
      exact .finish (by cases line <;> first | rfl | cases lineEnds) settled
  | @operator _ _ lexeme _ _ _ before rest _ _ _ _ _ joins term _ first second =>
    have content : lexeme.isComment = false := by
      cases lexeme <;> first | rfl | cases joins
    have begins := Lexeme.isComment_of_startsTerm term.startsTerm
    have operand := first tame.step (Point.calm_of_next begins)
    have behind := second (tame.step.reaches term.reaches)
      ⟨term.calm_of_moves trivial trivial tame.step, term.behindContent_of_moves trivial trivial⟩
    exact operand.read content fun operand => .operator joins operand behind
  | arrow named function _ first second =>
    have body := first tame.step (tame.step.calm (by simp))
    have behind := second (tame.step.reaches function.reaches)
      ⟨function.calm trivial tame.step (by simp), function.behindContent trivial ⟨_, rfl, rfl⟩⟩
    exact body.read rfl fun body => .arrow named body behind
  | begin opens term _ first second =>
    have behind := second (tame.reaches term.reaches)
      ⟨term.calm_of_moves trivial trivial tame, term.behindContent_of_moves trivial trivial⟩
    exact .begin ((Calm.startsTerm_eq calm).trans opens) (first tame calm) behind
  | behindBlock behind settled =>
    exact .behindBlock (calm.2.previous_withoutComments.trans behind) settled
  | further behind _ ih =>
    refine .further ?_ (ih tame calm.1)
    rw [calm.2.previous_withoutComments]
    exact behind
  | @literal _ lexeme _ _ _ _ reads =>
    have content : lexeme.isComment = false := by
      cases lexeme <;> first | rfl | cases reads
    rw [Point.withoutComments_next content, Point.withoutComments_read content]
    exact .literal reads
  | lifted _ ih => exact (ih tame.step (tame.step.calm (by simp))).read rfl .lifted
  | grouped _ ih =>
    have inside := ih tame.step (tame.step.calm (by simp))
    rw [Point.withoutComments_read rfl, Point.withoutComments_next rfl] at inside
    rw [Point.withoutComments_next rfl, Point.withoutComments_read rfl]
    exact .grouped inside
  | inner _ ih => exact (ih tame.step trivial).read rfl .inner
  | named _ ih => exact (ih tame.step (tame.step.calm (by simp))).read rfl .named
  | selected selects _ ih =>
    exact .selected ((Point.Calm.next_iff calm rfl rfl).mpr selects) (ih tame calm)
  | applied applies _ ih =>
    exact .applied (fun selects => applies ((Point.Calm.next_iff calm rfl rfl).mp selects))
      (ih tame calm)
  | more takes operand _ first second =>
    refine .more ((takesOperand_withoutComments tame calm).trans takes) (first tame calm) ?_
    exact second (tame.reaches operand.reaches) (operand.calm_of_moves trivial trivial tame)
  | enough takes => exact .enough ((takesOperand_withoutComments tame calm).trans takes)
  | @bareName _ name before rest _ bare =>
    have calm : (⟨.symbol name :: before, rest⟩ : Point).Calm := tame.step.calm (by simp)
    have same : (⟨.symbol name :: before, rest⟩ : Point).withoutComments = _ :=
      Point.withoutComments_read rfl
    rw [Point.withoutComments_next rfl, same]
    refine .bareName fun selects => bare ?_
    rw [← same] at selects
    exact (Point.Calm.next_iff calm rfl rfl).mp selects
  | @selectedOperand _ name _ before rest _ _ _ selects _ ih =>
    have calm : (⟨.symbol name :: before, rest⟩ : Point).Calm := tame.step.calm (by simp)
    have behind := ih tame.step calm
    have accessor := (Point.Calm.next_iff calm rfl rfl).mpr selects
    rw [Point.withoutComments_read rfl] at accessor
    exact behind.read rfl (.selectedOperand accessor)
  | liftedOperand _ ih => exact (ih tame.step (tame.step.calm (by simp))).read rfl .liftedOperand
  | simple noSymbol noLift term ih =>
    refine .simple ?_ ?_ (ih tame calm)
    · intro name same
      exact noSymbol name ((Point.Calm.next_iff calm rfl rfl).mp same)
    · intro same
      exact noLift ((Point.Calm.next_iff calm rfl rfl).mp same)
  | field _ ih =>
    have behind := ih tame.step.step (tame.step.step.calm (by simp))
    rw [Point.withoutComments_read rfl, withoutComments_cons rfl] at behind
    rw [Point.withoutComments_next rfl, withoutComments_cons rfl]
    exact .field behind
  | reached ends =>
    exact .reached fun selects => ends ((Point.Calm.next_iff calm rfl rfl).mp selects)
  | body _ ih => exact .body (ih tame calm)

end Grammar
end Manifest
