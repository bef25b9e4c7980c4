import Manifest.Proofs.Comments.Removal

/-!
# Putting comments in

Where comments do no harm, a derivation without them is one with them.  A
point without comments belongs to several points with comments, and a goal is
followed from each of them on which it may stand.
-/

namespace Manifest
namespace Grammar

open Manifest.Parser

variable {start : Point} {before rest : List Lexeme} {lexeme : Lexeme}

/-- A lexeme that ends no line is under a point already with the comments. -/
theorem exists_next (calm : start.Calm) (same : start.withoutComments = ⟨before, lexeme :: rest⟩)
    (inner : lexeme.endsLine = false) :
    ∃ front behind, start = ⟨front, lexeme :: behind⟩ ∧ lexeme.isComment = false ∧
      withoutComments front = before ∧ withoutComments behind = rest := by
  rcases calm.next_cases with ⟨content, _⟩ | ⟨_, line, others, found, ends⟩
  · rcases start with ⟨front, left⟩
    cases left with
    | nil => cases same
    | cons first behind =>
      have content : first.isComment = false := content
      rw [Point.withoutComments_next content] at same
      cases same
      exact ⟨front, behind, rfl, content, rfl, rfl⟩
  · rw [found] at same
    cases same
    rw [inner] at ends
    cases ends

/-- Two lexemes of one line follow each other already with the comments. -/
theorem exists_next_two {second : Lexeme} (tame : start.Tame) (calm : start.Calm)
    (same : start.withoutComments = ⟨before, lexeme :: second :: rest⟩)
    (inner : lexeme.endsLine = false) (noMarker : lexeme ≠ .sectionStart)
    (innerSecond : second.endsLine = false) :
    ∃ front behind, start = ⟨front, lexeme :: second :: behind⟩ ∧ lexeme.isComment = false ∧
      second.isComment = false ∧ withoutComments front = before ∧
      withoutComments behind = rest := by
  rcases exists_next calm same inner with ⟨front, behind, rfl, content, frontSame, following⟩
  have read : (⟨lexeme :: front, behind⟩ : Point).withoutComments =
      ⟨lexeme :: before, second :: rest⟩ := by
    rw [Point.withoutComments_read content, frontSame, following]
  rcases exists_next (tame.step.calm noMarker) read innerSecond with
    ⟨_, others, equal, contentSecond, _, behindSame⟩
  cases equal
  exact ⟨front, others, rfl, content, contentSecond, frontSame, behindSame⟩

/-- The first lexeme with the comments, if it is no comment, is the one without them. -/
theorem exists_first (same : start.withoutComments = ⟨before, lexeme :: rest⟩) :
    ∃ front first behind, start = ⟨front, first :: behind⟩ ∧
      (first.isComment = true ∨ first = lexeme) := by
  rcases start with ⟨front, left⟩
  cases left with
  | nil => cases same
  | cons first behind =>
    refine ⟨front, first, behind, rfl, ?_⟩
    cases comment : first.isComment with
    | true => exact .inl rfl
    | false =>
      rw [Point.withoutComments_next comment] at same
      cases same
      exact .inr rfl

/-- Between the expressions of a section the comments in front of a lexeme are
skipped. -/
theorem exists_skip (same : start.withoutComments = ⟨before, lexeme :: rest⟩)
    (tame : start.Tame) :
    ∃ front behind, lexeme.isComment = false ∧ withoutComments front = before ∧
      withoutComments behind = rest ∧ Point.Tame ⟨front, lexeme :: behind⟩ ∧
      ∀ {stop finished part leading scopes result finish after},
        Derives (.sections stop finished part leading) ⟨front, lexeme :: behind⟩ scopes result
          finish after →
        Derives (.sections stop finished part leading) start scopes result finish after := by
  rcases start with ⟨front, left⟩
  induction left generalizing front with
  | nil => cases same
  | cons first left ih =>
    cases comment : first.isComment with
    | false =>
      rw [Point.withoutComments_next comment] at same
      cases same
      exact ⟨front, left, comment, rfl, rfl, tame, fun derived => derived⟩
    | true =>
      rw [Point.withoutComments_skip comment] at same
      rcases ih (first :: front) same tame.step with
        ⟨front, behind, content, frontSame, behindSame, behindTame, skips⟩
      refine ⟨front, behind, content, frontSame, behindSame, behindTame, fun derived => ?_⟩
      exact .skip (by cases first <;> first | rfl | cases comment) (skips derived)

variable {goal : Goal} {bare finish : Point} {scopes after : Scopes} {result : Expr}

/-- A goal that is derived from every point with comments on which it may
stand, if `bare` is that point without them. -/
def Restored (goal : Goal) (bare : Point) (scopes : Scopes) (result : Expr) (finish : Point)
    (after : Scopes) : Prop :=
  ∀ start : Point, start.withoutComments = bare → start.Tame → CalmAt goal start →
    ∃ stop, stop.withoutComments = finish ∧ Derives goal start scopes result stop after

namespace Restored

variable {inner : Goal} {opened closed : Scopes} {part : Expr}

/-- A rule that stays where it is. -/
theorem here (restored : Restored inner bare opened part finish closed)
    (calmer : ∀ {start}, CalmAt goal start → CalmAt inner start)
    (rule : ∀ {start stop}, start.withoutComments = bare → start.Tame → CalmAt goal start →
      Derives inner start opened part stop closed → Derives goal start scopes result stop after) :
    Restored goal bare scopes result finish after := by
  intro start same tame calm
  rcases restored start same tame (calmer calm) with ⟨stop, stopSame, derived⟩
  exact ⟨stop, stopSame, rule same tame calm derived⟩

/-- A rule that reads a lexeme between the expressions of a section. -/
theorem between {stop nextStop : BlockEnd} {finished nextFinished : List (Section Expr)}
    {current nextCurrent : Section Expr} {leading nextLeading : Bool}
    (restored : Restored (.sections nextStop nextFinished nextCurrent nextLeading)
      ⟨lexeme :: before, rest⟩ opened part finish closed)
    (rule : ∀ {front behind stand},
      Derives (.sections nextStop nextFinished nextCurrent nextLeading)
        ⟨lexeme :: front, behind⟩ opened part stand closed →
      Derives (.sections stop finished current leading) ⟨front, lexeme :: behind⟩ scopes result
        stand after) :
    Restored (.sections stop finished current leading) ⟨before, lexeme :: rest⟩ scopes result
      finish after := by
  intro start same tame _
  rcases exists_skip same tame with ⟨front, behind, content, rfl, rfl, tame, skips⟩
  rcases restored _ (Point.withoutComments_read content) tame.step trivial with
    ⟨stand, same, derived⟩
  exact ⟨stand, same, skips (rule derived)⟩

/-- A rule that reads a lexeme within a line. -/
theorem read (restored : Restored inner ⟨lexeme :: before, rest⟩ opened part finish closed)
    (within : lexeme.endsLine = false) (noMarker : lexeme ≠ .sectionStart)
    (calms : ∀ {start}, CalmAt goal start → start.Calm)
    (calmer : ∀ {start : Point}, start.Calm → CalmAt inner start)
    (rule : ∀ {front behind stop},
      Derives inner ⟨lexeme :: front, behind⟩ opened part stop closed →
      Derives goal ⟨front, lexeme :: behind⟩ scopes result stop after) :
    Restored goal ⟨before, lexeme :: rest⟩ scopes result finish after := by
  intro start same tame calm
  rcases exists_next (calms calm) same within with ⟨front, behind, rfl, content, rfl, rfl⟩
  rcases restored _ (Point.withoutComments_read content) tame.step
    (calmer (tame.step.calm noMarker)) with ⟨stop, same, derived⟩
  exact ⟨stop, same, rule derived⟩

end Restored

theorem Derives.of_withoutComments (derived : Derives goal bare scopes result finish after) :
    Restored goal bare scopes result finish after := by
  induction derived with
  | block _ restored => exact restored.here (fun _ => trivial) fun _ _ _ => .block
  | skip blank _ restored => exact restored.between (.skip blank)
  | lead _ restored => exact restored.between .lead
  | divide filled _ restored => exact restored.between (.divide filled)
  | state statement _ first second =>
    intro start same tame _
    rcases exists_of_statement statement with ⟨before, lexeme, rest, rfl, opens⟩
    rcases exists_skip same tame with ⟨front, behind, content, rfl, rfl, tame, skips⟩
    have calm : (⟨front, lexeme :: behind⟩ : Point).Calm := Point.calm_of_next content
    rcases first _ (Point.withoutComments_next content) tame calm with ⟨middle, same, expression⟩
    rcases second middle same (tame.reaches expression.reaches) trivial with ⟨stop, same, derived⟩
    exact ⟨stop, same, skips (.state expression derived)⟩
  | closeBlock ended =>
    intro start same tame _
    rcases exists_skip same tame with ⟨front, behind, content, rfl, rfl, _, skips⟩
    exact ⟨⟨.outdent :: front, behind⟩, Point.withoutComments_read content,
      skips (.closeBlock ended)⟩
  | closeDocument ended =>
    intro start same tame _
    rcases exists_skip same tame with ⟨front, behind, content, rfl, rfl, _, skips⟩
    exact ⟨⟨front, .endOfInput :: behind⟩, Point.withoutComments_next content,
      skips (.closeDocument ended)⟩
  | nested _ restored => exact restored.read rfl (by simp) id (fun _ => trivial) .nested
  | @yielded _ lexeme _ _ _ _ _ _ opens _ ih =>
    intro start same tame calm
    have inner : lexeme.endsLine = false := by
      cases lexeme <;> first | rfl | cases opens
    rcases exists_next_two tame calm same rfl (by simp) inner with
      ⟨front, behind, rfl, content, contentSecond, rfl, rfl⟩
    have read : (⟨.symbol "yield" :: front, lexeme :: behind⟩ : Point).withoutComments = _ :=
      Point.withoutComments_read content
    rw [withoutComments_cons contentSecond] at read
    rcases ih _ read tame.step (Point.calm_of_next contentSecond) with ⟨stop, same, derived⟩
    exact ⟨stop, same, .yielded opens derived⟩
  | @assigned _ name literal _ _ _ _ _ _ _ ih =>
    intro start same tame calm
    rcases exists_next_two tame calm same rfl (by simp) rfl with
      ⟨front, behind, rfl, content, contentSecond, rfl, rfl⟩
    have read : (⟨.assignment literal :: .symbol name :: front, behind⟩ : Point).withoutComments =
        _ := Point.withoutComments_read contentSecond
    rw [withoutComments_cons content] at read
    rcases ih _ read tame.step.step (tame.step.step.calm (by simp)) with ⟨stop, same, derived⟩
    exact ⟨stop, same, .assigned derived⟩
  | plain starts _ restored =>
    refine restored.here id fun same tame calm => ?_
    subst same
    exact .plain ((startsChain_withoutComments tame calm).symm.trans starts)
  | chain _ restored => exact restored.here id fun _ _ _ => .chain
  | finish ends settled =>
    intro start same tame calm
    rcases exists_first same with ⟨front, first, behind, rfl, comment | rfl⟩
    · exact ⟨_, same, .finish (by cases first <;> first | rfl | cases comment) settled⟩
    · exact ⟨_, same, .finish ends settled⟩
  | @operator _ _ lexeme _ _ _ _ _ _ _ _ _ _ joins _ _ first second =>
    intro start same tame calm
    have inner : lexeme.endsLine = false := by
      cases lexeme <;> first | rfl | cases joins
    rcases exists_next calm same inner with ⟨front, behind, rfl, content, rfl, rfl⟩
    have noMarker : lexeme ≠ .sectionStart := by
      intro equal
      cases equal
      cases joins
    rcases first _ (Point.withoutComments_read content) tame.step (tame.step.calm noMarker) with
      ⟨middle, same, term⟩
    rcases second middle same (tame.step.reaches term.reaches)
      ⟨term.calm_of_moves trivial trivial tame.step, term.behindContent_of_moves trivial trivial⟩
      with ⟨stop, same, derived⟩
    exact ⟨stop, same, .operator joins term derived⟩
  | arrow named _ _ first second =>
    intro start same tame calm
    rcases exists_next calm same rfl with ⟨front, behind, rfl, content, rfl, rfl⟩
    rcases first _ (Point.withoutComments_read content) tame.step (tame.step.calm (by simp)) with
      ⟨middle, same, body⟩
    rcases second middle same (tame.step.reaches body.reaches)
      ⟨body.calm trivial tame.step (by simp), body.behindContent trivial ⟨_, rfl, rfl⟩⟩
      with ⟨stop, same, derived⟩
    exact ⟨stop, same, .arrow named body derived⟩
  | begin opens _ _ first second =>
    intro start same tame calm
    subst same
    rcases first start rfl tame calm with ⟨middle, same, term⟩
    rcases second middle same (tame.reaches term.reaches)
      ⟨term.calm_of_moves trivial trivial tame, term.behindContent_of_moves trivial trivial⟩
      with ⟨stop, same, derived⟩
    exact ⟨stop, same, .begin ((Calm.startsTerm_eq calm).symm.trans opens) term derived⟩
  | behindBlock behind settled =>
    intro start same tame calm
    subst same
    exact ⟨start, rfl, .behindBlock (calm.2.previous_withoutComments.symm.trans behind) settled⟩
  | further behind _ restored =>
    refine restored.here And.left fun same _ calm => ?_
    rw [← same, calm.2.previous_withoutComments] at behind
    exact .further behind
  | @literal _ lexeme _ _ _ _ reads =>
    intro start same tame calm
    have inner : lexeme.endsLine = false := by
      cases lexeme <;> first | rfl | cases reads
    rcases exists_next calm same inner with ⟨front, behind, rfl, content, rfl, rfl⟩
    exact ⟨⟨lexeme :: front, behind⟩, Point.withoutComments_read content, .literal reads⟩
  | lifted _ restored => exact restored.read rfl (by simp) id id .lifted
  | grouped _ ih =>
    intro start same tame calm
    rcases exists_next calm same rfl with ⟨front, behind, rfl, content, rfl, rfl⟩
    rcases ih _ (Point.withoutComments_read content) tame.step (tame.step.calm (by simp)) with
      ⟨stop, same, inside⟩
    have calm := inside.calm trivial tame.step (by simp)
    rcases exists_next calm same rfl with ⟨within, others, rfl, closes, rfl, rfl⟩
    exact ⟨⟨.closeParen :: within, others⟩, Point.withoutComments_read closes, .grouped inside⟩
  | inner _ restored => exact restored.read rfl (by simp) id (fun _ => trivial) .inner
  | named _ restored => exact restored.read rfl (by simp) id id .named
  | selected selects _ restored =>
    refine restored.here id fun same _ calm => ?_
    subst same
    exact .selected ((Point.Calm.next_iff calm rfl rfl).mp selects)
  | applied applies _ restored =>
    refine restored.here id fun same _ calm => ?_
    subst same
    exact .applied fun selects => applies ((Point.Calm.next_iff calm rfl rfl).mpr selects)
  | more takes _ _ first second =>
    intro start same tame calm
    subst same
    rcases first start rfl tame calm with ⟨middle, same, operand⟩
    rcases second middle same (tame.reaches operand.reaches)
      (operand.calm_of_moves trivial trivial tame) with ⟨stop, same, derived⟩
    exact ⟨stop, same,
      .more ((takesOperand_withoutComments tame calm).symm.trans takes) operand derived⟩
  | enough takes =>
    intro start same tame calm
    subst same
    exact ⟨start, rfl, .enough ((takesOperand_withoutComments tame calm).symm.trans takes)⟩
  | @bareName _ name _ _ _ bare =>
    intro start same tame calm
    rcases exists_next calm same rfl with ⟨front, behind, rfl, content, rfl, rfl⟩
    have read : (⟨.symbol name :: front, behind⟩ : Point).withoutComments = _ :=
      Point.withoutComments_read content
    have calm : (⟨.symbol name :: front, behind⟩ : Point).Calm := tame.step.calm (by simp)
    refine ⟨⟨.symbol name :: front, behind⟩, read, .bareName fun selects => bare ?_⟩
    rw [← read]
    exact (Point.Calm.next_iff calm rfl rfl).mpr selects
  | @selectedOperand _ name _ _ _ _ _ _ selects _ ih =>
    intro start same tame calm
    rcases exists_next calm same rfl with ⟨front, behind, rfl, content, rfl, rfl⟩
    have read : (⟨.symbol name :: front, behind⟩ : Point).withoutComments = _ :=
      Point.withoutComments_read content
    have calm : (⟨.symbol name :: front, behind⟩ : Point).Calm := tame.step.calm (by simp)
    rcases ih _ read tame.step calm with ⟨stop, same, derived⟩
    rw [← read] at selects
    exact ⟨stop, same,
      .selectedOperand ((Point.Calm.next_iff calm rfl rfl).mp selects) derived⟩
  | liftedOperand _ restored => exact restored.read rfl (by simp) id id .liftedOperand
  | simple noSymbol noLift _ restored =>
    refine restored.here id fun same _ calm => ?_
    subst same
    exact .simple (fun name equal => noSymbol name ((Point.Calm.next_iff calm rfl rfl).mpr equal))
      fun equal => noLift ((Point.Calm.next_iff calm rfl rfl).mpr equal)
  | @field _ _ name _ _ _ _ _ _ ih =>
    intro start same tame calm
    rcases exists_next_two tame calm same rfl (by simp) rfl with
      ⟨front, behind, rfl, content, contentSecond, rfl, rfl⟩
    have read : (⟨.symbol name :: .accessor :: front, behind⟩ : Point).withoutComments = _ :=
      Point.withoutComments_read contentSecond
    rw [withoutComments_cons content] at read
    rcases ih _ read tame.step.step (tame.step.step.calm (by simp)) with ⟨stop, same, derived⟩
    exact ⟨stop, same, .field derived⟩
  | reached ends =>
    intro start same tame calm
    subst same
    exact ⟨start, rfl,
      .reached fun selects => ends ((Point.Calm.next_iff calm rfl rfl).mpr selects)⟩
  | body _ restored => exact restored.here id fun _ _ _ => .body

end Grammar
end Manifest
