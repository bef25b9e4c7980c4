import Manifest.Proofs.Scan.Layout

/-!
# Lines at which a reading fails

A reading fails at the first line that does not fit the open levels, and
nowhere else.  While a line is read, what lies ahead is decided by the lines
behind it and by the levels that its own item opens.  Every step reads on,
and a hyphen is read at the level at which its line was entered.
-/

namespace Manifest

namespace Cursor

theorem opened_of_not_atListHyphen {cursor : Cursor} (other : cursor.atListHyphen = false)
    (levels : Levels) : cursor.opened levels = levels := by
  rw [opened, other]
  rfl

theorem atListHyphen_of_head {cursor : Cursor} {first : Char} {behind : List Char}
    (found : cursor.rest = first :: behind) (other : first ≠ '-') :
    cursor.atListHyphen = false := by
  refine Bool.eq_false_iff.mpr fun hyphen => ?_
  rcases exists_of_atListHyphen hyphen with ⟨_, next, more, same, _⟩
  exact other (List.cons.inj (found.symm.trans same)).1

end Cursor

namespace Scanner

variable {scanner next : Scanner} {lexeme : Lexeme} {span : Span} {least : Nat}

/-! ## Entering a line -/

/-- A line that is entered has landed on an open level, and its level is the
innermost one. -/
theorem EntersLine.lands (enters : scanner.EntersLine span (.ok next))
    (nested : scanner.levels.Nested) : next.cursor = scanner.cursor.toContent ∧
      (next.cursor.rest ≠ [] → scanner.levels.land next.cursor.level = some next.levels ∧
        next.levels.current = next.cursor.level) := by
  cases enters with
  | deeper some deeper =>
    refine ⟨cursor_emit _ _ _, fun _ => ?_⟩
    rw [cursor_emit, levels_emit, cursor_atNextLine, levels_atNextLine, ← lineLevel_eq some]
    exact ⟨Levels.land_deeper deeper, rfl⟩
  | announced some same =>
    refine ⟨cursor_emit _ _ _, fun _ => ?_⟩
    rw [cursor_emit, levels_emit, cursor_atNextLine, levels_atNextLine, ← lineLevel_eq some]
    exact ⟨Levels.land_level nested same, same⟩
  | silent same =>
    refine ⟨rfl, fun some => ?_⟩
    rw [cursor_atNextLine] at some ⊢
    rw [levels_atNextLine, ← lineLevel_eq some]
    exact ⟨Levels.land_level nested same, same⟩
  | outward split closed left same =>
    refine ⟨cursor_emitOutdents _ _ _, fun some => ?_⟩
    rw [cursor_emitOutdents, cursor_atNextLine] at some ⊢
    rw [levels_emitOutdents, levels_atNextLine, ← lineLevel_eq some, split]
    exact ⟨Levels.land_outward closed left same, same⟩

/-- What keeps a scanner from failing inside a line. -/
structure Aligned (scanner : Scanner) : Prop extends LaidOut scanner where
  closed : scanner.cursor.Closed
  begins : scanner.cursor.fresh = true → ∀ character,
    scanner.cursor.rest.head? = some character → Text.isGap character = false
  aligned : scanner.cursor.atListHyphen = true → scanner.levels.current = scanner.cursor.level

/-- The failure to which the lines behind the one that is read will lead. -/
def foreseen (scanner : Scanner) : Option LexError :=
  (scanner.cursor.lineEnd.advance 1).misfit (scanner.cursor.opened scanner.levels)

/-- A part of a reading does what is expected: it fails so, or it reads on,
and the same is still expected. -/
inductive Agrees (expected : Option LexError) (left : Nat) : Except LexError Scanner → Prop
  | fails {failure : LexError} : expected = some failure → Agrees expected left (.error failure)
  | goesOn {next : Scanner} : next.Aligned → next.foreseen = expected → next.cursor.left < left →
      Agrees expected left (.ok next)

theorem foreseen_of_ended (ended : scanner.cursor.rest = []) : scanner.foreseen = none := by
  refine Cursor.misfit_nil ?_
  change (scanner.cursor.rest.drop _).drop 1 = []
  rw [ended, List.drop_nil, List.drop_nil]

/-- Whether a line is entered depends on the lines that begin there. -/
theorem agrees_beginLine {lineEnd left : Nat} {announce : Bool}
    (layered : Layered scanner.levels scanner.written) (none : scanner.pending = none)
    (quiet : (latest scanner.written).announces = false) (starts : scanner.cursor.StartsLine)
    (less : scanner.cursor.left < left) :
    Agrees (scanner.cursor.misfit scanner.levels) left (scanner.beginLine lineEnd announce) := by
  have enters := entersLine_beginLine layered.nested lineEnd announce
  rw [Cursor.misfit_toContent starts]
  cases begun : scanner.beginLine lineEnd announce with
  | error failure =>
    rw [begun] at enters
    cases enters with
    | misfit some outward apart =>
      refine .fails ?_
      rw [lineLevel_eq some] at outward apart
      rw [Cursor.misfitAtContent, if_neg (by simpa using some), Levels.land_misfit outward apart]
  | ok next =>
    rw [begun] at enters
    rcases enters.lands layered.nested with ⟨same, lands⟩
    have laid := laidOut_beginLine layered none quiet begun
    have shorter := Nat.lt_of_le_of_lt scanner.cursor.left_toContent_le less
    rw [← same] at shorter
    refine .goesOn ⟨laid, ?_, ?_, fun hyphen => ?_⟩ ?_ shorter
    · rw [same]
      exact starts.closed.toContent
    · intro _ character stands
      rw [same] at stands
      exact (scanner.cursor.atContent_toContent character stands).1
    · rcases Cursor.exists_of_atListHyphen hyphen with ⟨_, character, behind, found, _⟩
      exact (lands (found ▸ List.cons_ne_nil _ _)).2
    · rw [← same]
      by_cases ended : next.cursor.rest = []
      · rw [foreseen_of_ended ended, Cursor.misfitAtContent, ended]
        rfl
      · rw [Cursor.misfitAtContent, if_neg (by simpa using ended), (lands ended).1]
        rfl

/-! ## Steps -/

theorem Takes.levels_eq (takes : Takes least scanner next) : next.levels = scanner.levels := by
  cases takes with
  | read => exact levels_emit _ _ _
  | reject => rfl

theorem levels_content (read : scanner.content = some next) : next.levels = scanner.levels := by
  cases content_accepts read with
  | once takes => exact takes.levels_eq
  | literal takes => exact takes.levels_eq.trans (scanner.skip 1).levels_flush

/-- A hyphen that is read at its level never fails. -/
theorem Aligned.listItem (aligned : scanner.Aligned)
    (hyphen : scanner.cursor.atListHyphen = true) :
    ∃ next, scanner.listItem = .ok next ∧
      next.levels = scanner.cursor.opened scanner.levels := by
  have same := aligned.aligned hyphen
  rw [Cursor.level, hyphen] at same
  rw [Scanner.listItem, if_neg (by simpa using same), Cursor.opened, hyphen, Bool.true_and]
  dsimp only
  split
  · refine ⟨_, rfl, ?_⟩
    rw [levels_emit]
    exact congrArg (_ :: ·) (levels_emit _ _ _)
  · exact ⟨_, rfl, scanner.levels_flush⟩

/-- Inside a line no step fails, and only an item opens a level. -/
theorem Aligned.step (aligned : scanner.Aligned) {first : Char} {behind : List Char}
    (found : scanner.cursor.rest = first :: behind) (inner : first ≠ '\n') :
    ∃ next, scanner.step = .ok next ∧ next.levels = scanner.cursor.opened scanner.levels := by
  rw [Scanner.step, found]
  dsimp only
  rw [if_neg inner]
  cases hyphen : scanner.cursor.atListHyphen with
  | true =>
    have beside := (Cursor.exists_of_atListHyphen hyphen).2
    rcases beside with ⟨second, more, same, _⟩
    cases (List.cons.inj (found.symm.trans same)).1
    rw [if_neg (by decide), if_neg (by decide), if_pos rfl]
    exact aligned.listItem hyphen
  | false =>
    rw [Cursor.opened_of_not_atListHyphen hyphen, if_neg Bool.false_ne_true]
    split
    · exact ⟨_, rfl, scanner.levels_flush⟩
    · split
      · exact ⟨_, rfl, scanner.levels_flush⟩
      · refine ⟨_, rfl, ?_⟩
        cases read : scanner.content with
        | none => rfl
        | some next => exact levels_content read

/-- At the end of a line the next one is entered. -/
theorem Aligned.agrees_newline (aligned : scanner.Aligned) {behind : List Char}
    (found : scanner.cursor.rest = '\n' :: behind) :
    Agrees scanner.foreseen scanner.cursor.left scanner.step := by
  have stands : scanner.cursor.rest.head? = some '\n' := by
    rw [found]
    rfl
  have quiet := aligned.quiet (Cursor.not_atText_of_head stands (.inr (.inr rfl)))
  have layered : Layered (scanner.flush.skip 1).levels (scanner.flush.skip 1).written :=
    layered_flush aligned.layered
  have levels : (scanner.flush.skip 1).levels = scanner.levels := scanner.levels_flush
  have cursor : (scanner.flush.skip 1).cursor = scanner.cursor.advance 1 := by
    rw [skip, cursor_flush]
  have starts : (scanner.flush.skip 1).cursor.StartsLine := by
    rw [cursor]
    exact Cursor.startsLine_advance aligned.closed found
  have less : (scanner.flush.skip 1).cursor.left < scanner.cursor.left := by
    rw [cursor, Cursor.left_advance]
    exact Nat.sub_lt (Cursor.left_pos_of_rest_eq found) Nat.one_pos
  have expected : scanner.foreseen =
      (scanner.flush.skip 1).cursor.misfit (scanner.flush.skip 1).levels := by
    have empty : scanner.cursor.line = [] := by
      rw [Cursor.line, found]
      rfl
    rw [foreseen, Cursor.lineEnd, empty, Cursor.advance_advance, cursor, levels,
      Cursor.opened_of_not_atListHyphen (Cursor.atListHyphen_of_head found (by decide))]
    rfl
  have stepped : scanner.step = (scanner.flush.skip 1).beginLine scanner.cursor.offset true := by
    rw [Scanner.step, found]
    rfl
  rw [expected, stepped]
  exact agrees_beginLine layered scanner.pending_flush quiet starts less

theorem Aligned.agrees (aligned : scanner.Aligned) (some : scanner.cursor.rest ≠ []) :
    Agrees scanner.foreseen scanner.cursor.left scanner.step := by
  rcases List.exists_cons_of_ne_nil some with ⟨first, behind, found⟩
  by_cases line : first = '\n'
  · subst line
    exact aligned.agrees_newline found
  rcases aligned.step found line with ⟨next, stepped, levels⟩
  have along : scanner.cursor.OnLine 1 next.cursor := by
    rcases step_cases found stepped with ⟨ended, _⟩ | ⟨inner, within⟩
    · exact absurd ended line
    · exact within.onLine found inner
  have read := along.fresh_eq_false aligned.begins
  have noHyphen : next.cursor.atListHyphen = false := by
    rw [Cursor.atListHyphen, read]
    rfl
  rw [stepped]
  refine .goesOn ⟨aligned.toLaidOut.moves ⟨some, stepped⟩, ?_, ?_, ?_⟩ ?_ along.left_lt
  · rcases along with ⟨count, _, _, same⟩
    rw [same]
    exact aligned.closed.advance count
  · intro fresh
    rw [read] at fresh
    cases fresh
  · intro hyphen
    rw [noHyphen] at hyphen
    cases hyphen
  · rw [foreseen, foreseen, along.lineEnd_eq, Cursor.opened_of_not_atListHyphen noHyphen, levels]

theorem Aligned.moves (aligned : scanner.Aligned) (moves : scanner.Moves next) :
    next.Aligned ∧ next.cursor.left < scanner.cursor.left := by
  have agrees := aligned.agrees moves.1
  rw [moves.2] at agrees
  cases agrees with
  | goesOn aligned _ less => exact ⟨aligned, less⟩

theorem Aligned.passed (aligned : scanner.Aligned)
    (passed : Relation.ReflTransGen Moves scanner next) : next.Aligned := by
  induction passed with
  | refl => exact aligned
  | tail _ moves ih => exact (ih.moves moves).1

/-- A reading fails with what is foreseen, and does not fail otherwise. -/
theorem Aligned.run (aligned : scanner.Aligned) (failure : LexError) :
    scanner.run = .error failure ↔ scanner.foreseen = some failure := by
  fun_induction Scanner.run scanner with
  | case1 scanner ended =>
    rw [foreseen_of_ended (List.isEmpty_iff.mp ended)]
    exact iff_of_false (by rintro ⟨⟩) (by rintro ⟨⟩)
  | case2 scanner inner found stepped =>
    have agrees := aligned.agrees fun none => inner (List.isEmpty_iff.mpr none)
    rw [stepped] at agrees
    cases agrees with
    | fails expected =>
      rw [expected]
      exact ⟨fun same => congrArg some (Except.error.inj same),
        fun same => congrArg Except.error (Option.some.inj same)⟩
  | case3 scanner inner next stepped _ ih =>
    have agrees := aligned.agrees fun none => inner (List.isEmpty_iff.mpr none)
    rw [stepped] at agrees
    cases agrees with
    | goesOn aligned same =>
      rw [← same]
      exact ih aligned
  | case4 scanner inner next stepped stuck =>
    -- the reading would stop here for want of progress, but every step reads on
    have agrees := aligned.agrees fun none => inner (List.isEmpty_iff.mpr none)
    rw [stepped] at agrees
    cases agrees with
    | goesOn _ _ less => exact absurd less stuck

end Scanner

/-! ## Whole sources -/

theorem getLast?_normalize (source : List Char) : (normalize source).getLast? = some '\n' := by
  rw [normalize]
  split
  · assumption
  · exact List.getLast?_concat

theorem startsLine_ofText (source : List Char) :
    (Scanner.ofText (normalize source)).cursor.StartsLine := by
  refine ⟨rfl, rfl, fun last stands => ?_⟩
  exact Option.some.inj (stands.symm.trans (getLast?_normalize source))

theorem agrees_entered (source : List Char) :
    Scanner.Agrees (firstMisfit [0] 0 ((normalize source).splitOn '\n'))
      ((normalize source).length + 1) ((Scanner.ofText (normalize source)).beginLine 0 false) :=
  Scanner.agrees_beginLine .start rfl rfl (startsLine_ofText source) (Nat.lt_succ_self _)

theorem aligned_of_passes {source : String} {scanner : Scanner}
    (passes : Scanner.Passes source scanner) : scanner.Aligned := by
  rcases passes with ⟨_, entered, begun, passed⟩
  have agrees := agrees_entered source.toList
  rw [begun] at agrees
  cases agrees with
  | goesOn aligned => exact aligned.passed passed

/-- The first misfit of the lines of a source is the failure of its reading. -/
theorem tokenize_eq_error_iff_firstMisfit (source : String) (failure : LexError) :
    tokenize source = .error failure ↔
      firstMisfit [0] 0 ((normalize source.toList).splitOn '\n') = some failure := by
  cases empty : source.isEmpty with
  | true =>
    have none : source.toList = [] := by
      rw [String.isEmpty_iff.mp empty]
      rfl
    rw [tokenize, if_pos empty, none]
    exact iff_of_false (by rintro ⟨⟩) (by rintro ⟨⟩)
  | false =>
    have agrees := agrees_entered source.toList
    rw [tokenize, if_neg (by simp [empty])]
    cases begun : (Scanner.ofText (normalize source.toList)).beginLine 0 false with
    | error found =>
      rw [begun] at agrees
      cases agrees with
      | fails expected => simp [expected, begun, bind, Except.bind]
    | ok entered =>
      rw [begun] at agrees
      cases agrees with
      | goesOn aligned expected =>
        rw [← expected, ← aligned.run failure]
        cases finished : entered.run with
        | error found => simp [begun, finished, bind, Except.bind]
        | ok scanner => simp [begun, finished, bind, Except.bind, pure, Except.pure]

/-- The reading of a source fails exactly at the first of its lines whose
level does not land on an open one, with the failure of that line.  Each step
reads on, and no hyphen of a list is read at another level than its own. -/
theorem tokenize_fails_iff_misfit (source : String) :
    (∀ failure, tokenize source = .error failure ↔
      ∃ (front : List Line) (line : Line) (behind : List Line) (levels : Levels),
        (normalize source.toList).splitOn '\n' = front ++ line :: behind ∧
        front.foldlM Line.enter [0] = some levels ∧
        line.hasContent = true ∧ levels.land line.level = none ∧
        failure = line.fault (Line.offsetBehind front)) ∧
    ∀ scanner, Scanner.Passes source scanner →
      (∀ next, scanner.Moves next → next.cursor.left < scanner.cursor.left) ∧
      (scanner.cursor.atListHyphen = true → ∃ next, scanner.listItem = .ok next) := by
  refine ⟨fun failure => ?_, fun scanner passes => ?_⟩
  · rw [tokenize_eq_error_iff_firstMisfit, firstMisfit_eq_some_iff]
    simp only [Nat.zero_add]
  · have aligned := aligned_of_passes passes
    refine ⟨fun next moves => (aligned.moves moves).2, fun hyphen => ?_⟩
    rcases aligned.listItem hyphen with ⟨next, read, _⟩
    exact ⟨next, read⟩

/-- An item with a mapping, and behind it a line between the column of its
hyphen and that of its content. -/
theorem tokenize_fails_behind_item :
    tokenize "- a: x\n b" = .error (.inconsistentIndent 1 ⟨8, 9⟩) ∧
      ∃ scanner next, Scanner.Passes "- a: x\n b" scanner ∧
        scanner.cursor.atListHyphen = true ∧ scanner.listItem = .ok next := by
  have fails := ((tokenize_fails_iff_misfit "- a: x\n b").1 (.inconsistentIndent 1 ⟨8, 9⟩)).mpr
    ⟨["- a: x".toList], " b".toList, [[]], [4, 1, 0], by decide +kernel⟩
  have checked : (((Scanner.ofText (normalize "- a: x\n b".toList)).beginLine 0 false).toOption.any
      fun entered => entered.cursor.atListHyphen) = true := by
    decide +kernel
  rcases any_toOption checked with ⟨entered, begun, hyphen⟩
  have passes : Scanner.Passes "- a: x\n b" entered := ⟨by decide, entered, begun, .refl⟩
  rcases ((tokenize_fails_iff_misfit "- a: x\n b").2 entered passes).2 hyphen with ⟨next, read⟩
  exact ⟨fails, entered, next, passes, hyphen, read⟩

end Manifest
