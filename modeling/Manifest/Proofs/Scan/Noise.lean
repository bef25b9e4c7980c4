import Manifest.Proofs.Scan.Entering
import Manifest.Proofs.Scan.Spans
import Manifest.Proofs.Scan.Twins

/-!
# Noise between the lines

Lines without content and gaps at the ends of lines are noise.  Two texts that
differ in noise alone are read side by side: inside a line step by step, and
from the end of a line both readings enter the next content at the same level.
-/

namespace Manifest

/-- The lines of a text with a line feed behind each of them. -/
def Line.written : List Line → List Char
  | [] => []
  | line :: lines => line ++ '\n' :: written lines

/-- The lines of a text that begins with some lines written out. -/
theorem Line.splitOn_written_append {lines : List Line} (inner : ∀ line ∈ lines, '\n' ∉ line)
    (behind : List Char) :
    (written lines ++ behind).splitOn '\n' = lines ++ behind.splitOn '\n' := by
  induction lines with
  | nil => rfl
  | cons line lines ih =>
    rcases List.forall_mem_cons.mp inner with ⟨first, others⟩
    have front : written (line :: lines) ++ behind = line ++ '\n' :: (written lines ++ behind) :=
      List.append_assoc line _ behind
    rw [front, List.splitOn_append_cons_self_of_not_mem first, ih others]
    rfl

/-- Some lines with noise: further lines without content, in front of any line
or at the end, and gaps at the ends of lines. -/
inductive Noisy : List Line → List Line → Prop
  | nil : Noisy [] []
  | insert {line : Line} {lines others : List Line} : line.hasContent = false →
      Noisy lines others → Noisy lines (line :: others)
  | keep {line : Line} {gap : List Char} {lines others : List Line} : gap.all Text.isGap = true →
      Noisy lines others → Noisy (line :: lines) ((line ++ gap) :: others)

/-- A gap behind a line is no content. -/
theorem Line.hasContent_append_gap (line : Line) {gap : List Char}
    (all : gap.all Text.isGap = true) : hasContent (line ++ gap) = line.hasContent := by
  rw [hasContent, content_append_gap line all, hasContent]
  split
  · rename_i blank
    rw [blank]
  · rename_i some
    rw [List.head?_append_of_ne_nil _ some]

/-! ## Entering lines side by side -/

namespace Cursor

variable {cursor other : Cursor} {line : Line} {lines others : List Line} {below : List Char}

/-- A cursor stands at the beginning of the first of some lines. -/
structure Starts (cursor : Cursor) (lines : List Line) : Prop where
  rest : cursor.rest = Line.written lines
  column_eq : cursor.column = 0
  fresh : cursor.fresh = true

theorem starts_advance (front : cursor.rest = '\n' :: Line.written lines) :
    (cursor.advance 1).Starts lines :=
  have next := advance_newline front
  ⟨next.1, next.2.1, next.2.2⟩

/-- The next content is the end of the text for both cursors, or the same line
with the same lines below, apart from noise. -/
inductive Ahead (cursor other : Cursor) : Prop
  | ended : cursor.rest = [] → other.rest = [] → Ahead cursor other
  | line {line : Line} {lines others : List Line} : line ≠ [] → Noisy lines others →
      (∀ line ∈ others, '\n' ∉ line) →
      Beside line (Line.written lines) (Line.written others) cursor other → Ahead cursor other

/-- Noise is passed over in front of content. -/
theorem ahead_toContent (noisy : Noisy lines others) (plain : ∀ line ∈ others, '\n' ∉ line)
    (starts : cursor.Starts lines) (twin : other.Starts others) :
    Ahead cursor.toContent other.toContent := by
  induction noisy generalizing cursor other with
  | nil => exact .ended (toContent_of_nil starts.rest) (toContent_of_nil twin.rest)
  | @insert line lines others blank noisy ih =>
    rcases List.forall_mem_cons.mp plain with ⟨inner, plain⟩
    rw [toContent_of_blank twin.rest inner blank]
    exact ih plain starts (starts_advance (rest_lineEnd twin.rest inner))
  | @keep line gap lines others all noisy ih =>
    rcases List.forall_mem_cons.mp plain with ⟨inner, plain⟩
    have front : '\n' ∉ line := fun inside => inner (List.mem_append_left gap inside)
    have same := line.hasContent_append_gap all
    cases content : line.hasContent with
    | false =>
      rw [content] at same
      rw [toContent_of_blank starts.rest front content, toContent_of_blank twin.rest inner same]
      exact ih plain (starts_advance (rest_lineEnd starts.rest front))
        (starts_advance (rest_lineEnd twin.rest inner))
    | true =>
      rw [content] at same
      have some : line.content ≠ [] := by
        intro none
        rw [Line.hasContent, none] at content
        cases content
      have beside : Beside line (Line.written lines) (Line.written others) cursor other :=
        ⟨⟨front, _, Text.margin_newline _, starts.rest⟩, .of_line front all twin.rest,
          fun _ => by rw [starts.column_eq, twin.column_eq],
          fun _ => by rw [starts.fresh, twin.fresh]⟩
      rw [toContent_of_content starts.rest front content,
        toContent_of_content twin.rest inner same]
      exact .line some noisy plain beside.skipGap

namespace Ahead

theorem isEmpty_eq (ahead : Ahead cursor other) : other.rest.isEmpty = cursor.rest.isEmpty := by
  cases ahead with
  | ended none twinNone => rw [none, twinNone]
  | line _ _ _ beside => rw [beside.faces.rest_isEmpty, beside.twin.rest_isEmpty]

theorem column_eq (ahead : Ahead cursor other) (more : cursor.rest.isEmpty = false) :
    other.column = cursor.column := by
  cases ahead with
  | ended none =>
    rw [none] at more
    cases more
  | line some _ _ beside => exact beside.column_eq some

/-- Both cursors enter at the same level. -/
theorem level_eq (ahead : Ahead cursor other) :
    (if other.rest.isEmpty then 0 else Levels.ofColumn other.column other.atListHyphen) =
      if cursor.rest.isEmpty then 0 else Levels.ofColumn cursor.column cursor.atListHyphen := by
  rw [ahead.isEmpty_eq]
  cases ahead with
  | ended none =>
    rw [none]
    rfl
  | line some _ _ beside => rw [beside.column_eq some, beside.atListHyphen_eq]

end Ahead
end Cursor

/-! ## Readings of noisy texts -/

namespace Scanner

variable {scanner other next : Scanner} {lines others : List Line} {span : Span} {count : Nat}

/-- One reading follows the other: both have read the same, and they are at
their ends or on the same line with the same lines below, apart from noise. -/
inductive Follows (scanner other : Scanner) : Prop
  | ended : Echoes scanner other → scanner.cursor.rest = [] → other.cursor.rest = [] →
      Follows scanner other
  | line {line : Line} {lines others : List Line} : Noisy lines others →
      (∀ line ∈ others, '\n' ∉ line) →
      Beside line (Line.written lines) (Line.written others) scanner other →
      Follows scanner other

/-- The newest token is no symbol. -/
def BehindLayout (scanner : Scanner) : Prop :=
  ∀ name stop, scanner.tokens.head? ≠ some ⟨.symbol name, stop⟩

theorem follows_of_ahead (ahead : scanner.cursor.Ahead other.cursor)
    (echoes : Echoes scanner other)
    (layout : scanner.cursor.rest.isEmpty = false → scanner.BehindLayout) :
    Follows scanner other := by
  cases ahead with
  | ended none twinNone => exact .ended echoes none twinNone
  | line _ noisy plain beside =>
    refine .line noisy plain ⟨echoes, beside, fun _ name stop newest => ?_⟩
    exact absurd newest (layout beside.faces.rest_isEmpty name stop)

theorem suppressesNewline_eq (echoes : Echoes scanner other) :
    other.suppressesNewline = scanner.suppressesNewline := by
  rw [suppressesNewline_eq_all, suppressesNewline_eq_all, echoes.lexemes_eq]

theorem behindLayout_of_suppresses (suppresses : scanner.suppressesNewline = true) :
    scanner.BehindLayout := by
  intro name stop newest
  rcases List.head?_eq_some_iff.mp newest with ⟨earlier, tokens⟩
  rw [suppressesNewline, tokens] at suppresses
  cases suppresses

theorem behindLayout_emitOutdents (some : count ≠ 0) (scanner : Scanner) :
    (emitOutdents span count scanner).BehindLayout := by
  rcases Nat.exists_eq_succ_of_ne_zero some with ⟨fewer, rfl⟩
  induction fewer generalizing scanner with
  | zero =>
    intro name stop newest
    cases newest
  | succ fewer ih => exact ih _ (Nat.succ_ne_zero _)

/-- In front of new content the newest token is no symbol. -/
theorem behindLayout_beginLine {lineEnd : Nat} {announce : Bool}
    (announced : announce = true ∨ scanner.BehindLayout)
    (begun : scanner.beginLine lineEnd announce = .ok next)
    (more : next.cursor.rest.isEmpty = false) : next.BehindLayout := by
  rw [Scanner.beginLine] at begun
  dsimp only at begun
  split at begun
  · cases begun
    intro name stop newest
    cases newest
  · rename_i closed levels outward
    cases begun
    exact behindLayout_emitOutdents (closed_ne_zero outward) _
  · split at begun
    · cases begun
      intro name stop newest
      cases newest
    · rename_i silent
      cases begun
      have more : scanner.cursor.toContent.rest.isEmpty = false := more
      refine announced.elim (fun announced => behindLayout_of_suppresses ?_) id
      rw [announced, more] at silent
      simpa using silent
  · cases begun

/-- Both readings enter their next content. -/
theorem Echoes.beginLine {lineEnd twinEnd : Nat} {announce : Bool}
    (echoes : Echoes scanner other)
    (ahead : scanner.cursor.toContent.Ahead other.cursor.toContent)
    (announced : announce = true ∨ scanner.BehindLayout)
    (begun : scanner.beginLine lineEnd announce = .ok next) :
    ∃ twin, other.beginLine twinEnd announce = .ok twin ∧ Follows next twin := by
  have moved : ∀ levels : Levels,
      Echoes { scanner with cursor := scanner.cursor.toContent, levels }
        { other with cursor := other.cursor.toContent, levels } := fun levels =>
    echoes.move _ _ rfl
  have layout := behindLayout_beginLine announced begun
  rw [Scanner.beginLine] at begun ⊢
  dsimp only at begun ⊢
  rw [ahead.level_eq, echoes.levels_eq]
  split at begun
  · cases begun
    refine ⟨_, rfl, follows_of_ahead ?_ (moved _).emit layout⟩
    rw [cursor_emit, cursor_emit]
    exact ahead
  · rename_i closed levels outward
    cases begun
    refine ⟨_, rfl, follows_of_ahead ?_ ((moved levels).emitOutdents closed) layout⟩
    rw [cursor_emitOutdents, cursor_emitOutdents]
    exact ahead
  · have same := moved scanner.levels
    rw [ahead.isEmpty_eq, suppressesNewline_eq same]
    split at begun
    · rename_i shown
      cases begun
      rw [if_pos shown]
      simp only [Bool.and_eq_true, Bool.not_eq_true'] at shown
      rw [ahead.column_eq shown.1.2]
      refine ⟨_, rfl, follows_of_ahead ?_ same.emit layout⟩
      rw [cursor_emit, cursor_emit]
      exact ahead
    · rename_i silent
      cases begun
      rw [if_neg silent]
      exact ⟨_, rfl, follows_of_ahead ahead same layout⟩
  · cases begun

/-! ## Runs -/

theorem Moves.left_lt (moves : scanner.Moves next) : next.cursor.left < scanner.cursor.left := by
  rcases List.exists_cons_of_ne_nil moves.1 with ⟨first, behind, found⟩
  rcases step_cases found moves.2 with ⟨_, begun⟩ | ⟨inner, within⟩
  · have some := Cursor.left_pos_of_rest_eq found
    have shorter := (scanner.cursor.advance 1).left_toContent_le
    rw [Cursor.left_advance] at shorter
    rw [cursor_beginLine begun, skip, cursor_flush]
    exact Nat.lt_of_le_of_lt shorter (Nat.sub_lt some Nat.one_pos)
  · exact (within.onLine found inner).left_lt

theorem Moves.run_eq (moves : scanner.Moves next) : scanner.run = next.run :=
  run_step moves.1 moves.2 moves.left_lt

theorem step_gap {edge : Char} {behind : List Char} (calm : scanner.pending = none)
    (gap : Text.isGap edge = true) (front : scanner.cursor.rest = edge :: behind) :
    scanner.Moves (scanner.skip 1) := by
  have noLine : edge ≠ '\n' := by
    rintro rfl
    cases gap
  refine ⟨by rw [front]; exact List.cons_ne_nil _ _, ?_⟩
  rw [step, front, flush_of_none calm]
  dsimp only
  rw [if_neg noLine, if_pos gap]

/-- A gap in front of the end of a line is passed over. -/
theorem run_gap {gap below : List Char} (calm : scanner.pending = none)
    (all : gap.all Text.isGap = true) (front : scanner.cursor.rest = gap ++ '\n' :: below) :
    scanner.run = (scanner.skip gap.length).run := by
  induction gap generalizing scanner with
  | nil => rfl
  | cons edge gap ih =>
    rw [List.all_cons, Bool.and_eq_true] at all
    have chunk : scanner.cursor.rest = [edge] ++ (gap ++ '\n' :: below) := front
    have behind : (scanner.skip 1).cursor.rest = gap ++ '\n' :: below :=
      Cursor.rest_advance chunk
    have further : (scanner.skip 1).skip gap.length = scanner.skip (edge :: gap).length := by
      rw [skip, skip, skip, Cursor.advance_advance, Nat.add_comm]
      rfl
    rw [(step_gap calm all.1 front).run_eq, @ih (scanner.skip 1) calm all.2 behind, further]

/-- In its margin the first reading goes on alone, and the other waits. -/
theorem Beside.wait {below more gap : List Char} {edge : Char}
    (beside : Beside [] below more scanner other) (all : gap.all Text.isGap = true)
    (front : scanner.cursor.rest = edge :: (gap ++ '\n' :: below)) :
    Beside [] below more (scanner.skip 1) other := by
  have chunk : scanner.cursor.rest = [edge] ++ (gap ++ '\n' :: below) := front
  have faces : (scanner.cursor.advance 1).Faces [] below :=
    ⟨List.not_mem_nil, _, ⟨gap, all, rfl⟩, Cursor.rest_advance chunk⟩
  exact ⟨beside.move _ other.cursor beside.levels_eq,
    ⟨faces, beside.cursors.twin, fun some => absurd rfl some, fun some => absurd rfl some⟩,
    fun some => absurd rfl some⟩

/-- At the end of its line the first reading enters the next content, and the
other follows it over its own margin. -/
theorem Beside.enter (beside : Beside [] (Line.written lines) (Line.written others) scanner other)
    (noisy : Noisy lines others) (plain : ∀ line ∈ others, '\n' ∉ line)
    (front : scanner.cursor.rest = '\n' :: Line.written lines) (moves : scanner.Moves next) :
    ∃ twin, other.run = twin.run ∧ Follows next twin := by
  rcases beside.cursors.twin.front with ⟨margin, ⟨gap, all, rfl⟩, twinFront⟩
  let waiting := other.skip gap.length
  have calm : waiting.pending = none := beside.twinCalm
  have rest : waiting.cursor.rest = '\n' :: Line.written others := Cursor.rest_advance twinFront
  have skipped : other.run = waiting.run := run_gap beside.twinCalm all twinFront
  have stepped := moves.2
  rw [Scanner.step, front, flush_of_none beside.calm] at stepped
  have begun : (scanner.skip 1).beginLine scanner.cursor.offset true = .ok next := stepped
  have same : Echoes (scanner.skip 1) (waiting.skip 1) := beside.move _ _ beside.levels_eq
  have ahead := Cursor.ahead_toContent noisy plain (Cursor.starts_advance front)
    (Cursor.starts_advance rest)
  rcases @Echoes.beginLine _ _ _ _ waiting.cursor.offset _ same ahead (.inl rfl) begun with
    ⟨twin, twinBegun, follows⟩
  have twinMoves : waiting.Moves twin := by
    refine ⟨by rw [rest]; exact List.cons_ne_nil _ _, ?_⟩
    rw [Scanner.step, rest, flush_of_none calm]
    exact twinBegun
  exact ⟨twin, skipped.trans twinMoves.run_eq, follows⟩

/-- A step of the first reading is matched by some steps of the other. -/
theorem Follows.moves (follows : Follows scanner other) (moves : scanner.Moves next) :
    next.Stained ∨ ∃ twin, other.run = twin.run ∧ Follows next twin := by
  cases follows with
  | ended _ none => exact absurd none moves.1
  | @line line lines others noisy plain beside =>
    cases line with
    | cons first tail =>
      rcases beside.step (List.cons_ne_nil _ _) moves.2 with ⟨twin, stepped, stained | same⟩
      · exact .inl stained
      · rcases same with ⟨left, same⟩
        have some : other.cursor.rest ≠ [] :=
          List.isEmpty_eq_false_iff.mp beside.cursors.twin.rest_isEmpty
        have twinMoves : other.Moves twin := ⟨some, stepped⟩
        exact .inr ⟨twin, twinMoves.run_eq, .line noisy plain same⟩
    | nil =>
      rcases beside.cursors.faces.front with ⟨margin, ⟨gap, all, rfl⟩, front⟩
      cases gap with
      | cons edge gap =>
        rw [List.all_cons, Bool.and_eq_true] at all
        have stepped := (step_gap beside.calm all.1 front).2
        cases moves.2.symm.trans stepped
        exact .inr ⟨other, rfl, .line noisy plain (beside.wait all.2 front)⟩
      | nil => exact .inr (beside.enter noisy plain front moves)

/-- What was not recognized stays unrecognized. -/
theorem lasting_stained : Lasting Stained where
  flush stained := by
    rw [Scanner.flush]
    split
    · exact stained
    · exact .inr (List.cons_ne_nil _ _)
  token _ stained := stained
  move _ _ stained := stained
  reject _ _ := .inl (Option.some_ne_none _)

/-- The other reading ends as well, and both have read the same. -/
theorem Follows.run {final : Scanner} (follows : Follows scanner other)
    (finished : scanner.run = .ok final) (clean : ¬ final.Stained) :
    ∃ twin, other.run = .ok twin ∧ Echoes final twin := by
  rcases passes_of_run finished with ⟨passed, ended⟩
  clear finished
  induction passed using Relation.ReflTransGen.head_induction_on generalizing other with
  | refl =>
    cases follows with
    | ended echoes _ none => exact ⟨other, run_nil none, echoes⟩
    | line _ _ beside =>
      have some := beside.cursors.faces.rest_isEmpty
      rw [ended] at some
      cases some
  | head moves passed ih =>
    rcases follows.moves moves with stained | ⟨twin, same, follows⟩
    · exact absurd (lasting_stained.passed stained passed) clean
    · rcases ih follows with ⟨last, ran, echoes⟩
      exact ⟨last, same.trans ran, echoes⟩

end Scanner
end Manifest
