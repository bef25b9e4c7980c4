import Manifest.Proofs.Scan.Cursor
import Manifest.Proofs.Scan.Levels

/-!
# Lines that do not fit

Which lines fit the open levels is a matter of the lines alone: of the gap in
front of a line, of the hyphen that may begin it, and of an assignment behind
that hyphen.  The first line that does not fit is the fault of a text.  A
cursor at the beginning of a line finds it line by line.
-/

namespace Manifest

/-- How many bytes a text takes. -/
def Text.bytes : List Char → Nat
  | [] => 0
  | character :: text => character.utf8Size + bytes text

theorem Text.bytes_concat_newline (text : List Char) : bytes (text ++ ['\n']) = bytes text + 1 := by
  induction text with
  | nil => rfl
  | cons character text ih => rw [List.cons_append, bytes, ih, bytes, Nat.add_assoc]

/-! ## Landing -/

namespace Levels

variable {levels : Levels} {level : Nat}

/-- A level lands above the innermost one, which opens it, or on one that is
open when those above it are closed. -/
def land (levels : Levels) (level : Nat) : Option Levels :=
  if levels.current < level then some (level :: levels)
  else
    let left := levels.dropWhile (level < ·)
    if left.head? = some level then some left else none

theorem land_deeper (deeper : levels.current < level) :
    levels.land level = some (level :: levels) :=
  if_pos deeper

theorem Nested.head?_eq (nested : levels.Nested) : levels.head? = some levels.current := by
  rcases nested.exists_cons with ⟨top, outer, rfl⟩
  rfl

/-- Levels inside an open one are closed. -/
theorem land_outward {inner outer : Levels} (closed : ∀ found ∈ inner, level < found)
    (nested : outer.Nested) (same : outer.current = level) :
    (inner ++ outer).land level = some outer := by
  have left : (inner ++ outer).dropWhile (level < ·) = outer := by
    rw [List.dropWhile_append_of_pos (by simpa using closed)]
    rcases nested.exists_cons with ⟨top, outermost, rfl⟩
    cases same
    exact List.dropWhile_cons_of_neg (by simp [current])
  have notDeeper : ¬ (inner ++ outer).current < level := by
    cases inner with
    | nil =>
      rw [List.nil_append, same]
      exact Nat.lt_irrefl level
    | cons top inner => exact Nat.lt_asymm (closed top List.mem_cons_self)
  rw [land, if_neg notDeeper]
  dsimp only
  rw [left, nested.head?_eq, if_pos (congrArg some same)]

theorem land_level (nested : levels.Nested) (same : levels.current = level) :
    levels.land level = some levels :=
  @land_outward level [] levels (fun _ none => nomatch none) nested same

theorem land_misfit (outward : level < levels.current) (apart : level ∉ levels) :
    levels.land level = none := by
  rw [land, if_neg (Nat.lt_asymm outward)]
  dsimp only
  refine if_neg fun stands => apart ?_
  exact (List.dropWhile_suffix _).subset (List.mem_of_mem_head? stands)

end Levels

/-! ## Lines -/

/-- A line of a text, without its end. -/
abbrev Line := List Char

namespace Line

def gap (line : Line) : List Char :=
  line.takeWhile Text.isGap

/-- The column of the first character that is no gap. -/
def width (line : Line) : Nat :=
  line.gap.length

def content (line : Line) : List Char :=
  line.dropWhile Text.isGap

/-- Lines that are empty or hold only a comment have no content. -/
def hasContent (line : Line) : Bool :=
  line.content.head?.any (· ≠ '#')

/-- A hyphen with a gap or nothing behind it begins an item. -/
def isItem (line : Line) : Bool :=
  match line.content with
  | '-' :: behind => behind.head?.all Text.isGap
  | _ => false

def level (line : Line) : Nat :=
  Levels.ofColumn line.width line.isItem

/-- What stands behind the hyphen of an item. -/
def behindHyphen (line : Line) : Line :=
  line.content.drop 1

/-- The column of what stands behind the hyphen and its gap. -/
def itemColumn (line : Line) : Nat :=
  line.width + 1 + line.behindHyphen.width

/-- An item with an assignment opens a further level at its content. -/
def opened (line : Line) (levels : Levels) : Levels :=
  if line.isItem && holdsAssignment none line.behindHyphen.content then
    Levels.ofColumn line.itemColumn false :: levels
  else levels

/-- The levels behind a line, if it fits those in front of it. -/
def enter (levels : Levels) (line : Line) : Option Levels :=
  if line.hasContent then (levels.land line.level).map line.opened else some levels

/-- The failure of a line that begins at an offset and does not fit. -/
def fault (line : Line) (offset : Nat) : LexError :=
  let start := offset + Text.bytes line.gap
  let span : Span := ⟨start, start + (line.content.head?.map Char.utf8Size).getD 0⟩
  if line.isItem then .misalignedListItem line.width span else .inconsistentIndent line.width span

/-- Where the line behind some others begins. -/
def offsetBehind : List Line → Nat
  | [] => 0
  | line :: lines => Text.bytes line + 1 + offsetBehind lines

theorem content_subset (line : Line) : line.content ⊆ line :=
  (List.dropWhile_suffix Text.isGap).subset

theorem enter_eq_none_iff {levels : Levels} {line : Line} :
    line.enter levels = none ↔ line.hasContent = true ∧ levels.land line.level = none := by
  rw [enter]
  cases line.hasContent with
  | false => simp
  | true => simp

end Line

/-- The failure of the first line that does not fit, for lines that begin at
an offset. -/
def firstMisfit (levels : Levels) (offset : Nat) : List Line → Option LexError
  | [] => none
  | line :: lines =>
      match line.enter levels with
      | none => some (line.fault offset)
      | some levels => firstMisfit levels (offset + Text.bytes line + 1) lines

theorem firstMisfit_eq_some_iff {levels : Levels} {offset : Nat} {lines : List Line}
    {failure : LexError} : firstMisfit levels offset lines = some failure ↔
      ∃ front line behind reached, lines = front ++ line :: behind ∧
        front.foldlM Line.enter levels = some reached ∧
        line.hasContent = true ∧ reached.land line.level = none ∧
        failure = line.fault (offset + Line.offsetBehind front) := by
  induction lines generalizing levels offset with
  | nil =>
    refine ⟨nofun, ?_⟩
    rintro ⟨front, line, behind, _, split, _⟩
    exact absurd split.symm (List.append_ne_nil_of_right_ne_nil _ (List.cons_ne_nil _ _))
  | cons line lines ih =>
    rw [firstMisfit]
    cases entered : line.enter levels with
    | none =>
      dsimp only
      constructor
      · intro same
        cases same
        rcases Line.enter_eq_none_iff.mp entered with ⟨content, misfit⟩
        exact ⟨[], line, lines, levels, rfl, rfl, content, misfit, rfl⟩
      · rintro ⟨front, found, behind, reached, split, fits, content, misfit, rfl⟩
        cases front with
        | nil =>
          cases split
          rfl
        | cons first front =>
          cases split
          rw [List.foldlM_cons, entered] at fits
          cases fits
    | some next =>
      dsimp only
      rw [ih]
      constructor
      · rintro ⟨front, found, behind, reached, rfl, fits, content, misfit, rfl⟩
        refine ⟨line :: front, found, behind, reached, rfl, ?_, content, misfit, ?_⟩
        · rw [List.foldlM_cons, entered]
          exact fits
        · rw [Line.offsetBehind, ← Nat.add_assoc, ← Nat.add_assoc]
      · rintro ⟨front, found, behind, reached, split, fits, content, misfit, rfl⟩
        cases front with
        | nil =>
          cases split
          cases fits
          cases entered.symm.trans (Line.enter_eq_none_iff.mpr ⟨content, misfit⟩)
        | cons first front =>
          cases split
          rw [List.foldlM_cons, entered] at fits
          refine ⟨front, found, behind, reached, rfl, fits, content, misfit, ?_⟩
          rw [Line.offsetBehind, ← Nat.add_assoc, ← Nat.add_assoc]

/-! ## At the beginning of a line -/

theorem Position.offset_afterAll (position : Position) (text : List Char) :
    (position.afterAll text).offset = position.offset + Text.bytes text := by
  induction text generalizing position with
  | nil => rfl
  | cons character text ih =>
    change ((position.after character).afterAll text).offset = _
    rw [ih, offset_after, Text.bytes, Nat.add_assoc]

namespace Cursor

variable {cursor : Cursor} {levels : Levels} {line : Line} {below : List Char}

theorem offset_advance {chunk behind : List Char} (front : cursor.rest = chunk ++ behind) :
    (cursor.advance chunk.length).offset = cursor.offset + Text.bytes chunk := by
  rw [offset, place_advance front]
  exact cursor.place.offset_afterAll chunk

/-- The text ends with a line end, if there is any. -/
def Closed (cursor : Cursor) : Prop :=
  ∀ last, cursor.rest.getLast? = some last → last = '\n'

theorem Closed.advance (closed : cursor.Closed) (count : Nat) : (cursor.advance count).Closed := by
  intro last stands
  have suffix : (cursor.advance count).rest <:+ cursor.rest := List.drop_suffix _ _
  rcases suffix with ⟨front, whole⟩
  refine closed last ?_
  rw [← whole, List.getLast?_append, stands]
  rfl

theorem Closed.split (closed : cursor.Closed) (some : cursor.rest ≠ []) :
    ∃ below, cursor.rest = cursor.line ++ '\n' :: below := by
  have whole := @List.takeWhile_append_dropWhile _ (fun character => decide (character ≠ '\n'))
    cursor.rest
  have stops := List.head?_dropWhile_not (fun character => decide (character ≠ '\n')) cursor.rest
  cases behind : cursor.rest.dropWhile (fun character => decide (character ≠ '\n')) with
  | nil =>
    rw [behind, List.append_nil] at whole
    have last := closed _ (List.getLast?_eq_some_getLast some)
    have inside := List.getLast_mem some
    rw [last, ← whole] at inside
    exact absurd inside (Text.newline_notMem_line cursor.rest)
  | cons first below =>
    rw [behind] at whole stops
    have same : first = '\n' := by simpa using stops
    rw [same] at whole
    exact ⟨below, whole.symm⟩

/-- A cursor stands at the beginning of a line. -/
structure StartsLine (cursor : Cursor) : Prop where
  column_eq : cursor.column = 0
  fresh : cursor.fresh = true
  closed : cursor.Closed

/-- Behind the end of a line the next one begins. -/
theorem startsLine_advance (closed : cursor.Closed) (stands : cursor.rest = '\n' :: below) :
    (cursor.advance 1).StartsLine :=
  have next := advance_newline stands
  ⟨next.2.1, next.2.2, closed.advance 1⟩

/-- The first misfit among the lines that begin at a cursor. -/
def misfit (cursor : Cursor) (levels : Levels) : Option LexError :=
  firstMisfit levels cursor.offset (cursor.rest.splitOn '\n')

theorem misfit_nil (ended : cursor.rest = []) : cursor.misfit levels = none := by
  rw [misfit, ended]
  rfl

/-- What stands behind the end of a line, and where. -/
theorem lineEnd_advance (front : cursor.rest = line ++ '\n' :: below) (inner : '\n' ∉ line) :
    (cursor.lineEnd.advance 1).rest = below ∧
      (cursor.lineEnd.advance 1).offset = cursor.offset + Text.bytes line + 1 := by
  have chunk : cursor.rest = (line ++ ['\n']) ++ below := by
    rw [front, List.append_assoc]
    rfl
  have same : cursor.line = line := by
    rw [Cursor.line, front]
    exact Text.line_append inner below
  have length : line.length + 1 = (line ++ ['\n']).length := by
    rw [List.length_append]
    rfl
  rw [lineEnd, same, advance_advance, length, rest_advance chunk, offset_advance chunk,
    Text.bytes_concat_newline, Nat.add_assoc]
  exact ⟨rfl, rfl⟩

theorem misfit_line (front : cursor.rest = line ++ '\n' :: below) (inner : '\n' ∉ line) :
    cursor.misfit levels =
      match line.enter levels with
      | none => some (line.fault cursor.offset)
      | some levels => (cursor.lineEnd.advance 1).misfit levels := by
  have behind : ∀ levels, (cursor.lineEnd.advance 1).misfit levels =
      firstMisfit levels (cursor.offset + Text.bytes line + 1) (below.splitOn '\n') := by
    intro levels
    rcases lineEnd_advance front inner with ⟨rest, offset⟩
    rw [misfit, rest, offset]
  simp only [behind]
  rw [misfit, front, List.splitOn_append_cons_self_of_not_mem inner]
  rfl

/-! ## At the content of a line -/

/-- The level of a line, seen from its content. -/
def level (cursor : Cursor) : Nat :=
  Levels.ofColumn cursor.column cursor.atListHyphen

/-- The failure of a line, seen from its content. -/
def fault (cursor : Cursor) : LexError :=
  let span : Span := ⟨cursor.offset,
    cursor.offset + (cursor.rest.head?.map Char.utf8Size).getD 0⟩
  if cursor.atListHyphen then .misalignedListItem cursor.column span
  else .inconsistentIndent cursor.column span

/-- The levels that are open behind an item in front of a cursor. -/
def opened (cursor : Cursor) (levels : Levels) : Levels :=
  let content := (cursor.advance 1).skipGap
  if cursor.atListHyphen && holdsAssignment none content.line then
    Levels.ofColumn content.column false :: levels
  else levels

/-- The first misfit among the line of a cursor and those behind it. -/
def misfitAtContent (cursor : Cursor) (levels : Levels) : Option LexError :=
  if cursor.rest.isEmpty then none
  else
    match levels.land cursor.level with
    | none => some cursor.fault
    | some levels => (cursor.lineEnd.advance 1).misfit (cursor.opened levels)

theorem gap_split (front : cursor.rest = line ++ '\n' :: below) :
    cursor.rest = line.gap ++ (line.content ++ '\n' :: below) := by
  rw [← List.append_assoc, Line.gap, Line.content, List.takeWhile_append_dropWhile, front]

theorem skipGap_line (front : cursor.rest = line ++ '\n' :: below) :
    cursor.skipGap = cursor.advance line.gap.length := by
  refine skipGap_eq (gap_split front) ?_ ?_
  · exact List.all_eq_true.mpr fun character inside => List.mem_takeWhile_imp inside
  · intro character stands
    cases content : line.content with
    | nil =>
      rw [content] at stands
      cases stands
      rfl
    | cons first more =>
      have passed := List.head?_dropWhile_not Text.isGap line
      rw [content] at stands
      rw [← Line.content, content] at passed
      cases stands
      exact passed

theorem rest_skipGap (front : cursor.rest = line ++ '\n' :: below) :
    cursor.skipGap.rest = line.content ++ '\n' :: below := by
  rw [skipGap_line front]
  exact rest_advance (gap_split front)

theorem column_behindGap (front : cursor.rest = line ++ '\n' :: below) :
    cursor.skipGap.column = cursor.column + line.width := by
  rw [skipGap_line front]
  exact column_advance (gap_split front) (newline_notMem_gap line)

theorem line_behindGap (front : cursor.rest = line ++ '\n' :: below) (inner : '\n' ∉ line) :
    cursor.skipGap.line = line.content := by
  rw [Cursor.line, rest_skipGap front]
  exact Text.line_append (fun inside => inner (line.content_subset inside)) below

theorem atListHyphen_skipGap (fresh : cursor.fresh = true)
    (front : cursor.rest = line ++ '\n' :: below) (inner : '\n' ∉ line) :
    cursor.skipGap.atListHyphen = line.isItem := by
  have outside : '\n' ∉ line.content := fun inside => inner (line.content_subset inside)
  rw [atListHyphen, fresh_skipGap fresh, Bool.true_and, rest_skipGap front, Line.isItem]
  generalize line.content = content at outside
  rcases content with _ | ⟨first, more⟩
  · rfl
  by_cases hyphen : first = '-'
  · subst hyphen
    cases more with
    | nil => rfl
    | cons next more =>
      have other : (next == '\n') = false := beq_eq_false_iff_ne.mpr fun same =>
        outside (same ▸ List.mem_cons_of_mem _ List.mem_cons_self)
      change (Text.isGap next || next == '\n') = Text.isGap next
      rw [other, Bool.or_false]
  · have noHyphen : ∀ rest other : List Char, first :: rest ≠ '-' :: other :=
      fun _ _ same => hyphen (List.cons.inj same).1
    split
    · rename_i same
      exact absurd same (noHyphen _ _)
    · split
      · rename_i same
        exact absurd same (noHyphen _ _)
      · rfl

/-- Behind the hyphen of an item stands its content. -/
theorem rest_item (front : cursor.rest = line ++ '\n' :: below) (item : line.isItem = true) :
    cursor.skipGap.rest = '-' :: (line.behindHyphen ++ '\n' :: below) := by
  have hyphen : line.content = '-' :: line.behindHyphen := by
    rw [Line.isItem] at item
    split at item
    · rename_i found
      rw [Line.behindHyphen, found]
      rfl
    · cases item
  rw [rest_skipGap front, hyphen]
  rfl

theorem rest_behindHyphen (front : cursor.rest = line ++ '\n' :: below)
    (item : line.isItem = true) :
    (cursor.skipGap.advance 1).rest = line.behindHyphen ++ '\n' :: below :=
  @rest_advance _ ['-'] _ (rest_item front item)

theorem newline_notMem_behindHyphen (inner : '\n' ∉ line) : '\n' ∉ line.behindHyphen :=
  fun inside => inner (line.content_subset (List.mem_of_mem_drop inside))

theorem opened_skipGap (starts : cursor.StartsLine)
    (front : cursor.rest = line ++ '\n' :: below) (inner : '\n' ∉ line) (levels : Levels) :
    cursor.skipGap.opened levels = line.opened levels := by
  rw [opened, Line.opened, atListHyphen_skipGap starts.fresh front inner]
  cases item : line.isItem with
  | false => rfl
  | true =>
    have behind := rest_behindHyphen front item
    have hyphenColumn : (cursor.skipGap.advance 1).column = cursor.skipGap.column + 1 :=
      @column_advance _ ['-'] _ (rest_item front item) (by decide)
    rw [line_behindGap behind (newline_notMem_behindHyphen inner), column_behindGap behind,
      hyphenColumn, column_behindGap front, starts.column_eq, Nat.zero_add, Line.itemColumn]

theorem fault_skipGap (starts : cursor.StartsLine)
    (front : cursor.rest = line ++ '\n' :: below) (inner : '\n' ∉ line)
    (some : line.content ≠ []) : cursor.skipGap.fault = line.fault cursor.offset := by
  have head : cursor.skipGap.rest.head? = line.content.head? := by
    rw [rest_skipGap front]
    exact List.head?_append_of_ne_nil _ some
  have start : cursor.skipGap.offset = cursor.offset + Text.bytes line.gap := by
    rw [skipGap_line front]
    exact offset_advance (gap_split front)
  rw [fault, Line.fault, atListHyphen_skipGap starts.fresh front inner, head, start,
    column_behindGap front, starts.column_eq, Nat.zero_add]

theorem misfit_content (starts : cursor.StartsLine)
    (front : cursor.rest = line ++ '\n' :: below) (inner : '\n' ∉ line)
    (content : line.hasContent = true) :
    cursor.misfit levels = cursor.skipGap.misfitAtContent levels := by
  have some : line.content ≠ [] := by
    intro none
    rw [Line.hasContent, none] at content
    cases content
  have inside : cursor.skipGap.rest.isEmpty = false := by
    rw [rest_skipGap front]
    exact List.isEmpty_eq_false_iff.mpr (List.append_ne_nil_of_left_ne_nil some _)
  have level : cursor.skipGap.level = line.level := by
    rw [Cursor.level, Line.level, column_behindGap front, starts.column_eq, Nat.zero_add,
      atListHyphen_skipGap starts.fresh front inner]
  have behind := cursor.onLine_skipGap.lineEnd_eq
  rw [misfit_line front inner, misfitAtContent, inside, level, Line.enter, if_pos content, behind,
    fault_skipGap starts front inner some]
  cases levels.land line.level with
  | none => rfl
  | some levels =>
    rw [Option.map_some, ← opened_skipGap starts front inner]
    rfl

theorem misfit_blank (front : cursor.rest = line ++ '\n' :: below) (inner : '\n' ∉ line)
    (blank : line.hasContent = false) :
    cursor.misfit levels = (cursor.lineEnd.advance 1).misfit levels := by
  rw [misfit_line front inner, Line.enter, blank]
  rfl

theorem rest_lineEnd (front : cursor.rest = line ++ '\n' :: below) (inner : '\n' ∉ line) :
    cursor.lineEnd.rest = '\n' :: below := by
  have same : cursor.line = line := by
    rw [Cursor.line, front]
    exact Text.line_append inner below
  rw [lineEnd, same]
  exact rest_advance front

/-- At the end of the source nothing is passed over. -/
theorem toContent_of_nil (ended : cursor.rest = []) : cursor.toContent.rest = [] := by
  have rest : cursor.skipGap.rest = [] := by
    rw [skipGap, rest_skipWhile, ended]
    rfl
  rw [toContent]
  split
  · rename_i found
    cases rest.symm.trans found
  · rename_i found
    cases rest.symm.trans found
  · exact rest

theorem lineEnd_skipGap (cursor : Cursor) : cursor.skipGap.lineEnd = cursor.lineEnd :=
  cursor.onLine_skipGap.lineEnd_eq

/-- The content of a line is entered behind the gap. -/
theorem toContent_of_content (front : cursor.rest = line ++ '\n' :: below) (inner : '\n' ∉ line)
    (content : line.hasContent = true) : cursor.toContent = cursor.skipGap := by
  have stands := rest_skipGap front
  rw [toContent]
  cases known : line.content with
  | nil =>
    rw [Line.hasContent, known] at content
    cases content
  | cons first more =>
    have inside : first ∈ line := line.content_subset (known ▸ List.mem_cons_self)
    rw [known] at stands
    rw [Line.hasContent, known] at content
    split
    · rename_i found
      rw [found] at stands
      exact absurd ((List.cons.inj stands).1 ▸ inside) inner
    · rename_i found
      rw [found] at stands
      rw [← (List.cons.inj stands).1] at content
      cases content
    · rfl

/-- A line without content is passed over. -/
theorem toContent_of_blank (front : cursor.rest = line ++ '\n' :: below) (inner : '\n' ∉ line)
    (blank : line.hasContent = false) :
    cursor.toContent = (cursor.lineEnd.advance 1).toContent := by
  have stands := rest_skipGap front
  rw [toContent]
  cases known : line.content with
  | nil =>
    have next : cursor.lineEnd.advance 1 = cursor.skipGap.advance 1 := by
      rw [← lineEnd_skipGap, lineEnd, line_behindGap front inner, known, advance_advance]
      rfl
    rw [known] at stands
    split
    · rw [next]
    · rename_i found
      rw [found] at stands
      cases stands
    · rename_i notLine _
      exact absurd stands (notLine below)
  | cons first more =>
    have comment : first = '#' := by
      rw [Line.hasContent, known] at blank
      simpa using blank
    subst comment
    rw [known] at stands
    have along : cursor.skipGap.OnLine 0 (cursor.skipGap.advance 1) := by
      have front : cursor.skipGap.rest = ['#'] ++ (more ++ '\n' :: below) := stands
      exact onLine_chunk front (by decide) (Nat.zero_le _)
    have next : (cursor.skipGap.advance 1).skipWhile (· ≠ '\n') = cursor.lineEnd :=
      along.lineEnd_eq.trans cursor.lineEnd_skipGap
    split
    · rename_i found
      rw [found] at stands
      cases stands
    · rw [next]
    · rename_i _ notComment
      exact absurd stands (notComment _)

/-- Lines without content are passed over, so the first line that may not fit
is the one that is entered. -/
theorem misfit_toContent (starts : cursor.StartsLine) :
    cursor.misfit levels = cursor.toContent.misfitAtContent levels := by
  induction left : cursor.left using Nat.strongRecOn generalizing cursor with
  | ind left ih =>
    subst left
    by_cases ended : cursor.rest = []
    · have rest := toContent_of_nil ended
      rw [misfit_nil ended, misfitAtContent, rest]
      rfl
    · rcases starts.closed.split ended with ⟨below, front⟩
      have inner := Text.newline_notMem_line cursor.rest
      cases content : Line.hasContent cursor.line with
      | true =>
        rw [toContent_of_content front inner content]
        exact misfit_content starts front inner content
      | false =>
        have next := startsLine_advance (starts.closed.advance _) (rest_lineEnd front inner)
        have shorter : (cursor.lineEnd.advance 1).left < cursor.left := by
          have whole := cursor.left_eq
          rw [front, List.length_append, List.length_cons] at whole
          rw [left_advance, lineEnd, left_advance]
          omega
        rw [misfit_blank front inner content, toContent_of_blank front inner content]
        exact ih _ shorter next rfl

end Cursor
end Manifest
