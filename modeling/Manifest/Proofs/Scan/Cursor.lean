import Mathlib.Data.List.TakeWhile
import Manifest.Proofs.Scan.Order

/-!
# Along a line

A cursor that reads characters of its line stays in front of the end of that
line.  The column grows by what has been read, and as soon as this is more
than a gap the cursor is no longer fresh.
-/

namespace Manifest

namespace Text

/-- A run of characters that pass a test, up to one that fails it. -/
theorem takeWhile_append {test : Char → Bool} {digits behind : List Char}
    (passes : digits.all test = true) (stops : ∀ character, behind.head? = some character →
      test character = false) :
    (digits ++ behind).takeWhile test = digits ∧ (digits ++ behind).dropWhile test = behind := by
  have all : ∀ digit ∈ digits, test digit = true := List.all_eq_true.mp passes
  constructor
  · rw [List.takeWhile_append_of_pos all]
    cases behind with
    | nil => rw [List.takeWhile_nil, List.append_nil]
    | cons character behind =>
      rw [List.takeWhile_cons_of_neg (by rw [stops character rfl]; exact Bool.false_ne_true),
        List.append_nil]
  · rw [List.dropWhile_append_of_pos all]
    cases behind with
    | nil => rfl
    | cons character behind =>
      rw [List.dropWhile_cons_of_neg (by rw [stops character rfl]; exact Bool.false_ne_true)]

theorem newline_notMem_line (text : List Char) : '\n' ∉ line text := by
  intro inside
  have passed := List.mem_takeWhile_imp inside
  simp at passed

theorem line_cons {first : Char} (inner : first ≠ '\n') (text : List Char) :
    line (first :: text) = first :: line text :=
  List.takeWhile_cons_of_pos (decide_eq_true inner)

/-- The line in front of a line end. -/
theorem line_append {text : List Char} (line : '\n' ∉ text) (behind : List Char) :
    Text.line (text ++ '\n' :: behind) = text := by
  induction text with
  | nil => rfl
  | cons character text ih =>
    have inner : character ≠ '\n' := fun same => line (same ▸ List.mem_cons_self)
    rw [List.cons_append, line_cons inner, ih fun found => line (List.mem_cons_of_mem _ found)]

/-- Characters without the end of a line belong to the line. -/
theorem length_le_line {text chunk behind : List Char} (front : text = chunk ++ behind)
    (inner : '\n' ∉ chunk) : chunk.length ≤ (line text).length := by
  have passes : ∀ character ∈ chunk, decide (character ≠ '\n') = true := fun character inside =>
    decide_eq_true fun same => inner (same ▸ inside)
  rw [line, front, List.takeWhile_append_of_pos passes, List.length_append]
  exact Nat.le_add_right _ _

/-- Behind some characters of a line stands what is left of it. -/
theorem line_drop {text : List Char} {count : Nat} (inner : count ≤ (line text).length) :
    line (text.drop count) = (line text).drop count := by
  have whole := @List.takeWhile_append_dropWhile _ (fun character => decide (character ≠ '\n')) text
  have stops := List.head?_dropWhile_not (fun character => decide (character ≠ '\n')) text
  have passes : ((line text).drop count).all (fun character => decide (character ≠ '\n')) = true :=
    List.all_eq_true.mpr fun character inside =>
      decide_eq_true fun same => newline_notMem_line text (same ▸ List.mem_of_mem_drop inside)
  have split : text.drop count =
      (line text).drop count ++ text.dropWhile (fun character => decide (character ≠ '\n')) := by
    conv_lhs => rw [← whole]
    exact List.drop_append_of_le_length inner
  rw [split]
  refine (takeWhile_append passes fun character stands => ?_).1
  rw [stands] at stops
  exact stops

end Text

namespace Position

theorem column_afterAll {text : List Char} (line : '\n' ∉ text) (position : Position) :
    (position.afterAll text).column = position.column + text.length := by
  induction text generalizing position with
  | nil => rfl
  | cons character text ih =>
    have inner : character ≠ '\n' := fun same => line (same ▸ List.mem_cons_self)
    have behind : '\n' ∉ text := fun found => line (List.mem_cons_of_mem _ found)
    have moved : (position.afterAll (character :: text)).column =
        ((position.after character).afterAll text).column := rfl
    rw [moved, ih behind, after, if_neg inner, List.length_cons]
    dsimp only
    omega

end Position

namespace Cursor

variable {cursor later : Cursor} {chunk behind : List Char} {least count : Nat}

theorem rest_advance (front : cursor.rest = chunk ++ behind) :
    (cursor.advance chunk.length).rest = behind := by
  change cursor.rest.drop chunk.length = behind
  rw [front]
  exact List.drop_left

theorem place_advance (front : cursor.rest = chunk ++ behind) :
    (cursor.advance chunk.length).place = cursor.place.afterAll chunk := by
  have taken : cursor.rest.take chunk.length = chunk := by
    rw [front]
    exact List.take_left
  exact congrArg cursor.place.afterAll taken

/-- The text between two cursors is what the first has in front of the other's rest. -/
theorem textTo_eq (front : cursor.rest = chunk ++ later.rest) : cursor.textTo later = chunk := by
  have far : cursor.left - later.left = chunk.length := by
    rw [cursor.left_eq, later.left_eq, front, List.length_append]
    omega
  rw [textTo, far, front]
  exact List.take_left

theorem column_advance (front : cursor.rest = chunk ++ behind) (line : '\n' ∉ chunk) :
    (cursor.advance chunk.length).column = cursor.column + chunk.length := by
  rw [column, place_advance front]
  exact Position.column_afterAll line cursor.place

theorem skipGap_eq (front : cursor.rest = chunk ++ behind) (gap : chunk.all Text.isGap = true)
    (stops : ∀ character, behind.head? = some character → Text.isGap character = false) :
    cursor.skipGap = cursor.advance chunk.length := by
  rw [skipGap, skipWhile, front, (Text.takeWhile_append gap stops).1]

theorem newline_notMem_gap (text : List Char) : '\n' ∉ text.takeWhile Text.isGap := by
  intro inside
  cases List.mem_takeWhile_imp inside

theorem column_skipGap (cursor : Cursor) :
    cursor.skipGap.column = cursor.column + (cursor.rest.takeWhile Text.isGap).length :=
  column_advance List.takeWhile_append_dropWhile.symm (newline_notMem_gap cursor.rest)

/-- Behind the end of a line nothing has been read of the next one. -/
theorem advance_newline {rest : List Char} (stands : cursor.rest = '\n' :: rest) :
    (cursor.advance 1).rest = rest ∧ (cursor.advance 1).column = 0 ∧
      (cursor.advance 1).fresh = true := by
  refine ⟨?_, ?_, ?_⟩
  · change cursor.rest.drop 1 = rest
    rw [stands]
    rfl
  · change (cursor.place.afterAll (cursor.rest.take 1)).column = 0
    rw [stands]
    rfl
  · change (cursor.rest.take 1).foldl _ cursor.fresh = true
    rw [stands]
    rfl

theorem exists_of_atListHyphen (hyphen : cursor.atListHyphen = true) :
    cursor.fresh = true ∧ ∃ next behind, cursor.rest = '-' :: next :: behind ∧
      (Text.isGap next || next == '\n') = true := by
  rw [atListHyphen, Bool.and_eq_true] at hyphen
  refine ⟨hyphen.1, ?_⟩
  have beside := hyphen.2
  split at beside
  · exact ⟨_, _, by assumption, beside⟩
  · cases beside

theorem advance_zero (cursor : Cursor) : cursor.advance 0 = cursor :=
  rfl

theorem advance_advance (cursor : Cursor) (first second : Nat) :
    (cursor.advance first).advance second = cursor.advance (first + second) := by
  have taken : cursor.rest.take (first + second) =
      cursor.rest.take first ++ (cursor.rest.drop first).take second := List.take_add
  have dropped : (cursor.rest.drop first).drop second = cursor.rest.drop (first + second) :=
    List.drop_drop
  simp only [advance, taken, dropped, Nat.sub_sub, Position.afterAll, List.foldl_append]

/-! ## Cursors on one line -/

/-- A later cursor on the same line, at least so many characters behind. -/
def OnLine (least : Nat) (cursor later : Cursor) : Prop :=
  ∃ count, least ≤ count ∧ count ≤ cursor.line.length ∧ later = cursor.advance count

/-- The end of the line. -/
def lineEnd (cursor : Cursor) : Cursor :=
  cursor.advance cursor.line.length

theorem onLine_chunk (front : cursor.rest = chunk ++ behind) (inner : '\n' ∉ chunk)
    (long : least ≤ chunk.length) : OnLine least cursor (cursor.advance chunk.length) :=
  ⟨chunk.length, long, Text.length_le_line front inner, rfl⟩

theorem onLine_skipGap (cursor : Cursor) : OnLine 0 cursor cursor.skipGap :=
  onLine_chunk List.takeWhile_append_dropWhile.symm (newline_notMem_gap cursor.rest)
    (Nat.zero_le _)

theorem OnLine.weaken (along : OnLine least cursor later) : OnLine 0 cursor later := by
  rcases along with ⟨count, _, short, same⟩
  exact ⟨count, Nat.zero_le _, short, same⟩

theorem line_advance (short : count ≤ cursor.line.length) :
    (cursor.advance count).line = cursor.line.drop count :=
  Text.line_drop short

theorem OnLine.trans {middle : Cursor} (along : OnLine least cursor middle)
    (further : OnLine 0 middle later) : OnLine least cursor later := by
  rcases along with ⟨first, long, short, rfl⟩
  rcases further with ⟨second, _, shorter, rfl⟩
  rw [line_advance short, List.length_drop] at shorter
  exact ⟨first + second, by omega, by omega, advance_advance _ _ _⟩

theorem OnLine.lineEnd_eq (along : OnLine least cursor later) : later.lineEnd = cursor.lineEnd := by
  rcases along with ⟨count, _, short, rfl⟩
  rw [lineEnd, line_advance short, List.length_drop, advance_advance, lineEnd]
  congr 1
  omega

/-- The first character of a line. -/
theorem exists_of_line {first : Char} {more : List Char} (line : cursor.line = first :: more) :
    ∃ behind, cursor.rest = first :: behind ∧ first ≠ '\n' := by
  have front : cursor.line <+: cursor.rest := List.takeWhile_prefix _
  rcases front with ⟨below, whole⟩
  rw [line, List.cons_append] at whole
  refine ⟨more ++ below, whole.symm, ?_⟩
  rintro rfl
  apply Text.newline_notMem_line cursor.rest
  change '\n' ∈ cursor.line
  rw [line]
  exact List.mem_cons_self

theorem length_line_le_left (cursor : Cursor) : cursor.line.length ≤ cursor.left := by
  rw [cursor.left_eq]
  exact (List.takeWhile_prefix _).length_le

theorem OnLine.left_lt (along : OnLine 1 cursor later) : later.left < cursor.left := by
  rcases along with ⟨count, long, short, rfl⟩
  have whole := cursor.length_line_le_left
  rw [left_advance]
  omega

/-! ## Fresh cursors -/

/-- What has been read of a line is not taken back by more of the same line. -/
theorem fresh_foldl {text : List Char} (inner : '\n' ∉ text) :
    text.foldl (fun fresh character => character == '\n' || fresh && Text.isGap character) false =
      false := by
  induction text with
  | nil => rfl
  | cons character text ih =>
    have other : (character == '\n') = false :=
      beq_eq_false_iff_ne.mpr fun same => inner (same ▸ List.mem_cons_self)
    rw [List.foldl_cons, other, Bool.false_and, Bool.or_false]
    exact ih fun inside => inner (List.mem_cons_of_mem _ inside)

/-- Nothing but a gap has been read. -/
theorem fresh_skipGap (fresh : cursor.fresh = true) : cursor.skipGap.fresh = true := by
  have taken : cursor.rest.take (cursor.rest.takeWhile Text.isGap).length =
      cursor.rest.takeWhile Text.isGap :=
    (List.prefix_iff_eq_take.mp (List.takeWhile_prefix _)).symm
  change (cursor.rest.take (cursor.rest.takeWhile Text.isGap).length).foldl _ cursor.fresh = true
  rw [taken, fresh]
  generalize cursor.rest = text
  induction text with
  | nil => rfl
  | cons character text ih =>
    cases gap : Text.isGap character with
    | false =>
      rw [List.takeWhile_cons_of_neg (by rw [gap]; exact Bool.false_ne_true)]
      rfl
    | true =>
      rw [List.takeWhile_cons_of_pos gap, List.foldl_cons, gap, Bool.and_true, Bool.or_true]
      exact ih

/-- Behind something that is no gap, or behind something that has been read
before, a cursor is not fresh. -/
theorem OnLine.fresh_eq_false (along : OnLine 1 cursor later)
    (read : cursor.fresh = true → ∀ character, cursor.rest.head? = some character →
      Text.isGap character = false) : later.fresh = false := by
  rcases along with ⟨count, long, short, rfl⟩
  have front : cursor.line <+: cursor.rest := List.takeWhile_prefix _
  rcases front with ⟨tail, whole⟩
  have taken : cursor.rest.take count = cursor.line.take count := by
    rw [← whole, List.take_append_of_le_length short]
  have inner : '\n' ∉ cursor.line.take count := fun inside =>
    Text.newline_notMem_line cursor.rest (List.mem_of_mem_take inside)
  change (cursor.rest.take count).foldl _ cursor.fresh = false
  rw [taken]
  cases known : cursor.line with
  | nil =>
    rw [known] at short
    exact absurd (Nat.le_trans long short) (Nat.not_succ_le_zero 0)
  | cons first more =>
    rcases Nat.exists_eq_add_of_le' long with ⟨fewer, rfl⟩
    rw [known, List.take_succ_cons] at inner
    have other : (first == '\n') = false :=
      beq_eq_false_iff_ne.mpr fun same => inner (same ▸ List.mem_cons_self)
    have stands : cursor.rest.head? = some first := by
      rw [← whole, known]
      rfl
    have began : (cursor.fresh && Text.isGap first) = false := by
      cases fresh : cursor.fresh with
      | false => rfl
      | true => exact read fresh first stands
    rw [List.take_succ_cons, List.foldl_cons, other, began]
    exact fresh_foldl fun inside => inner (List.mem_cons_of_mem _ inside)

end Cursor
end Manifest
