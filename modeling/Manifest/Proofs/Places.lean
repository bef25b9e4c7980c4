import Mathlib.Data.Prod.Lex
import Manifest.Proofs.Scan.Noise
import Manifest.Proofs.Scan.Slices

/-!
# Places and offsets

A place is found by reading a text from its beginning, one character after the other.
What has been read falls into whole lines and the beginning of one more: the line counts
the whole ones and the column the characters of the other.  So the two numbers tell the
offset again, and they grow with it, the line before the column.
-/

namespace Manifest

/-! ## Boundaries between characters -/

namespace Text

/-- The offsets between two characters of a text, with its beginning and its end. -/
def boundaries (text : String) : Set Nat :=
  {offset | (⟨offset⟩ : String.Pos.Raw).IsValid text}

/-- A boundary splits a text, and what is in front has that many bytes. -/
theorem mem_boundaries {text : String} {offset : Nat} :
    offset ∈ boundaries text ↔
      ∃ front behind, text.toList = front ++ behind ∧ bytes front = offset := by
  refine String.Pos.Raw.isValid_iff_exists_append.trans ⟨?_, ?_⟩
  · rintro ⟨front, behind, rfl, reached⟩
    refine ⟨front.toList, behind.toList, String.toList_append, ?_⟩
    rw [← utf8ByteSize_ofList, String.ofList_toList]
    exact (congrArg String.Pos.Raw.byteIdx reached).symm
  · rintro ⟨front, behind, split, rfl⟩
    refine ⟨String.ofList front, String.ofList behind, ?_, ?_⟩
    · rw [← String.ofList_append, ← split, String.ofList_toList]
    · rw [← utf8ByteSize_ofList]
      rfl

theorem utf8ByteSize_mem_boundaries (text : String) : text.utf8ByteSize ∈ boundaries text :=
  String.Pos.Raw.isValid_rawEndPos

/-- Of two boundaries the later one has more characters in front of it. -/
theorem exists_cons_of_bytes_lt {front other behind rest : List Char}
    (same : front ++ behind = other ++ rest) (less : bytes front < bytes other) :
    ∃ character more, other = front ++ character :: more := by
  rcases List.append_eq_append_iff.mp same with ⟨between, rfl, _⟩ | ⟨between, rfl, _⟩
  · cases between with
    | nil =>
      rw [List.append_nil] at less
      exact absurd less (Nat.lt_irrefl _)
    | cons character more => exact ⟨character, more, rfl⟩
  · rw [bytes_append] at less
    omega

end Text

/-! ## Lines in front of a place -/

namespace Line

variable {lines : List Line} {begun : Line}

theorem offsetBehind_eq (lines : List Line) : offsetBehind lines = Text.bytes (written lines) := by
  induction lines with
  | nil => rfl
  | cons line lines ih =>
    have front : written (line :: lines) = (line ++ ['\n']) ++ written lines := by
      rw [List.append_assoc]
      rfl
    rw [offsetBehind, ih, front, Text.bytes_append, Text.bytes_concat_newline]

theorem written_concat (lines : List Line) (line : Line) :
    written (lines ++ [line]) = written lines ++ line ++ ['\n'] := by
  induction lines with
  | nil => rfl
  | cons first lines ih =>
    rw [List.cons_append, written, ih, written]
    simp only [List.append_assoc, List.cons_append]

/-- The first line of a text goes on from what is known of it. -/
theorem splitOn_append_of_notMem (inner : '\n' ∉ begun) (behind : List Char) :
    ∃ ahead more, (begun ++ behind).splitOn '\n' = (begun ++ ahead) :: more := by
  by_cases ends : '\n' ∈ behind
  · rcases List.eq_append_cons_of_mem ends with ⟨ahead, below, rfl, outside⟩
    refine ⟨ahead, below.splitOn '\n', ?_⟩
    rw [← List.append_assoc]
    exact List.splitOn_append_cons_self_of_not_mem
      (fun inside => (List.mem_append.mp inside).elim inner outside) below
  · refine ⟨behind, [], List.splitOn_eq_singleton fun inside => ?_⟩
    exact (List.mem_append.mp inside).elim inner ends

end Line

namespace Position

variable {position : Position} {lines : List Line} {begun : Line} {text : String}

/-- A place stands behind some whole lines and the beginning of one more. -/
structure Behind (position : Position) (lines : List Line) (begun : Line) : Prop where
  whole : ∀ line ∈ lines, '\n' ∉ line
  inner : '\n' ∉ begun
  line_eq : position.line = lines.length
  column_eq : position.column = begun.length

theorem behind_start : start.Behind [] [] :=
  ⟨List.forall_mem_nil _, List.not_mem_nil, rfl, rfl⟩

/-- A line feed completes the line, and any other character belongs to it. -/
theorem Behind.after (behind : position.Behind lines begun) (character : Char) :
    ∃ others more, Line.written others ++ more = Line.written lines ++ begun ++ [character] ∧
      (position.after character).Behind others more := by
  rcases behind with ⟨whole, inner, line_eq, column_eq⟩
  by_cases ends : character = '\n'
  · -- the line is a whole one now, and nothing of the next one has been read
    subst ends
    refine ⟨lines ++ [begun], [], ?_, ?_, List.not_mem_nil, ?_, rfl⟩
    · rw [Line.written_concat, List.append_nil]
    · exact List.forall_mem_append.mpr ⟨whole, List.forall_mem_singleton.mpr inner⟩
    · rw [List.length_append, ← line_eq]
      rfl
  · refine ⟨lines, begun ++ [character], (List.append_assoc _ _ _).symm, whole, ?_, ?_, ?_⟩
    · intro inside
      rcases List.mem_append.mp inside with inside | inside
      · exact inner inside
      · exact ends (List.mem_singleton.mp inside).symm
    · rw [Position.after, if_neg ends]
      exact line_eq
    · rw [Position.after, if_neg ends, List.length_append, ← column_eq]
      rfl

theorem Behind.afterAll (behind : position.Behind lines begun) (read : List Char) :
    ∃ others more, Line.written others ++ more = Line.written lines ++ begun ++ read ∧
      (position.afterAll read).Behind others more := by
  induction read generalizing position lines begun with
  | nil => exact ⟨lines, begun, (List.append_nil _).symm, behind⟩
  | cons character read ih =>
    rcases behind.after character with ⟨others, more, split, next⟩
    rcases ih next with ⟨further, last, whole, reached⟩
    refine ⟨further, last, ?_, reached⟩
    rw [whole, split, List.append_assoc _ [character]]
    rfl

/-- Line and column denote an offset of a text: there is such a line, it has at least that
many characters, and these take as many bytes together with all earlier lines and their
line feeds. -/
def Denotes (position : Position) (text : String) (offset : Nat) : Prop :=
  let lines := text.toList.splitOn '\n'
  ∃ line, lines[position.line]? = some line ∧ position.column ≤ line.length ∧
    Line.offsetBehind (lines.take position.line) + Text.bytes (line.take position.column) = offset

/-- Whatever stands behind a place, the lines in front of it are lines of the text. -/
theorem Behind.denotes {rest : List Char} (behind : position.Behind lines begun)
    (split : text.toList = Line.written lines ++ begun ++ rest) :
    position.Denotes text (Text.bytes (Line.written lines ++ begun)) := by
  rcases Line.splitOn_append_of_notMem behind.inner rest with ⟨ahead, below, first⟩
  have all : text.toList.splitOn '\n' = lines ++ (begun ++ ahead) :: below := by
    rw [split, List.append_assoc, Line.splitOn_written_append behind.whole, first]
  rw [Denotes, all, behind.line_eq, behind.column_eq]
  refine ⟨begun ++ ahead, ?_, ?_, ?_⟩
  · rw [List.getElem?_append_right (Nat.le_refl _), Nat.sub_self]
    rfl
  · rw [List.length_append]
    exact Nat.le_add_right _ _
  · rw [List.take_left, List.take_left, Line.offsetBehind_eq, Text.bytes_append]

/-! ## The order of places -/

/-- Line and column, compared line first. -/
def coordinates (position : Position) : Nat ×ₗ Nat :=
  toLex (position.line, position.column)

theorem coordinates_lt_after (position : Position) (character : Char) :
    position.coordinates < (position.after character).coordinates := by
  rw [coordinates, coordinates, Prod.Lex.toLex_lt_toLex, after]
  split
  · exact .inl (Nat.lt_succ_self _)
  · exact .inr ⟨rfl, Nat.lt_succ_self _⟩

theorem coordinates_le_afterAll (position : Position) (read : List Char) :
    position.coordinates ≤ (position.afterAll read).coordinates := by
  induction read generalizing position with
  | nil => exact le_refl _
  | cons character read ih => exact (position.coordinates_lt_after character).le.trans (ih _)

/-! ## Offsets of a text -/

theorem locate_denotes {offset : Nat} (boundary : offset ∈ Text.boundaries text) :
    (locate text offset).offset = offset ∧ (locate text offset).Denotes text offset := by
  rcases Text.mem_boundaries.mp boundary with ⟨front, rest, split, rfl⟩
  rw [locate_of_append split]
  refine ⟨(offset_afterAll start front).trans (Nat.zero_add _), ?_⟩
  rcases behind_start.afterAll front with ⟨lines, begun, whole, behind⟩
  have read : Line.written lines ++ begun = front := whole
  rw [← read] at split behind ⊢
  exact behind.denotes split

theorem strictMonoOn_coordinates (text : String) :
    StrictMonoOn (fun offset => (locate text offset).coordinates) (Text.boundaries text) := by
  intro first inside second further less
  rcases Text.mem_boundaries.mp inside with ⟨front, behind, split, rfl⟩
  rcases Text.mem_boundaries.mp further with ⟨other, rest, again, rfl⟩
  rcases Text.exists_cons_of_bytes_lt (split.symm.trans again) less with ⟨character, more, rfl⟩
  have later : start.afterAll (front ++ character :: more) =
      ((start.afterAll front).after character).afterAll more := List.foldl_append
  -- the character behind the earlier boundary makes the order strict, whatever comes then
  dsimp only
  rw [locate_of_append split, locate_of_append again, later]
  exact (coordinates_lt_after _ character).trans_le (coordinates_le_afterAll _ more)

/-- A walk never goes beyond the end of a text. -/
theorem walk_beyond {read : List Char} {offset : Nat}
    (far : position.offset + Text.bytes read ≤ offset) :
    position.walk read offset = position.afterAll read := by
  induction read generalizing position with
  | nil => rfl
  | cons character read ih =>
    rw [Text.bytes, ← Nat.add_assoc] at far
    rw [walk, if_pos (Nat.le_of_add_right_le far), ih]
    · rfl
    · rwa [offset_after]

theorem locate_beyond {offset : Nat} (beyond : text.utf8ByteSize ≤ offset) :
    locate text offset = start.afterAll text.toList := by
  refine walk_beyond ?_
  rwa [← Text.utf8ByteSize_ofList, String.ofList_toList, show start.offset = 0 from rfl,
    Nat.zero_add]

/-- Every boundary of a text is denoted by the line and the column that are found for it.
So no two boundaries are found at the same line and column, and of two of them the later
one is found behind the earlier one.  What lies beyond the end is found at the end. -/
theorem locate_inverts_offsets (text : String) :
    (∀ offset ∈ Text.boundaries text,
      (locate text offset).offset = offset ∧ (locate text offset).Denotes text offset) ∧
    (Text.boundaries text).InjOn (fun offset => (locate text offset).coordinates) ∧
    StrictMonoOn (fun offset => (locate text offset).coordinates) (Text.boundaries text) ∧
    text.utf8ByteSize ∈ Text.boundaries text ∧
    ∀ offset, text.utf8ByteSize < offset → locate text offset = locate text text.utf8ByteSize := by
  have increasing := strictMonoOn_coordinates text
  refine ⟨fun offset => locate_denotes, increasing.injOn, increasing,
    Text.utf8ByteSize_mem_boundaries text, fun offset beyond => ?_⟩
  rw [locate_beyond beyond.le, locate_beyond (Nat.le_refl _)]

/-- Characters of every width around an empty line.  The end is behind the last line feed. -/
theorem locate_inverts_offsets_wide :
    let text := "é\n\n𝄞x€\r\n"
    3 ∈ Text.boundaries text ∧ 9 ∈ Text.boundaries text ∧
      locate text 3 = ⟨1, 0, 3⟩ ∧ Denotes ⟨1, 0, 3⟩ text 3 ∧
      locate text 9 = ⟨2, 2, 9⟩ ∧ Denotes ⟨2, 2, 9⟩ text 9 ∧
      (locate text 3).coordinates ≠ (locate text 9).coordinates ∧
      (locate text 3).coordinates < (locate text 9).coordinates ∧
      text.utf8ByteSize < 20 ∧ locate text 20 = ⟨3, 0, 14⟩ := by
  intro text
  have third : 3 ∈ Text.boundaries text :=
    Text.mem_boundaries.mpr ⟨['é', '\n'], "\n𝄞x€\r\n".toList, by decide, by decide⟩
  have ninth : 9 ∈ Text.boundaries text :=
    Text.mem_boundaries.mpr ⟨"é\n\n𝄞x".toList, ['€', '\r', '\n'], by decide, by decide⟩
  have short : text.utf8ByteSize < 20 := by decide
  have empty : locate text 3 = ⟨1, 0, 3⟩ := by decide
  have inner : locate text 9 = ⟨2, 2, 9⟩ := by decide
  have final : locate text text.utf8ByteSize = ⟨3, 0, 14⟩ := by decide
  rcases locate_inverts_offsets text with ⟨denoted, apart, increasing, _, beyond⟩
  refine ⟨third, ninth, empty, empty ▸ (denoted 3 third).2, inner, inner ▸ (denoted 9 ninth).2,
    fun same => ?_, increasing third ninth (by decide), short, (beyond 20 short).trans final⟩
  cases apart third ninth same

end Position
end Manifest
