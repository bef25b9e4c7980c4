import Mathlib.Data.List.Find
import Manifest.Proofs.Scan.Margin

/-!
# In front of a line

A cursor faces a line with its margin.  What a rule reads there, and how much
of it, is a matter of the line alone.
-/

namespace Manifest

namespace Line

theorem content_append_gap (line : Line) {gap : List Char} (all : gap.all Text.isGap = true) :
    content (line ++ gap) = if line.content = [] then [] else line.content ++ gap := by
  rw [content, List.dropWhile_append, ← content]
  by_cases blank : line.content = []
  · rw [if_pos blank, if_pos (List.isEmpty_iff.mpr blank)]
    exact List.dropWhile_eq_nil_iff.mpr (List.all_eq_true.mp all)
  · rw [if_neg blank, if_neg fun empty => blank (List.isEmpty_iff.mp empty)]

theorem gap_append_content (line : Line) : line.gap ++ line.content = line :=
  List.takeWhile_append_dropWhile

theorem width_le (line : Line) : line.width ≤ line.length :=
  (List.takeWhile_prefix Text.isGap).length_le

theorem drop_width (line : Line) : line.drop line.width = line.content := by
  have split : line.drop line.gap.length = (line.gap ++ line.content).drop line.gap.length := by
    rw [line.gap_append_content]
  exact split.trans List.drop_left

theorem head_content {line : Line} {first : Char} (stands : line.content.head? = some first) :
    Text.isGap first = false := by
  have passed := List.head?_dropWhile_not Text.isGap line
  rw [← content, stands] at passed
  exact passed

end Line

namespace Cursor

variable {cursor other : Cursor} {line : Line} {below more : List Char} {count : Nat}

/-- A cursor faces a line with its margin, and what stands below. -/
structure Faces (cursor : Cursor) (line : Line) (below : List Char) : Prop where
  inner : '\n' ∉ line
  front : ∃ margin, Text.Margin below margin ∧ cursor.rest = line ++ margin

namespace Faces

theorem of_line {gap : List Char} (inner : '\n' ∉ line) (all : gap.all Text.isGap = true)
    (front : cursor.rest = (line ++ gap) ++ '\n' :: below) : cursor.Faces line below :=
  ⟨inner, gap ++ '\n' :: below, ⟨gap, all, rfl⟩, by rw [front, List.append_assoc]⟩

/-- In front of a margin, or of another character, there is no mark. -/
theorem head_ne (faces : cursor.Faces line below) : ∃ first behind, cursor.rest = first :: behind ∧
    ∀ mark, mark ∉ Text.edges → line.head? ≠ some mark → first ≠ mark := by
  rcases faces.front with ⟨margin, stands, front⟩
  cases line with
  | nil =>
    rcases stands.head with ⟨edge, others, rfl, known⟩
    exact ⟨edge, others, front, fun mark foreign _ same => foreign (same ▸ known)⟩
  | cons first line =>
    exact ⟨first, line ++ margin, front, fun mark _ other same => other (same ▸ rfl)⟩

theorem rest_isEmpty (faces : cursor.Faces line below) : cursor.rest.isEmpty = false := by
  rcases faces.head_ne with ⟨first, behind, front, _⟩
  rw [front]
  rfl

theorem line_eq (faces : cursor.Faces line below) :
    ∃ gap : List Char, gap.all Text.isGap = true ∧ cursor.line = line ++ gap := by
  rcases faces.front with ⟨margin, stands, front⟩
  rw [Cursor.line, front]
  exact stands.line_append faces.inner

theorem lineEnd (faces : cursor.Faces line below) : cursor.lineEnd.Faces [] below := by
  rcases faces.front with ⟨margin, ⟨gap, all, rfl⟩, front⟩
  rw [← List.append_assoc] at front
  have inner : '\n' ∉ line ++ gap := fun inside =>
    (List.mem_append.mp inside).elim faces.inner (Text.newline_notMem_of_gap all)
  exact ⟨List.not_mem_nil, '\n' :: below, Text.margin_newline below, rest_lineEnd front inner⟩

theorem take (faces : cursor.Faces line below) (short : count ≤ line.length) :
    cursor.rest.take count = line.take count := by
  rcases faces.front with ⟨margin, stands, front⟩
  rw [front, List.take_append_of_le_length short]

theorem advance (faces : cursor.Faces line below) (short : count ≤ line.length) :
    (cursor.advance count).Faces (line.drop count) below := by
  rcases faces.front with ⟨margin, stands, front⟩
  refine ⟨fun inside => faces.inner (List.mem_of_mem_drop inside), margin, stands, ?_⟩
  change cursor.rest.drop count = _
  rw [front, List.drop_append_of_le_length short]

theorem column_advance (faces : cursor.Faces line below) (short : count ≤ line.length) :
    (cursor.advance count).column = cursor.column + (line.take count).length := by
  rw [Cursor.column, Cursor.advance, faces.take short]
  exact Position.column_afterAll (fun inside => faces.inner (List.mem_of_mem_take inside))
    cursor.place

theorem offset_advance (faces : cursor.Faces line below) (short : count ≤ line.length) :
    (cursor.advance count).offset = cursor.offset + Text.bytes (line.take count) := by
  rw [Cursor.offset, Cursor.advance, faces.take short]
  exact cursor.place.offset_afterAll _

theorem fresh_advance (faces : cursor.Faces line below) (short : count ≤ line.length) :
    (cursor.advance count).fresh = (line.take count).foldl
      (fun fresh character => character == '\n' || fresh && Text.isGap character)
      cursor.fresh := by
  rw [Cursor.advance, faces.take short]

/-- Behind a gap a cursor faces the content, or the end of the line. -/
theorem skipGap (faces : cursor.Faces line below) : cursor.skipGap.Faces line.content below := by
  have inner : '\n' ∉ line.content := fun inside => faces.inner (line.content_subset inside)
  rcases faces.front with ⟨margin, ⟨gap, all, rfl⟩, front⟩
  rw [← List.append_assoc] at front
  have rest : cursor.skipGap.rest = Line.content (line ++ gap) ++ '\n' :: below :=
    rest_skipGap front
  rw [Line.content_append_gap line all] at rest
  split at rest
  · rename_i blank
    rw [blank]
    exact ⟨List.not_mem_nil, '\n' :: below, Text.margin_newline below, rest⟩
  · exact .of_line inner all rest

theorem skipGap_eq (faces : cursor.Faces line below) (some : line.content ≠ []) :
    cursor.skipGap = cursor.advance line.width := by
  rcases faces.front with ⟨margin, stands, front⟩
  have split : cursor.rest = line.gap ++ (line.content ++ margin) := by
    rw [front, ← List.append_assoc, line.gap_append_content]
  refine Cursor.skipGap_eq split ?_ ?_
  · exact List.all_eq_true.mpr fun character inside => List.mem_takeWhile_imp inside
  · intro character found
    rw [List.head?_append_of_ne_nil _ some] at found
    exact line.head_content found

end Faces

/-! ## Marks at the beginning of a line -/

/-- Whether a character may stand behind a mark made of hyphens. -/
def endsMark (next : Char) : Bool :=
  Text.isGap next || next == '\n'

/-- A text starts with a mark, and nothing else stands directly behind. -/
def startsMark (mark text : List Char) : Bool :=
  mark.isPrefixOf text && (text.drop mark.length).head?.all endsMark

theorem atListHyphen_eq_startsMark (behind : cursor.rest ≠ ['-']) :
    cursor.atListHyphen = (cursor.fresh && startsMark ['-'] cursor.rest) := by
  rw [atListHyphen]
  congr 1
  split
  · rename_i found
    rw [found]
    rfl
  · rename_i other
    refine (Bool.eq_false_iff.mpr fun starts => ?_).symm
    rw [startsMark, Bool.and_eq_true] at starts
    rcases List.isPrefixOf_iff_prefix.mp starts.1 with ⟨_ | ⟨next, tail⟩, whole⟩
    · exact behind whole.symm
    · exact other next tail whole.symm

theorem atSectionStart_eq_startsMark (cursor : Cursor) : Scanner.atSectionStart cursor =
    (cursor.fresh && startsMark ['-', '-', '-'] cursor.rest) := by
  rw [Scanner.atSectionStart]
  congr 1
  split
  · rename_i found
    rw [found]
    rfl
  · rename_i other
    refine (Bool.eq_false_iff.mpr fun starts => ?_).symm
    rw [startsMark, Bool.and_eq_true] at starts
    rcases List.isPrefixOf_iff_prefix.mp starts.1 with ⟨behind, whole⟩
    exact other behind whole.symm

namespace Faces

theorem startsMark_eq (faces : cursor.Faces line below) {mark : List Char}
    (apart : ∀ edge ∈ Text.edges, edge ∉ mark) :
    startsMark mark cursor.rest = startsMark mark line := by
  rcases faces.front with ⟨margin, stands, front⟩
  rw [startsMark, startsMark, front, stands.isPrefixOf_append apart]
  cases starts : mark.isPrefixOf line with
  | false => rfl
  | true =>
    have short := (List.isPrefixOf_iff_prefix.mp starts).length_le
    rw [List.drop_append_of_le_length short, stands.head?_all (Text.forall_edges (by decide))]

theorem atListHyphen_eq (faces : cursor.Faces line below) :
    cursor.atListHyphen = (cursor.fresh && startsMark ['-'] line) := by
  rw [atListHyphen_eq_startsMark, faces.startsMark_eq (Text.forall_edges (by decide))]
  rcases faces.front with ⟨margin, ⟨gap, all, rfl⟩, front⟩
  have inside : '\n' ∈ cursor.rest := by simp [front]
  intro alone
  rw [alone] at inside
  revert inside
  decide

theorem atSectionStart_eq (faces : cursor.Faces line below) : Scanner.atSectionStart cursor =
    (cursor.fresh && startsMark ['-', '-', '-'] line) := by
  rw [atSectionStart_eq_startsMark, faces.startsMark_eq (Text.forall_edges (by decide))]

/-! ## Comments and items -/

theorem trim_comment {first : Char} {tail : List Char}
    (faces : cursor.Faces (first :: tail) below) :
    Text.trim (cursor.line.drop 1) = Text.trim tail := by
  rcases faces.line_eq with ⟨gap, all, whole⟩
  rw [whole]
  exact Text.trim_append_gap tail all

theorem holdsAssignment_eq (faces : cursor.Faces line below) :
    holdsAssignment none cursor.line = holdsAssignment none line := by
  rcases faces.line_eq with ⟨gap, all, whole⟩
  rw [whole, holdsAssignment_append_gap all]

end Faces
end Cursor

/-! ## Rules of content -/

namespace Scanner

variable {scanner : Scanner} {line : Line} {below : List Char}

theorem mark_of_faces (faces : scanner.cursor.Faces line below) : scanner.mark =
    if atSectionStart scanner.cursor then some (scanner.read 3 .sectionStart)
    else (marks.find? fun entry => entry.1.toList.isPrefixOf line).map
      fun entry => scanner.read entry.1.length entry.2 := by
  rcases faces.front with ⟨margin, stands, front⟩
  have checked : marks.all (fun entry =>
      Text.edges.all fun edge => decide (edge ∉ entry.1.toList)) = true := by
    decide
  have found : marks.find? (fun entry => entry.1.toList.isPrefixOf scanner.cursor.rest) =
      marks.find? (fun entry => entry.1.toList.isPrefixOf line) := by
    refine List.find?_congr fun entry member => ?_
    rw [front]
    exact stands.isPrefixOf_append
      (Text.forall_edges (List.all_eq_true.mp checked entry member)) line
  rw [mark, ← found]

theorem quoted_eq_none_of_faces (faces : scanner.cursor.Faces line below)
    (single : line.head? ≠ some '\'') (double : line.head? ≠ some '"') : scanner.quoted = none := by
  rcases faces.head_ne with ⟨first, behind, front, other⟩
  exact quoted_eq_none front (other _ (by decide) single) (other _ (by decide) double)

/-- A string in quotes is closed on its line or not at all. -/
theorem quoted_of_faces {quote : Char} (faces : scanner.cursor.Faces (quote :: line) below)
    (isQuote : quote = '"' ∨ quote = '\'') :
    (∀ value after, readQuoted quote line = some (value, after) → scanner.quoted =
      some (scanner.read (line.length + 1 - after.length) (.text (String.ofList value)))) ∧
    (readQuoted quote line = none → ∃ count, scanner.quoted = some (scanner.reject count)) := by
  rcases faces.front with ⟨margin, stands, front⟩
  have inner : '\n' ∉ line := fun inside => faces.inner (List.mem_cons_of_mem _ inside)
  rcases stands.line_append inner with ⟨gap, all, whole⟩
  have outside : quote ∉ Text.edges := by
    rcases isQuote with rfl | rfl <;> decide
  rw [quoted, front, List.cons_append]
  dsimp only
  rw [if_pos (by simpa using isQuote), whole, readQuoted_append_gap outside all]
  constructor
  · intro value after closed
    have count : (line ++ gap).length + 1 - (after ++ gap).length =
        line.length + 1 - after.length := by
      rw [List.length_append, List.length_append]
      omega
    rw [closed]
    dsimp only [Option.map_some]
    rw [count]
  · intro opened
    rw [opened]
    exact ⟨_, rfl⟩

theorem number_of_faces (faces : scanner.cursor.Faces line below) : scanner.number =
    (Scalar.splitNumeral line).bind fun split =>
      if split.2.head?.any isSymbolChar then none
      else (Scalar.readNumeral split.1).map fun value =>
        scanner.read split.1.length (.number value) := by
  rcases faces.front with ⟨margin, stands, front⟩
  rw [number, front, Scalar.splitNumeral_append stands]
  cases Scalar.splitNumeral line with
  | none => rfl
  | some split =>
    dsimp only [Option.map_some, Option.bind_some]
    rw [stands.head?_any (Text.forall_edges (by decide))]

theorem symbolText_of_faces (faces : scanner.cursor.Faces line below) :
    scanner.cursor.rest.head?.any isSymbolStart = line.head?.any isSymbolStart ∧
      symbolText scanner.cursor.rest = symbolText line := by
  rcases faces.front with ⟨margin, stands, front⟩
  rw [front]
  exact ⟨stands.head?_any (Text.forall_edges (by decide)) line, stands.symbolText_append line⟩

/-- The scalar behind a literal assignment is trimmed, so it ends in front of a margin. -/
theorem literalValue_of_faces (faces : scanner.skipGap.cursor.Faces line below) {text : List Char}
    (trimmed : Text.trimEnd (line.takeWhile (· ≠ '#')) = text) :
    scanner.literalValue = scanner.skipGap.quoted.getD (scanner.skipGap.read text.length
      (if text = ['\x7b', '\x7d'] then .emptyMapping
        else if text = ['[', ']'] then .emptySequence
        else Scalar.classify text)) := by
  rcases faces.line_eq with ⟨gap, all, whole⟩
  have same := Text.trimEnd_uncommented line all
  rw [← whole, trimmed] at same
  rw [literalValue]
  split
  · rename_i found
    rw [show scanner.skipGap.quoted = some _ from found]
    rfl
  · rename_i none
    rw [show scanner.skipGap.quoted = .none from none]
    exact same ▸ rfl

theorem colon_eq_none_of_faces (faces : scanner.cursor.Faces line below)
    (other : line.head? ≠ some ':') : scanner.colon = none := by
  rcases faces.head_ne with ⟨first, behind, front, foreign⟩
  exact colon_eq_none front (foreign _ (by decide) other)

/-- The sign of an assignment at the end of its line. -/
theorem colon_of_end (faces : scanner.cursor.Faces [':'] below) :
    scanner.colon = some (scanner.read 1 (.assignment false)) := by
  rcases faces.front with ⟨margin, stands, front⟩
  have tail : Text.trimStart (Text.line margin) = [] := by
    rcases stands.line_append List.not_mem_nil with ⟨gap, all, whole⟩
    rw [List.nil_append, List.nil_append] at whole
    rw [whole]
    exact Text.trimStart_gap all
  have plain : ∀ edge ∈ Text.edges, edge ≠ '=' ∧ (edge ≠ '\n' → Text.isGap edge = true) :=
    Text.forall_edges (by decide)
  rcases stands.head with ⟨edge, others, rfl, known⟩
  rcases plain edge known with ⟨noEqual, gap⟩
  rw [colon_of_rest front, if_neg noEqual, tail]
  split
  · rfl
  · rename_i inner
    rw [if_pos (gap inner)]
    rfl

/-- Only the line of the sign matters. -/
theorem colon_of_faces {first : Char} {tail : List Char}
    (faces : scanner.cursor.Faces (':' :: first :: tail) below) :
    scanner.colon =
      if first = '=' then some (scanner.read 2 (.assignment false))
      else if Text.isGap first then
        if (Text.trimStart (first :: tail)).head?.all (· == '#') then
          some (scanner.read 1 (.assignment false))
        else some (scanner.read 1 (.assignment true)).literalValue
      else if isSymbolStart first && scanner.followsSymbol then some (scanner.read 1 .accessor)
      else none := by
  rcases faces.front with ⟨margin, stands, front⟩
  have inner : '\n' ∉ first :: tail := fun inside => faces.inner (List.mem_cons_of_mem _ inside)
  have noLine : first ≠ '\n' := fun same => inner (same ▸ List.mem_cons_self)
  rcases stands.line_append inner with ⟨gap, all, whole⟩
  have trimmed := Text.head?_trimStart_append_gap (first :: tail) all
  rw [← whole] at trimmed
  have spread : scanner.cursor.rest = ':' :: first :: (tail ++ margin) := front
  rw [colon_of_rest spread, if_neg noLine, ← trimmed, List.cons_append]
  split
  · rfl
  · split
    · cases Text.trimStart (Text.line (first :: (tail ++ margin))) with
      | nil => rfl
      | cons character others =>
        by_cases comment : character = '#'
        · subst comment
          rfl
        · rw [if_neg (by simp [comment]), if_neg (by simp [comment])]
    · rfl

end Scanner
end Manifest
