import Manifest.Proofs.Scan.Twins

/-!
# The same line in two texts

What the rules read from a line depends on the line alone.  So two scanners in front
of the same line read the same number of characters as the same token, or reject the
same number of them, whatever stands below and wherever the line begins.
-/

namespace Manifest

theorem rel_imp {α β : Type} {related weaker : α → β → Prop} {first : Option α} {second : Option β}
    (same : first.Rel related second) (imp : ∀ {one two}, related one two → weaker one two) :
    first.Rel weaker second := by
  cases same with
  | none => exact .none
  | some same => exact .some (imp same)

namespace Cursor

variable {cursor other : Cursor} {line : Line} {count : Nat}

/-- Two cursors have the same rest of a line in front of them. -/
structure Shares (line : Line) (cursor other : Cursor) : Prop where
  inner : '\n' ∉ line
  front : ∃ below, cursor.rest = line ++ '\n' :: below
  twin : ∃ below, other.rest = line ++ '\n' :: below

namespace Shares

theorem faces (shares : Shares line cursor other) : ∃ below, cursor.Faces line below := by
  rcases shares.front with ⟨below, front⟩
  exact ⟨below, shares.inner, _, Text.margin_newline below, front⟩

theorem symm (shares : Shares line cursor other) : Shares line other cursor :=
  ⟨shares.inner, shares.twin, shares.front⟩

theorem rest_isEmpty (shares : Shares line cursor other) : cursor.rest.isEmpty = false := by
  rcases shares.faces with ⟨below, faces⟩
  exact faces.rest_isEmpty

theorem line_eq (shares : Shares line cursor other) : cursor.line = line := by
  rcases shares.front with ⟨below, front⟩
  rw [Cursor.line, front]
  exact Text.line_append shares.inner below

theorem rest_advance (front : ∃ below, cursor.rest = line ++ '\n' :: below)
    (short : count ≤ line.length) :
    ∃ below, (cursor.advance count).rest = line.drop count ++ '\n' :: below := by
  rcases front with ⟨below, front⟩
  refine ⟨below, ?_⟩
  change cursor.rest.drop count = _
  rw [front, List.drop_append_of_le_length short]

theorem advance (shares : Shares line cursor other) (short : count ≤ line.length) :
    Shares (line.drop count) (cursor.advance count) (other.advance count) :=
  ⟨fun inside => shares.inner (List.mem_of_mem_drop inside), rest_advance shares.front short,
    rest_advance shares.twin short⟩

theorem skipGap_eq (shares : Shares line cursor other) :
    cursor.skipGap = cursor.advance line.width := by
  rcases shares.front with ⟨below, front⟩
  exact skipGap_line front

theorem skipGap (shares : Shares line cursor other) :
    Shares line.content cursor.skipGap other.skipGap := by
  rw [shares.skipGap_eq, shares.symm.skipGap_eq, ← line.drop_width]
  exact shares.advance line.width_le

end Shares
end Cursor

namespace Scanner

variable {scanner other next twin : Scanner} {line : Line}

/-- Two scanners do the same with what is left of a line. -/
inductive Matched (line : Line) (scanner other : Scanner) : Scanner → Scanner → Prop
  | read (count : Nat) (lexeme : Lexeme) : count ≤ line.length → lexeme.isAccepted = true →
      Matched line scanner other (scanner.read count lexeme) (other.read count lexeme)
  | reject (count : Nat) : count ≤ line.length →
      Matched line scanner other (scanner.reject count) (other.reject count)

/-- A rule does the same for two scanners.  Behind the sign of a literal assignment
they go on with the scalar. -/
inductive MatchedRule (line : Line) (scanner other : Scanner) (next twin : Scanner) : Prop
  | once : Matched line scanner other next twin → MatchedRule line scanner other next twin
  | literal : 1 ≤ line.length → Matched (Line.content (line.drop 1))
      (scanner.read 1 (.assignment true)).skipGap (other.read 1 (.assignment true)).skipGap
      next twin → MatchedRule line scanner other next twin

variable (shares : scanner.cursor.Shares line other.cursor)

include shares

theorem mark_matched (fresh : line ≠ [] → other.cursor.fresh = scanner.cursor.fresh) :
    scanner.mark.Rel (Matched line scanner other) other.mark := by
  rcases shares.faces with ⟨below, faces⟩
  rcases shares.symm.faces with ⟨more, twin⟩
  have same : atSectionStart other.cursor = atSectionStart scanner.cursor := by
    rw [faces.atSectionStart_eq, twin.atSectionStart_eq]
    by_cases none : line = []
    · rw [none]
      exact (Bool.and_false _).trans (Bool.and_false _).symm
    · rw [fresh none]
  rw [mark_of_faces faces, mark_of_faces twin, same]
  split
  · rename_i starts
    rw [faces.atSectionStart_eq, Cursor.startsMark, Bool.and_eq_true, Bool.and_eq_true] at starts
    exact .some (.read 3 _ (List.isPrefixOf_iff_prefix.mp starts.2.1).length_le rfl)
  · cases found : marks.find? (fun entry => entry.1.toList.isPrefixOf line) with
    | none => exact .none
    | some entry =>
      have starts : entry.1.toList.isPrefixOf line = true := by simpa using List.find?_some found
      have short := (List.isPrefixOf_iff_prefix.mp starts).length_le
      rw [String.length_toList] at short
      have members : ∀ entry ∈ marks, entry.2.isAccepted = true := by decide
      exact .some (.read _ _ short (members _ (List.mem_of_find?_eq_some found)))

theorem quoted_matched : scanner.quoted.Rel (Matched line scanner other) other.quoted := by
  rcases shares.front with ⟨below, front⟩
  rcases shares.twin with ⟨more, twin⟩
  cases line with
  | nil =>
    have plain : ∀ {scanner : Scanner} {below : List Char},
        scanner.cursor.rest = '\n' :: below → scanner.quoted = none := fun front =>
      quoted_eq_none front (by decide) (by decide)
    rw [plain front, plain twin]
    exact .none
  | cons first line =>
    have inner : '\n' ∉ line := fun inside => shares.inner (List.mem_cons_of_mem _ inside)
    rw [quoted, quoted, front, twin, List.cons_append, List.cons_append]
    dsimp only
    rw [Text.line_append inner, Text.line_append inner]
    split
    · split
      · refine .some (.read _ _ ?_ rfl)
        exact Nat.sub_le _ _
      · exact .some (.reject _ (Nat.le_refl _))
    · exact .none

theorem number_matched : scanner.number.Rel (Matched line scanner other) other.number := by
  rcases shares.faces with ⟨below, faces⟩
  rcases shares.symm.faces with ⟨more, twin⟩
  rw [number_of_faces faces, number_of_faces twin]
  cases splits : Scalar.splitNumeral line with
  | none => exact .none
  | some split =>
    rw [Option.bind_some, Option.bind_some]
    split
    · exact .none
    · cases Scalar.readNumeral split.1 with
      | none => exact .none
      | some value => exact .some (.read _ _ (length_numeral_le splits) rfl)

theorem symbol_matched : scanner.symbol.Rel (Matched line scanner other) other.symbol := by
  rcases shares.faces with ⟨below, faces⟩
  rcases shares.symm.faces with ⟨more, twin⟩
  rcases symbolText_of_faces faces with ⟨starts, text⟩
  rcases symbolText_of_faces twin with ⟨twinStarts, twinText⟩
  rw [symbol, symbol, starts, twinStarts, text, twinText]
  split
  · refine .some (.read _ _ (length_symbolText_le line) ?_)
    split <;> rfl
  · exact .none

theorem literalValue_matched : Matched line.content scanner.skipGap other.skipGap
    scanner.literalValue other.literalValue := by
  have moved : scanner.skipGap.cursor.Shares line.content other.skipGap.cursor := shares.skipGap
  rcases moved.faces with ⟨below, faces⟩
  rcases moved.symm.faces with ⟨more, twin⟩
  rw [literalValue_of_faces faces rfl, literalValue_of_faces twin rfl]
  refine rel_getD (quoted_matched moved)
    (.read _ _ (Text.length_trimEnd_takeWhile_le line.content _) ?_)
  split
  · rfl
  · split
    · rfl
    · exact isAccepted_classify _

theorem colon_matched (follows : line ≠ [] → other.followsSymbol = scanner.followsSymbol) :
    scanner.colon.Rel (MatchedRule line scanner other) other.colon := by
  rcases shares.faces with ⟨below, faces⟩
  rcases shares.symm.faces with ⟨more, twin⟩
  by_cases starts : line.head? = some ':'
  · rcases List.head?_eq_some_iff.mp starts with ⟨_ | ⟨first, tail⟩, rfl⟩
    · rw [colon_of_end faces, colon_of_end twin]
      exact .some (.once (.read 1 _ (Nat.le_refl 1) rfl))
    · have one : 1 ≤ (':' :: first :: tail).length := Nat.succ_pos _
      have two : 2 ≤ (':' :: first :: tail).length := Nat.succ_le_succ (Nat.succ_pos _)
      rw [colon_of_faces faces, colon_of_faces twin, follows (List.cons_ne_nil _ _)]
      split
      · exact .some (.once (.read 2 _ two rfl))
      · split
        · split
          · exact .some (.once (.read 1 _ one rfl))
          · have moved : (scanner.read 1 (.assignment true)).cursor.Shares (first :: tail)
                (other.read 1 (.assignment true)).cursor := by
              rw [read, read, cursor_emit, cursor_emit]
              exact shares.advance one
            exact .some (.literal one (literalValue_matched moved))
        · split
          · exact .some (.once (.read 1 _ one rfl))
          · exact .none
  · rw [colon_eq_none_of_faces faces starts, colon_eq_none_of_faces twin starts]
    exact .none

theorem content_matched (fresh : line ≠ [] → other.cursor.fresh = scanner.cursor.fresh)
    (follows : line ≠ [] → other.followsSymbol = scanner.followsSymbol) :
    scanner.content.Rel (MatchedRule line scanner other) other.content := by
  have once : ∀ {first second : Option Scanner}, first.Rel (Matched line scanner other) second →
      first.Rel (MatchedRule line scanner other) second := fun same => rel_imp same .once
  exact rel_orElse (once (mark_matched shares fresh)) (rel_orElse (colon_matched shares follows)
    (rel_orElse (once (quoted_matched shares)) (rel_orElse (once (number_matched shares))
      (once (symbol_matched shares)))))

end Scanner
end Manifest
