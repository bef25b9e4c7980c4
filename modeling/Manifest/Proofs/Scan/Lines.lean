import Manifest.Proofs.Scan.Cursor
import Manifest.Proofs.Trimming

/-!
# Steps inside a line

Every rule reads characters of one line, and at least one of them: the marks,
words and numerals hold no line end, and a quoted string is looked for in the
line alone.  So only the step at the end of a line leads out of it.
-/

namespace Manifest

/-! ## What is read as one token -/

theorem Text.length_trimEnd_le (text : List Char) : (trimEnd text).length ≤ text.length :=
  (isPrefix_trimEnd text).length_le

theorem Text.length_trimEnd_takeWhile_le (text : List Char) (test : Char → Bool) :
    (trimEnd (text.takeWhile test)).length ≤ text.length :=
  Nat.le_trans (length_trimEnd_le _) (List.takeWhile_prefix test).length_le

/-- The digits of a numeral stand alone or with a fraction behind them. -/
theorem splitNumeral_cases {text numeral behind : List Char}
    (splits : Scalar.splitNumeral text = some (numeral, behind)) :
    ∃ sign unsigned, text = sign ++ unsigned ∧ (∀ character ∈ sign, character = '-') ∧
      (numeral = sign ++ unsigned.takeWhile Text.isDigit ∧
          behind = unsigned.dropWhile Text.isDigit ∨
        ∃ fraction, unsigned.dropWhile Text.isDigit = '.' :: fraction ∧
          numeral = sign ++ unsigned.takeWhile Text.isDigit ++
            '.' :: fraction.takeWhile Text.isDigit ∧
          behind = fraction.dropWhile Text.isDigit) := by
  rw [Scalar.splitNumeral.eq_def] at splits
  dsimp only at splits
  -- with and without a sign
  split at splits
  · refine ⟨['-'], _, rfl, fun _ => List.mem_singleton.mp, ?_⟩
    grind
  · refine ⟨[], text, rfl, List.forall_mem_nil _, ?_⟩
    grind

/-- A numeral consists of digits, a sign and a point. -/
theorem forall_mem_numeral {text numeral behind : List Char}
    (splits : Scalar.splitNumeral text = some (numeral, behind)) :
    ∀ character ∈ numeral, Text.isDigit character = true ∨ character = '-' ∨ character = '.' := by
  have digits : ∀ text : List Char, ∀ character ∈ text.takeWhile Text.isDigit,
      Text.isDigit character = true := fun _ _ inside => List.mem_takeWhile_imp inside
  intro character inside
  rcases splitNumeral_cases splits with
    ⟨sign, unsigned, rfl, signed, ⟨rfl, rfl⟩ | ⟨fraction, point, rfl, rfl⟩⟩
  · rcases List.mem_append.mp inside with inside | inside
    · exact .inr (.inl (signed character inside))
    · exact .inl (digits _ character inside)
  · rcases List.mem_append.mp inside with inside | inside
    · rcases List.mem_append.mp inside with inside | inside
      · exact .inr (.inl (signed character inside))
      · exact .inl (digits _ character inside)
    · rcases List.mem_cons.mp inside with same | inside
      · exact .inr (.inr same)
      · exact .inl (digits _ character inside)

theorem splitNumeral_split {text numeral behind : List Char}
    (splits : Scalar.splitNumeral text = some (numeral, behind)) :
    text = numeral ++ behind ∧ '\n' ∉ numeral := by
  have whole := fun text : List Char => @List.takeWhile_append_dropWhile _ Text.isDigit text
  constructor
  · rcases splitNumeral_cases splits with
      ⟨sign, unsigned, rfl, _, ⟨rfl, rfl⟩ | ⟨fraction, point, rfl, rfl⟩⟩
    · rw [List.append_assoc, whole]
    · rw [List.append_assoc, List.append_assoc, List.cons_append, whole, ← point, whole]
  · intro inside
    have known := forall_mem_numeral splits '\n' inside
    revert known
    decide

theorem length_numeral_le {text numeral behind : List Char}
    (splits : Scalar.splitNumeral text = some (numeral, behind)) :
    numeral.length ≤ text.length := by
  have front : numeral <+: text := ⟨behind, (splitNumeral_split splits).1.symm⟩
  exact front.length_le

theorem isSymbolChar_of_mem {text : List Char} :
    ∀ character ∈ symbolText text, isSymbolChar character = true := by
  intro character inside
  fun_induction symbolText text with
  | case1 | case2 | case4 => cases inside
  | case3 first rest notArrow inner ih =>
    rcases List.mem_cons.mp inside with rfl | inside
    · exact inner
    · exact ih inside

theorem symbolText_split (text : List Char) :
    ∃ behind, text = symbolText text ++ behind ∧ '\n' ∉ symbolText text := by
  have line : '\n' ∉ symbolText text := fun inside => by cases isSymbolChar_of_mem _ inside
  suffices front : ∃ behind, text = symbolText text ++ behind from
    front.imp fun _ split => ⟨split, line⟩
  clear line
  fun_induction symbolText text with
  | case1 => exact ⟨[], rfl⟩
  | case2 rest => exact ⟨'-' :: '>' :: rest, rfl⟩
  | case3 character rest notArrow inner ih =>
    rcases ih with ⟨behind, split⟩
    exact ⟨behind, congrArg (character :: ·) split⟩
  | case4 character rest => exact ⟨character :: rest, rfl⟩

theorem length_symbolText_le (text : List Char) : (symbolText text).length ≤ text.length := by
  rcases symbolText_split text with ⟨behind, split, _⟩
  have front : symbolText text <+: text := ⟨behind, split.symm⟩
  exact front.length_le

namespace Scanner

variable {scanner next : Scanner} {least : Nat}

/-! ## Rules of content -/

/-- What is read on the line moves the cursor along the line. -/
theorem onLine_read {count : Nat} (lexeme : Lexeme) (long : least ≤ count)
    (short : count ≤ scanner.cursor.line.length) :
    scanner.cursor.OnLine least (scanner.read count lexeme).cursor :=
  ⟨count, long, short, (scanner.skip count).cursor_emit _ _⟩

/-- A rule that looks at its first character stays on the line. -/
theorem onLine_read_one {first : Char} {behind : List Char} (lexeme : Lexeme)
    (found : scanner.cursor.rest = first :: behind) (inner : first ≠ '\n') :
    scanner.cursor.OnLine 1 (scanner.read 1 lexeme).cursor := by
  have front : scanner.cursor.rest = [first] ++ behind := found
  refine onLine_read lexeme (Nat.le_refl 1) (Text.length_le_line front fun inside => ?_)
  exact inner (List.mem_singleton.mp inside).symm

theorem hyphens_of_atSectionStart {cursor : Cursor} (starts : atSectionStart cursor = true) :
    ∃ behind, cursor.rest = ['-', '-', '-'] ++ behind := by
  rw [atSectionStart] at starts
  split at starts
  · exact ⟨_, by assumption⟩
  · rw [Bool.and_false] at starts
    cases starts

theorem mark_onLine (read : scanner.mark = some next) : scanner.cursor.OnLine 1 next.cursor := by
  rw [mark] at read
  split at read
  · rename_i starts
    cases read
    rcases hyphens_of_atSectionStart starts with ⟨behind, front⟩
    exact onLine_read _ (by decide) (Text.length_le_line front (by decide))
  · rcases Option.map_eq_some_iff.mp read with ⟨⟨text, lexeme⟩, found, rfl⟩
    have members : ∀ entry ∈ marks, 1 ≤ entry.1.length ∧ '\n' ∉ entry.1.toList := by decide
    rcases members _ (List.mem_of_find?_eq_some found) with ⟨long, inner⟩
    have starts : text.toList.isPrefixOf scanner.cursor.rest = true := by
      simpa using List.find?_some found
    rcases List.isPrefixOf_iff_prefix.mp starts with ⟨behind, front⟩
    exact onLine_read _ long (Text.length_le_line front.symm inner)

theorem quoted_onLine (read : scanner.quoted = some next) :
    scanner.cursor.OnLine 1 next.cursor := by
  rw [quoted] at read
  split at read
  · cases read
  · rename_i quote behind found
    split at read
    · rename_i isQuote
      have inner : quote ≠ '\n' := by
        rintro rfl
        revert isQuote
        decide
      have whole : scanner.cursor.line.length = (Text.line behind).length + 1 := by
        rw [Cursor.line, found, Text.line_cons inner, List.length_cons]
      dsimp only at read
      split at read
      · rename_i inside
        cases read
        have shorter := (suffix_readQuoted inside).length_le
        exact onLine_read _ (by omega) (by omega)
      · cases read
        exact ⟨_, Nat.succ_pos _, Nat.le_of_eq whole.symm, rfl⟩
    · cases read

theorem literalValue_onLine (scanner : Scanner) :
    scanner.cursor.skipGap.OnLine 0 scanner.literalValue.cursor := by
  rw [literalValue]
  split
  · rename_i read
    exact (quoted_onLine read).weaken
  · exact @onLine_read scanner.skipGap _ _ _ (Nat.zero_le _)
      (Text.length_trimEnd_takeWhile_le _ _)

theorem colon_onLine (read : scanner.colon = some next) : scanner.cursor.OnLine 1 next.cursor := by
  rw [colon] at read
  split at read
  · rename_i behind found
    have one : ∀ lexeme, scanner.cursor.OnLine 1 (scanner.read 1 lexeme).cursor := fun lexeme =>
      onLine_read_one lexeme found (by decide)
    split at read
    · cases read
      exact one _
    · rename_i character behind
      dsimp only at read
      split at read
      · rename_i same
        cases read
        have front : scanner.cursor.rest = [':', '='] ++ behind := by rw [found, same]; rfl
        exact onLine_read _ (by decide) (Text.length_le_line front (by decide))
      · split at read
        · cases read
          exact one _
        · split at read
          · split at read
            · cases read
              exact one _
            · cases read
              exact ((one _).trans (Cursor.onLine_skipGap _)).trans (literalValue_onLine _)
          · split at read
            · cases read
              exact one _
            · cases read
  · cases read

theorem number_onLine (read : scanner.number = some next) :
    scanner.cursor.OnLine 1 next.cursor := by
  rw [number] at read
  split at read
  · cases read
  · rename_i splits
    split at read
    · cases read
    · rcases Option.map_eq_some_iff.mp read with ⟨value, _, rfl⟩
      rcases splitNumeral_split splits with ⟨front, inner⟩
      exact onLine_read _ (length_splitNumeral splits) (Text.length_le_line front inner)

theorem symbol_onLine (read : scanner.symbol = some next) :
    scanner.cursor.OnLine 1 next.cursor := by
  rw [symbol] at read
  split at read
  · rename_i starts
    cases read
    rcases symbolText_split scanner.cursor.rest with ⟨behind, front, inner⟩
    exact onLine_read _ (length_symbolText starts) (Text.length_le_line front inner)
  · cases read

theorem content_onLine (read : scanner.content = some next) :
    scanner.cursor.OnLine 1 next.cursor := by
  rcases orElse_eq_some read with mark | read
  · exact mark_onLine mark
  rcases orElse_eq_some read with colon | read
  · exact colon_onLine colon
  rcases orElse_eq_some read with quoted | read
  · exact quoted_onLine quoted
  rcases orElse_eq_some read with number | symbol
  · exact number_onLine number
  · exact symbol_onLine symbol

/-! ## Steps -/

/-- The content of an item stands behind its hyphen and a gap. -/
theorem listItem_cursor (read : scanner.listItem = .ok next) :
    next.cursor = (scanner.cursor.advance 1).skipGap := by
  rw [listItem] at read
  dsimp only at read
  split at read
  · cases read
  · split at read
    · cases read
      exact cursor_emit _ _ _
    · cases read
      rfl

/-- Inside a line every step reads more of the line. -/
theorem WithinLine.onLine {first : Char} {behind : List Char}
    (found : scanner.cursor.rest = first :: behind) (inner : first ≠ '\n')
    (within : WithinLine scanner first next) : scanner.cursor.OnLine 1 next.cursor := by
  have front : scanner.cursor.rest = [first] ++ behind := found
  have short := Text.length_le_line front fun inside => inner (List.mem_singleton.mp inside).symm
  have one : scanner.cursor.OnLine 1 (scanner.cursor.advance 1) := ⟨1, Nat.le_refl 1, short, rfl⟩
  cases within with
  | gap =>
    rw [skip, cursor_flush]
    exact one
  | comment => exact ⟨scanner.cursor.line.length, short, Nat.le_refl _, rfl⟩
  | item _ read =>
    rw [listItem_cursor read]
    exact one.trans (Cursor.onLine_skipGap _)
  | content read => exact content_onLine read
  | nothing => exact one

end Scanner
end Manifest
