import Manifest.Proofs.Scan.Pieces

/-!
# Strings in quotes

Double quotes hold every string, since a backslash escapes what would end them or their line.
Single quotes know one escape only, the doubled quote, so they hold what fits on a line.  The
scanner takes every escape back, whether it reads a literal, an expression or an item of a list.
-/

namespace Manifest

/-- The two kinds of quotes. -/
inductive Quotes where
  | double
  | single

namespace Quotes

variable {quotes : Quotes} {content : String}

def mark : Quotes → Char
  | double => '"'
  | single => '\''

/-- How a character is written between the quotes. -/
def escape : Quotes → Char → List Char
  | double, '\\' => ['\\', '\\']
  | double, '"' => ['\\', '"']
  | double, '\n' => ['\\', 'n']
  | double, '\t' => ['\\', 't']
  | double, '\r' => ['\\', 'r']
  | single, '\'' => ['\'', '\'']
  | _, character => [character]

/-- A string in quotes. -/
def enclose (quotes : Quotes) (content : String) : String :=
  String.ofList (quotes.mark :: (content.toList.flatMap quotes.escape ++ [quotes.mark]))

/-- Whether the quotes can hold a string. -/
def Hold (quotes : Quotes) (content : String) : Prop :=
  quotes = .single → '\n' ∉ content.toList

/-! ## Escapes are taken back -/

theorem readQuoted_escape (quotes : Quotes) (character : Char) (behind : List Char) :
    readQuoted quotes.mark (quotes.escape character ++ behind) =
      (readQuoted quotes.mark behind).map fun (text, after) => (character :: text, after) := by
  fun_cases escape quotes character with
  | case1 | case2 | case3 | case4 | case5 | case6 => rfl
  | case7 quotes character noBackslash noDouble noLine noTab noReturn noSingle =>
    have noMark : character ≠ quotes.mark := by
      cases quotes with
      | double => exact noDouble rfl
      | single => exact noSingle rfl
    have noEscape : ¬ (decide (character = '\\') && decide (quotes.mark = '"')) = true := by
      cases quotes with
      | double => simpa [mark] using noBackslash rfl
      | single => simp [mark]
    rw [List.singleton_append, readQuoted.eq_def]
    dsimp only
    rw [if_neg noMark, if_neg noEscape]

theorem readQuoted_escaped (quotes : Quotes) (content : List Char) :
    readQuoted quotes.mark (content.flatMap quotes.escape ++ [quotes.mark]) =
      some (content, []) := by
  induction content with
  | nil => cases quotes <;> rfl
  | cons character content ih =>
    rw [List.flatMap_cons, List.append_assoc, readQuoted_escape, ih]
    rfl

/-! ## A string in quotes stays on its line -/

theorem newline_notMem_escape {character : Char}
    (holds : quotes = .single → character ≠ '\n') : '\n' ∉ quotes.escape character := by
  fun_cases escape quotes character with
  | case1 | case2 | case3 | case4 | case5 | case6 => decide
  | case7 quotes character _ _ noLine =>
    rw [List.mem_singleton]
    rintro rfl
    cases quotes with
    | double => exact noLine rfl rfl
    | single => exact holds rfl rfl

theorem toList_enclose (quotes : Quotes) (content : String) : (quotes.enclose content).toList =
    quotes.mark :: (content.toList.flatMap quotes.escape ++ [quotes.mark]) :=
  String.toList_ofList

theorem mark_ne_newline (quotes : Quotes) : quotes.mark ≠ '\n' := by
  cases quotes <;> decide

theorem newline_notMem_escaped (holds : quotes.Hold content) :
    '\n' ∉ content.toList.flatMap quotes.escape ++ [quotes.mark] := by
  intro found
  rcases List.mem_append.mp found with found | last
  · rcases List.mem_flatMap.mp found with ⟨character, inside, found⟩
    refine newline_notMem_escape (fun single same => ?_) found
    exact holds single (same ▸ inside)
  · exact quotes.mark_ne_newline (List.mem_singleton.mp last).symm

theorem newline_notMem_enclose (holds : quotes.Hold content) :
    '\n' ∉ (quotes.enclose content).toList := by
  rw [toList_enclose]
  intro found
  rcases List.mem_cons.mp found with first | found
  · exact quotes.mark_ne_newline first.symm
  · exact newline_notMem_escaped holds found

theorem startsContent_enclose (quotes : Quotes) (content : String) :
    StartsContent (quotes.enclose content).toList := by
  rw [toList_enclose]
  refine ⟨_, _, rfl, ?_⟩
  cases quotes <;> decide

/-- Carriage returns stand in front of the closing quote, where they end no line. -/
theorem joined_enclose (holds : quotes.Hold content) : Joined (quotes.enclose content).toList := by
  have inner := newline_notMem_enclose holds
  rw [toList_enclose, ← List.cons_append] at inner ⊢
  refine Joined.of_line (fun found => inner (List.mem_append_left _ found)) ?_
    quotes.mark_ne_newline
  cases quotes <;> decide

end Quotes

/-! ## Reading -/

namespace Scanner

variable {scanner : Scanner} {quotes : Quotes} {content : String} {tail : List Char}

theorem quoted_enclose (holds : quotes.Hold content)
    (rest : scanner.cursor.rest = (quotes.enclose content).toList ++ '\n' :: tail) :
    scanner.quoted =
      some (scanner.read (quotes.enclose content).toList.length (.text content)) := by
  rw [quotes.toList_enclose, List.cons_append] at rest
  have isQuote : (decide (quotes.mark = '"') || decide (quotes.mark = '\'')) = true := by
    cases quotes <;> rfl
  rw [quoted, rest]
  dsimp only
  rw [if_pos isQuote, Text.line_append (Quotes.newline_notMem_escaped holds),
    quotes.readQuoted_escaped, quotes.toList_enclose]
  dsimp only
  rw [String.ofList_toList]
  rfl

theorem literalValue_enclose (holds : quotes.Hold content)
    (rest : scanner.cursor.skipGap.rest = (quotes.enclose content).toList ++ '\n' :: tail) :
    scanner.literalValue =
      scanner.skipGap.read (quotes.enclose content).toList.length (.text content) := by
  have read : ({ scanner with cursor := scanner.cursor.skipGap } : Scanner).quoted = _ :=
    quoted_enclose holds rest
  rw [literalValue]
  dsimp only
  rw [read]
  rfl

namespace ReadsOver

/-- A string in quotes is read as its content. -/
theorem enclosed (holds : quotes.Hold content) (tail : List Char) :
    ReadsOver (quotes.enclose content).toList ('\n' :: tail) [.text content] := by
  refine of_content (quotes.startsContent_enclose content) (Quotes.newline_notMem_enclose holds)
    fun scanner rest => ?_
  have front := rest
  rw [quotes.toList_enclose, List.cons_append] at front
  have noMark : scanner.mark = none := mark_eq_none front (by cases quotes <;> decide)
  have noColon : scanner.colon = none := colon_eq_none front (by cases quotes <;> decide)
  rw [Scanner.content, noMark, noColon, quoted_enclose holds rest]
  rfl

/-- Behind the sign of a literal as well. -/
theorem literal (holds : quotes.Hold content) (tail : List Char) :
    ReadsOver (':' :: ' ' :: (quotes.enclose content).toList) ('\n' :: tail)
      [.assignment true, .text content] := by
  intro scanner column levels said shows
  have inner := Quotes.newline_notMem_enclose holds
  have front : scanner.cursor.rest = ':' :: ' ' :: quotes.mark ::
      (content.toList.flatMap quotes.escape ++ [quotes.mark] ++ '\n' :: tail) := by
    rw [shows.rest, quotes.toList_enclose]
    rfl
  have read := content_sign front (by cases quotes <;> decide) (by cases quotes <;> decide)
  have stepped := @Shows.step_content _ _ _ _ _ ':' _ shows (by decide) (by decide) (by decide)
    (Shows.atListHyphen_eq_false shows.rest (by decide)) read
  have start : scanner.Shows ([':'] ++ ([' '] ++ ((quotes.enclose content).toList ++ '\n' :: tail)))
      column levels said := shows
  have sign : (scanner.read 1 (.assignment true)).Shows
      ([' '] ++ ((quotes.enclose content).toList ++ '\n' :: tail)) (column + 1) levels
      (said ++ [.assignment true]) := start.read (by decide)
  have gap := sign.skipGap (by decide) fun character stands =>
    ((quotes.startsContent_enclose content).append ('\n' :: tail)).beginsLine character stands |>.1
  have behind := @Shows.read _ _ _ _ _ _ (.text content) gap inner
  rw [List.append_assoc] at behind
  rw [literalValue_enclose holds gap.rest] at stepped
  refine ⟨_, _, shows.run_eq behind stepped ?_, behind⟩
  simp only [List.length_append, List.length_cons]
  omega

end ReadsOver

end Scanner

end Manifest
