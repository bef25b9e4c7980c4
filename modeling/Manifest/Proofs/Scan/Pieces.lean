import Manifest.Proofs.Contexts

/-!
# Pieces of a line

A line is written from pieces, such as words, marks and gaps.  What a piece is read as can
depend on the text behind it, which is checked together with the piece.  So the pieces of a
line are read one after the other, and their lexemes follow each other.
-/

namespace Manifest

/-- A line with this text is neither an item of a list nor a comment, and it is not empty. -/
def StartsContent (text : List Char) : Prop :=
  ∃ first more, text = first :: more ∧ Text.isGap first = false ∧ first ≠ '\n' ∧ first ≠ '#' ∧
    first ≠ '-'

namespace StartsContent

variable {text : List Char}

theorem append (starts : StartsContent text) (behind : List Char) :
    StartsContent (text ++ behind) := by
  rcases starts with ⟨first, more, rfl, content⟩
  exact ⟨first, more ++ behind, rfl, content⟩

theorem ne_nil (starts : StartsContent text) : text ≠ [] := by
  rcases starts with ⟨first, more, rfl, _⟩
  exact List.cons_ne_nil _ _

theorem beginsLine (starts : StartsContent text) : BeginsLine text := by
  rcases starts with ⟨first, more, rfl, noGap, noLine, noComment, _⟩
  intro character stands
  cases stands
  exact ⟨noGap, noLine, noComment⟩

theorem beginsItem_eq (starts : StartsContent text) : beginsItem text = false := by
  rcases starts with ⟨first, more, rfl, _, _, _, noHyphen⟩
  rw [beginsItem.eq_def]
  split
  · rename_i found
    exact absurd (List.cons.inj found).1 noHyphen
  · rfl

end StartsContent

theorem Key.startsContent (key : Key) : StartsContent key.name.toList := by
  rcases key.head with ⟨first, more, spelled, starts⟩
  exact ⟨first, more, spelled, isGap_of_isSymbolStart starts,
    ne_of_isSymbolStart starts (by decide), ne_of_isSymbolStart starts (by decide),
    ne_of_isSymbolStart starts (by decide)⟩

namespace Scanner

variable {chunk more tail : List Char} {lexeme : Lexeme} {lexemes others : List Lexeme}

/-- A chunk in front of a text is read as these lexemes. -/
def ReadsOver (chunk tail : List Char) (lexemes : List Lexeme) : Prop :=
  ∀ ⦃scanner : Scanner⦄ ⦃column : Nat⦄ ⦃levels : Levels⦄ ⦃said : List Lexeme⦄,
    scanner.Shows (chunk ++ tail) column levels said →
    scanner.LeadsTo tail levels (said ++ lexemes)

namespace ReadsOver

theorem append (first : ReadsOver chunk (more ++ tail) lexemes)
    (second : ReadsOver more tail others) : ReadsOver (chunk ++ more) tail (lexemes ++ others) := by
  intro scanner column levels said shows
  rw [List.append_assoc] at shows
  rcases first shows with ⟨next, place, run, behind⟩
  rw [← List.append_assoc]
  exact (second behind).of_run run

/-- A blank in front of a piece says nothing. -/
theorem gap (reads : ReadsOver chunk tail lexemes) : ReadsOver (' ' :: chunk) tail lexemes := by
  intro scanner column levels said shows
  have front : scanner.Shows ([' '] ++ (chunk ++ tail)) column levels said := shows
  have moves : scanner.Moves (scanner.skip 1) := step_gap shows.calm (by decide) front.rest
  have passed := front.skip (by decide)
  exact (reads passed).of_run moves.run_eq

/-- What the rules of content find is read. -/
theorem of_content (starts : StartsContent chunk) (inner : '\n' ∉ chunk)
    (finds : ∀ scanner : Scanner, scanner.cursor.rest = chunk ++ tail →
      scanner.content = some (scanner.read chunk.length lexeme)) :
    ReadsOver chunk tail [lexeme] := by
  intro scanner column levels said shows
  have found := finds scanner shows.rest
  have behind := @Shows.read _ _ _ _ _ _ lexeme shows inner
  rcases starts with ⟨first, more, rfl, noGap, noLine, noComment, noHyphen⟩
  have stepped := @Shows.step_content _ _ _ _ _ first (more ++ tail) shows noLine noGap noComment
    (Shows.atListHyphen_eq_false shows.rest noHyphen) found
  refine ⟨_, _, shows.run_eq behind stepped ?_, behind⟩
  rw [List.length_append, List.length_cons]
  omega

/-- A word that ends where the text behind it begins. -/
theorem word (key : Key) (ends : EndsWord tail) :
    ReadsOver key.name.toList tail [.symbol key.name] := by
  refine of_content key.startsContent key.newline_notMem fun scanner rest => ?_
  have read := content_word rest key.starts key.whole ends
  rwa [key.noBoolean, String.ofList_toList] at read

/-- A mark that is the first one to stand here. -/
theorem mark {text : String} (spelled : text.toList = chunk) (starts : StartsContent chunk)
    (inner : '\n' ∉ chunk)
    (found : marks.find? (fun entry => entry.1.toList.isPrefixOf (chunk ++ tail)) =
      some (text, lexeme)) : ReadsOver chunk tail [lexeme] := by
  refine of_content starts inner fun scanner rest => ?_
  have noSection : atSectionStart scanner.cursor = false := by
    rcases starts with ⟨first, more, rfl, _, _, _, noHyphen⟩
    rw [atSectionStart, rest]
    split
    · rename_i front
      exact absurd (List.cons.inj front).1 noHyphen
    · exact Bool.and_false _
  have read : scanner.mark = some (scanner.read chunk.length lexeme) := by
    rw [Scanner.mark, noSection, if_neg Bool.false_ne_true, rest, found, ← spelled,
      String.length_toList]
    rfl
  rw [Scanner.content, read]
  rfl

/-- The sign of an assignment. -/
theorem sign (tail : List Char) : ReadsOver [':', '='] tail [.assignment false] := by
  refine of_content ⟨_, _, rfl, by decide⟩ (by decide) fun scanner rest => ?_
  have noMark : scanner.mark = none := mark_eq_none rest (by decide)
  rw [Scanner.content, noMark, colon_of_rest rest]
  rfl

end ReadsOver

/-- An item of one token.  Its line can look as if it held an assignment, and then the token
stands on a level of its own. -/
theorem Shows.item_token {scanner : Scanner} {column : Nat} {levels : Levels} {said : List Lexeme}
    (shows : scanner.Shows ('-' :: ([' '] ++ (chunk ++ '\n' :: tail))) column levels said)
    (fresh : scanner.cursor.fresh = true) (stands : levels.current = Levels.ofColumn column true)
    (starts : StartsContent chunk) (noLayout : lexeme.isLayout = false)
    (reads : ReadsOver chunk ('\n' :: tail) [lexeme]) :
    ∃ (nested flat : Bool), scanner.LeadsBehind tail levels (said ++ [.symbol "yield"] ++
      if nested then [.indent, lexeme, .outdent] else [lexeme]) flat := by
  have stops := fun character found =>
    ((starts.append ('\n' :: tail)).beginsLine character found).1
  cases opens : holdsAssignment none (Text.line (chunk ++ '\n' :: tail)) with
  | false =>
    rcases shows.item_plain (by decide) stops fresh rfl stands opens with
      ⟨next, place, run, behind⟩
    exact ⟨false, _, ((reads behind).behind rfl noLayout).of_run run⟩
  | true =>
    rcases shows.item_opening (by decide) stops fresh rfl stands opens with ⟨next, run, behind⟩
    have deeper : levels.current < Levels.ofColumn (column + 1 + [' '].length) false := by
      rw [stands, Levels.ofColumn, Levels.ofColumn]
      simp
      omega
    have closed := (((reads behind).behind rfl noLayout).close deeper).of_run run
    rw [List.append_assoc, List.append_assoc] at closed
    refine ⟨true, false, ?_⟩
    rw [List.append_assoc]
    exact closed

end Scanner

/-! ## Sources of one line -/

/-- The tokens of a source with an item of one token, on a level of its own or not. -/
def itemLexemes (nested : Bool) (lexeme : Lexeme) : List Lexeme :=
  [.indent] ++ [.symbol "yield"] ++ (if nested then [.indent, lexeme, .outdent] else [lexeme]) ++
    [.outdent] ++ [.endOfInput]

section

variable {source : String} {lexemes : List Lexeme}

/-- A source of one line is read up to the end of the line. -/
theorem readsAs_of_leadsBehind {entered : Scanner} {flat : Bool} (filled : source.toList ≠ [])
    (inner : '\n' ∉ source.toList) (joined : Joined source.toList)
    (begun : (Scanner.ofText (source.toList ++ ['\n'])).beginLine 0 false = .ok entered)
    (leads : entered.LeadsBehind [] [0] lexemes flat) :
    ReadsAs source (lexemes ++ [.endOfInput]) := by
  rcases leads.finish with ⟨last, column, run, ended⟩
  rw [readsAs_iff, linesOf, joined.joinLineEnds_eq, Text.lines_of_notMem filled inner]
  exact ⟨entered, last, begun, run, ended.finish.silent, ended.finish.said_eq⟩

/-- A source of one line that is no item of a list is read piece by piece. -/
theorem readsAs_of_readsOver {front : List Lexeme} {latest : Lexeme}
    (starts : StartsContent source.toList) (inner : '\n' ∉ source.toList)
    (joined : Joined source.toList) (noLayout : latest.isLayout = false)
    (reads : Scanner.ReadsOver source.toList ['\n'] (front ++ [latest])) :
    ReadsAs source (front ++ [latest] ++ [.endOfInput]) := by
  have line := starts.append ['\n']
  rcases Scanner.shows_content line.beginsLine line.ne_nil with ⟨entered, begun, shows, _⟩
  rw [line.beginsItem_eq] at shows
  have leads : entered.LeadsTo ['\n'] [0] (front ++ [latest]) := reads shows
  exact readsAs_of_leadsBehind starts.ne_nil inner joined begun (leads.behind rfl noLayout)

/-- A source with an item of one token. -/
theorem readsAs_item {text : String} {lexeme : Lexeme} (starts : StartsContent text.toList)
    (inner : '\n' ∉ text.toList) (joined : Joined text.toList) (noLayout : lexeme.isLayout = false)
    (reads : Scanner.ReadsOver text.toList ['\n'] [lexeme]) :
    ∃ nested, ReadsAs ("- " ++ text) (itemLexemes nested lexeme) := by
  have spelled : ("- " ++ text).toList = ['-', ' '] ++ text.toList := String.toList_append
  have line : ("- " ++ text).toList ++ ['\n'] = '-' :: ([' '] ++ (text.toList ++ ['\n'])) := by
    rw [spelled]
    rfl
  have begins : BeginsLine ('-' :: ([' '] ++ (text.toList ++ ['\n']))) := by
    intro character stands
    cases stands
    decide
  have filled : ("- " ++ text).toList ≠ [] := spelled ▸ List.cons_ne_nil _ _
  have oneLine : '\n' ∉ ("- " ++ text).toList := by
    rw [spelled]
    exact List.not_mem_append (by decide) inner
  have kept : Joined ("- " ++ text).toList :=
    spelled ▸ (Joined.of_notMem (by decide)).append joined
  rcases Scanner.shows_content begins (List.cons_ne_nil _ _) with ⟨entered, begun, shows, fresh⟩
  have shows : entered.Shows ('-' :: ([' '] ++ (text.toList ++ ['\n']))) 0 [1, 0] [.indent] := shows
  rcases shows.item_token fresh rfl starts noLayout reads with ⟨nested, flat, leads⟩
  rw [← line] at begun
  exact ⟨nested, readsAs_of_leadsBehind filled oneLine kept begun (leads.close (by decide))⟩

end

end Manifest
