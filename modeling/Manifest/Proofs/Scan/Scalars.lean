import Manifest.Proofs.Rendering.Layout
import Manifest.Proofs.Scan.Noise

/-!
# Numbers and booleans without quotes

A literal is classified as a whole.  In an expression the rules take a numeral or a word
from the front of what is left, without looking for its end.  Both find the same numbers.
Both know a boolean word in any case, but only the classification knows it with a long s
in it, which is no letter of symbols.
-/

namespace Manifest

/-- The value of a token that is a number or a boolean. -/
def Lexeme.scalar? : Lexeme → Option Value
  | .number value => some (.number value)
  | .boolean truth => some (.boolean truth)
  | _ => none

namespace Scalar

variable {text word : List Char} {truth : Bool} {lexeme : Lexeme}

/-- A numeral, or a boolean word in the letters of symbols. -/
inductive Spells : List Char → Lexeme → Prop
  | number (numeral : Numeral) : Spells numeral.spelling (.number numeral.value)
  | boolean {word : List Char} {truth : Bool} : 'ſ' ∉ word → readBoolean word = some truth →
      Spells word (.boolean truth)

/-! ## Boolean words -/

theorem isAlpha_of_fold {character : Char} (plain : character ≠ 'ſ')
    (letter : (fold character).isAlpha = true) : character.isAlpha = true := by
  cases upper : character.isUpper with
  | true =>
    change (character.isUpper || character.isLower) = true
    rw [upper]
    rfl
  | false =>
    have same : fold character = character := by
      rw [fold, if_neg plain]
      exact dif_neg (of_decide_eq_false upper)
    rw [same] at letter
    exact letter

theorem isSymbolStart_of_isAlpha {character : Char} (letter : character.isAlpha = true) :
    isSymbolStart character = true := by
  rw [isSymbolStart, letter]
  rfl

/-- A boolean word folds to the name of its value. -/
theorem map_fold_eq (read : readBoolean word = some truth) :
    word.map fold = (toString truth).toList := by
  rw [readBoolean] at read
  split at read
  · cases read
    assumption
  · split at read
    · cases read
      assumption
    · cases read

theorem map_fold_of_readBoolean (read : readBoolean word = some truth) :
    word.map fold = "true".toList ∨ word.map fold = "false".toList := by
  cases truth with
  | true => exact .inl (map_fold_eq read)
  | false => exact .inr (map_fold_eq read)

/-- The characters of a boolean word fold to letters. -/
theorem isAlpha_fold_of_readBoolean (read : readBoolean word = some truth) :
    ∀ character ∈ word, (fold character).isAlpha = true := by
  intro character inside
  have found : fold character ∈ word.map fold := List.mem_map_of_mem inside
  have letters : ∀ letter ∈ "true".toList ++ "false".toList, letter.isAlpha = true :=
    List.all_eq_true.mp (by decide)
  apply letters
  rw [List.mem_append]
  rcases map_fold_of_readBoolean read with same | same
  · exact .inl (same ▸ found)
  · exact .inr (same ▸ found)

/-- Without a long s the word consists of letters. -/
theorem isAlpha_of_readBoolean (plain : 'ſ' ∉ word) (read : readBoolean word = some truth) :
    ∀ character ∈ word, character.isAlpha = true := by
  intro character inside
  refine isAlpha_of_fold ?_ (isAlpha_fold_of_readBoolean read character inside)
  rintro rfl
  exact plain inside

theorem exists_cons_of_readBoolean (read : readBoolean word = some truth) :
    ∃ first rest, word = first :: rest := by
  refine List.exists_cons_of_ne_nil ?_
  rintro rfl
  cases read

/-- A boolean word is no numeral. -/
theorem readNumeral_of_readBoolean (read : readBoolean word = some truth) :
    readNumeral word = none := by
  cases known : readNumeral word with
  | none => rfl
  | some value =>
    rcases exists_numeral known with ⟨numeral, rfl, _⟩
    rcases numeral.head_whole with ⟨digit, rest, whole, isDigit⟩
    have inside : digit ∈ numeral.spelling := by
      rw [Numeral.spelling, whole]
      simp
    have plain : digit ≠ 'ſ' := by
      rintro rfl
      cases isDigit
    have starts : isSymbolStart digit = true := isSymbolStart_of_isAlpha
      (isAlpha_of_fold plain (isAlpha_fold_of_readBoolean read digit inside))
    cases (isDigit_of_isSymbolStart starts).symm.trans (Text.isDigit_of_ascii isDigit)

/-! ## Classification -/

/-- A number or a boolean is classified as such if it reads as one. -/
theorem classify_eq_number_iff {value : Number} :
    classify text = .number value ↔ readNumeral text = some value := by
  rw [classify]
  cases readNumeral text with
  | some other => simp
  | none => cases readBoolean text <;> simp

theorem classify_eq_boolean_iff :
    classify text = .boolean truth ↔ readBoolean text = some truth := by
  cases read : readBoolean text with
  | some other => simp [classify, readNumeral_of_readBoolean read, read]
  | none => cases numeral : readNumeral text <;> simp [classify, read, numeral]

/-- A number or a boolean holds no marks. -/
theorem notMem_of_classify {mark : Char} (known : lexeme.scalar? ≠ none)
    (classified : classify text = lexeme) (foreign : isPlain mark = false)
    (noLetter : (fold mark).isAlpha = false) : mark ∉ text := by
  intro inside
  cases lexeme with
  | number value =>
    rcases exists_numeral (classify_eq_number_iff.mp classified) with ⟨numeral, rfl, _⟩
    cases foreign.symm.trans (numeral.isPlain_of_mem inside)
  | boolean truth =>
    have read := classify_eq_boolean_iff.mp classified
    cases noLetter.symm.trans (isAlpha_fold_of_readBoolean read mark inside)
  | _ => exact known rfl

/-- What is spelled is what the classification of the whole text finds. -/
theorem spells_iff (known : lexeme.scalar? ≠ none) :
    Spells text lexeme ↔ classify text = lexeme ∧ 'ſ' ∉ text := by
  constructor
  · rintro (⟨numeral⟩ | ⟨plain, read⟩)
    · refine ⟨classify_eq_number_iff.mpr numeral.readNumeral_spelling, fun inside => ?_⟩
      cases numeral.isPlain_of_mem inside
    · exact ⟨classify_eq_boolean_iff.mpr read, plain⟩
  · rintro ⟨classified, plain⟩
    cases lexeme with
    | number value =>
      rcases exists_numeral (classify_eq_number_iff.mp classified) with ⟨numeral, rfl, rfl⟩
      exact .number numeral
    | boolean truth => exact .boolean plain (classify_eq_boolean_iff.mp classified)
    | _ => exact absurd rfl known

/-- A boolean word is read whole as a symbol. -/
theorem symbolText_of_isAlpha (letters : ∀ character ∈ text, character.isAlpha = true) :
    symbolText text = text := by
  fun_induction symbolText text with
  | case1 => rfl
  | case2 rest => cases letters '-' List.mem_cons_self
  | case3 character rest notArrow inner ih =>
    rw [ih fun other inside => letters other (List.mem_cons_of_mem _ inside)]
  | case4 character rest notArrow outer =>
    refine absurd ?_ outer
    simp [isSymbolChar, Char.isAlphanum, letters character List.mem_cons_self]

end Scalar

namespace Scalar.Spells

variable {text : List Char} {lexeme : Lexeme}

theorem ne_nil (spells : Spells text lexeme) : text ≠ [] := by
  intro none
  cases spells with
  | number numeral =>
    have read := numeral.readNumeral_spelling
    rw [none] at read
    cases read
  | boolean plain read =>
    rw [none] at read
    cases read

theorem newline_notMem (spells : Spells text lexeme) : '\n' ∉ text := by
  intro inside
  cases spells with
  | number numeral => cases numeral.isPlain_of_mem inside
  | boolean plain read => cases isAlpha_of_readBoolean plain read _ inside

end Scalar.Spells

/-! ## Rules of content -/

namespace Scanner

variable {scanner next : Scanner} {text chunk behind : List Char} {lexeme : Lexeme}
  {lexemes said : List Lexeme}

/-- What is spelled up to the end of the line is read as one token. -/
theorem content_of_spells (spells : Scalar.Spells text lexeme)
    (rest : scanner.cursor.rest = text ++ '\n' :: behind) :
    scanner.content = some (scanner.read text.length lexeme) := by
  cases spells with
  | number numeral => exact content_numeral numeral rest
  | @boolean _ truth plain read =>
    have letters := Scalar.isAlpha_of_readBoolean plain read
    have starts : text.head?.any isSymbolStart = true := by
      rcases Scalar.exists_cons_of_readBoolean read with ⟨first, more, rfl⟩
      exact Scalar.isSymbolStart_of_isAlpha (letters first List.mem_cons_self)
    have word := content_word rest starts (Scalar.symbolText_of_isAlpha letters)
      (endsWord_newline behind)
    rw [read] at word
    exact word

/-- What stands first among the tokens that a rule of content reads: a number or a boolean
that is spelled at the cursor, or another token of content. -/
inductive Heads (scanner : Scanner) : Scanner → Prop
  | scalar {chunk behind : List Char} {lexeme : Lexeme} :
      scanner.cursor.rest = chunk ++ behind → Scalar.Spells chunk lexeme →
      Heads scanner (scanner.read chunk.length lexeme)
  | other {next : Scanner} {lexeme : Lexeme} (count : Nat) :
      lexeme.isAccepted = true → lexeme.scalar? = none →
      (scanner.read count lexeme).tokens <:+ next.tokens → Heads scanner next
  | unread (count : Nat) : Heads scanner (scanner.reject count)

theorem mark_heads (read : scanner.mark = some next) : Heads scanner next := by
  rw [mark] at read
  split at read
  · cases read
    exact .other 3 rfl rfl (List.suffix_refl _)
  · rcases Option.map_eq_some_iff.mp read with ⟨⟨text, lexeme⟩, found, rfl⟩
    have members : ∀ entry ∈ marks, entry.2.isAccepted = true ∧ entry.2.scalar? = none := by
      decide
    rcases members _ (List.mem_of_find?_eq_some found) with ⟨accepted, other⟩
    exact .other text.length accepted other (List.suffix_refl _)

theorem colon_heads (read : scanner.colon = some next) : Heads scanner next := by
  rw [colon] at read
  split at read
  · split at read
    · cases read
      exact .other 1 rfl rfl (List.suffix_refl _)
    · dsimp only at read
      split at read
      · cases read
        exact .other 2 rfl rfl (List.suffix_refl _)
      · split at read
        · cases read
          exact .other 1 rfl rfl (List.suffix_refl _)
        · split at read
          · split at read
            · cases read
              exact .other 1 rfl rfl (List.suffix_refl _)
            · cases read
              exact .other 1 rfl rfl ((literalValue_takes _).suffix (List.suffix_refl _))
          · split at read
            · cases read
              exact .other 1 rfl rfl (List.suffix_refl _)
            · cases read
  · cases read

/-- A string in quotes is a text. -/
theorem quoted_text_or_reject (read : scanner.quoted = some next) :
    (∃ count value, next = scanner.read count (.text value)) ∨
      ∃ count, next = scanner.reject count := by
  rw [quoted] at read
  split at read
  · cases read
  · split at read
    · dsimp only at read
      split at read
      · cases read
        exact .inl ⟨_, _, rfl⟩
      · cases read
        exact .inr ⟨_, rfl⟩
    · cases read

theorem quoted_heads (read : scanner.quoted = some next) : Heads scanner next := by
  rcases quoted_text_or_reject read with ⟨count, value, rfl⟩ | ⟨count, rfl⟩
  · exact .other count rfl rfl (List.suffix_refl _)
  · exact .unread count

theorem number_heads (read : scanner.number = some next) : Heads scanner next := by
  rw [number] at read
  split at read
  · cases read
  · rename_i splits
    split at read
    · cases read
    · rcases Option.map_eq_some_iff.mp read with ⟨value, found, rfl⟩
      rcases Scalar.exists_numeral found with ⟨numeral, rfl, rfl⟩
      exact .scalar (splitNumeral_split splits).1 (.number numeral)

theorem symbol_heads (read : scanner.symbol = some next) : Heads scanner next := by
  rw [symbol] at read
  split at read
  · cases read
    rcases symbolText_split scanner.cursor.rest with ⟨behind, front, _⟩
    cases word : Scalar.readBoolean (symbolText scanner.cursor.rest) with
    | none => exact .other _ rfl rfl (List.suffix_refl _)
    | some truth =>
      refine .scalar front (.boolean (fun inside => ?_) word)
      cases isSymbolChar_of_mem _ inside
  · cases read

theorem content_heads (read : scanner.content = some next) : Heads scanner next := by
  rcases orElse_eq_some read with mark | read
  · exact mark_heads mark
  rcases orElse_eq_some read with colon | read
  · exact colon_heads colon
  rcases orElse_eq_some read with quoted | read
  · exact quoted_heads quoted
  rcases orElse_eq_some read with number | symbol
  · exact number_heads number
  · exact symbol_heads symbol

/-! ## Readings -/

/-- A reading from here on ends without diagnostics, and with these lexemes in all. -/
def ReadsTo (scanner : Scanner) (lexemes : List Lexeme) : Prop :=
  ∃ final, scanner.run = .ok final ∧ final.finish.diagnostics = [] ∧ final.finish.said = lexemes

namespace ReadsTo

theorem unique {others : List Lexeme} (reads : scanner.ReadsTo lexemes)
    (again : scanner.ReadsTo others) : lexemes = others := by
  rcases reads with ⟨final, finished, _, rfl⟩
  rcases again with ⟨last, ran, _, rfl⟩
  cases finished.symm.trans ran
  rfl

/-- What has been read is the front of what is read in all. -/
theorem said_prefix (reads : scanner.ReadsTo lexemes) : scanner.said <+: lexemes := by
  rcases reads with ⟨final, finished, _, rfl⟩
  have lasting := lasting_suffix scanner.tokens
  have kept := lasting.finish (lasting.passed (List.suffix_refl _) (passes_of_run finished).1)
  exact (List.reverse_prefix.mpr kept).map Token.lexeme

theorem unstained (reads : scanner.ReadsTo lexemes) : ¬ scanner.Stained := by
  rcases reads with ⟨final, finished, clean, _⟩
  intro stained
  have noted := lasting_stained.finish (lasting_stained.passed stained (passes_of_run finished).1)
  exact noted.elim (fun pending => pending (pending_emit _ _ _)) (· clean)

end ReadsTo

theorem Moves.readsTo_iff (moves : scanner.Moves next) :
    scanner.ReadsTo lexemes ↔ next.ReadsTo lexemes := by
  rw [ReadsTo, ReadsTo, moves.run_eq]

theorem said_read (calm : scanner.pending = none) (count : Nat) :
    (scanner.read count lexeme).said = scanner.said ++ [lexeme] := by
  have silent : (scanner.skip count).flush = scanner.skip count := flush_of_none calm
  rw [read, emit, silent, said, List.reverse_cons, List.map_append]
  rfl

/-- A token that is read next is the next one in all. -/
theorem ReadsTo.lexeme_eq {count : Nat} {found : Lexeme}
    (reads : next.ReadsTo (scanner.said ++ lexeme :: lexemes)) (calm : scanner.pending = none)
    (earlier : (scanner.read count found).tokens <:+ next.tokens) : found = lexeme := by
  have front : (scanner.read count found).said <+: next.said :=
    (List.reverse_prefix.mpr earlier).map Token.lexeme
  have whole := front.trans reads.said_prefix
  rw [said_read calm, List.prefix_append_right_inj, List.cons_prefix_cons] at whole
  exact whole.1

/-- If a number or a boolean comes next, it is spelled at the cursor.  Otherwise something
comes next that is neither. -/
theorem Heads.next_lexeme (heads : Heads scanner next) (calm : scanner.pending = none)
    (reads : next.ReadsTo (scanner.said ++ lexeme :: lexemes)) :
    (∃ chunk behind, scanner.cursor.rest = chunk ++ behind ∧ Scalar.Spells chunk lexeme ∧
        next = scanner.read chunk.length lexeme) ∨
      lexeme.isAccepted = true ∧ lexeme.scalar? = none := by
  cases heads with
  | scalar front spells =>
    cases reads.lexeme_eq calm (List.suffix_refl _)
    exact .inl ⟨_, _, front, spells, rfl⟩
  | other count accepted neither earlier =>
    cases reads.lexeme_eq calm earlier
    exact .inr ⟨accepted, neither⟩
  | unread count => exact absurd (stained_reject scanner count) reads.unstained

/-- Behind the sign of a literal stands its value. -/
theorem content_sign {first : Char} (front : scanner.cursor.rest = ':' :: ' ' :: first :: behind)
    (content : Text.isBlank first = false) (noComment : first ≠ '#') :
    scanner.content = some (scanner.read 1 (.assignment true)).literalValue := by
  have inner : first ≠ '\n' := by
    rintro rfl
    cases content
  have noMark : scanner.mark = none := mark_eq_none front (by decide)
  rw [Scanner.content, noMark, colon_of_rest front, if_neg (by decide), if_neg (by decide),
    if_pos (by decide)]
  dsimp only
  rw [Text.line_cons (by decide), Text.line_cons inner, Text.trimStart,
    List.dropWhile_cons_of_pos (by decide), List.dropWhile_cons_of_neg (by simp [content]),
    if_neg (by simp [noComment])]
  rfl

/-! ## The rest of a line -/

/-- Behind the first content of a line some text is left up to the end of the source, in
which no level is open. -/
structure Inside (scanner : Scanner) (text : List Char) (said : List Lexeme) : Prop where
  shows : ∃ column, scanner.Shows (text ++ ['\n']) column [0] said
  late : scanner.cursor.fresh = false

namespace Inside

/-- A chunk of the text is passed over. -/
theorem skip (inside : scanner.Inside (chunk ++ behind) said) (inner : '\n' ∉ chunk)
    (some : chunk ≠ []) : (scanner.skip chunk.length).Inside behind said := by
  rcases inside.shows with ⟨column, shows⟩
  rw [List.append_assoc] at shows
  have along : scanner.cursor.OnLine 1 (scanner.cursor.advance chunk.length) :=
    Cursor.onLine_chunk shows.rest inner (List.length_pos_iff.mpr some)
  refine ⟨⟨_, shows.skip inner⟩, along.fresh_eq_false fun fresh => ?_⟩
  cases inside.late.symm.trans fresh

theorem read (inside : scanner.Inside (chunk ++ behind) said) (inner : '\n' ∉ chunk)
    (some : chunk ≠ []) :
    (scanner.read chunk.length lexeme).Inside behind (said ++ [lexeme]) := by
  have moved := inside.skip inner some
  rcases moved.shows with ⟨column, shows⟩
  refine ⟨⟨column, shows.emit⟩, ?_⟩
  rw [Scanner.read, cursor_emit]
  exact moved.late

theorem noHyphen (inside : scanner.Inside text said) :
    scanner.cursor.atListHyphen = false := by
  rw [Cursor.atListHyphen, inside.late]
  rfl

/-- In front of content its rules are tried. -/
theorem moves {first : Char} {more : List Char} (inside : scanner.Inside (first :: more) said)
    (content : Text.isBlank first = false) (noComment : first ≠ '#') :
    scanner.Moves (scanner.content.getD (scanner.reject 1)) := by
  rcases inside.shows with ⟨column, shows⟩
  have front : scanner.cursor.rest = first :: (more ++ ['\n']) := shows.rest
  have inner : first ≠ '\n' := by
    rintro rfl
    cases content
  refine ⟨front ▸ List.cons_ne_nil _ _, ?_⟩
  rw [step, front]
  dsimp only
  rw [if_neg inner, if_neg (by simp [Text.isGap_of_isBlank content]), if_neg noComment,
    if_neg (by simp [inside.noHyphen])]

/-- The end of the source is reached. -/
theorem ends (inside : scanner.Inside [] said) : scanner.ReadsTo (said ++ [.endOfInput]) := by
  rcases inside.shows with ⟨column, shows⟩
  rcases @Shows.last_line _ _ _ [] shows (List.forall_mem_nil _) with ⟨final, finished, ended⟩
  rw [List.length_nil, List.replicate_zero, List.append_nil] at ended
  exact ⟨final, finished, ended.finish.silent, ended.finish.said_eq⟩

/-- In front of content something is read that is content as well. -/
theorem next_lexeme {first : Char} {more : List Char}
    (inside : scanner.Inside (first :: more) said) (content : Text.isBlank first = false)
    (noComment : first ≠ '#') (reads : scanner.ReadsTo (said ++ lexeme :: lexemes)) :
    (∃ chunk behind, first :: more ++ ['\n'] = chunk ++ behind ∧ Scalar.Spells chunk lexeme ∧
        (scanner.read chunk.length lexeme).ReadsTo (said ++ lexeme :: lexemes)) ∨
      lexeme.isAccepted = true ∧ lexeme.scalar? = none := by
  rcases inside.shows with ⟨column, shows⟩
  have heads : Heads scanner (scanner.content.getD (scanner.reject 1)) := by
    cases read : scanner.content with
    | none => exact .unread 1
    | some next => exact content_heads read
  have further := (inside.moves content noComment).readsTo_iff.mp reads
  rw [← shows.said_eq] at further
  rcases heads.next_lexeme shows.calm further with ⟨chunk, behind, front, spells, same⟩ | other
  · rw [same, shows.said_eq] at further
    exact .inl ⟨chunk, behind, shows.rest.symm.trans front, spells, further⟩
  · exact .inr other

/-- The rest of a line is read as a number or a boolean exactly if the whole of it spells
that one. -/
theorem readsTo_scalar_iff (inside : scanner.Inside text said) (filled : text ≠ [])
    (plain : ∀ character ∈ text, Text.isBlank character = false ∧ character ≠ '#')
    (known : lexeme.scalar? ≠ none) :
    scanner.ReadsTo (said ++ [lexeme, .endOfInput]) ↔ Scalar.Spells text lexeme := by
  rcases List.exists_cons_of_ne_nil filled with ⟨first, more, rfl⟩
  rcases plain first List.mem_cons_self with ⟨content, noComment⟩
  constructor
  · intro reads
    rcases inside.next_lexeme content noComment reads with
      ⟨chunk, behind, front, spells, further⟩ | ⟨_, neither⟩
    · rcases List.append_eq_append_iff.mp front with ⟨ending, rfl, ends⟩ | ⟨left, split, rfl⟩
      · cases ending with
        | nil =>
          rw [List.append_nil] at spells
          exact spells
        | cons newline ending =>
          rw [← (List.cons.inj ends).1] at spells
          exact absurd (List.mem_append_right _ List.mem_cons_self) spells.newline_notMem
      · cases left with
        | nil =>
          rw [split, List.append_nil]
          exact spells
        | cons next left =>
          -- whatever is read of the rest, it is not the end
          rw [split] at inside plain
          rcases plain next (List.mem_append_right _ List.mem_cons_self) with ⟨content, noComment⟩
          have behind := @Inside.read _ _ _ lexeme _ inside spells.newline_notMem spells.ne_nil
          rw [List.append_cons] at further
          rcases behind.next_lexeme content noComment further with
            ⟨_, _, _, spells, _⟩ | ⟨accepted, _⟩
          · cases spells
          · cases accepted
    · exact absurd neither known
  · intro spells
    rcases inside.shows with ⟨column, shows⟩
    have read := content_of_spells spells shows.rest
    have moves := inside.moves content noComment
    rw [read] at moves
    rw [moves.readsTo_iff, List.append_cons]
    rw [← List.append_nil (first :: more)] at inside
    exact (inside.read spells.newline_notMem spells.ne_nil).ends

/-! ## Literals -/

/-- Over a gap to what stands behind it. -/
theorem skipGap (inside : scanner.Inside (' ' :: text) said)
    (stops : ∀ character, text.head? = some character → Text.isGap character = false) :
    scanner.skipGap.Inside text said := by
  rcases inside.shows with ⟨column, shows⟩
  have front : scanner.cursor.rest = [' '] ++ (text ++ ['\n']) := shows.rest
  have stands : ∀ character, (text ++ ['\n']).head? = some character →
      Text.isGap character = false := by
    cases text with
    | nil =>
      intro character newline
      cases newline
      decide
    | cons first more => exact stops
  have passed : scanner.skipGap = scanner.skip [' '].length := by
    rw [Scanner.skipGap, Cursor.skipGap_eq front (by decide) stands]
    rfl
  rw [passed]
  exact @Inside.skip _ [' '] _ _ inside (by decide) (by decide)

theorem content_literal {first : Char} {more : List Char}
    (inside : scanner.Inside (':' :: ' ' :: first :: more) said)
    (content : Text.isBlank first = false) (noComment : first ≠ '#') :
    scanner.content = some (scanner.read 1 (.assignment true)).literalValue := by
  rcases inside.shows with ⟨column, shows⟩
  exact content_sign shows.rest content noComment

/-- An unquoted literal is read up to the end of its text. -/
theorem literalValue_unquoted (inside : scanner.skipGap.Inside text said)
    (plain : ∀ character ∈ text, Text.isBlank character = false ∧ character ≠ '#')
    (noQuote : scanner.skipGap.quoted = none) :
    scanner.literalValue = scanner.skipGap.read text.length
      (if text = ['\x7b', '\x7d'] then .emptyMapping
        else if text = ['[', ']'] then .emptySequence
        else Scalar.classify text) := by
  rcases inside.shows with ⟨column, shows⟩
  have line : scanner.cursor.skipGap.line = text := by
    have rest : scanner.cursor.skipGap.rest = text ++ ['\n'] := shows.rest
    rw [Cursor.line, rest, Text.line_append]
    intro newline
    cases (plain _ newline).1
  have whole : text.takeWhile (· ≠ '#') = text :=
    List.takeWhile_eq_self_iff.mpr fun character member => decide_eq_true (plain character member).2
  have noQuote : ({ scanner with cursor := scanner.cursor.skipGap } : Scanner).quoted = none :=
    noQuote
  rw [literalValue]
  dsimp only
  rw [noQuote]
  dsimp only
  rw [line, whole, Text.trimEnd_of_forall fun character member => (plain character member).1]
  rfl

/-- Empty collections are neither numbers nor booleans. -/
theorem unquoted_eq_iff (known : lexeme.scalar? ≠ none) :
    (if text = ['\x7b', '\x7d'] then .emptyMapping
      else if text = ['[', ']'] then .emptySequence
      else Scalar.classify text) = lexeme ↔ Scalar.classify text = lexeme := by
  have apart : ∀ {found : Lexeme}, found.scalar? = none → found ≠ lexeme := by
    rintro found neither rfl
    exact known neither
  split
  · rename_i mapping
    rw [mapping]
    exact iff_of_false (apart rfl) (apart rfl)
  · split
    · rename_i sequence
      rw [sequence]
      exact iff_of_false (apart rfl) (apart rfl)
    · exact Iff.rfl

/-- Behind the sign of a literal the text is classified as a whole. -/
theorem readsTo_literal_iff (inside : scanner.Inside (':' :: ' ' :: text) said) (filled : text ≠ [])
    (plain : ∀ character ∈ text, Text.isBlank character = false ∧ character ≠ '#')
    (known : lexeme.scalar? ≠ none) :
    scanner.ReadsTo (said ++ [.assignment true, lexeme, .endOfInput]) ↔
      Scalar.classify text = lexeme := by
  rcases List.exists_cons_of_ne_nil filled with ⟨first, more, rfl⟩
  rcases plain first List.mem_cons_self with ⟨content, noComment⟩
  have moves := inside.moves (by decide) (by decide)
  rw [inside.content_literal content noComment, Option.getD_some] at moves
  rw [moves.readsTo_iff, List.append_cons]
  have sign := @Inside.read _ [':'] _ (.assignment true) _ inside (by decide) (by decide)
  have value := sign.skipGap fun character stands => by
    cases stands
    exact Text.isGap_of_isBlank content
  rcases value.shows with ⟨column, shows⟩
  generalize (scanner.read 1 (.assignment true)) = signed at sign value shows ⊢
  rw [← shows.said_eq]
  cases quote : signed.skipGap.quoted with
  | some next =>
    have same : signed.literalValue = next := by
      have quote : ({ signed with cursor := signed.cursor.skipGap } : Scanner).quoted = some next :=
        quote
      rw [literalValue]
      dsimp only
      rw [quote]
    rw [same]
    refine iff_of_false (fun reads => ?_) fun classified => ?_
    · rcases quoted_text_or_reject quote with ⟨count, value, rfl⟩ | ⟨count, rfl⟩
      · cases reads.lexeme_eq shows.calm (List.suffix_refl _)
        exact known rfl
      · exact reads.unstained (stained_reject _ _)
    · have noQuote := fun mark => @Scalar.notMem_of_classify _ _ mark known classified
      refine Option.some_ne_none next (quote.symm.trans (quoted_eq_none shows.rest ?_ ?_))
      · rintro rfl
        exact noQuote '\'' (by decide) (by decide) List.mem_cons_self
      · rintro rfl
        exact noQuote '"' (by decide) (by decide) List.mem_cons_self
  | none =>
    have inner : '\n' ∉ first :: more := fun newline => by cases (plain _ newline).1
    rw [literalValue_unquoted value plain quote, shows.said_eq, ← unquoted_eq_iff known]
    rw [← List.append_nil (first :: more)] at value
    have whole : ∀ found, (signed.skipGap.read (first :: more).length found).ReadsTo
        (said ++ [.assignment true] ++ [found, .endOfInput]) := by
      intro found
      rw [List.append_cons]
      exact (value.read inner filled).ends
    constructor
    · intro reads
      have same := List.append_cancel_left (reads.unique (whole _))
      exact (List.cons.inj same).1.symm
    · intro same
      rw [same]
      exact whole lexeme

end Inside

end Scanner

end Manifest
