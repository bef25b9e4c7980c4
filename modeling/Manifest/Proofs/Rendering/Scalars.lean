import Manifest.Proofs.Rendering.Lines
import Manifest.Proofs.Rendering.Tree

/-!
# Scalars and keys on a line

The spelling of a leaf is read as the token of the leaf, behind a hyphen as
well as behind the sign of an assignment, and a key as its symbol.
-/

namespace Manifest

/-! ## Quotes -/

theorem readQuoted_quoted (content : List Char) :
    readQuoted '\'' (Leaf.quoted content ++ ['\'']) = some (content, []) := by
  induction content with
  | nil => rfl
  | cons character content ih =>
    have step : Leaf.quoted (character :: content) =
        (if character = '\'' then ['\'', '\''] else [character]) ++ Leaf.quoted content := rfl
    by_cases quote : character = '\''
    · rw [step, if_pos quote]
      simp only [List.cons_append, List.nil_append, readQuoted, if_true, decide_true, Bool.and_self,
        ih, Option.map_some, quote]
    · have noEscape : ¬ (decide (character = '\\') && decide ('\'' = '"')) = true := by simp
      rw [step, if_neg quote, List.append_assoc, List.singleton_append]
      unfold readQuoted
      rw [if_neg quote, if_neg noEscape, ih]
      rfl

theorem newline_notMem_quoted {content : List Char} (line : '\n' ∉ content) :
    '\n' ∉ Leaf.quoted content := by
  rw [Leaf.quoted, List.mem_flatMap]
  rintro ⟨character, inside, found⟩
  split at found
  · simp at found
  · rw [List.mem_singleton.mp found] at line
    exact line inside

/-! ## Numerals -/

namespace Numeral

variable (numeral : Numeral)

theorem all_isDigit {digits : List Char} (ascii : digits.all Char.isDigit = true) :
    digits.all Text.isDigit = true := by
  rw [List.all_eq_true] at ascii ⊢
  exact fun digit inside => Text.isDigit_of_ascii (ascii digit inside)

/-- What the digits are followed by. -/
def point : List Char :=
  if numeral.fraction.isEmpty then [] else '.' :: numeral.fraction

theorem head_whole : ∃ digit rest, numeral.whole = digit :: rest ∧ digit.isDigit = true := by
  cases known : numeral.whole with
  | nil => exact absurd known numeral.whole_ne_nil
  | cons digit rest =>
    have digits := numeral.whole_digits
    rw [known, List.all_cons, Bool.and_eq_true] at digits
    exact ⟨digit, rest, rfl, digits.1⟩

/-- A numeral begins with a hyphen and a digit, or with a digit. -/
theorem spelling_cases :
    (numeral.negative = true ∧ numeral.spelling = '-' :: (numeral.whole ++ numeral.point)) ∨
      (numeral.negative = false ∧ numeral.spelling = numeral.whole ++ numeral.point) := by
  cases known : numeral.negative with
  | true =>
    refine .inl ⟨rfl, ?_⟩
    rw [spelling, sign, known, point]
    rfl
  | false =>
    refine .inr ⟨rfl, ?_⟩
    rw [spelling, sign, known, point]
    rfl

theorem hyphen_ne_digit {digit : Char} (known : digit.isDigit = true) : digit ≠ '-' := by
  rintro rfl
  cases known

theorem isEmpty_whole : numeral.whole.isEmpty = false := by
  rcases numeral.head_whole with ⟨digit, rest, same, _⟩
  rw [same]
  rfl

theorem whole_ne_hyphen {behind rest : List Char} (same : numeral.whole ++ behind = '-' :: rest) :
    False := by
  rcases numeral.head_whole with ⟨digit, more, whole, known⟩
  rw [whole] at same
  cases same
  cases known

theorem point_nil (none : numeral.fraction = []) : numeral.point = [] := by
  rw [point, none]
  rfl

theorem point_cons {digit : Char} {rest : List Char} (some : numeral.fraction = digit :: rest) :
    numeral.point = '.' :: digit :: rest := by
  rw [point, some]
  rfl

theorem splitNumeral_spelling (behind : List Char) :
    Scalar.splitNumeral (numeral.spelling ++ '\n' :: behind) =
      some (numeral.spelling, '\n' :: behind) := by
  have stops : ∀ character, (numeral.point ++ '\n' :: behind).head? = some character →
      Text.isDigit character = false := by
    intro character stands
    rw [point] at stands
    split at stands <;> cases stands <;> decide
  have whole := Text.takeWhile_append (all_isDigit numeral.whole_digits) stops
  have ends : ∀ character, ('\n' :: behind).head? = some character →
      Text.isDigit character = false := by
    intro character stands
    cases stands
    decide
  have fraction := Text.takeWhile_append (all_isDigit numeral.fraction_digits) ends
  have filled : ¬ numeral.whole.isEmpty = true := by simp [numeral.isEmpty_whole]
  rcases numeral.spelling_cases with ⟨_, same⟩ | ⟨_, same⟩
  all_goals
    rw [same]
    simp only [List.cons_append, List.append_assoc]
    rw [Scalar.splitNumeral]
  any_goals exact fun rest found => numeral.whole_ne_hyphen found
  all_goals
    dsimp only
    rw [whole.1, whole.2, if_neg filled]
    cases known : numeral.fraction with
    | nil =>
      rw [numeral.point_nil known, List.append_nil]
      rfl
    | cons digit rest =>
      rw [known] at fraction
      rw [numeral.point_cons known, List.cons_append]
      simp only [fraction.1, fraction.2, List.isEmpty_cons, Bool.false_eq_true, if_false]
      rfl

theorem head_spelling : (numeral.spelling.head? == some '-') = numeral.negative := by
  rcases numeral.spelling_cases with ⟨sign, same⟩ | ⟨sign, same⟩
  · rw [same, sign]
    rfl
  · rcases numeral.head_whole with ⟨digit, rest, whole, known⟩
    rw [same, sign, whole]
    exact beq_eq_false_iff_ne.mpr fun equal => hyphen_ne_digit known (Option.some.inj equal)

theorem readNumeral_spelling : Scalar.readNumeral numeral.spelling = some numeral.value := by
  have stops : ∀ character, numeral.point.head? = some character →
      character.isDigit = false := by
    intro character stands
    rw [point] at stands
    split at stands <;> cases stands
    decide
  have whole := Text.takeWhile_append numeral.whole_digits stops
  have filled : ¬ numeral.whole.isEmpty = true := by simp [numeral.isEmpty_whole]
  rcases numeral.spelling_cases with ⟨sign, same⟩ | ⟨sign, same⟩
  all_goals
    rw [← numeral.ofDecimal_eq_value, ← numeral.head_spelling, same, Scalar.readNumeral]
  any_goals exact fun rest found => numeral.whole_ne_hyphen found
  all_goals
    dsimp only
    rw [whole.1, if_neg filled, List.drop_left]
    cases known : numeral.fraction with
    | nil =>
      rw [numeral.point_nil known]
    | cons digit rest =>
      have digits := numeral.fraction_digits
      rw [known] at digits
      rw [numeral.point_cons known]
      simp only [digits, List.isEmpty_cons, Bool.not_false, Bool.and_self, if_true]

end Numeral

/-! ## Rules that do not apply -/

namespace Scanner

variable {scanner : Scanner} {first : Char} {more : List Char}

/-- The characters that a mark may begin with. -/
def markHeads : List Char := ['{', '[', '-', '+', '(', ')', '^', '|', '?']

theorem mark_eq_none_of_marks (noSection : atSectionStart scanner.cursor = false)
    (noMark : ∀ entry ∈ marks, entry.1.toList.isPrefixOf scanner.cursor.rest = false) :
    scanner.mark = none := by
  rw [mark, noSection, if_neg Bool.false_ne_true, Option.map_eq_none_iff, List.find?_eq_none]
  intro entry member
  exact Bool.eq_false_iff.mp (noMark entry member)

theorem mark_eq_none (rest : scanner.cursor.rest = first :: more) (plain : first ∉ markHeads) :
    scanner.mark = none := by
  have noHyphen : first ≠ '-' := by
    rintro rfl
    exact plain (by decide)
  have noSection : atSectionStart scanner.cursor = false := by
    rw [atSectionStart, rest]
    split
    · rename_i found
      cases found
      exact absurd rfl noHyphen
    · exact Bool.and_false _
  have noMark : ∀ entry ∈ marks, entry.1.toList.isPrefixOf (first :: more) = false := by
    have heads : ∀ entry ∈ marks, entry.1.toList.head?.any (· ∈ markHeads) = true := by decide
    rintro ⟨text, lexeme⟩ member
    have known := heads _ member
    dsimp only at known ⊢
    cases spelled : text.toList with
    | nil =>
      rw [spelled] at known
      cases known
    | cons head tail =>
      rw [spelled] at known
      have other : head ≠ first := by
        rintro rfl
        exact plain (of_decide_eq_true known)
      simp [List.isPrefixOf, other]
  exact mark_eq_none_of_marks noSection (by rw [rest]; exact noMark)

theorem mark_eq_none_of_hyphen {second : Char} (rest : scanner.cursor.rest = '-' :: second :: more)
    (digit : second.isDigit = true) : scanner.mark = none := by
  have noSection : atSectionStart scanner.cursor = false := by
    rw [atSectionStart, rest]
    split
    · rename_i found
      cases found
      cases digit
    · exact Bool.and_false _
  have other : second ≠ '>' := by
    rintro rfl
    cases digit
  have noMark : ∀ entry ∈ marks, entry.1.toList.isPrefixOf ('-' :: second :: more) = false := by
    simp [marks, List.isPrefixOf, Ne.symm other]
  exact mark_eq_none_of_marks noSection (by rw [rest]; exact noMark)

theorem number_eq_none (rest : scanner.cursor.rest = first :: more) (noHyphen : first ≠ '-')
    (noDigit : Text.isDigit first = false) : scanner.number = none := by
  have none : Scalar.splitNumeral (first :: more) = none := by
    rw [Scalar.splitNumeral]
    · dsimp only
      rw [List.takeWhile_cons_of_neg (by simp [noDigit])]
      rfl
    · intro rest found
      cases found
      exact noHyphen rfl
  rw [number, rest, none]

theorem content_eq_number (noMark : scanner.mark = none) (noColon : scanner.colon = none)
    (noQuote : scanner.quoted = none) : scanner.content = (scanner.number <|> scanner.symbol) := by
  rw [content, noMark, noColon, noQuote]
  rfl

end Scanner

/-! ## Words -/

theorem toNat_of_isSymbolStart {character : Char} (starts : isSymbolStart character = true) :
    character.toNat = 36 ∨ 65 ≤ character.toNat ∧ character.toNat ≤ 122 := by
  delta isSymbolStart Char.isAlpha Char.isUpper Char.isLower at starts
  simp only [Bool.or_eq_true, Bool.and_eq_true, decide_eq_true_eq, beq_iff_eq] at starts
  rcases starts with ((⟨low, high⟩ | ⟨low, high⟩) | rfl) | rfl
  · have low : 65 ≤ character.toNat := low
    have high : character.toNat ≤ 90 := high
    omega
  · have low : 97 ≤ character.toNat := low
    have high : character.toNat ≤ 122 := high
    omega
  · decide
  · decide

/-- A letter is no digit of any script. -/
theorem isDigit_of_isSymbolStart {character : Char} (starts : isSymbolStart character = true) :
    Text.isDigit character = false := by
  have zeros : ∀ first ∈ Text.digitZeros, first = 48 ∨ 1632 ≤ first := by decide
  have bounds := toNat_of_isSymbolStart starts
  rw [Text.isDigit, List.any_eq_false]
  intro first member
  have known := zeros first member
  simp only [Bool.and_eq_true, decide_eq_true_eq]
  omega

/-- What ends a word: no character of words, nor the end of an arrow. -/
def EndsWord (behind : List Char) : Prop :=
  ∀ character, behind.head? = some character → isSymbolChar character = false ∧ character ≠ '>'

theorem symbolText_of_ends {behind : List Char} (ends : EndsWord behind) :
    symbolText behind = [] := by
  unfold symbolText
  split
  · rfl
  · rfl
  · rename_i first rest _
    rw [if_neg]
    rw [(ends first rfl).1]
    exact Bool.false_ne_true

theorem symbolText_cons {first : Char} {text : List Char}
    (whole : symbolText (first :: text) = first :: text) :
    isSymbolChar first = true ∧ symbolText text = text ∧
      ¬ (first = '-' ∧ text.head? = some '>') := by
  unfold symbolText at whole
  split at whole
  · cases whole
  · cases whole
  · rename_i head rest noArrow same
    cases same
    split at whole
    · rename_i inner
      refine ⟨inner, (List.cons.inj whole).2, ?_⟩
      rintro ⟨rfl, arrow⟩
      rcases List.head?_eq_some_iff.mp arrow with ⟨behind, rfl⟩
      exact noArrow behind rfl rfl
    · cases whole

/-- A word that is read whole is read up to what ends a word. -/
theorem symbolText_append {text behind : List Char} (whole : symbolText text = text)
    (ends : EndsWord behind) : symbolText (text ++ behind) = text := by
  induction text with
  | nil => exact symbolText_of_ends ends
  | cons first text ih =>
    rcases symbolText_cons whole with ⟨inner, rest, noArrow⟩
    rw [List.cons_append]
    unfold symbolText
    split
    · rename_i found
      cases found
    · rename_i behindArrow found
      injection found with hyphen arrow
      cases text with
      | nil =>
        rw [List.nil_append] at arrow
        exact absurd rfl (ends '>' (by rw [arrow]; rfl)).2
      | cons second text =>
        cases arrow
        exact absurd ⟨hyphen, rfl⟩ noArrow
    · rename_i head tail _ found
      cases found
      rw [if_pos inner, ih rest]

theorem endsWord_newline (behind : List Char) : EndsWord ('\n' :: behind) := by
  intro character stands
  cases stands
  decide

theorem endsWord_colon (behind : List Char) : EndsWord (':' :: behind) := by
  intro character stands
  cases stands
  decide

theorem endsWord_gap (behind : List Char) : EndsWord (' ' :: behind) := by
  intro character stands
  cases stands
  decide

theorem endsWord_closeParen (behind : List Char) : EndsWord (')' :: behind) := by
  intro character stands
  cases stands
  decide

namespace Scanner

variable {scanner : Scanner} {behind : List Char}

/-- A word is no mark, no string and no number. -/
theorem content_word {word : List Char} (rest : scanner.cursor.rest = word ++ behind)
    (starts : word.head?.any isSymbolStart = true) (whole : symbolText word = word)
    (ends : EndsWord behind) :
    scanner.content = some (scanner.read word.length
      (match Scalar.readBoolean word with
        | some value => .boolean value
        | none => .symbol (String.ofList word))) := by
  cases word with
  | nil => cases starts
  | cons first text =>
    have starts : isSymbolStart first = true := starts
    have read := symbolText_append whole ends
    have front : scanner.cursor.rest = first :: (text ++ behind) := rest
    have other : ∀ mark, isSymbolStart mark = false → first ≠ mark := by
      rintro mark none rfl
      rw [starts] at none
      cases none
    have plain : first ∉ markHeads := by
      intro member
      have none : markHeads.all (fun mark => !isSymbolStart mark) = true := by decide
      exact other first (by simpa using List.all_eq_true.mp none first member) rfl
    rw [content_eq_number (mark_eq_none front plain)
      (colon_eq_none front (other ':' (by decide)))
      (quoted_eq_none front (other '\'' (by decide)) (other '"' (by decide))),
      number_eq_none front (other '-' (by decide)) (isDigit_of_isSymbolStart starts)]
    have begins : (first :: (text ++ behind)).head?.any isSymbolStart = true := starts
    rw [Scanner.symbol, front, if_pos begins]
    dsimp only
    rw [← List.cons_append, read]
    rfl

/-! ## Leaves behind a hyphen -/

theorem content_numeral (numeral : Numeral)
    (rest : scanner.cursor.rest = numeral.spelling ++ '\n' :: behind) :
    scanner.content = some (scanner.read numeral.spelling.length (.number numeral.value)) := by
  have read : scanner.number =
      some (scanner.read numeral.spelling.length (.number numeral.value)) := by
    rw [number, rest, numeral.splitNumeral_spelling]
    have closes : ¬ ('\n' :: behind).head?.any isSymbolChar = true :=
      (by decide : ¬ isSymbolChar '\n' = true)
    dsimp only
    rw [if_neg closes, numeral.readNumeral_spelling]
    rfl
  rcases numeral.head_whole with ⟨digit, others, found, known⟩
  have other : ∀ mark, mark.isDigit = false → digit ≠ mark := by
    rintro mark none rfl
    rw [known] at none
    cases none
  rcases numeral.spelling_cases with ⟨_, same⟩ | ⟨_, same⟩
  · have front : scanner.cursor.rest =
        '-' :: digit :: (others ++ numeral.point ++ '\n' :: behind) := by
      rw [rest, same, found]
      rfl
    rw [content_eq_number (mark_eq_none_of_hyphen front known) (colon_eq_none front (by decide))
      (quoted_eq_none front (by decide) (by decide)), read]
    rfl
  · have front : scanner.cursor.rest = digit :: (others ++ numeral.point ++ '\n' :: behind) := by
      rw [rest, same, found]
      rfl
    have plain : digit ∉ markHeads := by
      intro member
      have none : markHeads.all (fun mark => !mark.isDigit) = true := by decide
      exact other digit (by simpa using List.all_eq_true.mp none digit member) rfl
    rw [content_eq_number (mark_eq_none front plain) (colon_eq_none front (other ':' (by decide)))
      (quoted_eq_none front (other '\'' (by decide)) (other '"' (by decide))), read]
    rfl

theorem quoted_text {content : List Char} (oneLine : '\n' ∉ content)
    (rest : scanner.cursor.rest = (Leaf.text content oneLine).spelling ++ '\n' :: behind) :
    scanner.quoted = some (scanner.read (Leaf.text content oneLine).spelling.length
      (.text (String.ofList content))) := by
  have front : scanner.cursor.rest =
      '\'' :: ((Leaf.quoted content ++ ['\'']) ++ '\n' :: behind) := rest
  have inner : '\n' ∉ Leaf.quoted content ++ ['\''] := by
    intro found
    rcases List.mem_append.mp found with found | found
    · exact newline_notMem_quoted oneLine found
    · cases List.mem_singleton.mp found
  rw [quoted, front]
  dsimp only
  rw [if_pos (by decide), Text.line_append inner, readQuoted_quoted]
  rfl

theorem content_leaf (leaf : Leaf)
    (rest : scanner.cursor.rest = leaf.spelling ++ '\n' :: behind) :
    scanner.content = some (scanner.read leaf.spelling.length leaf.lexeme) := by
  cases leaf with
  | text content oneLine =>
    have front : scanner.cursor.rest =
        '\'' :: ((Leaf.quoted content ++ ['\'']) ++ '\n' :: behind) := rest
    rw [Scanner.content, mark_eq_none front (by decide), colon_eq_none front (by decide),
      quoted_text oneLine rest]
    rfl
  | number numeral => exact content_numeral numeral rest
  | boolean truth =>
    cases truth with
    | true => exact content_word rest (by decide) (by decide) (endsWord_newline behind)
    | false => exact content_word rest (by decide) (by decide) (endsWord_newline behind)
  | emptyMapping =>
    have front : scanner.cursor.rest = '\x7b' :: '\x7d' :: '\n' :: behind := rest
    have noSection : atSectionStart scanner.cursor = false := by
      rw [atSectionStart, front]
      exact Bool.and_false _
    rw [Scanner.content, mark, noSection, front]
    rfl
  | emptySequence =>
    have front : scanner.cursor.rest = '[' :: ']' :: '\n' :: behind := rest
    have noSection : atSectionStart scanner.cursor = false := by
      rw [atSectionStart, front]
      exact Bool.and_false _
    rw [Scanner.content, mark, noSection, front]
    rfl

end Scanner

/-! ## The characters of a leaf -/

/-- A character of a spelling that needs no quotes. -/
def isPlain (character : Char) : Bool :=
  character.isAlphanum || character == '-' || character == '.' || character == '\x7b' ||
    character == '\x7d' || character == '[' || character == ']'

theorem toNat_of_isPlain {character : Char} (plain : isPlain character = true) :
    45 ≤ character.toNat ∧ character.toNat ≤ 57 ∨ 65 ≤ character.toNat ∧ character.toNat ≤ 125 := by
  delta isPlain Char.isAlphanum Char.isAlpha Char.isUpper Char.isLower Char.isDigit at plain
  simp only [Bool.or_eq_true, Bool.and_eq_true, decide_eq_true_eq, beq_iff_eq] at plain
  rcases plain with ((((((((⟨low, high⟩ | ⟨low, high⟩) | ⟨low, high⟩) | rfl) | rfl) | rfl) | rfl) |
    rfl) | rfl)
  · have low : 65 ≤ character.toNat := low
    have high : character.toNat ≤ 90 := high
    omega
  · have low : 97 ≤ character.toNat := low
    have high : character.toNat ≤ 122 := high
    omega
  · have low : 48 ≤ character.toNat := low
    have high : character.toNat ≤ 57 := high
    omega
  all_goals decide

theorem isBlank_of_isPlain {character : Char} (plain : isPlain character = true) :
    Text.isBlank character = false := by
  have bounds := toNat_of_isPlain plain
  have ranges : ∀ range ∈ Text.blankRanges,
      range.2 < 45 ∨ 125 < range.1 := by decide
  rw [Text.isBlank, List.any_eq_false]
  intro range member
  have known := ranges range member
  simp only [Bool.and_eq_true, decide_eq_true_eq]
  omega

theorem ne_of_isPlain {character other : Char} (plain : isPlain character = true)
    (known : isPlain other = false) : character ≠ other := by
  rintro rfl
  rw [plain] at known
  cases known

/-- Without blanks there is nothing to trim. -/
theorem Text.trimEnd_of_forall {text : List Char} (content : ∀ character ∈ text,
    isBlank character = false) : trimEnd text = text := by
  have kept : text.reverse.dropWhile isBlank = text.reverse := by
    cases known : text.reverse with
    | nil => rfl
    | cons last rest =>
      have member : last ∈ text := List.mem_reverse.mp (by rw [known]; exact List.mem_cons_self)
      rw [List.dropWhile_cons_of_neg]
      rw [content last member]
      exact Bool.false_ne_true
  rw [trimEnd, kept, List.reverse_reverse]

namespace Numeral

theorem isPlain_of_mem (numeral : Numeral) {character : Char}
    (member : character ∈ numeral.spelling) : isPlain character = true := by
  have digit : character.isDigit = true → isPlain character = true := by
    intro known
    simp [isPlain, Char.isAlphanum, known]
  have whole := List.all_eq_true.mp numeral.whole_digits
  have fraction := List.all_eq_true.mp numeral.fraction_digits
  rw [spelling, List.mem_append, List.mem_append, sign] at member
  rcases member with (sign | inside) | point
  · split at sign
    · cases List.mem_singleton.mp sign
      decide
    · cases sign
  · exact digit (whole character inside)
  · split at point
    · cases point
    · rcases List.mem_cons.mp point with rfl | inside
      · decide
      · exact digit (fraction character inside)

end Numeral

namespace Leaf

def isText : Leaf → Bool
  | text _ _ => true
  | _ => false

theorem isPlain_of_mem {leaf : Leaf} (noText : leaf.isText = false) {character : Char}
    (member : character ∈ leaf.spelling) : isPlain character = true := by
  have all : ∀ {text : List Char}, text.all isPlain = true → character ∈ text →
      isPlain character = true := fun plain inside => List.all_eq_true.mp plain character inside
  cases leaf with
  | text => cases noText
  | number numeral => exact numeral.isPlain_of_mem member
  | boolean truth =>
    cases truth with
    | true => exact all (by decide) member
    | false => exact all (by decide) member
  | emptyMapping => exact all (by decide) member
  | emptySequence => exact all (by decide) member

theorem newline_notMem (leaf : Leaf) : '\n' ∉ leaf.spelling := by
  intro member
  cases known : leaf.isText with
  | false => exact ne_of_isPlain (isPlain_of_mem known member) (by decide) rfl
  | true =>
    cases leaf with
    | text content oneLine =>
      rcases List.mem_append.mp member with front | last
      · rcases List.mem_cons.mp front with quote | inside
        · cases quote
        · exact newline_notMem_quoted oneLine inside
      · cases List.mem_singleton.mp last
    | _ => cases known

/-- A leaf begins with a character of its own. -/
theorem head_spelling (leaf : Leaf) :
    ∃ first more, leaf.spelling = first :: more ∧ (first = '\'' ∨ isPlain first = true) := by
  cases leaf with
  | text => exact ⟨_, _, rfl, .inl rfl⟩
  | number numeral =>
    rcases numeral.head_whole with ⟨digit, others, found, known⟩
    have plain : isPlain digit = true := by simp [isPlain, Char.isAlphanum, known]
    rcases numeral.spelling_cases with ⟨_, same⟩ | ⟨_, same⟩
    · exact ⟨_, _, same, .inr rfl⟩
    · rw [found] at same
      exact ⟨_, _, same, .inr plain⟩
  | boolean truth => cases truth <;> exact ⟨_, _, rfl, .inr rfl⟩
  | emptyMapping | emptySequence => exact ⟨_, _, rfl, .inr rfl⟩

end Leaf

/-! ## Leaves behind the sign of an assignment -/

theorem takeWhile_of_isPlain {text : List Char} {test : Char → Bool}
    (plain : ∀ character ∈ text, isPlain character = true)
    (passes : ∀ character, isPlain character = true → test character = true) :
    text.takeWhile test = text := by
  have all : text.all test = true :=
    List.all_eq_true.mpr fun character member => passes character (plain character member)
  have whole := @Text.takeWhile_append test text [] all fun character stands => nomatch stands
  rw [List.append_nil] at whole
  exact whole.1

/-- An unquoted scalar is the token of its leaf. -/
theorem lexeme_of_spelling {leaf : Leaf} (noText : leaf.isText = false) :
    (if leaf.spelling = ['\x7b', '\x7d'] then Lexeme.emptyMapping
      else if leaf.spelling = ['[', ']'] then .emptySequence
      else Scalar.classify leaf.spelling) = leaf.lexeme := by
  cases leaf with
  | text => cases noText
  | number numeral =>
    have other : ∀ text, Scalar.readNumeral text = none → numeral.spelling ≠ text := by
      rintro text none rfl
      rw [numeral.readNumeral_spelling] at none
      cases none
    rw [Leaf.spelling, if_neg (other _ (by decide)), if_neg (other _ (by decide)), Scalar.classify,
      numeral.readNumeral_spelling]
    rfl
  | boolean truth => cases truth <;> rfl
  | emptyMapping | emptySequence => rfl

namespace Scanner

variable {scanner : Scanner} {behind : List Char}

theorem literalValue_leaf (leaf : Leaf)
    (rest : scanner.cursor.skipGap.rest = leaf.spelling ++ '\n' :: behind) :
    scanner.literalValue =
      ({ scanner with cursor := scanner.cursor.skipGap } : Scanner).read leaf.spelling.length
        leaf.lexeme := by
  cases known : leaf.isText with
  | true =>
    cases leaf with
    | text content oneLine =>
      have read := @quoted_text { scanner with cursor := scanner.cursor.skipGap } behind content
        oneLine rest
      rw [literalValue]
      dsimp only
      rw [read]
      rfl
    | _ => cases known
  | false =>
    have plain : ∀ character ∈ leaf.spelling, isPlain character = true :=
      fun character member => Leaf.isPlain_of_mem known member
    rcases leaf.head_spelling with ⟨first, more, spelled, begins⟩
    have firstPlain : isPlain first = true := plain first (spelled ▸ List.mem_cons_self)
    have noQuote : ({ scanner with cursor := scanner.cursor.skipGap } : Scanner).quoted = none := by
      have front : scanner.cursor.skipGap.rest = first :: (more ++ '\n' :: behind) := by
        rw [rest, spelled]
        rfl
      exact quoted_eq_none front (ne_of_isPlain firstPlain (by decide))
        (ne_of_isPlain firstPlain (by decide))
    have line : scanner.cursor.skipGap.line = leaf.spelling := by
      rw [Cursor.line, rest, Text.line_append leaf.newline_notMem]
    have passes : ∀ character, isPlain character = true → decide (character ≠ '#') = true :=
      fun character known => decide_eq_true (ne_of_isPlain known (by decide))
    rw [literalValue]
    dsimp only
    rw [noQuote]
    dsimp only
    rw [line, takeWhile_of_isPlain plain passes,
      Text.trimEnd_of_forall fun character member => isBlank_of_isPlain (plain character member),
      lexeme_of_spelling known]

end Scanner
end Manifest
