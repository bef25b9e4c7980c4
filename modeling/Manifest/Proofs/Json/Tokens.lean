import Manifest.Proofs.Json.Numerals

/-!
# The tokens of a written value

The text of a value, in either layout, scans to the tokens of the value: one for
everything that is no container, and for a container its brackets around the
tokens of what it holds.
-/

namespace Manifest
namespace Json

/-! ## Strings -/

/-- An escaped control character has the code of the character. -/
theorem unit?_hexDigits {code : Nat} (control : code < 0x20) :
    Token.unit? '0' '0' (hexDigit (code / 16)) (hexDigit (code % 16)) = some code := by
  decide +revert

/-- What a character is written as is read as that character. -/
theorem readText_escape (character : Char) (rest : List Char) :
    Token.readText (escape character ++ rest) =
      Token.keep character (escape character).length (Token.readText rest) := by
  fun_cases escape character with
  | case8 _ control =>
    have code := unit?_hexDigits control
    rw [if_pos control]
    simp only [List.cons_append, List.nil_append, Token.readText, code]
    have low : ¬ (0xD800 ≤ character.toNat && character.toNat < 0xDC00) = true := by
      simp only [Bool.and_eq_true, decide_eq_true_eq]
      omega
    have high : ¬ (0xDC00 ≤ character.toNat && character.toNat < 0xE000) = true := by
      simp only [Bool.and_eq_true, decide_eq_true_eq]
      omega
    rw [if_neg low, if_neg high, Char.ofNat_toNat]
    rfl
  | case9 _ printable quotation backslash =>
    rw [if_neg printable, List.singleton_append, Token.readText]
    · rw [decide_eq_false printable, decide_eq_false backslash]
      rfl
    all_goals grind
  | _ => rfl

/-- A written string is read up to its closing quote. -/
theorem readText_quoted (content rest : List Char) :
    Token.readText (content.flatMap escape ++ '"' :: rest) =
      some (content, (content.flatMap escape).length + 1) := by
  induction content with
  | nil => rfl
  | cons character further ih =>
    rw [List.flatMap_cons, List.append_assoc, readText_escape, ih, Token.keep, Option.map_some,
      List.length_append, Nat.add_assoc]

/-! ## Texts that scan to tokens -/

namespace Token

/-- Nothing that a numeral or a word goes on with stands at the front of a text. -/
def Stops (text : List Char) : Prop :=
  ∀ character, text.head? = some character →
    isNumeral character = false ∧ character.isAlpha = false

/-- A text scans to tokens wherever it stands, unless a numeral or a word goes on
behind it. -/
def Scans (text : List Char) (tokens : List Token) : Prop :=
  ∀ rest, Stops rest → scanBehind 0 (text ++ rest) = (scanBehind 0 rest).map (tokens ++ ·)

theorem scanBehind_length (front rest : List Char) :
    scanBehind front.length (front ++ rest) = scanBehind 0 rest := by
  induction front with
  | nil => rfl
  | cons character further ih =>
    rw [List.length_cons, List.cons_append, scanBehind]
    exact ih

theorem takeWhile_append_of_stops {check : Char → Bool} {front rest : List Char}
    (all : ∀ character ∈ front, check character = true)
    (stops : ∀ character, rest.head? = some character → check character = false) :
    (front ++ rest).takeWhile check = front := by
  rw [List.takeWhile_append_of_pos all]
  cases rest with
  | nil => exact List.append_nil front
  | cons character further =>
    rw [List.takeWhile_cons_of_neg (by simp [stops character rfl]), List.append_nil]

/-- A text is scanned in one step if its first character begins its token. -/
theorem scans_of_first {character : Char} {behind : List Char} {token : Token}
    (noBlank : isBlank character = false)
    (first : ∀ rest, Stops rest → first? character (behind ++ rest) = some (token, behind.length)) :
    Scans (character :: behind) [token] := by
  intro rest stops
  rw [List.cons_append, scanBehind, noBlank, if_neg Bool.false_ne_true, first rest stops]
  dsimp only
  rw [scanBehind_length]
  rfl

/-- What words and numerals begin with is no blank, no quote and no mark. -/
theorem plain_of_begins {character : Char}
    (begins : (character.isAlpha || character.isDigit || character == '-') = true) :
    isBlank character = false ∧ character ≠ '"' ∧ mark? character = none := by
  refine ⟨?_, ?_, ?_⟩
  · refine Bool.eq_false_iff.mpr fun blank => ?_
    simp only [isBlank, Bool.or_eq_true, beq_iff_eq] at blank
    rcases blank with ((rfl | rfl) | rfl) | rfl <;> cases begins
  · rintro rfl
    cases begins
  · fun_cases mark? character with
    | case7 => rfl
    | _ => cases begins

theorem scans_word {character : Char} {letters : List Char} {token : Token}
    (alphabetic : (character :: letters).all Char.isAlpha = true)
    (word : word? (character :: letters) = some token) : Scans (character :: letters) [token] := by
  rcases List.forall_mem_cons.mp (List.all_eq_true.mp alphabetic) with ⟨letter, further⟩
  have begins : (character.isAlpha || character.isDigit || character == '-') = true := by
    rw [letter, Bool.true_or, Bool.true_or]
  rcases plain_of_begins begins with ⟨noBlank, noQuote, noMark⟩
  refine scans_of_first noBlank fun rest stops => ?_
  rw [first?, if_neg noQuote, noMark]
  dsimp only
  rw [if_pos letter, takeWhile_append_of_stops further fun next here => (stops next here).2, word]
  rfl

theorem isAlpha_of_isDigit {character : Char} (digit : character.isDigit = true) :
    character.isAlpha = false := by
  delta Char.isDigit at digit
  delta Char.isAlpha Char.isUpper Char.isLower
  simp only [Bool.and_eq_true, decide_eq_true_eq, Bool.or_eq_false_iff, Bool.and_eq_false_iff,
    decide_eq_false_iff_not] at *
  grind

theorem isNumeral_of_isDigit {character : Char} (digit : character.isDigit = true) :
    isNumeral character = true := by
  simp [isNumeral, digit]

/-- A text of digits, perhaps behind a hyphen, scans to the number it is read as. -/
theorem scans_numeral {character : Char} {more : List Char} {number : Number}
    (begins : (character.isDigit || character == '-') = true)
    (all : ∀ other ∈ more, other.isDigit = true)
    (value : (Numeral.read (character :: more)).bind Numeral.number? = some number) :
    Scans (character :: more) [.number number] := by
  have noLetter : character.isAlpha = false := by
    rcases Bool.or_eq_true_iff.mp begins with digit | hyphen
    · exact isAlpha_of_isDigit digit
    · rw [beq_iff_eq.mp hyphen]
      rfl
  rcases plain_of_begins (by rw [Bool.or_assoc, begins, Bool.or_true]) with
    ⟨noBlank, noQuote, noMark⟩
  refine scans_of_first noBlank fun rest stops => ?_
  rw [first?, if_neg noQuote, noMark]
  dsimp only
  rw [noLetter, if_neg Bool.false_ne_true,
    takeWhile_append_of_stops (fun other inside => isNumeral_of_isDigit (all other inside))
      fun next here => (stops next here).1, value]
  rfl

theorem scans_numberText {number : Number} (whole : number.Whole) :
    Scans (numberText number).toList [.number number] := by
  have value := read_numberText whole
  rcases toList_numberText whole with ⟨magnitude, _, text⟩
  have all : ∀ digit ∈ Nat.toDigits 10 magnitude, digit.isDigit = true :=
    fun _ inside => Nat.isDigit_of_mem_toDigits (by decide) (by decide) inside
  rw [text] at value ⊢
  rw [Numeral.ofMagnitude] at value ⊢
  cases negative : number.negative with
  | true =>
    rw [negative] at value
    exact scans_numeral rfl all value
  | false =>
    rw [negative] at value
    rw [if_neg Bool.false_ne_true, List.nil_append] at value ⊢
    cases digits : Nat.toDigits 10 magnitude with
    | nil => exact absurd digits Nat.toDigits_ne_nil
    | cons first more =>
      rw [digits] at value all
      rcases List.forall_mem_cons.mp all with ⟨digit, further⟩
      exact scans_numeral (by rw [digit, Bool.true_or]) further value

theorem scans_quote (content : String) : Scans (quote content).toList [.text content.toList] := by
  rw [quote, String.toList_ofList, List.cons_append]
  refine scans_of_first (by decide) fun rest _ => ?_
  rw [first?, if_pos rfl, List.append_assoc, List.singleton_append, readText_quoted,
    List.length_append]
  rfl

/-! ## Texts that stand between tokens -/

/-- A text that begins with a mark or a blank and scans to tokens whatever stands
behind it. -/
structure Separates (text : List Char) (tokens : List Token) : Prop where
  scans : ∀ rest, scanBehind 0 (text ++ rest) = (scanBehind 0 rest).map (tokens ++ ·)
  stops : ∀ rest, Stops (text ++ rest)

variable {text before behind : List Char} {tokens first second between : List Token}

theorem Separates.trans (one : Separates before first) (other : Separates behind second) :
    Separates (before ++ behind) (first ++ second) where
  scans rest := by
    rw [List.append_assoc, one.scans, other.scans, Option.map_map]
    exact congrArg (Option.map · _) (funext fun _ => (List.append_assoc _ _ _).symm)
  stops rest := by
    rw [List.append_assoc]
    exact one.stops (behind ++ rest)

theorem Separates.append (one : Separates before first) (other : Scans behind second) :
    Scans (before ++ behind) (first ++ second) := by
  intro rest stops
  rw [List.append_assoc, one.scans, other rest stops, Option.map_map]
  exact congrArg (Option.map · _) (funext fun _ => (List.append_assoc _ _ _).symm)

/-- Two texts that scan may stand on both sides of one that separates them. -/
theorem Scans.join (one : Scans before first) (parts : Separates text between)
    (other : Scans behind second) :
    Scans (before ++ (text ++ behind)) (first ++ (between ++ second)) := by
  intro rest stops
  have further := (parts.append other) rest stops
  have halts : Stops (text ++ behind ++ rest) := by
    rw [List.append_assoc]
    exact parts.stops (behind ++ rest)
  rw [List.append_assoc, one _ halts, further, Option.map_map]
  exact congrArg (Option.map · _) (funext fun _ => (List.append_assoc _ _ _).symm)

theorem Scans.nil : Scans [] [] := by
  intro rest _
  rw [List.nil_append]
  exact Option.map_id'.symm

theorem Scans.close (one : Scans before first) (parts : Separates text between) :
    Scans (before ++ text) (first ++ between) := by
  have joined := one.join parts .nil
  rwa [List.append_nil, List.append_nil] at joined

theorem separates_mark {character : Char} {token : Token} (mark : mark? character = some token) :
    Separates [character] [token] where
  scans rest := by
    have noBlank : isBlank character = false := by
      revert mark
      fun_cases mark? character <;> first | exact fun _ => rfl | exact fun none => (nomatch none)
    have noQuote : character ≠ '"' := by
      rintro rfl
      cases mark
    rw [List.singleton_append, scanBehind, noBlank, if_neg Bool.false_ne_true, first?,
      if_neg noQuote, mark]
    rfl
  stops rest := by
    revert mark
    fun_cases mark? character <;>
      first
      | exact fun _ _ same => Option.some.inj same ▸ by decide
      | exact fun none => (nomatch none)

theorem separates_blank {character : Char} (blank : isBlank character = true) :
    Separates [character] [] where
  scans rest := by
    rw [List.singleton_append, scanBehind, if_pos blank]
    exact Option.map_id'.symm
  stops rest := by
    simp only [isBlank, Bool.or_eq_true, beq_iff_eq] at blank
    intro other same
    cases same
    rcases blank with ((rfl | rfl) | rfl) | rfl <;> decide

/-- A line begins with blanks. -/
theorem separates_newLine (depth : Nat) : Separates (newLine depth).toList [] := by
  rw [newLine, String.toList_ofList]
  have spaces : ∀ count, Separates ('\n' :: List.replicate count ' ') [] := by
    intro count
    induction count with
    | zero => exact separates_blank rfl
    | succ count ih =>
      rw [List.replicate_succ', ← List.cons_append]
      exact ih.trans (separates_blank rfl)
  exact spaces (2 * depth)

end Token

/-! ## The tokens of a value -/

mutual
/-- The tokens of a value. -/
def tokensOf : Value → List Token
  | .unit => [.null]
  | .text content => [.text content.toList]
  | .number number => [.number number]
  | .boolean truth => [.boolean truth]
  | .sequence items => .openSequence :: (itemTokens items ++ [.closeSequence])
  | .mapping fields => .openMapping :: (fieldTokens fields ++ [.closeMapping])

def itemTokens : List Value → List Token
  | [] => []
  | [item] => tokensOf item
  | item :: rest => tokensOf item ++ .comma :: itemTokens rest

def fieldTokens : List (String × Value) → List Token
  | [] => []
  | [(key, value)] => .text key.toList :: .colon :: tokensOf value
  | (key, value) :: rest =>
      .text key.toList :: .colon :: (tokensOf value ++ .comma :: fieldTokens rest)
end

end Json

mutual
/-- Every number inside is whole. -/
def Value.WholeNumbers : Value → Prop
  | .number number => number.Whole
  | .sequence items => AllWholeNumbers items
  | .mapping fields => FieldsWholeNumbers fields
  | _ => True

def AllWholeNumbers : List Value → Prop
  | [] => True
  | item :: rest => item.WholeNumbers ∧ AllWholeNumbers rest

def FieldsWholeNumbers : List (String × Value) → Prop
  | [] => True
  | (_, value) :: rest => value.WholeNumbers ∧ FieldsWholeNumbers rest
end

namespace Json

open Json.Token

theorem scans_null : Scans "null".toList [.null] :=
  scans_word rfl rfl

theorem scans_boolean (truth : Bool) :
    Scans (if truth then "true" else "false").toList [.boolean truth] := by
  cases truth
  · exact scans_word rfl rfl
  · exact scans_word rfl rfl

theorem separates_comma : Separates ",".toList [.comma] :=
  separates_mark rfl

theorem separates_colon : Separates ":".toList [.colon] :=
  separates_mark rfl

/-! ## The compact layout -/

mutual
theorem scans_compact : ∀ {value : Value}, value.WholeNumbers →
    Scans (compact value).toList (tokensOf value)
  | .unit, _ => scans_null
  | .text content, _ => scans_quote content
  | .number _, whole => scans_numberText whole
  | .boolean truth, _ => scans_boolean truth
  | .sequence _, whole => by
    rw [compact, String.toList_append, String.toList_append, List.append_assoc]
    exact (separates_mark rfl).append ((scans_compactItems whole).close (separates_mark rfl))
  | .mapping _, whole => by
    rw [compact, String.toList_append, String.toList_append, List.append_assoc]
    exact (separates_mark rfl).append ((scans_compactFields whole).close (separates_mark rfl))

theorem scans_compactItems : ∀ {items : List Value}, AllWholeNumbers items →
    Scans (compactItems items).toList (itemTokens items)
  | [], _ => Scans.nil
  | [_], ⟨whole, _⟩ => scans_compact whole
  | item :: next :: rest, ⟨whole, further⟩ => by
    rw [compactItems, String.toList_append, String.toList_append, List.append_assoc]
    · exact (scans_compact whole).join separates_comma (scans_compactItems further)
    · exact List.cons_ne_nil next rest

theorem scans_compactFields : ∀ {fields : List (String × Value)}, FieldsWholeNumbers fields →
    Scans (compactFields fields).toList (fieldTokens fields)
  | [], _ => Scans.nil
  | [(key, _)], ⟨whole, _⟩ => by
    rw [compactFields, String.toList_append, String.toList_append, List.append_assoc]
    exact (scans_quote key).join separates_colon (scans_compact whole)
  | (key, value) :: next :: rest, ⟨whole, further⟩ => by
    have behind := (scans_compact whole).join separates_comma (scans_compactFields further)
    have field := (scans_quote key).join separates_colon behind
    rw [compactFields]
    · simp only [String.toList_append, List.append_assoc]
      exact field
    · exact List.cons_ne_nil next rest
end

/-! ## The indented layout -/

theorem separates_colon_blank : Separates ": ".toList [.colon] :=
  separates_colon.trans (separates_blank rfl)

theorem scans_empty {opening closing : List Char} {first last : Token}
    (begins : Separates opening [first]) (ends : Separates closing [last]) :
    Scans (opening ++ closing) [first, last] :=
  begins.append (Scans.nil.close ends)

/-- The last line of a container. -/
theorem separates_end {character : Char} {token : Token} (depth : Nat)
    (mark : mark? character = some token) :
    Separates ((newLine depth).toList ++ [character]) [token] :=
  (separates_newLine depth).trans (separates_mark mark)

mutual
theorem scans_indented (depth : Nat) : ∀ {value : Value}, value.WholeNumbers →
    Scans (indented depth value).toList (tokensOf value)
  | .unit, _ => scans_null
  | .text content, _ => scans_quote content
  | .number _, whole => scans_numberText whole
  | .boolean truth, _ => scans_boolean truth
  | .sequence [], _ => by
    rw [indented]
    exact scans_empty (@separates_mark '[' _ rfl) (@separates_mark ']' _ rfl)
  | .mapping [], _ => by
    rw [indented]
    exact scans_empty (@separates_mark '\x7b' _ rfl) (@separates_mark '\x7d' _ rfl)
  | .sequence (item :: rest), whole => by
    have items := (scans_indentedItems (depth + 1) whole).close
      (@separates_end ']' _ depth rfl)
    have opened := (@separates_mark '[' _ rfl).append items
    rw [indented]
    · simp only [String.toList_append, List.append_assoc]
      exact opened
    · exact List.cons_ne_nil item rest
  | .mapping (field :: rest), whole => by
    have fields := (scans_indentedFields (depth + 1) whole).close
      (@separates_end '\x7d' _ depth rfl)
    have opened := (@separates_mark '\x7b' _ rfl).append fields
    rw [indented]
    · simp only [String.toList_append, List.append_assoc]
      exact opened
    · exact List.cons_ne_nil field rest

theorem scans_indentedItems (depth : Nat) : ∀ {items : List Value}, AllWholeNumbers items →
    Scans (indentedItems depth items).toList (itemTokens items)
  | [], _ => Scans.nil
  | [_], ⟨whole, _⟩ => by
    rw [indentedItems, String.toList_append]
    exact (separates_newLine depth).append (scans_indented depth whole)
  | item :: next :: rest, ⟨whole, further⟩ => by
    have items := (scans_indented depth whole).join separates_comma
      (scans_indentedItems depth further)
    rw [indentedItems]
    · simp only [String.toList_append, List.append_assoc]
      exact (separates_newLine depth).append items
    · exact List.cons_ne_nil next rest

theorem scans_indentedFields (depth : Nat) : ∀ {fields : List (String × Value)},
    FieldsWholeNumbers fields → Scans (indentedFields depth fields).toList (fieldTokens fields)
  | [], _ => Scans.nil
  | [(key, _)], ⟨whole, _⟩ => by
    have field := (scans_quote key).join separates_colon_blank (scans_indented depth whole)
    rw [indentedFields]
    simp only [String.toList_append, List.append_assoc]
    exact (separates_newLine depth).append field
  | (key, value) :: next :: rest, ⟨whole, further⟩ => by
    have behind := (scans_indented depth whole).join separates_comma
      (scans_indentedFields depth further)
    have field := (scans_quote key).join separates_colon_blank behind
    rw [indentedFields]
    · simp only [String.toList_append, List.append_assoc]
      exact (separates_newLine depth).append field
    · exact List.cons_ne_nil next rest
end

/-- A text that scans to tokens has them for its tokens. -/
theorem scan_eq_of_scans {text : List Char} {tokens : List Token} (scans : Scans text tokens) :
    scan text = some tokens := by
  have whole := scans [] fun _ none => (nomatch none)
  rw [List.append_nil] at whole
  rw [scan, whole]
  exact congrArg some (List.append_nil tokens)

end Json
end Manifest
