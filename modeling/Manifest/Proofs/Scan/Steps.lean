import Manifest.Proofs.Grammar.Point
import Manifest.Token.Scan

/-!
# What a step of the scanner does

The rules of content differ in what they look for and agree in what they do:
one reads some characters as a token, or leaves them to the open run.  Only
behind the sign of a literal assignment two tokens are read, since the scalar
is read along with the sign.
-/

namespace Manifest

namespace Lexeme

/-- The tokens that tell where a line stands. -/
def isLayout : Lexeme → Bool
  | newline _ | indent | outdent => true
  | _ => false

/-- Everything that is written in a line, apart from comments. -/
def isContent (lexeme : Lexeme) : Bool :=
  !lexeme.isComment && !lexeme.isLayout && !(lexeme == .endOfInput)

/-- The content that a rule has read. -/
def isAccepted : Lexeme → Bool
  | unknown _ => false
  | lexeme => lexeme.isContent

theorem isContent_of_isAccepted {lexeme : Lexeme} (accepted : lexeme.isAccepted = true) :
    lexeme.isContent = true := by
  cases lexeme <;> first | rfl | cases accepted

end Lexeme

namespace Scanner

variable {scanner next : Scanner} {least : Nat} {first : Char} {behind : List Char}

/-! ## Rules of content -/

/-- Pass over the gap in front of the cursor. -/
def skipGap (scanner : Scanner) : Scanner :=
  { scanner with cursor := scanner.cursor.skipGap }

/-- Characters are read as a token of content, at least so many, or are left to
the open run. -/
inductive Takes (least : Nat) (scanner : Scanner) : Scanner → Prop
  | read (count : Nat) (lexeme : Lexeme) : least ≤ count → lexeme.isAccepted = true →
      Takes least scanner (scanner.read count lexeme)
  | reject (count : Nat) : 0 < count → scanner.cursor.rest ≠ [] →
      Takes least scanner (scanner.reject count)

/-- A rule of content applies. -/
inductive Accepts (scanner : Scanner) : Scanner → Prop
  | once {next : Scanner} : Takes 1 scanner next → Accepts scanner next
  | literal {next : Scanner} : Takes 0 (scanner.read 1 (.assignment true)).skipGap next →
      Accepts scanner next

theorem Takes.weaken (takes : Takes 1 scanner next) : Takes 0 scanner next := by
  cases takes with
  | read count lexeme _ accepted => exact .read count lexeme (Nat.zero_le _) accepted
  | reject count some inner => exact .reject count some inner

theorem mark_takes (read : scanner.mark = some next) : Takes 1 scanner next := by
  rw [mark] at read
  split at read
  · cases read
    exact .read 3 _ (by decide) rfl
  · rcases Option.map_eq_some_iff.mp read with ⟨⟨text, lexeme⟩, found, rfl⟩
    have members : ∀ entry ∈ marks, 1 ≤ entry.1.length ∧ entry.2.isAccepted = true := by decide
    rcases members _ (List.mem_of_find?_eq_some found) with ⟨long, accepted⟩
    exact .read _ _ long accepted

theorem colon_eq_none (rest : scanner.cursor.rest = first :: behind) (other : first ≠ ':') :
    scanner.colon = none := by
  rw [colon, rest]
  split
  · rename_i found
    cases found
    exact absurd rfl other
  · rfl

/-- What the sign of an assignment means, with something behind it. -/
theorem colon_of_rest {next : Char}
    (front : scanner.cursor.rest = ':' :: next :: behind) :
    scanner.colon =
      if next = '=' then some (scanner.read 2 (.assignment false))
      else if next = '\n' then some (scanner.read 1 (.assignment false))
      else if Text.isGap next then
        let tail := Text.trimStart (Text.line (next :: behind))
        if tail.isEmpty || tail.head? == some '#' then some (scanner.read 1 (.assignment false))
        else some (scanner.read 1 (.assignment true)).literalValue
      else if isSymbolStart next && scanner.followsSymbol then some (scanner.read 1 .accessor)
      else none := by
  rw [colon, front]
  rfl

theorem quoted_eq_none (rest : scanner.cursor.rest = first :: behind) (noQuote : first ≠ '\'')
    (noDouble : first ≠ '"') : scanner.quoted = none := by
  rw [quoted, rest]
  dsimp only
  rw [if_neg (by simp [noQuote, noDouble])]

/-- A string in quotes ends with its quote, and is read up to there. -/
theorem readQuoted_closed {quote : Char} {text value after : List Char}
    (read : readQuoted quote text = some (value, after)) :
    ∃ inside, text = inside ++ quote :: after ∧
      readQuoted quote (inside ++ [quote]) = some (value, []) := by
  induction text using readQuoted.induct quote generalizing value after with
  | case1 => cases read
  | case2 =>
    rw [readQuoted, if_pos rfl] at read
    cases read
    exact ⟨[], rfl, by rw [List.nil_append, readQuoted, if_pos rfl]⟩
  | case3 next behind doubled ih =>
    rw [readQuoted, if_pos rfl, if_pos doubled] at read
    rcases Option.map_eq_some_iff.mp read with ⟨⟨text, left⟩, found, equal⟩
    cases equal
    rcases ih found with ⟨inside, rfl, closed⟩
    refine ⟨quote :: next :: inside, rfl, ?_⟩
    rw [List.cons_append, List.cons_append, readQuoted, if_pos rfl, if_pos doubled, closed]
    rfl
  | case4 next behind single =>
    rw [readQuoted, if_pos rfl, if_neg single] at read
    cases read
    exact ⟨[], rfl, by rw [List.nil_append, readQuoted, if_pos rfl]⟩
  | case5 character other escape =>
    rw [readQuoted, if_neg other, if_pos escape] at read
    cases read
  | case6 character other escape escaped behind ih =>
    rw [readQuoted, if_neg other, if_pos escape] at read
    rcases Option.map_eq_some_iff.mp read with ⟨⟨text, left⟩, found, equal⟩
    cases equal
    rcases ih found with ⟨inside, rfl, closed⟩
    refine ⟨character :: escaped :: inside, rfl, ?_⟩
    rw [List.cons_append, List.cons_append, readQuoted, if_neg other, if_pos escape, closed]
    rfl
  | case7 character rest other plain ih =>
    rw [readQuoted.eq_def] at read
    simp only [other, plain, if_false] at read
    rcases Option.map_eq_some_iff.mp read with ⟨⟨text, left⟩, found, equal⟩
    cases equal
    rcases ih found with ⟨inside, rfl, closed⟩
    refine ⟨character :: inside, rfl, ?_⟩
    rw [List.cons_append, readQuoted.eq_def]
    simp only [other, plain, if_false, closed]
    rfl

/-- What stands behind a quoted string is the end of the text. -/
theorem suffix_readQuoted {quote : Char} {text value after : List Char}
    (read : readQuoted quote text = some (value, after)) : after <:+ text := by
  rcases readQuoted_closed read with ⟨inside, rfl, _⟩
  exact ⟨inside ++ [quote], by rw [List.append_assoc]; rfl⟩

theorem quoted_takes (read : scanner.quoted = some next) : Takes 1 scanner next := by
  rw [quoted] at read
  split at read
  · cases read
  · rename_i quote behind found
    split at read
    · dsimp only at read
      split at read
      · rename_i inside
        cases read
        have short := (suffix_readQuoted inside).length_le
        exact .read _ _ (by omega) rfl
      · cases read
        exact .reject _ (Nat.succ_pos _) (by rw [found]; exact List.cons_ne_nil _ _)
    · cases read

theorem isAccepted_classify (text : List Char) : (Scalar.classify text).isAccepted = true := by
  rw [Scalar.classify]
  split
  · rfl
  · split <;> rfl

theorem literalValue_takes (scanner : Scanner) :
    Takes 0 scanner.skipGap scanner.literalValue := by
  rw [literalValue]
  split
  · rename_i read
    exact (quoted_takes read).weaken
  · refine .read _ _ (Nat.zero_le _) ?_
    split
    · rfl
    · split
      · rfl
      · exact isAccepted_classify _

theorem colon_accepts (read : scanner.colon = some next) : Accepts scanner next := by
  rw [colon] at read
  split at read
  · split at read
    · cases read
      exact .once (.read 1 _ (Nat.le_refl _) rfl)
    · dsimp only at read
      split at read
      · cases read
        exact .once (.read 2 _ (by decide) rfl)
      · split at read
        · cases read
          exact .once (.read 1 _ (Nat.le_refl _) rfl)
        · split at read
          · split at read
            · cases read
              exact .once (.read 1 _ (Nat.le_refl _) rfl)
            · cases read
              exact .literal (literalValue_takes _)
          · split at read
            · cases read
              exact .once (.read 1 _ (Nat.le_refl _) rfl)
            · cases read
  · cases read

/-- A numeral has digits. -/
theorem length_splitNumeral {text numeral behind : List Char}
    (splits : Scalar.splitNumeral text = some (numeral, behind)) : 1 ≤ numeral.length := by
  have digits : ∀ {whole : List Char}, ¬whole.isEmpty = true → 1 ≤ whole.length := by
    intro whole some
    cases whole with
    | nil => exact absurd rfl some
    | cons => exact Nat.succ_pos _
  rw [Scalar.splitNumeral.eq_def] at splits
  dsimp only at splits
  -- with and without a sign
  split at splits
  all_goals
    dsimp only at splits
    split at splits
    · cases splits
    · rename_i some
      have long := digits some
      repeat' split at splits
      all_goals
        cases splits
        simp only [List.length_append]
        omega

theorem number_takes (read : scanner.number = some next) : Takes 1 scanner next := by
  rw [number] at read
  split at read
  · cases read
  · rename_i splits
    split at read
    · cases read
    · rcases Option.map_eq_some_iff.mp read with ⟨value, _, rfl⟩
      exact .read _ _ (length_splitNumeral splits) rfl

/-- A symbol holds the character it starts with. -/
theorem length_symbolText {text : List Char} (starts : text.head?.any isSymbolStart = true) :
    1 ≤ (symbolText text).length := by
  fun_cases symbolText text with
  | case1 => cases starts
  | case2 rest => cases starts
  | case3 character rest notArrow inner => exact Nat.succ_pos _
  | case4 character rest notArrow outer =>
    refine absurd ?_ outer
    have starts : isSymbolStart character = true := starts
    simp only [isSymbolStart, Bool.or_eq_true, beq_iff_eq] at starts
    rcases starts with (letter | rfl) | rfl
    · simp [isSymbolChar, Char.isAlphanum, letter]
    · rfl
    · rfl

theorem symbol_takes (read : scanner.symbol = some next) : Takes 1 scanner next := by
  rw [symbol] at read
  split at read
  · rename_i starts
    cases read
    refine .read _ _ (length_symbolText starts) ?_
    split <;> rfl
  · cases read

theorem orElse_eq_some {first second : Option Scanner}
    (read : (first <|> second) = some next) : first = some next ∨ second = some next := by
  cases first with
  | none => exact .inr read
  | some value => exact .inl read

theorem content_accepts (read : scanner.content = some next) : Accepts scanner next := by
  rcases orElse_eq_some read with mark | read
  · exact .once (mark_takes mark)
  rcases orElse_eq_some read with colon | read
  · exact colon_accepts colon
  rcases orElse_eq_some read with quoted | read
  · exact .once (quoted_takes quoted)
  rcases orElse_eq_some read with number | symbol
  · exact .once (number_takes number)
  · exact .once (symbol_takes symbol)

/-! ## Steps -/

/-- What a step does in front of a character inside a line. -/
inductive WithinLine (scanner : Scanner) (first : Char) : Scanner → Prop
  | gap : Text.isGap first = true → WithinLine scanner first (scanner.flush.skip 1)
  | comment : first = '#' → WithinLine scanner first scanner.comment
  | item {next : Scanner} : scanner.cursor.atListHyphen = true → scanner.listItem = .ok next →
      WithinLine scanner first next
  | content {next : Scanner} : scanner.content = some next → WithinLine scanner first next
  | nothing : scanner.content = none → WithinLine scanner first (scanner.reject 1)

theorem step_cases (found : scanner.cursor.rest = first :: behind)
    (stepped : scanner.step = .ok next) :
    first = '\n' ∧ (scanner.flush.skip 1).beginLine scanner.cursor.offset true = .ok next ∨
      first ≠ '\n' ∧ WithinLine scanner first next := by
  rw [step, found] at stepped
  dsimp only at stepped
  split at stepped
  · exact .inl ⟨by assumption, stepped⟩
  · refine .inr ⟨by assumption, ?_⟩
    split at stepped
    · cases stepped
      exact .gap (by assumption)
    · split at stepped
      · cases stepped
        exact .comment (by assumption)
      · split at stepped
        · exact .item (by assumption) stepped
        · cases stepped
          cases read : scanner.content with
          | none => exact .nothing read
          | some next => exact .content read

/-- Only the newest lexeme tells whether a line end says nothing. -/
theorem suppressesNewline_eq_all (scanner : Scanner) : scanner.suppressesNewline =
    (scanner.tokens.map Token.lexeme).head?.all Lexeme.isLayout := by
  rw [suppressesNewline]
  rcases scanner.tokens with _ | ⟨⟨lexeme, span⟩, tokens⟩
  · rfl
  · cases lexeme <;> rfl

/-! ## Runs -/

theorem run_step (more : scanner.cursor.rest ≠ [])
    (stepped : scanner.step = .ok next) (less : next.cursor.left < scanner.cursor.left) :
    scanner.run = next.run := by
  rw [run, if_neg (by simpa using more), stepped]
  exact if_pos less

theorem run_nil (ended : scanner.cursor.rest = []) : scanner.run = .ok scanner := by
  rw [run, if_pos (by rw [ended]; rfl)]

end Scanner
end Manifest
