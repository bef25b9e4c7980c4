import Mathlib.Data.Bool.AllAny
import Manifest.Proofs.Scan.Lines
import Manifest.Proofs.Scan.Spans

/-!
# Assignments of a line

Whether a line holds an assignment is looked up character by character, in front of
the reading.  The rules then read the same characters token by token.  Both know quotes,
comments and the sign of an assignment, but only the rules know that a backslash
between double quotes takes the next character with it.
-/

namespace Manifest

/-- Whether the reading of a line comes to the sign of an assignment.  The first
argument is the quote that is open. -/
def readsAssignment : Option Char → List Char → Bool
  | _, [] => false
  | some quote, character :: rest =>
      if character = quote then readsAssignment none rest
      else if character = '\\' && quote = '"' then
        match rest with
        | [] => false
        | _ :: behind => readsAssignment (some quote) behind
      else readsAssignment (some quote) rest
  | none, character :: rest =>
      if character = '"' || character = '\'' then readsAssignment (some character) rest
      else if character = '#' then false
      else if character = ':' && rest.head?.all (fun next => Text.isGap next || next == '=') then
        true
      else readsAssignment none rest

/-- Whether a line escapes a double quote, in front of the first sign and of any comment. -/
def escapesQuote : Option Char → List Char → Bool
  | _, [] => false
  | some quote, character :: rest =>
      if character = quote then escapesQuote none rest
      else if character = '\\' && quote = '"' then
        match rest with
        | [] => false
        | escaped :: behind => escaped == '"' || escapesQuote (some quote) behind
      else escapesQuote (some quote) rest
  | none, character :: rest =>
      if character = '"' || character = '\'' then escapesQuote (some character) rest
      else if character = '#' then false
      else if character = ':' && rest.head?.all (fun next => Text.isGap next || next == '=') then
        false
      else escapesQuote none rest

theorem readsAssignment_close (quote : Char) (rest : List Char) :
    readsAssignment (some quote) (quote :: rest) = readsAssignment none rest := by
  rw [readsAssignment.eq_def]
  exact if_pos rfl

theorem readsAssignment_inside {quote character : Char} (other : character ≠ quote)
    (plain : ¬ (decide (character = '\\') && decide (quote = '"')) = true) (rest : List Char) :
    readsAssignment (some quote) (character :: rest) = readsAssignment (some quote) rest := by
  rw [readsAssignment.eq_def]
  dsimp only
  rw [if_neg other, if_neg plain]

/-- Without an escaped quote the two ways to look at a line come to the same. -/
theorem readsAssignment_eq_holdsAssignment {quote : Option Char} {line : List Char}
    (plain : escapesQuote quote line = false) :
    readsAssignment quote line = holdsAssignment quote line := by
  fun_induction escapesQuote quote line with
  | case1 quote => cases quote <;> rfl
  | case2 quote rest ih =>
    rw [readsAssignment_close, holdsAssignment, if_pos rfl]
    exact ih plain
  | case3 quote character other escape =>
    rw [readsAssignment, holdsAssignment, if_neg other, if_neg other, if_pos escape]
    rfl
  | case4 quote character other escape escaped behind ih =>
    rw [Bool.or_eq_false_iff, beq_eq_false_iff_ne] at plain
    have double : quote = '"' := by
      simp only [Bool.and_eq_true, decide_eq_true_eq] at escape
      exact escape.2
    rw [readsAssignment, holdsAssignment, if_neg other, if_neg other, if_pos escape,
      holdsAssignment, if_neg (double ▸ plain.1)]
    exact ih plain.2
  | case5 quote character rest other inside ih =>
    rw [readsAssignment_inside other inside, holdsAssignment, if_neg other]
    exact ih plain
  | case6 character rest opens ih =>
    rw [readsAssignment, holdsAssignment, if_pos opens, if_pos opens]
    exact ih plain
  | case7 rest noQuote =>
    rw [readsAssignment, holdsAssignment, if_neg noQuote, if_neg noQuote, if_pos rfl, if_pos rfl]
  | case8 character rest noQuote noComment sign =>
    rw [readsAssignment, holdsAssignment, if_neg noQuote, if_neg noQuote, if_neg noComment,
      if_neg noComment, if_pos sign, if_pos sign]
  | case9 character rest noQuote noComment noSign ih =>
    rw [readsAssignment, holdsAssignment, if_neg noQuote, if_neg noQuote, if_neg noComment,
      if_neg noComment, if_neg noSign, if_neg noSign]
    exact ih plain

/-- Behind a string in quotes the line goes on, and one that is not closed takes all of it. -/
theorem readsAssignment_quoted {quote : Char} (isQuote : quote = '"' ∨ quote = '\'')
    (line : List Char) : readsAssignment (some quote) line =
      (readQuoted quote line).any fun read => readsAssignment none read.2 := by
  induction line using readQuoted.induct quote with
  | case1 => rfl
  | case2 =>
    rw [readsAssignment_close, readQuoted, if_pos rfl]
    rfl
  | case3 next behind doubled ih =>
    simp only [Bool.and_eq_true, decide_eq_true_eq] at doubled
    rcases doubled with ⟨rfl, rfl⟩
    rw [readsAssignment_close, readsAssignment, if_pos (by decide), ih, readQuoted, if_pos rfl,
      if_pos (by decide), Option.any_map]
  | case4 next behind single =>
    rw [readsAssignment_close, readQuoted, if_pos rfl, if_neg single]
    rfl
  | case5 character other escape =>
    rw [readsAssignment, readQuoted, if_neg other, if_neg other, if_pos escape, if_pos escape]
    rfl
  | case6 character other escape escaped behind ih =>
    rw [readsAssignment, readQuoted, if_neg other, if_neg other, if_pos escape, if_pos escape,
      Option.any_map]
    exact ih
  | case7 character rest other plain ih =>
    rw [readsAssignment_inside other plain, readQuoted.eq_def]
    dsimp only
    rw [if_neg other, if_neg plain, Option.any_map]
    exact ih

/-! ## Parts of a line -/

namespace Text

/-- The characters that a line is looked through for. -/
def guides : List Char := ['"', '\'', '#', ':']

theorem line_chunk {chunk : List Char} (inner : '\n' ∉ chunk) (behind : List Char) :
    line (chunk ++ behind) = chunk ++ line behind := by
  apply List.takeWhile_append_of_pos
  intro character inside
  exact decide_eq_true fun same => inner (same ▸ inside)

/-- The first characters of a line, and what is left of it. -/
theorem split_line {text front rest : List Char} (whole : front ++ rest = line text) :
    text = front ++ text.drop front.length ∧ line (text.drop front.length) = rest := by
  have begins : front <+: text := List.IsPrefix.trans ⟨rest, whole⟩ (List.takeWhile_prefix _)
  have short : front.length ≤ (line text).length := by
    rw [← whole, List.length_append]
    exact Nat.le_add_right _ _
  refine ⟨(List.prefix_iff_eq_append.mp begins).symm, ?_⟩
  rw [line_drop short, ← whole, List.drop_left]

end Text

theorem readsAssignment_plain {chunk : List Char} (plain : ∀ guide ∈ Text.guides, guide ∉ chunk)
    (rest : List Char) : readsAssignment none (chunk ++ rest) = readsAssignment none rest := by
  induction chunk with
  | nil => rfl
  | cons character chunk ih =>
    have other : ∀ guide ∈ Text.guides, character ≠ guide := fun guide known same =>
      plain guide known (same ▸ List.mem_cons_self)
    have quote : ¬ (decide (character = '"') || decide (character = '\'')) = true := by
      simp only [Bool.or_eq_true, decide_eq_true_eq, not_or]
      exact ⟨other '"' (by decide), other '\'' (by decide)⟩
    rw [List.cons_append, readsAssignment, if_neg quote, if_neg (other '#' (by decide)),
      decide_eq_false (other ':' (by decide)), Bool.false_and, if_neg Bool.false_ne_true]
    exact ih fun guide known inside => plain guide known (List.mem_cons_of_mem _ inside)

/-- What may stand behind a colon that is the sign of an assignment. -/
def endsSign (next : Char) : Bool :=
  Text.isGap next || next == '='

theorem readsAssignment_colon (rest : List Char) :
    readsAssignment none (':' :: rest) =
      (rest.head?.all endsSign || readsAssignment none rest) := by
  rw [readsAssignment, if_neg (by decide), if_neg (by decide), decide_eq_true rfl, Bool.true_and]
  change (if rest.head?.all endsSign = true then true else readsAssignment none rest) = _
  cases rest.head?.all endsSign <;> rfl

namespace Scanner

variable {scanner next last : Scanner} {chunk behind : List Char} {lexeme : Lexeme}

/-- Tokens hold the sign of an assignment. -/
def signs (tokens : List Token) : Bool :=
  tokens.any fun token => token.lexeme.isAssignment

theorem signs_append (newer older : List Token) :
    signs (newer ++ older) = (signs newer || signs older) :=
  List.any_append

/-- The line in front of a scanner foretells the signs of the tokens that are read of it,
and those of the rest of the line. -/
def Foretells (scanner next : Scanner) : Prop :=
  ∃ added, next.tokens = added ++ scanner.tokens ∧
    (signs added || readsAssignment none next.cursor.line) =
      readsAssignment none scanner.cursor.line

namespace Foretells

theorem refl (scanner : Scanner) : scanner.Foretells scanner :=
  ⟨[], rfl, rfl⟩

theorem trans (first : scanner.Foretells next) (second : next.Foretells last) :
    scanner.Foretells last := by
  rcases first with ⟨added, tokens, told⟩
  rcases second with ⟨further, more, left⟩
  refine ⟨further ++ added, ?_, ?_⟩
  · rw [more, tokens, List.append_assoc]
  · rw [← told, ← left, signs_append, Bool.or_comm (signs further), Bool.or_assoc]

/-- A sign has been read of a line that holds one. -/
theorem of_sign {count : Nat} {literal : Bool}
    (holds : readsAssignment none scanner.cursor.line = true)
    (read : (scanner.read count (.assignment literal)).tokens <:+ next.tokens) :
    scanner.Foretells next := by
  have flushed : scanner.tokens <:+ (scanner.skip count).flush.tokens :=
    (lasting_suffix scanner.tokens).flush (List.suffix_refl _)
  rcases flushed with ⟨closed, known⟩
  rcases read with ⟨more, whole⟩
  let sign : Token :=
    ⟨.assignment literal, scanner.cursor.offset, (scanner.skip count).cursor.offset⟩
  refine ⟨more ++ sign :: closed, ?_, ?_⟩
  · rw [← whole, List.append_assoc, List.cons_append, known]
    rfl
  · have read : signs (sign :: closed) = true := Bool.true_or (signs closed)
    rw [holds, signs_append, read, Bool.or_true, Bool.true_or]

/-- Some characters are passed over that tell nothing, and no sign is read. -/
theorem of_chunk (front : scanner.cursor.rest = chunk ++ behind) (inner : '\n' ∉ chunk)
    (moved : next.cursor = scanner.cursor.advance chunk.length)
    (quiet : ∃ added, next.tokens = added ++ scanner.tokens ∧ signs added = false)
    (same : readsAssignment none (chunk ++ Text.line behind) =
      readsAssignment none (Text.line behind)) : scanner.Foretells next := by
  rcases quiet with ⟨added, tokens, none⟩
  refine ⟨added, tokens, ?_⟩
  rw [none, Bool.false_or, moved, Cursor.line, Cursor.line, Cursor.rest_advance front, front,
    Text.line_chunk inner, same]

/-- An open run is closed without a sign. -/
theorem flush (scanner : Scanner) :
    ∃ added, scanner.flush.tokens = added ++ scanner.tokens ∧ signs added = false := by
  rw [Scanner.flush]
  split
  · exact ⟨[], rfl, rfl⟩
  · exact ⟨[_], rfl, rfl⟩

theorem emit (scanner : Scanner) (span : Span) (other : lexeme.isAssignment = false) :
    ∃ added, (scanner.emit lexeme span).tokens = added ++ scanner.tokens ∧
      signs added = false := by
  rcases flush scanner with ⟨closed, known, none⟩
  refine ⟨⟨lexeme, span⟩ :: closed, congrArg (_ :: ·) known, ?_⟩
  rw [signs, List.any_cons, other, Bool.false_or]
  exact none

theorem read (front : scanner.cursor.rest = chunk ++ behind) (inner : '\n' ∉ chunk)
    (other : lexeme.isAssignment = false)
    (same : readsAssignment none (chunk ++ Text.line behind) =
      readsAssignment none (Text.line behind)) :
    scanner.Foretells (scanner.read chunk.length lexeme) :=
  of_chunk front inner (cursor_emit _ _ _) (emit (scanner.skip chunk.length) _ other) same

theorem reject (front : scanner.cursor.rest = chunk ++ behind) (inner : '\n' ∉ chunk)
    (same : readsAssignment none (chunk ++ Text.line behind) =
      readsAssignment none (Text.line behind)) :
    scanner.Foretells (scanner.reject chunk.length) :=
  of_chunk front inner rfl ⟨[], rfl, rfl⟩ same

end Foretells

/-! ## Rules of content -/

/-- Not in front of a line, where three hyphens begin a section. -/
theorem mark_foretells (late : scanner.cursor.fresh = false) (read : scanner.mark = some next) :
    scanner.Foretells next := by
  rw [mark, atSectionStart, late, Bool.false_and, if_neg Bool.false_ne_true] at read
  rcases Option.map_eq_some_iff.mp read with ⟨⟨text, lexeme⟩, found, rfl⟩
  have members : ∀ entry ∈ marks, '\n' ∉ entry.1.toList ∧ entry.2.isAssignment = false ∧
      Text.guides.all (fun guide => decide (guide ∉ entry.1.toList)) = true := by decide
  rcases members _ (List.mem_of_find?_eq_some found) with ⟨inner, other, plain⟩
  have starts : text.toList.isPrefixOf scanner.cursor.rest = true := by
    simpa using List.find?_some found
  rcases List.isPrefixOf_iff_prefix.mp starts with ⟨behind, front⟩
  change scanner.Foretells (scanner.read text.length lexeme)
  rw [← String.length_toList]
  exact .read front.symm inner other
    (readsAssignment_plain (List.all_iff_forall_prop.mp plain) _)

theorem number_foretells (read : scanner.number = some next) : scanner.Foretells next := by
  rw [number] at read
  split at read
  · cases read
  · rename_i numeral behind splits
    split at read
    · cases read
    · rcases Option.map_eq_some_iff.mp read with ⟨value, _, rfl⟩
      rcases splitNumeral_split splits with ⟨front, inner⟩
      refine .read front inner rfl (readsAssignment_plain ?_ _)
      have foreign : ∀ guide ∈ Text.guides,
          ¬ (Text.isDigit guide = true ∨ guide = '-' ∨ guide = '.') :=
        List.all_iff_forall_prop.mp (by decide)
      exact fun guide known inside => foreign guide known (forall_mem_numeral splits guide inside)

theorem symbol_foretells (read : scanner.symbol = some next) : scanner.Foretells next := by
  rw [symbol] at read
  split at read
  · cases read
    rcases symbolText_split scanner.cursor.rest with ⟨behind, front, inner⟩
    refine .read front inner ?_ (readsAssignment_plain ?_ _)
    · split <;> rfl
    · have foreign : ∀ guide ∈ Text.guides, isSymbolChar guide ≠ true :=
        List.all_iff_forall_prop.mp (by decide)
      exact fun guide known inside => foreign guide known (isSymbolChar_of_mem guide inside)
  · cases read

/-- What stands in quotes holds no sign. -/
theorem quoted_foretells (read : scanner.quoted = some next) : scanner.Foretells next := by
  rw [quoted] at read
  split at read
  · cases read
  · rename_i quote behind found
    split at read
    · rename_i isQuote
      have known : quote = '"' ∨ quote = '\'' := by simpa using isQuote
      have opens : ∀ line, readsAssignment none (quote :: line) =
          (readQuoted quote line).any fun read => readsAssignment none read.2 := by
        intro line
        rw [readsAssignment, if_pos isQuote, readsAssignment_quoted known]
      have inner : ∀ string, string <+: Text.line behind → '\n' ∉ quote :: string := by
        intro string front newline
        rcases List.mem_cons.mp newline with rfl | newline
        · revert known
          decide
        · exact Text.newline_notMem_line behind (front.subset newline)
      dsimp only at read
      split at read
      · rename_i value after inside
        cases read
        rcases suffix_readQuoted inside with ⟨string, whole⟩
        rcases Text.split_line whole with ⟨front, rest⟩
        have count : (Text.line behind).length + 1 - after.length = (quote :: string).length := by
          rw [← whole, List.length_append, List.length_cons]
          omega
        have closes : scanner.cursor.rest = (quote :: string) ++ behind.drop string.length := by
          rw [found, List.cons_append, ← front]
        rw [count]
        refine .read closes (inner string ⟨after, whole⟩) rfl ?_
        rw [rest, List.cons_append, whole, opens, inside]
        rfl
      · rename_i unclosed
        cases read
        rcases Text.split_line (List.append_nil (Text.line behind)) with ⟨front, rest⟩
        have ends : scanner.cursor.rest =
            (quote :: Text.line behind) ++ behind.drop (Text.line behind).length := by
          rw [found, List.cons_append, ← front]
        refine .reject ends (inner _ (List.prefix_refl _)) ?_
        rw [rest, List.append_nil, opens, unclosed]
        rfl
    · cases read

/-- A colon is the sign of an assignment exactly where the line says so. -/
theorem colon_foretells (read : scanner.colon = some next) : scanner.Foretells next := by
  rw [colon] at read
  split at read
  · rename_i behind found
    have line : scanner.cursor.line = ':' :: Text.line behind := by
      rw [Cursor.line, found, Text.line_cons (by decide)]
    have holds : (Text.line behind).head?.all endsSign = true →
        readsAssignment none scanner.cursor.line = true := by
      intro ends
      rw [line, readsAssignment_colon, ends, Bool.true_or]
    split at read
    · cases read
      exact .of_sign (holds rfl) (List.suffix_refl _)
    · rename_i character behind
      dsimp only at read
      split at read
      · rename_i same
        subst same
        cases read
        exact .of_sign (holds rfl) (List.suffix_refl _)
      · split at read
        · rename_i same
          subst same
          cases read
          exact .of_sign (holds rfl) (List.suffix_refl _)
        · rename_i noEqual inner
          have head : (Text.line (character :: behind)).head? = some character := by
            rw [Text.line_cons inner]
            rfl
          split at read
          · rename_i gap
            have sign := holds (by rw [head, Option.all_some, endsSign, gap, Bool.true_or])
            split at read
            · cases read
              exact .of_sign sign (List.suffix_refl _)
            · cases read
              have grown : (scanner.read 1 (.assignment true)).tokens <:+
                  (scanner.read 1 (.assignment true)).literalValue.tokens :=
                (literalValue_takes _).suffix (List.suffix_refl _)
              exact .of_sign sign grown
          · split at read
            · rename_i noGap _
              cases read
              have ends : endsSign character = false := by
                rw [endsSign, Bool.eq_false_iff.mpr noGap, Bool.false_or]
                exact beq_eq_false_iff_ne.mpr noEqual
              have front : scanner.cursor.rest = [':'] ++ character :: behind := found
              refine .read front (by decide) rfl ?_
              rw [List.singleton_append, readsAssignment_colon, head, Option.all_some, ends,
                Bool.false_or]
            · cases read
  · cases read

theorem content_foretells (late : scanner.cursor.fresh = false)
    (read : scanner.content = some next) : scanner.Foretells next := by
  rcases orElse_eq_some read with mark | read
  · exact mark_foretells late mark
  rcases orElse_eq_some read with colon | read
  · exact colon_foretells colon
  rcases orElse_eq_some read with quoted | read
  · exact quoted_foretells quoted
  rcases orElse_eq_some read with number | symbol
  · exact number_foretells number
  · exact symbol_foretells symbol

/-! ## Steps and lines -/

theorem orElse_eq_none {first second : Option Scanner} (none : (first <|> second) = none) :
    first = .none ∧ second = .none := by
  cases first with
  | none => exact ⟨rfl, none⟩
  | some value => cases none

/-- A character that no rule reads opens no string and signs no assignment. -/
theorem reject_foretells {first : Char} (found : scanner.cursor.rest = first :: behind)
    (inner : first ≠ '\n') (noComment : first ≠ '#') (unread : scanner.content = none) :
    scanner.Foretells (scanner.reject 1) := by
  rcases orElse_eq_none unread with ⟨_, unread⟩
  rcases orElse_eq_none unread with ⟨noColon, unread⟩
  have noQuote := (orElse_eq_none unread).1
  have front : scanner.cursor.rest = [first] ++ behind := found
  refine .reject front (fun newline => inner (List.mem_singleton.mp newline).symm) ?_
  have plain : ¬ (decide (first = '"') || decide (first = '\'')) = true := by
    intro isQuote
    rw [quoted, found] at noQuote
    dsimp only at noQuote
    rw [if_pos isQuote] at noQuote
    split at noQuote <;> cases noQuote
  have noSign : ¬ (decide (first = ':') && (Text.line behind).head?.all endsSign) = true := by
    intro sign
    rw [Bool.and_eq_true, decide_eq_true_eq] at sign
    rcases sign with ⟨rfl, ends⟩
    cases behind with
    | nil =>
      rw [colon, found] at noColon
      exact Option.some_ne_none _ noColon
    | cons next behind =>
      rw [colon_of_rest found] at noColon
      split at noColon
      · cases noColon
      · rename_i noEqual
        split at noColon
        · cases noColon
        · rename_i noLine
          rw [Text.line_cons noLine, List.head?_cons, Option.all_some, endsSign,
            beq_eq_false_iff_ne.mpr noEqual, Bool.or_false] at ends
          rw [if_pos ends] at noColon
          dsimp only at noColon
          split at noColon <;> cases noColon
  rw [List.singleton_append, readsAssignment, if_neg plain, if_neg noComment]
  exact if_neg noSign

/-- Behind the first content of a line, every step inside the line succeeds and reads what
the line foretells. -/
theorem step_foretells {first : Char} (late : scanner.cursor.fresh = false)
    (found : scanner.cursor.rest = first :: behind) (inner : first ≠ '\n') :
    ∃ next, scanner.step = .ok next ∧ scanner.Foretells next := by
  have front : scanner.cursor.rest = [first] ++ behind := found
  have noLine : '\n' ∉ [first] := fun newline => inner (List.mem_singleton.mp newline).symm
  have noHyphen : scanner.cursor.atListHyphen = false := by
    rw [Cursor.atListHyphen, late]
    rfl
  rw [step, found]
  dsimp only
  rw [if_neg inner, noHyphen, if_neg Bool.false_ne_true]
  by_cases gap : Text.isGap first = true
  · rw [if_pos gap]
    refine ⟨_, rfl, .of_chunk front noLine ?_ (Foretells.flush scanner) ?_⟩
    · rw [skip, cursor_flush]
      rfl
    · refine readsAssignment_plain (fun guide known inside => ?_) _
      have foreign : ∀ guide ∈ Text.guides, Text.isGap guide ≠ true :=
        List.all_iff_forall_prop.mp (by decide)
      exact foreign guide known (List.mem_singleton.mp inside ▸ gap)
  rw [if_neg gap]
  by_cases comment : first = '#'
  · rw [if_pos comment]
    rcases Text.split_line (List.append_nil (Text.line scanner.cursor.rest)) with ⟨whole, ended⟩
    refine ⟨_, rfl, .of_chunk whole (Text.newline_notMem_line _) rfl (Foretells.emit scanner _ rfl)
      ?_⟩
    rw [ended, List.append_nil, found, Text.line_cons inner, comment]
    rfl
  rw [if_neg comment]
  cases read : scanner.content with
  | none => exact ⟨_, rfl, reject_foretells found inner comment read⟩
  | some next => exact ⟨next, rfl, content_foretells late read⟩

/-- From behind the first content of a line its end is reached, and the signs that have been
read on the way are those that the line foretells. -/
theorem line_foretells (late : scanner.cursor.fresh = false) :
    ∃ last, Relation.ReflTransGen Moves scanner last ∧ last.cursor = scanner.cursor.lineEnd ∧
      ∃ added, last.tokens = added ++ scanner.tokens ∧
        signs added = readsAssignment none scanner.cursor.line := by
  suffices reached : ∃ last, Relation.ReflTransGen Moves scanner last ∧
      last.cursor = scanner.cursor.lineEnd ∧ last.cursor.line = [] ∧ scanner.Foretells last by
    rcases reached with ⟨last, passed, ends, ended, added, tokens, told⟩
    rw [ended, readsAssignment, Bool.or_false] at told
    exact ⟨last, passed, ends, added, tokens, told⟩
  induction left : scanner.cursor.left using Nat.strongRecOn generalizing scanner with
  | ind left ih =>
    subst left
    cases line : scanner.cursor.line with
    | nil =>
      refine ⟨scanner, .refl, ?_, line, .refl scanner⟩
      rw [Cursor.lineEnd, line, List.length_nil, Cursor.advance_zero]
    | cons first more =>
      rcases Cursor.exists_of_line line with ⟨behind, found, inner⟩
      rcases step_foretells late found inner with ⟨next, stepped, told⟩
      have moves : scanner.Moves next := ⟨found ▸ List.cons_ne_nil _ _, stepped⟩
      have along : scanner.cursor.OnLine 1 next.cursor := by
        rcases step_cases found stepped with ⟨newline, _⟩ | ⟨_, within⟩
        · exact absurd newline inner
        · exact within.onLine found inner
      have later := along.fresh_eq_false fun fresh => by cases late.symm.trans fresh
      rcases ih _ along.left_lt later rfl with ⟨last, passed, ends, ended, further⟩
      exact ⟨last, .head moves passed, ends.trans along.lineEnd_eq, ended, told.trans further⟩

end Scanner
end Manifest
