import Manifest.Proofs.Rendering.Scalars

/-!
# Lines of a rendering

A line holds a key, an item or a scalar, and the end of a line leads to the
next one at its own level.  Every lemma follows a run over one of these
pieces.
-/

namespace Manifest

/-! ## Assignments in the line of an item -/

theorem holdsAssignment_quoted (content : List Char) :
    holdsAssignment (some '\'') (Leaf.quoted content ++ ['\'']) = false := by
  induction content with
  | nil => rfl
  | cons character content ih =>
    have step : Leaf.quoted (character :: content) =
        (if character = '\'' then ['\'', '\''] else [character]) ++ Leaf.quoted content := rfl
    by_cases quote : character = '\''
    · rw [step, if_pos quote]
      exact ih
    · rw [step, if_neg quote, List.append_assoc, List.singleton_append, holdsAssignment,
        if_neg quote]
      exact ih

/-- A text without quotes and comments holds an assignment exactly if one begins in it. -/
theorem holdsAssignment_plain {text : List Char} (behind : List Char)
    (plain : ∀ character ∈ text, character ≠ '"' ∧ character ≠ '\'' ∧ character ≠ '#' ∧
      character ≠ ':') :
    holdsAssignment none (text ++ behind) = holdsAssignment none behind := by
  induction text with
  | nil => rfl
  | cons character text ih =>
    rcases plain character List.mem_cons_self with ⟨noDouble, noQuote, noComment, noColon⟩
    have rest := ih fun other inside => plain other (List.mem_cons_of_mem _ inside)
    rw [List.cons_append, holdsAssignment, if_neg (by simp [noDouble, noQuote]), if_neg noComment,
      if_neg (by simp [noColon]), rest]

theorem holdsAssignment_leaf (leaf : Leaf) : holdsAssignment none leaf.spelling = false := by
  cases known : leaf.isText with
  | true =>
    cases leaf with
    | text content oneLine => exact holdsAssignment_quoted content
    | _ => cases known
  | false =>
    have plain := @holdsAssignment_plain leaf.spelling [] fun character member =>
      have known := Leaf.isPlain_of_mem known member
      ⟨ne_of_isPlain known (by decide), ne_of_isPlain known (by decide),
        ne_of_isPlain known (by decide), ne_of_isPlain known (by decide)⟩
    rw [List.append_nil] at plain
    rw [plain]
    rfl

theorem isSymbolChar_of_whole {text : List Char} (whole : symbolText text = text) :
    ∀ character ∈ text, isSymbolChar character = true := by
  induction text with
  | nil => exact fun character inside => nomatch inside
  | cons first text ih =>
    rcases symbolText_cons whole with ⟨inner, rest, _⟩
    exact List.forall_mem_cons.mpr ⟨inner, ih rest⟩

theorem holdsAssignment_key (key : Key) {behind : List Char}
    (ends : behind.head?.all (fun next => Text.isGap next || next == '=') = true) :
    holdsAssignment none (key.name.toList ++ ':' :: behind) = true := by
  have chars := isSymbolChar_of_whole key.whole
  have other : ∀ {mark character : Char}, isSymbolChar mark = false →
      character ∈ key.name.toList → character ≠ mark := by
    rintro mark character none inside rfl
    rw [chars character inside] at none
    cases none
  rw [holdsAssignment_plain _ fun character inside =>
    ⟨other (by decide) inside, other (by decide) inside, other (by decide) inside,
      other (by decide) inside⟩]
  rw [holdsAssignment, if_neg (by decide), if_neg (by decide), if_pos (by simpa using ends)]

theorem ne_of_isSymbolStart {character mark : Char} (starts : isSymbolStart character = true)
    (none : isSymbolStart mark = false) : character ≠ mark := by
  rintro rfl
  rw [starts] at none
  cases none

theorem isGap_of_isSymbolStart {character : Char} (starts : isSymbolStart character = true) :
    Text.isGap character = false := by
  rw [Text.isGap, beq_eq_false_iff_ne.mpr (ne_of_isSymbolStart starts (by decide)),
    beq_eq_false_iff_ne.mpr (ne_of_isSymbolStart starts (by decide))]
  rfl

theorem Key.newline_notMem (key : Key) : '\n' ∉ key.name.toList := by
  intro inside
  have known := isSymbolChar_of_whole key.whole _ inside
  cases known

/-- A key begins like a symbol. -/
theorem Key.head (key : Key) :
    ∃ first more, key.name.toList = first :: more ∧ isSymbolStart first = true := by
  have starts := key.starts
  cases spelled : key.name.toList with
  | nil =>
    rw [spelled] at starts
    cases starts
  | cons first more =>
    rw [spelled] at starts
    exact ⟨first, more, rfl, starts⟩

theorem Text.isGap_of_isBlank {character : Char} (content : Text.isBlank character = false) :
    Text.isGap character = false := by
  refine Bool.eq_false_iff.mpr fun gap => ?_
  rw [Text.isBlank_of_isGap gap] at content
  cases content

namespace Leaf

/-- The first character of a leaf begins content. -/
theorem head (leaf : Leaf) : ∃ first more, leaf.spelling = first :: more ∧ first ≠ '\n' ∧
    Text.isBlank first = false ∧ first ≠ '#' := by
  rcases leaf.head_spelling with ⟨first, more, spelled, begins⟩
  refine ⟨first, more, spelled, ?_⟩
  rcases begins with rfl | plain
  · decide
  · exact ⟨ne_of_isPlain plain (by decide), isBlank_of_isPlain plain,
      ne_of_isPlain plain (by decide)⟩

/-- A gap ends in front of a leaf. -/
theorem stops (leaf : Leaf) (behind : List Char) : ∀ character,
    (leaf.spelling ++ behind).head? = some character → Text.isGap character = false := by
  rcases leaf.head with ⟨first, more, spelled, _, content, _⟩
  intro character stands
  rw [spelled] at stands
  cases stands
  exact Text.isGap_of_isBlank content

theorem isLayout_lexeme (leaf : Leaf) : leaf.lexeme.isLayout = false := by
  cases leaf <;> rfl

end Leaf

namespace Scanner

variable {scanner next : Scanner} {text tail : List Char} {column : Nat} {levels : Levels}
  {said : List Lexeme}

/-- A run leads to a view in some column of the line. -/
def LeadsTo (scanner : Scanner) (text : List Char) (levels : Levels) (said : List Lexeme) : Prop :=
  ∃ (next : Scanner) (column : Nat),
    scanner.run = next.run ∧ next.Shows text column levels said

/-! ## Steps inside a line -/

namespace Shows

/-- A step to a view with less text is a step of a run. -/
theorem run_eq {less : List Char} {columnNext : Nat} {levelsNext : Levels} {saidNext : List Lexeme}
    (shows : scanner.Shows text column levels said)
    (behind : next.Shows less columnNext levelsNext saidNext)
    (stepped : scanner.step = .ok next) (shorter : less.length < text.length) :
    scanner.run = next.run := by
  have left : scanner.cursor.left = text.length := by rw [scanner.cursor.left_eq, shows.rest]
  have leftNext : next.cursor.left = less.length := by rw [next.cursor.left_eq, behind.rest]
  refine run_step ?_ stepped (by omega)
  rw [shows.rest]
  rintro rfl
  exact Nat.not_lt_zero _ shorter

theorem step_content {first : Char} {more : List Char}
    (shows : scanner.Shows (first :: more) column levels said) (noLine : first ≠ '\n')
    (noGap : Text.isGap first = false) (noComment : first ≠ '#')
    (noHyphen : scanner.cursor.atListHyphen = false) (read : scanner.content = some next) :
    scanner.step = .ok next := by
  rw [step, shows.rest]
  dsimp only
  rw [if_neg noLine, if_neg (by simp [noGap]), if_neg noComment, if_neg (by simp [noHyphen]), read]
  rfl

theorem atListHyphen_eq_false {cursor : Cursor} {first : Char} {more : List Char}
    (rest : cursor.rest = first :: more) (other : first ≠ '-') : cursor.atListHyphen = false := by
  rw [Cursor.atListHyphen, rest]
  split
  · rename_i found
    cases found
    exact absurd rfl other
  · exact Bool.and_false _

theorem atListHyphen_leaf {cursor : Cursor} (leaf : Leaf)
    (rest : cursor.rest = leaf.spelling ++ '\n' :: tail) : cursor.atListHyphen = false := by
  cases leaf with
  | number numeral =>
    rcases numeral.head_whole with ⟨digit, others, found, known⟩
    rcases numeral.spelling_cases with ⟨_, same⟩ | ⟨_, same⟩
    · rw [Leaf.spelling, same, found] at rest
      rw [Cursor.atListHyphen, rest]
      have other : ∀ mark, mark.isDigit = false → (digit == mark) = false := by
        intro mark none
        refine beq_eq_false_iff_ne.mpr ?_
        rintro rfl
        rw [known] at none
        cases none
      change (cursor.fresh && (Text.isGap digit || digit == '\n')) = false
      rw [Text.isGap, other ' ' (by decide), other '\t' (by decide), other '\n' (by decide)]
      exact Bool.and_false _
    · rw [Leaf.spelling, same, found] at rest
      exact atListHyphen_eq_false rest (Numeral.hyphen_ne_digit known)
  | text content oneLine => exact atListHyphen_eq_false rest (by decide)
  | boolean truth =>
    cases truth with
    | true => exact atListHyphen_eq_false rest (by decide)
    | false => exact atListHyphen_eq_false rest (by decide)
  | emptyMapping | emptySequence => exact atListHyphen_eq_false rest (by decide)

/-- A scalar behind a hyphen. -/
theorem leaf (leaf : Leaf)
    (shows : scanner.Shows (leaf.spelling ++ '\n' :: tail) column levels said) :
    scanner.LeadsTo ('\n' :: tail) levels (said ++ [leaf.lexeme]) := by
  rcases leaf.head with ⟨first, more, spelled, noLine, content, noComment⟩
  have front := shows
  rw [spelled] at front
  have stepped := front.step_content noLine (Text.isGap_of_isBlank content) noComment
    (atListHyphen_leaf leaf shows.rest) (content_leaf leaf shows.rest)
  have behind : (scanner.read leaf.spelling.length leaf.lexeme).Shows _ _ _ _ :=
    shows.read leaf.newline_notMem
  refine ⟨_, _, shows.run_eq behind stepped ?_, behind⟩
  rw [spelled]
  simp only [List.length_append, List.length_cons]
  omega

theorem key (key : Key)
    (shows : scanner.Shows (key.name.toList ++ ':' :: tail) column levels said) :
    scanner.LeadsTo (':' :: tail) levels (said ++ [.symbol key.name]) := by
  have word := content_word shows.rest key.starts key.whole (endsWord_colon tail)
  rw [key.noBoolean, String.ofList_toList] at word
  rcases key.head with ⟨first, more, spelled, starts⟩
  have front := shows
  rw [spelled] at front
  have stepped := front.step_content (ne_of_isSymbolStart starts (by decide))
    (isGap_of_isSymbolStart starts) (ne_of_isSymbolStart starts (by decide))
    (atListHyphen_eq_false front.rest (ne_of_isSymbolStart starts (by decide))) word
  have behind : (scanner.read key.name.toList.length (.symbol key.name)).Shows _ _ _ _ :=
    shows.read key.newline_notMem
  refine ⟨_, _, shows.run_eq behind stepped ?_, behind⟩
  rw [spelled]
  simp only [List.length_append, List.length_cons]
  omega

/-- The sign in front of a nested collection. -/
theorem colon_line (shows : scanner.Shows (':' :: '\n' :: tail) column levels said) :
    scanner.LeadsTo ('\n' :: tail) levels (said ++ [.assignment false]) := by
  have none : scanner.mark = none := mark_eq_none shows.rest (by decide)
  have colon : scanner.colon = some (scanner.read 1 (.assignment false)) := by
    rw [Scanner.colon, shows.rest]
    rfl
  have read : scanner.content = some (scanner.read 1 (.assignment false)) := by
    rw [content, none, colon]
    rfl
  have stepped := shows.step_content (by decide) (by decide) (by decide)
    (atListHyphen_eq_false shows.rest (by decide)) read
  have front : scanner.Shows ([':'] ++ '\n' :: tail) column levels said := shows
  have behind : (scanner.read 1 (.assignment false)).Shows ('\n' :: tail) (column + 1) levels _ :=
    front.read (by decide)
  exact ⟨_, _, shows.run_eq behind stepped (Nat.lt_succ_self _), behind⟩

/-- The sign in front of a scalar. -/
theorem colon_leaf (leaf : Leaf)
    (shows : scanner.Shows (':' :: ' ' :: (leaf.spelling ++ '\n' :: tail)) column levels said) :
    scanner.LeadsTo ('\n' :: tail) levels (said ++ [.assignment true, leaf.lexeme]) := by
  rcases leaf.head with ⟨first, more, spelled, noLine, content, noComment⟩
  have none : scanner.mark = none := mark_eq_none shows.rest (by decide)
  have line : Text.line (' ' :: (leaf.spelling ++ '\n' :: tail)) = ' ' :: leaf.spelling :=
    @Text.line_append (' ' :: leaf.spelling) (fun inside => by
      rcases List.mem_cons.mp inside with same | inside
      · cases same
      · exact leaf.newline_notMem inside) tail
  have trimmed : Text.trimStart (' ' :: leaf.spelling) = first :: more := by
    rw [Text.trimStart, List.dropWhile_cons_of_pos (by decide), spelled,
      List.dropWhile_cons_of_neg (by simp [content])]
  have colon : scanner.colon = some (scanner.read 1 (.assignment true)).literalValue := by
    rw [Scanner.colon, shows.rest]
    change (if ((Text.trimStart (Text.line (' ' :: (leaf.spelling ++ '\n' :: tail)))).isEmpty ||
        (Text.trimStart (Text.line (' ' :: (leaf.spelling ++ '\n' :: tail)))).head? == some '#') =
          true then _ else _) = _
    rw [line, trimmed]
    exact if_neg (by simp [noComment])
  have read : scanner.content = some (scanner.read 1 (.assignment true)).literalValue := by
    rw [Scanner.content, none, colon]
    rfl
  have stepped := shows.step_content (by decide) (by decide) (by decide)
    (atListHyphen_eq_false shows.rest (by decide)) read
  have front : scanner.Shows ([':'] ++ ' ' :: (leaf.spelling ++ '\n' :: tail)) column levels said :=
    shows
  have sign : (scanner.read 1 (.assignment true)).Shows ([' '] ++ (leaf.spelling ++ '\n' :: tail))
      (column + 1) levels (said ++ [.assignment true]) := front.read (by decide)
  have gap := sign.skipGap (by decide) (leaf.stops _)
  have behind := @Shows.read _ _ _ _ _ _ leaf.lexeme gap leaf.newline_notMem
  rw [List.append_assoc] at behind
  rw [literalValue_leaf leaf gap.rest] at stepped
  refine ⟨_, _, shows.run_eq behind stepped ?_, behind⟩
  simp only [List.length_append, List.length_cons]
  omega

end Shows
end Scanner

/-! ## Ends of lines -/

/-- Whether a line that begins with this content is an item of a list. -/
def beginsItem : List Char → Bool
  | '-' :: next :: _ => Text.isGap next || next == '\n'
  | _ => false

/-- The content of a line. -/
def BeginsLine (content : List Char) : Prop :=
  ∀ character, content.head? = some character →
    Text.isGap character = false ∧ character ≠ '\n' ∧ character ≠ '#'

namespace Cursor

variable {cursor : Cursor} {content : List Char} {width : Nat}

theorem atListHyphen_eq (fresh : cursor.fresh = true) (rest : cursor.rest = content) :
    cursor.atListHyphen = beginsItem content := by
  rw [atListHyphen, fresh, rest, Bool.true_and]
  rfl

theorem all_indentation (width : Nat) : (Tree.indentation width).all Text.isGap = true := by
  rw [Tree.indentation, List.all_replicate]
  split <;> rfl

theorem toContent_eq (rest : cursor.rest = Tree.indentation width ++ content)
    (begins : BeginsLine content) : cursor.toContent = cursor.advance width := by
  have gap := skipGap_eq rest (all_indentation width) fun character stands =>
    (begins character stands).1
  rw [Tree.indentation, List.length_replicate] at gap
  have stands : cursor.skipGap.rest = content := by
    rw [skipGap_eq rest (all_indentation width) fun character stands => (begins character stands).1]
    exact rest_advance rest
  rw [toContent]
  split
  · rename_i found
    rw [found] at stands
    exact absurd rfl (begins '\n' (stands ▸ rfl)).2.1
  · rename_i found
    rw [found] at stands
    exact absurd rfl (begins '#' (stands ▸ rfl)).2.2
  · exact gap

theorem fresh_advance (fresh : cursor.fresh = true)
    (rest : cursor.rest = Tree.indentation width ++ content) :
    (cursor.advance width).fresh = true := by
  have taken : cursor.rest.take width = List.replicate width ' ' := by
    rw [rest, Tree.indentation, List.take_append_of_le_length (by simp), List.take_of_length_le]
    simp
  change (cursor.rest.take width).foldl _ cursor.fresh = true
  rw [taken, fresh]
  clear taken rest fresh
  induction width with
  | zero => rfl
  | succ width ih => exact ih

end Cursor

namespace Levels

variable {levels outer : Levels} {level : Nat}

theorem move_deeper (deeper : levels.current < level) :
    levels.move level = .deeper (level :: levels) :=
  if_pos deeper

theorem move_level (same : levels.current = level) : levels.move level = .level := by
  rw [move, same, if_neg (Nat.lt_irrefl level), if_neg (Nat.lt_irrefl level)]

theorem closeTo_append {inner : Levels} (deeper : ∀ found ∈ inner, level < found)
    (same : outer.current = level) : closeTo level (inner ++ outer) = (inner.length, outer) := by
  induction inner with
  | nil =>
    cases outer with
    | nil => rfl
    | cons top outer =>
      cases same
      exact if_neg (Nat.lt_irrefl top)
  | cons top inner ih =>
    have behind := ih fun found inside => deeper found (List.mem_cons_of_mem _ inside)
    rw [List.cons_append, closeTo, if_pos (deeper top List.mem_cons_self), behind]
    rfl

theorem move_outward {inner : Levels} (some : inner ≠ [])
    (deeper : ∀ found ∈ inner, level < found) (same : outer.current = level) :
    move (inner ++ outer) level = .outward inner.length outer := by
  have less : level < current (inner ++ outer) := by
    cases inner with
    | nil => exact absurd rfl some
    | cons top inner => exact deeper top List.mem_cons_self
  rw [move, if_neg (Nat.lt_asymm less), if_pos less, closeTo_append deeper same]
  exact if_neg (by rw [same]; exact Nat.lt_irrefl level)

end Levels

namespace Scanner

variable {scanner : Scanner} {content : List Char} {column width : Nat} {levels : Levels}
  {said : List Lexeme}

/-- Behind content the end of a line is announced. -/
theorem Shows.suppressesNewline_eq {text : List Char} {front : List Lexeme} {latest : Lexeme}
    (shows : scanner.Shows text column levels (front ++ [latest]))
    (noLayout : latest.isLayout = false) : scanner.suppressesNewline = false := by
  have spoken := shows.said_eq
  rw [Scanner.said] at spoken
  rw [suppressesNewline]
  cases tokens : scanner.tokens with
  | nil =>
    rw [tokens] at spoken
    exact absurd spoken.symm (List.append_ne_nil_of_right_ne_nil _ (List.cons_ne_nil _ _))
  | cons token earlier =>
    rw [tokens, List.reverse_cons, List.map_append] at spoken
    have same : token.lexeme = latest := by
      have ends := (List.append_inj' spoken rfl).2
      exact List.cons.inj ends |>.1
    dsimp only
    rw [same]
    cases latest <;> first | rfl | cases noLayout

/-- A run leads to the content of a line. -/
def LeadsToLine (scanner : Scanner) (text : List Char) (column : Nat) (levels : Levels)
    (said : List Lexeme) : Prop :=
  ∃ next : Scanner, scanner.run = next.run ∧ next.Shows text column levels said ∧
    next.cursor.fresh = true

/-- The scanner at the content of the next line. -/
def entered (scanner : Scanner) : Scanner :=
  { scanner with cursor := (scanner.cursor.advance 1).toContent }

theorem Shows.entered
    (shows : scanner.Shows ('\n' :: (Tree.indentation width ++ content)) column levels said)
    (begins : BeginsLine content) :
    scanner.entered.Shows content width levels said ∧ scanner.entered.cursor.fresh = true := by
  rcases Cursor.advance_newline shows.rest with ⟨rest, start, fresh⟩
  have moved := Cursor.toContent_eq rest begins
  have length : (Tree.indentation width).length = width := List.length_replicate
  have line : '\n' ∉ Tree.indentation width := by
    intro inside
    cases (List.mem_replicate.mp inside).2
  have behind := Cursor.rest_advance rest
  have columns := Cursor.column_advance rest line
  rw [length] at behind columns
  rw [start, Nat.zero_add] at columns
  rw [Scanner.entered, moved]
  exact ⟨⟨behind, columns, shows.levels_eq, shows.said_eq, shows.calm, shows.silent⟩,
    Cursor.fresh_advance fresh rest⟩

/-- At the end of a line the next one is entered at its level. -/
theorem Shows.step_line
    (shows : scanner.Shows ('\n' :: (Tree.indentation width ++ content)) column levels said) :
    scanner.step = (scanner.skip 1).beginLine scanner.cursor.offset true := by
  rw [step, shows.rest, shows.flush]
  rfl

section

variable (shows : scanner.Shows ('\n' :: (Tree.indentation width ++ content)) column levels said)
  (begins : BeginsLine content) (some : content ≠ [])

include shows begins some

theorem Shows.move_line : scanner.levels.move
    (if scanner.entered.cursor.rest.isEmpty then 0
      else Levels.ofColumn scanner.entered.cursor.column scanner.entered.cursor.atListHyphen) =
    levels.move (Levels.ofColumn width (beginsItem content)) := by
  rcases shows.entered begins with ⟨entered, fresh⟩
  rw [Cursor.atListHyphen_eq fresh entered.rest, entered.column_eq, entered.rest,
    if_neg (by simpa using some), shows.levels_eq]

omit some in
/-- What is produced at the content of the next line continues the run. -/
theorem Shows.run_line {next : Scanner} (stepped : scanner.step = .ok next)
    (same : next.cursor = scanner.entered.cursor) : scanner.run = next.run := by
  refine run_step ?_ stepped ?_
  · rw [shows.rest]
    exact List.cons_ne_nil _ _
  · rw [same, scanner.cursor.left_eq, shows.rest, scanner.entered.cursor.left_eq,
      (shows.entered begins).1.rest]
    simp only [List.length_cons, List.length_append]
    omega

/-- A deeper line opens a level. -/
theorem Shows.deeper (deeper : levels.current < Levels.ofColumn width (beginsItem content)) :
    scanner.LeadsToLine content width
      (Levels.ofColumn width (beginsItem content) :: levels) (said ++ [.indent]) := by
  have moved := (shows.move_line begins some).trans (Levels.move_deeper deeper)
  rcases shows.entered begins with ⟨entered, fresh⟩
  have stepped := shows.step_line
  rw [beginLine] at stepped
  dsimp only at stepped
  split at stepped
  · rename_i found
    cases moved.symm.trans found
    refine ⟨_, shows.run_line begins stepped (cursor_emit _ _ _), ?_, ?_⟩
    · exact Shows.emit ⟨entered.rest, entered.column_eq, rfl, entered.said_eq, entered.calm,
        entered.silent⟩
    · rw [cursor_emit]
      exact fresh
  all_goals
    rename_i found
    cases moved.symm.trans found

/-- A line at the open level is announced. -/
theorem Shows.level {front : List Lexeme} {latest : Lexeme}
    (same : levels.current = Levels.ofColumn width (beginsItem content))
    (spoken : said = front ++ [latest]) (noLayout : latest.isLayout = false) :
    scanner.LeadsToLine content width levels (said ++ [.newline width]) := by
  have announced := Shows.suppressesNewline_eq (spoken ▸ shows) noLayout
  have moved := (shows.move_line begins some).trans (Levels.move_level same)
  rcases shows.entered begins with ⟨entered, fresh⟩
  have stepped := shows.step_line
  rw [beginLine] at stepped
  dsimp only at stepped
  split at stepped
  case h_3 found =>
    have filled : scanner.entered.cursor.rest.isEmpty = false := by
      rw [entered.rest]
      exact List.isEmpty_eq_false_iff.mpr some
    have stepped : scanner.step = .ok (if (true && !scanner.entered.cursor.rest.isEmpty &&
        !scanner.suppressesNewline) = true then _ else _) := stepped
    rw [filled, announced, if_pos (by decide)] at stepped
    refine ⟨_, shows.run_line begins stepped (cursor_emit _ _ _), ?_, ?_⟩
    · have here : said ++ [.newline width] =
          said ++ [.newline scanner.entered.cursor.column] := by rw [entered.column_eq]
      rw [here]
      exact entered.emit
    · rw [cursor_emit]
      exact fresh
  all_goals
    rename_i found
    cases moved.symm.trans found

/-- A line at an outer level closes the levels in between. -/
theorem Shows.outward {inner outer : Levels} (open_ : levels = inner ++ outer) (filled : inner ≠ [])
    (deeper : ∀ found ∈ inner, Levels.ofColumn width (beginsItem content) < found)
    (same : outer.current = Levels.ofColumn width (beginsItem content)) :
    scanner.LeadsToLine content width outer (said ++ List.replicate inner.length .outdent) := by
  subst open_
  have moved := (shows.move_line begins some).trans (Levels.move_outward filled deeper same)
  rcases shows.entered begins with ⟨entered, fresh⟩
  have stepped := shows.step_line
  rw [beginLine] at stepped
  dsimp only at stepped
  split at stepped
  case h_2 found =>
    cases moved.symm.trans found
    refine ⟨_, shows.run_line begins stepped (cursor_emitOutdents _ _ _),
      Shows.emitOutdents ?_ _, ?_⟩
    · exact ⟨entered.rest, entered.column_eq, rfl, entered.said_eq, entered.calm, entered.silent⟩
    · rw [cursor_emitOutdents]
      exact fresh
  all_goals
    rename_i found
    cases moved.symm.trans found

end

/-- The end of the source closes all levels. -/
theorem Shows.last_line {inner : Levels} (shows : scanner.Shows ['\n'] column (inner ++ [0]) said)
    (deeper : ∀ found ∈ inner, 0 < found) :
    ∃ next : Scanner, scanner.run = .ok next ∧
      next.Shows [] 0 [0] (said ++ List.replicate inner.length .outdent) := by
  have line : scanner.Shows ('\n' :: (Tree.indentation 0 ++ [])) column (inner ++ [0]) said := shows
  have begins : BeginsLine [] := fun _ none => nomatch none
  rcases line.entered begins with ⟨entered, fresh⟩
  have stepped := line.step_line
  have ends : ∀ next : Scanner, scanner.step = .ok next → next.cursor = scanner.entered.cursor →
      scanner.run = .ok next := by
    intro next stepped same
    rw [line.run_line begins stepped same]
    exact run_nil (by rw [same, entered.rest])
  have zero : (if scanner.entered.cursor.rest.isEmpty then 0
      else Levels.ofColumn scanner.entered.cursor.column
        scanner.entered.cursor.atListHyphen) = 0 := by
    rw [entered.rest]
    rfl
  have moved : scanner.levels.move (if scanner.entered.cursor.rest.isEmpty then 0
      else Levels.ofColumn scanner.entered.cursor.column scanner.entered.cursor.atListHyphen) =
      Levels.move (inner ++ [0]) 0 := by
    rw [zero, shows.levels_eq]
  cases inner with
  | nil =>
    rw [beginLine] at stepped
    dsimp only at stepped
    split at stepped
    case h_3 found =>
      have stepped : scanner.step = .ok (if (true && !scanner.entered.cursor.rest.isEmpty &&
          !scanner.suppressesNewline) = true then _ else scanner.entered) := stepped
      rw [entered.rest, if_neg (by simp)] at stepped
      refine ⟨_, ends _ stepped rfl, ?_⟩
      rw [List.length_nil, List.replicate_zero, List.append_nil]
      exact entered
    all_goals
      rename_i found
      cases moved.symm.trans found
  | cons top inner =>
    have outward := moved.trans (Levels.move_outward (List.cons_ne_nil top inner) deeper rfl)
    rw [beginLine] at stepped
    dsimp only at stepped
    split at stepped
    case h_2 found =>
      cases outward.symm.trans found
      refine ⟨_, ends _ stepped (cursor_emitOutdents _ _ _), Shows.emitOutdents ?_ _⟩
      exact ⟨entered.rest, entered.column_eq, rfl, entered.said_eq, entered.calm, entered.silent⟩
    all_goals
      rename_i found
      cases outward.symm.trans found

/-- With all levels closed only the end of the source is left to note. -/
theorem Shows.finish (shows : scanner.Shows text column [0] said) :
    scanner.finish.Shows text column [0] (said ++ [.endOfInput]) := by
  have noted : scanner.finish =
      scanner.emit .endOfInput ⟨scanner.cursor.offset, scanner.cursor.offset⟩ := by
    rw [Scanner.finish, shows.levels_eq, shows.flush]
    rfl
  rw [noted]
  exact shows.emit

end Scanner
end Manifest
