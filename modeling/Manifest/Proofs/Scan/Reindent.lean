import Mathlib.Order.Monotone.Basic
import Manifest.Proofs.Grammar.Columns
import Manifest.Proofs.Scan.Alike
import Manifest.Proofs.Scan.Noise

/-!
# Lines in other columns

The columns of the lines of a text are changed in a way that keeps their order.  The
open levels of two readings then differ everywhere, but they lie in the same order,
and a line that opens, continues or closes levels in one reading does the same in the
other.
-/

namespace Manifest

/-! ## Levels in other columns -/

namespace Levels

variable {change : Nat → Nat} {levels : Levels} {level : Nat}

/-- The level of a line in another column. -/
def moved (change : Nat → Nat) (level : Nat) : Nat :=
  2 * change (level / 2) + level % 2

theorem moved_ofColumn (change : Nat → Nat) (column : Nat) (hyphen : Bool) :
    moved change (ofColumn column hyphen) = ofColumn (change column) hyphen := by
  have half : (2 * column + hyphen.toNat) / 2 = column := by
    cases hyphen <;> simp only [Bool.toNat_false, Bool.toNat_true] <;> omega
  have rest : (2 * column + hyphen.toNat) % 2 = hyphen.toNat := by
    cases hyphen <;> simp only [Bool.toNat_false, Bool.toNat_true] <;> omega
  rw [moved, ofColumn, ofColumn, half, rest]

theorem moved_zero (outermost : change 0 = 0) : moved change 0 = 0 := by
  rw [moved, Nat.zero_div, Nat.zero_mod, outermost]

theorem strictMono_moved (increasing : StrictMono change) : StrictMono (moved change) := by
  intro low high less
  have order : low / 2 < high / 2 ∨ low / 2 = high / 2 ∧ low % 2 < high % 2 := by omega
  rw [moved, moved]
  rcases order with further | ⟨same, beside⟩
  · have grows := increasing further
    omega
  · rw [same]
    omega

theorem current_map (outermost : change 0 = 0) (levels : Levels) :
    current (levels.map change) = change levels.current := by
  cases levels with
  | nil => exact outermost.symm
  | cons top outer => rfl

theorem closeTo_map (increasing : StrictMono change) (level : Nat) (levels : Levels) :
    closeTo (change level) (levels.map change) =
      ((levels.closeTo level).1, (levels.closeTo level).2.map change) := by
  induction levels with
  | nil => rfl
  | cons top outer ih =>
    rw [List.map_cons, closeTo, closeTo]
    by_cases inner : level < top
    · rw [if_pos (increasing inner), if_pos inner, ih]
    · rw [if_neg fun less => inner (increasing.lt_iff_lt.mp less), if_neg inner]
      rfl

/-- A move between levels in other columns. -/
def Move.map (change : Nat → Nat) : Move → Move
  | .deeper levels => .deeper (levels.map change)
  | .level => .level
  | .outward closed levels => .outward closed (levels.map change)
  | .misfit => .misfit

/-- Where a line leads is a matter of the order of the levels. -/
theorem move_map (increasing : StrictMono change) (outermost : change 0 = 0) (levels : Levels)
    (level : Nat) : move (levels.map change) (change level) = (levels.move level).map change := by
  rw [move, move, current_map outermost, closeTo_map increasing]
  by_cases deeper : levels.current < level
  · rw [if_pos (increasing deeper), if_pos deeper]
    rfl
  rw [if_neg fun less => deeper (increasing.lt_iff_lt.mp less), if_neg deeper]
  by_cases outer : level < levels.current
  · rw [if_pos (increasing outer), if_pos outer]
    dsimp only
    rw [current_map outermost]
    by_cases between : (levels.closeTo level).2.current < level
    · rw [if_pos (increasing between), if_pos between]
      rfl
    · rw [if_neg fun less => between (increasing.lt_iff_lt.mp less), if_neg between]
      rfl
  · rw [if_neg fun less => outer (increasing.lt_iff_lt.mp less), if_neg outer]
    rfl

end Levels

/-! ## Lines in other columns -/

namespace Line

variable {change : Nat → Nat} {line : Line}

/-- A line with content, in another column and behind spaces.  Lines without content
stay as they are. -/
def reindent (change : Nat → Nat) (line : Line) : Line :=
  if line.hasContent then List.replicate (change line.width) ' ' ++ line.content else line

theorem content_ne_nil (some : line.hasContent = true) : line.content ≠ [] := by
  intro none
  rw [hasContent, none] at some
  cases some

theorem content_spaces (count : Nat) (some : line.hasContent = true) :
    gap (List.replicate count ' ' ++ line.content) = List.replicate count ' ' ∧
      content (List.replicate count ' ' ++ line.content) = line.content := by
  have spaces : ∀ character ∈ List.replicate count ' ', Text.isGap character = true := by
    intro character inside
    rw [List.eq_of_mem_replicate inside]
    rfl
  rcases List.exists_cons_of_ne_nil (content_ne_nil some) with ⟨first, behind, found⟩
  have noGap : ¬Text.isGap first = true := by
    rw [line.head_content (by rw [found]; rfl)]
    exact Bool.false_ne_true
  constructor
  · rw [gap, List.takeWhile_append_of_pos spaces, found, List.takeWhile_cons_of_neg noGap,
      List.append_nil]
  · rw [content, List.dropWhile_append_of_pos spaces, found, List.dropWhile_cons_of_neg noGap]

theorem reindent_of_content (change : Nat → Nat) (some : line.hasContent = true) :
    (line.reindent change).content = line.content ∧
      (line.reindent change).width = change line.width := by
  rcases content_spaces (change line.width) some with ⟨gap, content⟩
  rw [reindent, if_pos some]
  exact ⟨content, (congrArg List.length gap).trans List.length_replicate⟩

theorem reindent_of_blank (change : Nat → Nat) (blank : line.hasContent = false) :
    line.reindent change = line :=
  if_neg (by rw [blank]; exact Bool.false_ne_true)

theorem content_reindent (change : Nat → Nat) (line : Line) :
    (line.reindent change).content = line.content := by
  cases some : line.hasContent with
  | true => exact (reindent_of_content change some).1
  | false => rw [reindent_of_blank change some]

theorem hasContent_reindent (change : Nat → Nat) (line : Line) :
    (line.reindent change).hasContent = line.hasContent := by
  rw [hasContent, content_reindent, hasContent]

theorem isItem_reindent (change : Nat → Nat) (line : Line) :
    (line.reindent change).isItem = line.isItem := by
  rw [isItem, content_reindent, isItem]

theorem newline_notMem_reindent (change : Nat → Nat) (inner : '\n' ∉ line) :
    '\n' ∉ line.reindent change := by
  cases some : line.hasContent with
  | true =>
    rw [reindent, if_pos some]
    intro inside
    rcases List.mem_append.mp inside with space | content
    · cases List.eq_of_mem_replicate space
    · exact inner (line.content_subset content)
  | false => rwa [reindent_of_blank change some]

end Line

/-- Lines of a text without items of lists. -/
structure PlainLines (lines : List Line) : Prop where
  inner : ∀ line ∈ lines, '\n' ∉ line
  plain : ∀ line ∈ lines, line.isItem = false

theorem PlainLines.of_cons {line : Line} {lines : List Line} (plain : PlainLines (line :: lines)) :
    PlainLines lines :=
  ⟨(List.forall_mem_cons.mp plain.inner).2, (List.forall_mem_cons.mp plain.plain).2⟩

/-! ## Entering lines in other columns -/

namespace Cursor

variable {cursor other : Cursor} {line : Line} {lines : List Line} {change : Nat → Nat}

/-- The lines in front of two cursors, behind the rest of a line that is the same. -/
structure Fronts (change : Nat → Nat) (line : Line) (lines : List Line) (cursor other : Cursor) :
    Prop where
  inner : '\n' ∉ line
  front : cursor.rest = line ++ '\n' :: Line.written lines
  twin : other.rest = line ++ '\n' :: Line.written (lines.map (Line.reindent change))

theorem Fronts.shares (fronts : Fronts change line lines cursor other) : Shares line cursor other :=
  ⟨fronts.inner, ⟨_, fronts.front⟩, ⟨_, fronts.twin⟩⟩

theorem Fronts.advance {count : Nat} (fronts : Fronts change line lines cursor other)
    (short : count ≤ line.length) :
    Fronts change (line.drop count) lines (cursor.advance count) (other.advance count) := by
  refine ⟨fun inside => fronts.inner (List.mem_of_mem_drop inside), ?_, ?_⟩
  · change cursor.rest.drop count = _
    rw [fronts.front, List.drop_append_of_le_length short]
  · change other.rest.drop count = _
    rw [fronts.twin, List.drop_append_of_le_length short]

/-- The same characters of the line are passed. -/
theorem Fronts.chunk {count : Nat} (fronts : Fronts change line lines cursor other)
    (short : count ≤ line.length) :
    cursor.rest = line.take count ++ (cursor.advance count).rest ∧
      other.rest = line.take count ++ (other.advance count).rest := by
  have moved := fronts.advance short
  rw [moved.front, moved.twin, ← List.append_assoc, ← List.append_assoc, List.take_append_drop]
  exact ⟨fronts.front, fronts.twin⟩

/-- The next content is the end of the text for both cursors, or the same content in
another column. -/
inductive Reaches (change : Nat → Nat) (cursor other : Cursor) : Prop
  | ended : cursor.rest = [] → other.rest = [] → Reaches change cursor other
  | line {line : Line} {lines : List Line} : PlainLines lines → line ≠ [] →
      Fronts change line lines cursor other → cursor.fresh = true → other.fresh = true →
      cursor.atListHyphen = false → other.atListHyphen = false →
      (∀ character, cursor.rest.head? = some character → Text.isGap character = false) →
      other.column = change cursor.column → Reaches change cursor other

theorem reaches_toContent (plain : PlainLines lines) (starts : cursor.Starts lines)
    (twin : other.Starts (lines.map (Line.reindent change))) :
    Reaches change cursor.toContent other.toContent := by
  induction lines generalizing cursor other with
  | nil => exact .ended (toContent_of_nil starts.rest) (toContent_of_nil twin.rest)
  | cons line lines ih =>
    have inner := (List.forall_mem_cons.mp plain.inner).1
    have noItem := (List.forall_mem_cons.mp plain.plain).1
    have front : cursor.rest = line ++ '\n' :: Line.written lines := starts.rest
    have twinFront : other.rest = line.reindent change ++
      '\n' :: Line.written (lines.map (Line.reindent change)) := twin.rest
    have twinInner := Line.newline_notMem_reindent change inner
    have twinContent := line.hasContent_reindent change
    cases content : line.hasContent with
    | false =>
      rw [content] at twinContent
      rw [toContent_of_blank front inner content,
        toContent_of_blank twinFront twinInner twinContent]
      exact ih plain.of_cons (starts_advance (rest_lineEnd front inner))
        (starts_advance (rest_lineEnd twinFront twinInner))
    | true =>
      rw [content] at twinContent
      rcases Line.reindent_of_content change content with ⟨same, width⟩
      have some := Line.content_ne_nil content
      have rest := rest_skipGap front
      have twinRest := rest_skipGap twinFront
      rw [same] at twinRest
      rw [toContent_of_content front inner content,
        toContent_of_content twinFront twinInner twinContent]
      refine .line plain.of_cons some
        ⟨fun inside => inner (line.content_subset inside), rest, twinRest⟩
        (fresh_skipGap starts.fresh) (fresh_skipGap twin.fresh) ?_ ?_ ?_ ?_
      · rw [atListHyphen_skipGap starts.fresh front inner, noItem]
      · rw [atListHyphen_skipGap twin.fresh twinFront twinInner, Line.isItem_reindent, noItem]
      · intro character stands
        rw [rest, List.head?_append_of_ne_nil _ some] at stands
        exact line.head_content stands
      · rw [column_behindGap front, column_behindGap twinFront, starts.column_eq, twin.column_eq,
          width, Nat.zero_add, Nat.zero_add]

namespace Reaches

theorem isEmpty_eq (reaches : Reaches change cursor other) :
    other.rest.isEmpty = cursor.rest.isEmpty := by
  cases reaches with
  | ended none twinNone => rw [none, twinNone]
  | line _ _ fronts => rw [fronts.shares.rest_isEmpty, fronts.shares.symm.rest_isEmpty]

theorem column_eq (reaches : Reaches change cursor other) (more : cursor.rest.isEmpty = false) :
    other.column = change cursor.column := by
  cases reaches with
  | ended none =>
    rw [none] at more
    cases more
  | line => assumption

/-- Both cursors enter, each at its level. -/
theorem level_eq (outermost : change 0 = 0) (reaches : Reaches change cursor other) :
    (if other.rest.isEmpty then 0 else Levels.ofColumn other.column other.atListHyphen) =
      Levels.moved change
        (if cursor.rest.isEmpty then 0 else Levels.ofColumn cursor.column cursor.atListHyphen) := by
  rw [reaches.isEmpty_eq]
  cases reaches with
  | ended none =>
    rw [none]
    exact (Levels.moved_zero outermost).symm
  | line _ _ fronts _ _ noHyphen twinNoHyphen _ column =>
    rw [fronts.shares.rest_isEmpty, noHyphen, twinNoHyphen, column]
    exact (Levels.moved_ofColumn change cursor.column false).symm

end Reaches
end Cursor

/-! ## Readings in other columns -/

namespace Scanner

variable {scanner other next : Scanner} {line : Line} {lines : List Line} {change : Nat → Nat}
  {count : Nat} {lexeme : Lexeme} {span twinSpan : Span}

/-- The same characters in front of the cursors are not recognized. -/
inductive SameRun (scanner other : Scanner) : Prop
  | closed : scanner.pending = none → other.pending = none → SameRun scanner other
  | opened {start twin : Cursor} (run : List Char) : scanner.pending = some start →
      other.pending = some twin → start.rest = run ++ scanner.cursor.rest →
      twin.rest = run ++ other.cursor.rest → SameRun scanner other

/-- Two scanners have read the same lexemes in other columns, and have the same runs of
unrecognized characters. -/
structure Told (change : Nat → Nat) (scanner other : Scanner) : Prop where
  levels_eq : other.levels = scanner.levels.map (Levels.moved change)
  lexemes_eq : other.tokens.map Token.lexeme =
    (scanner.tokens.map Token.lexeme).map (Lexeme.reindent change)
  texts_eq : other.diagnostics.map Diagnostic.text = scanner.diagnostics.map Diagnostic.text

namespace Told

theorem flush (told : Told change scanner other) (same : SameRun scanner other) :
    Told change scanner.flush other.flush := by
  cases same with
  | closed none twinNone =>
    rw [flush_of_none none, flush_of_none twinNone]
    exact told
  | opened run opened twinOpened front twinFront =>
    rw [Scanner.flush, Scanner.flush, opened, twinOpened]
    dsimp only
    rw [Cursor.textTo_eq front, Cursor.textTo_eq twinFront]
    refine ⟨told.levels_eq, ?_, ?_⟩
    · rw [List.map_cons, List.map_cons, List.map_cons, told.lexemes_eq]
      rfl
    · rw [List.map_cons, List.map_cons, told.texts_eq]

theorem emit (told : Told change scanner other) (same : SameRun scanner other) :
    Told change (scanner.emit lexeme span) (other.emit (lexeme.reindent change) twinSpan) := by
  have flushed := told.flush same
  refine ⟨flushed.levels_eq, ?_, flushed.texts_eq⟩
  rw [Scanner.emit, Scanner.emit, List.map_cons, List.map_cons, List.map_cons, flushed.lexemes_eq]

end Told

theorem sameRun_flush (scanner other : Scanner) : SameRun scanner.flush other.flush :=
  .closed scanner.pending_flush other.pending_flush

theorem sameRun_emit (scanner other : Scanner) (twinLexeme : Lexeme) :
    SameRun (scanner.emit lexeme span) (other.emit twinLexeme twinSpan) :=
  .closed (pending_emit _ _ _) (pending_emit _ _ _)

theorem Told.emitOutdents (told : Told change scanner other) (same : SameRun scanner other)
    (count : Nat) : Told change (Scanner.emitOutdents span count scanner)
        (Scanner.emitOutdents twinSpan count other) ∧
      SameRun (Scanner.emitOutdents span count scanner)
        (Scanner.emitOutdents twinSpan count other) := by
  induction count generalizing scanner other with
  | zero => exact ⟨told, same⟩
  | succ count ih =>
    exact ih (@Told.emit _ _ _ .outdent span twinSpan told same) (sameRun_emit _ _ _)

theorem Told.finish (told : Told change scanner other) (same : SameRun scanner other) :
    Told change scanner.finish other.finish := by
  rw [Scanner.finish, Scanner.finish, told.levels_eq, List.length_map]
  rcases (told.flush same).emitOutdents (sameRun_flush scanner other)
    (scanner.levels.length - 1) with ⟨closed, silent⟩
  exact closed.emit silent

theorem Told.suppressesNewline_eq (told : Told change scanner other) :
    other.suppressesNewline = scanner.suppressesNewline := by
  have layout : (fun lexeme => (Lexeme.reindent change lexeme).isLayout) = Lexeme.isLayout := by
    funext lexeme
    cases lexeme <;> rfl
  rw [suppressesNewline_eq_all, suppressesNewline_eq_all, told.lexemes_eq, List.head?_map,
    Option.all_map, layout]

theorem Told.followsSymbol_eq (told : Told change scanner other) (trails : Trails scanner other) :
    other.followsSymbol = scanner.followsSymbol := by
  refine followsSymbol_of_trails trails fun name => ?_
  have same := fun lexeme => @Lexeme.reindent_eq_iff change lexeme (.symbol name) rfl
  rw [told.lexemes_eq, List.head?_map, Option.map_eq_some_iff]
  simp only [same, exists_eq_right]

/-- Two readings have the same rest of a line in front of them, and the same lines below
in other columns. -/
structure Abreast (change : Nat → Nat) (line : Line) (lines : List Line)
    (scanner other : Scanner) : Prop extends Told change scanner other where
  cursors : scanner.cursor.Fronts change line lines other.cursor
  run : SameRun scanner other
  fresh_eq : line ≠ [] → other.cursor.fresh = scanner.cursor.fresh
  trails : line ≠ [] → Trails scanner other

namespace Abreast

theorem skip (abreast : Abreast change line lines scanner other) (short : count ≤ line.length) :
    Abreast change (line.drop count) lines (scanner.skip count) (other.skip count) := by
  have shares := abreast.cursors.shares
  rcases shares.faces with ⟨below, faces⟩
  rcases shares.symm.faces with ⟨more, twin⟩
  have filled : line.drop count ≠ [] → line ≠ [] := by
    rintro some rfl
    exact some List.drop_nil
  refine ⟨⟨abreast.levels_eq, abreast.lexemes_eq, abreast.texts_eq⟩,
    abreast.cursors.advance short, ?_, fun some => ?_, fun some => ?_⟩
  · cases abreast.run with
    | closed none twinNone => exact .closed none twinNone
    | opened run opened twinOpened front twinFront =>
      refine .opened (run ++ line.take count) opened twinOpened ?_ ?_
      · rw [List.append_assoc]
        exact (abreast.cursors.chunk short).1 ▸ front
      · rw [List.append_assoc]
        exact (abreast.cursors.chunk short).2 ▸ twinFront
  · change (other.cursor.advance count).fresh = (scanner.cursor.advance count).fresh
    rw [faces.fresh_advance short, twin.fresh_advance short, abreast.fresh_eq (filled some)]
  · intro name stop newest twinStop twinNewest
    have behind := abreast.trails (filled some) name stop newest twinStop twinNewest
    have moved := faces.offset_advance short
    have twinMoved := twin.offset_advance short
    change (scanner.cursor.advance count).offset + _ = (other.cursor.advance count).offset + _
    omega

theorem flush (abreast : Abreast change line lines scanner other) :
    Abreast change line lines scanner.flush other.flush := by
  refine ⟨abreast.toTold.flush abreast.run, ?_, sameRun_flush _ _, ?_, fun some => ?_⟩
  · rw [cursor_flush, cursor_flush]
    exact abreast.cursors
  · rw [cursor_flush, cursor_flush]
    exact abreast.fresh_eq
  · have trails := abreast.trails some
    cases abreast.run with
    | closed none twinNone =>
      rw [flush_of_none none, flush_of_none twinNone]
      exact trails
    | opened run opened =>
      intro name stop newest
      rw [Scanner.flush, opened] at newest
      cases newest

theorem read (abreast : Abreast change line lines scanner other) (short : count ≤ line.length)
    (accepted : lexeme.isAccepted = true) :
    Abreast change (line.drop count) lines (scanner.read count lexeme)
      (other.read count lexeme) := by
  have moved := abreast.skip short
  have same : lexeme.reindent change = lexeme := by
    cases lexeme <;> first | rfl | cases accepted
  have told : Told change (scanner.read count lexeme) (other.read count (lexeme.reindent change)) :=
    moved.toTold.emit moved.run
  rw [same] at told
  refine ⟨told, ?_, sameRun_emit _ _ _, ?_, fun _ => ?_⟩
  · rw [Scanner.read, Scanner.read, cursor_emit, cursor_emit]
    exact moved.cursors
  · rw [Scanner.read, Scanner.read, cursor_emit, cursor_emit]
    exact moved.fresh_eq
  · intro name stop newest twinStop twinNewest
    cases newest
    cases twinNewest
    rw [Scanner.read, Scanner.read, cursor_emit, cursor_emit]
    exact Nat.add_comm _ _

theorem reject (abreast : Abreast change line lines scanner other) (short : count ≤ line.length) :
    Abreast change (line.drop count) lines (scanner.reject count) (other.reject count) := by
  have moved := abreast.skip short
  refine ⟨⟨moved.levels_eq, moved.lexemes_eq, moved.texts_eq⟩, moved.cursors, ?_, moved.fresh_eq,
    moved.trails⟩
  cases moved.run with
  | closed none twinNone =>
    have none : scanner.pending = .none := none
    have twinNone : other.pending = .none := twinNone
    refine .opened (line.take count) ?_ ?_ (abreast.cursors.chunk short).1
      (abreast.cursors.chunk short).2
    · rw [Scanner.reject, none]
      rfl
    · rw [Scanner.reject, twinNone]
      rfl
  | opened run opened twinOpened front twinFront =>
    have opened : scanner.pending = some _ := opened
    have twinOpened : other.pending = some _ := twinOpened
    refine .opened run ?_ ?_ front twinFront
    · rw [Scanner.reject, opened]
      rfl
    · rw [Scanner.reject, twinOpened]
      rfl

theorem skipGap (abreast : Abreast change line lines scanner other) :
    Abreast change line.content lines scanner.skipGap other.skipGap := by
  have moved := abreast.skip line.width_le
  have shares := abreast.cursors.shares
  rw [line.drop_width] at moved
  rw [Scanner.skipGap, Scanner.skipGap, shares.skipGap_eq, shares.symm.skipGap_eq]
  exact moved

theorem comment {first : Char} {tail : List Char}
    (abreast : Abreast change (first :: tail) lines scanner other) :
    Abreast change [] lines scanner.comment other.comment := by
  have shares := abreast.cursors.shares
  have moved := abreast.cursors.advance (Nat.le_refl (first :: tail).length)
  rw [List.drop_length] at moved
  rw [Scanner.comment, Scanner.comment, shares.line_eq, shares.symm.line_eq]
  have told := @Told.emit _ _ _ (.comment (String.ofList (Text.trim tail)))
    ⟨scanner.cursor.offset, (scanner.cursor.advance (first :: tail).length).offset⟩
    ⟨other.cursor.offset, (other.cursor.advance (first :: tail).length).offset⟩
    abreast.toTold abreast.run
  exact ⟨⟨told.levels_eq, told.lexemes_eq, told.texts_eq⟩, moved,
    .closed scanner.pending_flush other.pending_flush, fun some => absurd rfl some,
    fun some => absurd rfl some⟩

theorem matched {next twin : Scanner} (abreast : Abreast change line lines scanner other)
    (matched : Matched line scanner other next twin) :
    ∃ rest, Abreast change rest lines next twin := by
  cases matched with
  | read count lexeme short accepted => exact ⟨_, abreast.read short accepted⟩
  | reject count short => exact ⟨_, abreast.reject short⟩

theorem matchedRule {next twin : Scanner} (abreast : Abreast change line lines scanner other)
    (matched : MatchedRule line scanner other next twin) :
    ∃ rest, Abreast change rest lines next twin := by
  cases matched with
  | once matched => exact abreast.matched matched
  | literal one matched => exact ((abreast.read one rfl).skipGap).matched matched

theorem content (abreast : Abreast change line lines scanner other) :
    scanner.content.Rel (fun next twin => ∃ rest, Abreast change rest lines next twin)
      other.content := by
  have rules := content_matched abreast.cursors.shares abreast.fresh_eq fun some =>
    abreast.followsSymbol_eq (abreast.trails some)
  exact rel_imp rules abreast.matchedRule

/-- While something is left of the line, both scanners take the same step, if no item
begins there. -/
theorem step {first : Char} {tail : List Char}
    (abreast : Abreast change (first :: tail) lines scanner other)
    (noHyphen : scanner.cursor.atListHyphen = false) (stepped : scanner.step = .ok next) :
    ∃ twin rest, other.step = .ok twin ∧ Abreast change rest lines next twin := by
  have shares := abreast.cursors.shares
  rcases shares.faces with ⟨below, faces⟩
  rcases shares.symm.faces with ⟨more, twinFaces⟩
  have noLine : first ≠ '\n' := fun same => shares.inner (same ▸ List.mem_cons_self)
  have twinNoHyphen : other.cursor.atListHyphen = false := by
    rw [twinFaces.atListHyphen_eq, abreast.fresh_eq (List.cons_ne_nil _ _), ← faces.atListHyphen_eq,
      noHyphen]
  have one : 1 ≤ (first :: tail).length := Nat.succ_pos _
  rw [Scanner.step, abreast.cursors.front, List.cons_append] at stepped
  rw [Scanner.step, abreast.cursors.twin, List.cons_append]
  dsimp only at stepped ⊢
  rw [if_neg noLine] at stepped ⊢
  split at stepped
  · rename_i gap
    cases stepped
    rw [if_pos gap]
    exact ⟨_, _, rfl, abreast.flush.skip one⟩
  rename_i noGap
  rw [if_neg noGap]
  split at stepped
  · rename_i comment
    cases stepped
    rw [if_pos comment]
    exact ⟨_, _, rfl, abreast.comment⟩
  rename_i noComment
  rw [if_neg noComment, if_neg (by rw [twinNoHyphen]; exact Bool.false_ne_true)]
  rw [if_neg (by rw [noHyphen]; exact Bool.false_ne_true)] at stepped
  rcases rel_getD abreast.content ⟨_, abreast.reject one⟩ with ⟨rest, same⟩
  rw [Except.ok.inj stepped] at same
  exact ⟨_, rest, rfl, same⟩

end Abreast
/-! ## Runs in other columns -/

/-- One reading goes on as the other: both are at their ends, or they have the same rest
of a line in front of them, in which no item begins. -/
inductive Pursues (change : Nat → Nat) (scanner other : Scanner) : Prop
  | ended : Told change scanner other → SameRun scanner other → scanner.cursor.rest = [] →
      other.cursor.rest = [] → Pursues change scanner other
  | line {line : Line} {lines : List Line} : PlainLines lines →
      Abreast change line lines scanner other → scanner.cursor.atListHyphen = false →
      (scanner.cursor.fresh = true → ∀ character, scanner.cursor.rest.head? = some character →
        Text.isGap character = false) → Pursues change scanner other

theorem pursues_of_reaches (reaches : scanner.cursor.Reaches change other.cursor)
    (told : Told change scanner other) (run : SameRun scanner other)
    (layout : scanner.cursor.rest.isEmpty = false → scanner.BehindLayout) :
    Pursues change scanner other := by
  cases reaches with
  | ended none twinNone => exact .ended told run none twinNone
  | line plain _ fronts fresh twinFresh noHyphen _ begins =>
    refine .line plain ⟨told, fronts, run, fun _ => twinFresh.trans fresh.symm, fun _ => ?_⟩
      noHyphen fun _ => begins
    intro name stop newest
    exact absurd newest (layout fronts.shares.rest_isEmpty name stop)

/-- Both readings enter their next content. -/
theorem Told.beginLine {lineEnd twinEnd : Nat} {announce : Bool} (increasing : StrictMono change)
    (outermost : change 0 = 0) (told : Told change scanner other) (none : scanner.pending = none)
    (twinNone : other.pending = .none)
    (reaches : scanner.cursor.toContent.Reaches change other.cursor.toContent)
    (announced : announce = true ∨ scanner.BehindLayout)
    (begun : scanner.beginLine lineEnd announce = .ok next) :
    ∃ twin, other.beginLine twinEnd announce = .ok twin ∧ Pursues change next twin := by
  have moved : ∀ levels : Levels,
      Told change { scanner with cursor := scanner.cursor.toContent, levels }
        { other with
          cursor := other.cursor.toContent
          levels := levels.map (Levels.moved change) } :=
    fun levels => ⟨rfl, told.lexemes_eq, told.texts_eq⟩
  have calm : ∀ levels twinLevels : Levels,
      SameRun { scanner with cursor := scanner.cursor.toContent, levels }
        { other with cursor := other.cursor.toContent, levels := twinLevels } :=
    fun _ _ => .closed none twinNone
  have layout := behindLayout_beginLine announced begun
  rw [Scanner.beginLine] at begun ⊢
  dsimp only at begun ⊢
  rw [reaches.level_eq outermost, told.levels_eq,
    Levels.move_map (Levels.strictMono_moved increasing) (Levels.moved_zero outermost)]
  split at begun
  · rename_i levels deeper
    cases begun
    rw [deeper]
    refine ⟨_, rfl, pursues_of_reaches ?_ ((moved levels).emit (calm levels _))
      (sameRun_emit _ _ _) layout⟩
    rw [cursor_emit, cursor_emit]
    exact reaches
  · rename_i closed levels outward
    cases begun
    rw [outward]
    rcases (moved levels).emitOutdents (calm levels _) closed with ⟨same, run⟩
    refine ⟨_, rfl, pursues_of_reaches ?_ same run layout⟩
    rw [cursor_emitOutdents, cursor_emitOutdents]
    exact reaches
  · rename_i level
    have same := moved scanner.levels
    rw [level]
    dsimp only [Levels.Move.map]
    rw [reaches.isEmpty_eq, same.suppressesNewline_eq]
    split at begun
    · rename_i shown
      cases begun
      rw [if_pos shown]
      simp only [Bool.and_eq_true, Bool.not_eq_true'] at shown
      rw [reaches.column_eq shown.1.2]
      refine ⟨_, rfl, pursues_of_reaches ?_ (same.emit (calm _ _)) (sameRun_emit _ _ _) layout⟩
      rw [cursor_emit, cursor_emit]
      exact reaches
    · rename_i silent
      cases begun
      rw [if_neg silent]
      exact ⟨_, rfl, pursues_of_reaches reaches same (calm _ _) layout⟩
  · cases begun

/-- At the end of a line both readings enter the next content. -/
theorem Abreast.enter (abreast : Abreast change [] lines scanner other)
    (increasing : StrictMono change) (outermost : change 0 = 0) (plain : PlainLines lines)
    (moves : scanner.Moves next) : ∃ twin, other.Moves twin ∧ Pursues change next twin := by
  have flushed := abreast.flush
  have front : scanner.cursor.rest = '\n' :: Line.written lines := abreast.cursors.front
  have twinFront : other.cursor.rest =
    '\n' :: Line.written (lines.map (Line.reindent change)) := abreast.cursors.twin
  have stepped := moves.2
  rw [Scanner.step, front] at stepped
  have begun : (scanner.flush.skip 1).beginLine scanner.cursor.offset true = .ok next := stepped
  have told : Told change (scanner.flush.skip 1) (other.flush.skip 1) :=
    ⟨flushed.levels_eq, flushed.lexemes_eq, flushed.texts_eq⟩
  have starts : (scanner.flush.skip 1).cursor.Starts lines := by
    rw [Scanner.skip, cursor_flush]
    exact Cursor.starts_advance front
  have twinStarts :
      (other.flush.skip 1).cursor.Starts (lines.map (Line.reindent change)) := by
    rw [Scanner.skip, cursor_flush]
    exact Cursor.starts_advance twinFront
  rcases @Told.beginLine _ _ _ _ _ other.cursor.offset _ increasing outermost told
    scanner.pending_flush other.pending_flush (Cursor.reaches_toContent plain starts twinStarts)
    (.inl rfl) begun with ⟨twin, twinBegun, pursues⟩
  refine ⟨twin, ⟨?_, ?_⟩, pursues⟩
  · rw [twinFront]
    exact List.cons_ne_nil _ _
  · rw [Scanner.step, twinFront]
    exact twinBegun

/-- Every move of the first reading is a move of the other. -/
theorem Pursues.moves (pursues : Pursues change scanner other) (increasing : StrictMono change)
    (outermost : change 0 = 0) (moves : scanner.Moves next) :
    ∃ twin, other.Moves twin ∧ Pursues change next twin := by
  cases pursues with
  | ended _ _ none => exact absurd none moves.1
  | @line line lines plain abreast noHyphen begins =>
    cases line with
    | nil => exact abreast.enter increasing outermost plain moves
    | cons first tail =>
      have noLine : first ≠ '\n' := fun same => abreast.cursors.inner (same ▸ List.mem_cons_self)
      have found : scanner.cursor.rest = first :: (tail ++ '\n' :: Line.written lines) :=
        abreast.cursors.front
      rcases step_cases found moves.2 with ⟨ended, _⟩ | ⟨_, within⟩
      · exact absurd ended noLine
      have late : next.cursor.fresh = false := (within.onLine found noLine).fresh_eq_false begins
      rcases abreast.step noHyphen moves.2 with ⟨twin, rest, stepped, same⟩
      have some := List.isEmpty_eq_false_iff.mp abreast.cursors.shares.symm.rest_isEmpty
      refine ⟨twin, ⟨some, stepped⟩, .line plain same ?_ ?_⟩
      · rw [Cursor.atListHyphen, late, Bool.false_and]
      · intro fresh
        rw [late] at fresh
        cases fresh

/-- The other reading ends as well, and both have read the same. -/
theorem Pursues.run {final : Scanner} (pursues : Pursues change scanner other)
    (increasing : StrictMono change) (outermost : change 0 = 0)
    (finished : scanner.run = .ok final) :
    ∃ twin, other.run = .ok twin ∧ Told change final.finish twin.finish := by
  rcases passes_of_run finished with ⟨passed, ended⟩
  clear finished
  induction passed using Relation.ReflTransGen.head_induction_on generalizing other with
  | refl =>
    cases pursues with
    | ended told run _ none => exact ⟨other, run_nil none, told.finish run⟩
    | line _ abreast =>
      have some := abreast.cursors.shares.rest_isEmpty
      rw [ended] at some
      cases some
  | head moves passed ih =>
    rcases pursues.moves increasing outermost moves with ⟨twin, twinMoves, pursues⟩
    rcases ih pursues with ⟨last, ran, told⟩
    exact ⟨last, twinMoves.run_eq.trans ran, told⟩

end Scanner
end Manifest
