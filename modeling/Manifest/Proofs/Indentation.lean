import Manifest.Compile
import Manifest.Proofs.Noise
import Manifest.Proofs.Scan.Dedents
import Manifest.Proofs.Scan.Reindent

/-!
# Indentation

The widths of indentation do not matter, only their order.  When the content of every
line is put in another column, further columns in further ones, a source without lists
is read as the same tokens or fails at the same line.  So it has the same values.
-/

namespace Manifest

/-- A source with the same lines in other columns. -/
def Reindented (change : Nat → Nat) (source changed : String) : Prop :=
  linesOf changed = (linesOf source).map (Line.reindent change)

/-! ## Lines that do not fit -/

namespace Levels

variable {change : Nat → Nat}

theorem dropWhile_map (increasing : StrictMono change) (levels : Levels) (level : Nat) :
    (levels.map change).dropWhile (change level < ·) =
      (levels.dropWhile (level < ·)).map change := by
  have same : (fun top => decide (change level < top)) ∘ change =
      fun top => decide (level < top) :=
    funext fun top => decide_eq_decide.mpr increasing.lt_iff_lt
  rw [List.dropWhile_map, same]

/-- A level lands in other columns where it has landed. -/
theorem land_map (increasing : StrictMono change) (outermost : change 0 = 0) (levels : Levels)
    (level : Nat) :
    land (levels.map change) (change level) = (levels.land level).map (List.map change) := by
  rw [land, land, current_map outermost]
  by_cases deeper : levels.current < level
  · rw [if_pos (increasing deeper), if_pos deeper]
    rfl
  rw [if_neg fun less => deeper (increasing.lt_iff_lt.mp less), if_neg deeper]
  dsimp only
  rw [dropWhile_map increasing, List.head?_map]
  have open_iff : (levels.dropWhile (level < ·)).head?.map change = some (change level) ↔
      (levels.dropWhile (level < ·)).head? = some level :=
    (Option.map_injective increasing.injective).eq_iff (b := some level)
  by_cases lands : (levels.dropWhile (level < ·)).head? = some level
  · rw [if_pos (open_iff.mpr lands), if_pos lands]
    rfl
  · rw [if_neg (mt open_iff.mp lands), if_neg lands]
    rfl

end Levels

namespace Line

variable {change : Nat → Nat} {line : Line}

theorem level_reindent (plain : line.isItem = false) (some : line.hasContent = true) :
    (line.reindent change).level = Levels.moved change line.level := by
  rw [level, level, isItem_reindent, plain, (reindent_of_content change some).2,
    Levels.moved_ofColumn]

theorem opened_of_plain (plain : line.isItem = false) (levels : Levels) :
    line.opened levels = levels := by
  rw [opened, plain]
  rfl

/-- A line is entered in another column as it is entered in its own. -/
theorem enter_reindent (increasing : StrictMono change) (outermost : change 0 = 0)
    (plain : line.isItem = false) (levels : Levels) :
    (line.reindent change).enter (levels.map (Levels.moved change)) =
      (line.enter levels).map (List.map (Levels.moved change)) := by
  rw [enter, enter, hasContent_reindent]
  cases some : line.hasContent with
  | false => rfl
  | true =>
    have twinPlain := (isItem_reindent change line).trans plain
    rw [if_pos rfl, if_pos rfl, level_reindent plain some,
      Levels.land_map (Levels.strictMono_moved increasing) (Levels.moved_zero outermost)]
    cases levels.land line.level with
    | none => rfl
    | some reached =>
      simp only [Option.map_some, opened_of_plain plain, opened_of_plain twinPlain]

theorem foldlM_enter_reindent (increasing : StrictMono change) (outermost : change 0 = 0)
    {lines : List Line} (plain : ∀ line ∈ lines, line.isItem = false) (levels : Levels) :
    (lines.map (reindent change)).foldlM enter (levels.map (Levels.moved change)) =
      (lines.foldlM enter levels).map (List.map (Levels.moved change)) := by
  induction lines generalizing levels with
  | nil => rfl
  | cons line lines ih =>
    rcases List.forall_mem_cons.mp plain with ⟨first, others⟩
    rw [List.map_cons, List.foldlM_cons, List.foldlM_cons,
      enter_reindent increasing outermost first]
    cases line.enter levels with
    | none => rfl
    | some reached => exact ih others reached

theorem fault_of_plain (plain : line.isItem = false) (offset : Nat) :
    line.fault offset = .inconsistentIndent line.width ⟨offset + Text.bytes line.gap,
      offset + Text.bytes line.gap + (line.content.head?.map Char.utf8Size).getD 0⟩ := by
  rw [fault, plain]
  rfl

theorem bytes_gap_reindent (change : Nat → Nat) (some : line.hasContent = true) :
    Text.bytes (line.reindent change).gap = change line.width := by
  rw [reindent, if_pos some, (content_spaces (change line.width) some).1]
  induction change line.width with
  | zero => rfl
  | succ count ih =>
    rw [List.replicate_succ, Text.bytes, ih, Nat.add_comm]
    rfl

/-- The lines of a written text, and what stands behind the last end. -/
theorem splitOn_written {lines : List Line} (inner : ∀ line ∈ lines, '\n' ∉ line) :
    (written lines).splitOn '\n' = lines ++ [[]] := by
  have all := splitOn_written_append inner []
  rwa [List.append_nil, List.splitOn_nil] at all

end Line

/-! ## Readings in other columns -/

namespace Reindented

variable {change : Nat → Nat} {source changed : String}

theorem filled (reindented : Reindented change source changed) (some : source.isEmpty = false) :
    changed.isEmpty = false := by
  rw [← Bool.not_eq_true, String.isEmpty_iff]
  rintro rfl
  have none : linesOf source = [] := List.map_eq_nil_iff.mp reindented.symm
  have written := written_linesOf some
  have last := getLast?_normalize source.toList
  rw [← written, none] at last
  cases last

theorem plainLines (plain : ∀ line ∈ linesOf source, line.isItem = false) :
    PlainLines (linesOf source) :=
  ⟨Text.newline_notMem_lines _, plain⟩

/-- A source is read as the same tokens in other columns, and with the same diagnostics. -/
theorem reads (reindented : Reindented change source changed) (increasing : StrictMono change)
    (outermost : change 0 = 0) (plain : ∀ line ∈ linesOf source, line.isItem = false)
    {read : TokenizedSource} (tokenized : tokenize source = .ok read) :
    ∃ twin, tokenize changed = .ok twin ∧
      twin.tokens.map Token.lexeme =
        (read.tokens.map Token.lexeme).map (Lexeme.reindent change) ∧
      twin.diagnostics.map Diagnostic.text = read.diagnostics.map Diagnostic.text := by
  cases empty : source.isEmpty with
  | true =>
    cases String.isEmpty_iff.mp empty
    have none : joinLineEnds changed.toList = [] := by
      have lines : linesOf changed = [] := reindented
      by_contra some
      have written := Text.written_lines some
      rw [← linesOf, lines] at written
      split at written
      · exact some written.symm
      · cases (List.append_eq_nil_iff.mp written.symm).2
    cases String.toList_eq_nil_iff.mp (joinLineEnds_eq_nil_iff.mp none)
    cases tokenized
    exact ⟨_, rfl, rfl, rfl⟩
  | false =>
    rcases tokenize_eq_ok empty tokenized with ⟨entered, final, begun, finished, rfl⟩
    rw [← written_linesOf empty] at begun
    have filled := reindented.filled empty
    have written := written_linesOf filled
    rw [reindented] at written
    have starts : ∀ lines, (Scanner.ofText (Line.written lines)).cursor.Starts lines :=
      fun lines => ⟨rfl, rfl, rfl⟩
    have told : Scanner.Told change (.ofText (Line.written (linesOf source)))
        (.ofText (Line.written ((linesOf source).map (Line.reindent change)))) :=
      ⟨congrArg (· :: []) (Levels.moved_zero outermost).symm, rfl, rfl⟩
    rcases @Scanner.Told.beginLine _ _ _ _ _ 0 _ increasing outermost told rfl rfl
      (Cursor.reaches_toContent (plainLines plain) (starts _) (starts _))
      (.inr (by rintro _ _ ⟨⟩)) begun with ⟨twin, twinBegun, pursues⟩
    rcases pursues.run increasing outermost finished with ⟨last, ran, told⟩
    rw [written] at twinBegun
    refine ⟨⟨String.ofList (normalize changed.toList), last.finish.tokens.reverse,
      last.finish.diagnostics.reverse⟩, ?_, ?_, ?_⟩
    · rw [tokenize, if_neg (by simp [filled])]
      simp only [twinBegun, ran, bind, Except.bind, pure, Except.pure]
    · rw [List.map_reverse, List.map_reverse, List.map_reverse, told.lexemes_eq]
    · rw [List.map_reverse, List.map_reverse, told.texts_eq]

/-- A source that fails at a line fails there in other columns. -/
theorem fails (reindented : Reindented change source changed) (increasing : StrictMono change)
    (outermost : change 0 = 0) (plain : ∀ line ∈ linesOf source, line.isItem = false)
    {failure : LexError} (failed : tokenize source = .error failure) :
    ∃ front line behind, linesOf source = front ++ line :: behind ∧ line.hasContent = true ∧
      failure = line.fault (Line.offsetBehind front) ∧
      tokenize changed = .error ((line.reindent change).fault
        (Line.offsetBehind (front.map (Line.reindent change)))) := by
  have some : source.isEmpty = false := by
    rw [← Bool.not_eq_true]
    intro empty
    rw [tokenize, if_pos empty] at failed
    cases failed
  have split : ∀ {source : String}, source.isEmpty = false →
      (normalize source.toList).splitOn '\n' = linesOf source ++ [[]] := fun some => by
    rw [← written_linesOf some]
    exact Line.splitOn_written (Text.newline_notMem_lines _)
  rw [tokenize_eq_error_iff_firstMisfit, split some, firstMisfit_eq_some_iff] at failed
  rcases failed with ⟨front, line, behind, reached, lines, fits, content, misfit, rfl⟩
  -- the line behind the last end is empty, so the misfit is a line of the source
  rcases List.eq_nil_or_concat behind with rfl | ⟨behind, last, rfl⟩
  · cases (List.append_inj' lines rfl).2
    cases content
  rw [List.concat_eq_append, ← List.cons_append, ← List.append_assoc] at lines
  have found : linesOf source = front ++ line :: behind := (List.append_inj' lines rfl).1
  have noItem : line.isItem = false := plain line (by rw [found]; simp)
  have noItems : ∀ line ∈ front, line.isItem = false :=
    fun line inside => plain line (by rw [found]; exact List.mem_append_left _ inside)
  refine ⟨front, line, behind, found, content, by rw [Nat.zero_add], ?_⟩
  rw [tokenize_eq_error_iff_firstMisfit, split (reindented.filled some), reindented, found,
    firstMisfit_eq_some_iff]
  refine ⟨front.map (Line.reindent change), line.reindent change,
    behind.map (Line.reindent change) ++ [[]], reached.map (Levels.moved change), by simp, ?_,
    (Line.hasContent_reindent change line).trans content, ?_, by rw [Nat.zero_add]⟩
  · have entered := Line.foldlM_enter_reindent increasing outermost noItems [0]
    rw [fits, List.map_singleton, Levels.moved_zero outermost] at entered
    exact entered
  · rw [Line.level_reindent noItem content,
      Levels.land_map (Levels.strictMono_moved increasing) (Levels.moved_zero outermost), misfit]
    rfl

/-- What is compiled does not tell in which columns its source is written. -/
theorem program_eq (reindented : Reindented change source changed) (increasing : StrictMono change)
    (outermost : change 0 = 0) (plain : ∀ line ∈ linesOf source, line.isItem = false) :
    (compile changed).toOption.map Compiled.program =
      (compile source).toOption.map Compiled.program := by
  cases tokenized : tokenize source with
  | error failure =>
    rcases reindented.fails increasing outermost plain tokenized with ⟨_, _, _, _, _, _, failed⟩
    rw [compile, compile, tokenized, failed]
    rfl
  | ok read =>
    rcases reindented.reads increasing outermost plain tokenized with ⟨twin, twinRead, same, _⟩
    rw [compile, compile, tokenized, twinRead]
    dsimp only
    cases parsed : Document.ofTokens read.tokens with
    | ok document =>
      rw [ofTokens_reindent same parsed]
      rfl
    | error failure =>
      cases twinParsed : Document.ofTokens twin.tokens with
      | error failure => rfl
      | ok document =>
        -- the columns can be changed back, which would make a document of the tokens
        have back : read.tokens.map Token.lexeme =
            (twin.tokens.map Token.lexeme).map (Lexeme.reindent (Function.invFun change)) := by
          have restored :
              Lexeme.reindent (Function.invFun change) ∘ Lexeme.reindent change = id :=
            funext (Lexeme.reindent_reindent (Function.leftInverse_invFun increasing.injective))
          rw [same, List.map_map, restored, List.map_id]
        rw [ofTokens_reindent back twinParsed] at parsed
        cases parsed

end Reindented

theorem value_compileSource (source : String) (bindings : Value.Bindings) :
    (compileSource source bindings).toOption.map Evaluated.value =
      ((compile source).toOption.map Compiled.program).bind fun program =>
        (program.evaluate bindings).toOption := by
  rw [compileSource]
  cases compile source with
  | error failure => rfl
  | ok compiled =>
    dsimp only
    cases evaluated : compiled.program.evaluate bindings <;>
      simp [Except.toOption, evaluated]

/-! ## Sources with given lines -/

theorem joinLineEnds_line {line : Line} (inner : '\n' ∉ line) (rest : List Char) :
    joinLineEnds (line ++ '\r' :: '\n' :: rest) = line ++ '\n' :: joinLineEnds rest := by
  induction line with
  | nil => rw [List.nil_append, joinLineEnds, List.nil_append]
  | cons character line ih =>
    rcases not_or.mp (mt List.mem_cons.mpr inner) with ⟨_, others⟩
    rw [List.cons_append, joinLineEnds, ih others, List.cons_append]
    rintro behind - front
    cases line with
    | nil => cases front
    | cons next line =>
      cases front
      exact others List.mem_cons_self

theorem lines_written {lines : List Line} (inner : ∀ line ∈ lines, '\n' ∉ line) :
    Text.lines (Line.written lines) = lines := by
  induction lines with
  | nil => rfl
  | cons line lines ih =>
    rcases List.forall_mem_cons.mp inner with ⟨first, others⟩
    have front : Line.written (line :: lines) = line ++ '\n' :: Line.written lines := rfl
    rw [front]
    clear front inner
    induction line with
    | nil => rw [List.nil_append, Text.lines, if_pos rfl, ih others]
    | cons character line within =>
      rcases not_or.mp (mt List.mem_cons.mpr first) with ⟨other, behind⟩
      rw [List.cons_append, Text.lines, if_neg (Ne.symm other), within behind]

/-- Any lines are the lines of a source. -/
theorem exists_linesOf {lines : List Line} (inner : ∀ line ∈ lines, '\n' ∉ line) :
    ∃ source, linesOf source = lines := by
  refine ⟨String.ofList (lines.flatMap (· ++ ['\r', '\n'])), ?_⟩
  have joined : joinLineEnds (lines.flatMap (· ++ ['\r', '\n'])) = Line.written lines := by
    induction lines with
    | nil => rfl
    | cons line lines ih =>
      rcases List.forall_mem_cons.mp inner with ⟨first, others⟩
      have front := joinLineEnds_line first (lines.flatMap (· ++ ['\r', '\n']))
      rw [ih others] at front
      rw [List.flatMap_cons, List.append_assoc]
      exact front
  rw [linesOf, String.toList_ofList, joined, lines_written inner]

/-! ## Other columns -/

/-- The content of the lines of every source can be put in other columns.  When these
lie in the same order, a source without lists is read as the same tokens, or it fails at
the same line.  So it has the same values for all bindings. -/
theorem reindented_reads_alike {change : Nat → Nat} {source : String}
    (increasing : StrictMono change) (outermost : change 0 = 0)
    (plain : ∀ line ∈ linesOf source, line.isItem = false) :
    (∃ changed, Reindented change source changed) ∧
    ∀ changed, Reindented change source changed →
      (∀ read, tokenize source = .ok read → ∃ twin, tokenize changed = .ok twin ∧
        twin.tokens.map Token.lexeme =
          (read.tokens.map Token.lexeme).map (Lexeme.reindent change) ∧
        twin.diagnostics.map Diagnostic.text = read.diagnostics.map Diagnostic.text) ∧
      (∀ failure, tokenize source = .error failure →
        ∃ front line behind span twinSpan, linesOf source = front ++ line :: behind ∧
          line.hasContent = true ∧
          failure = .inconsistentIndent line.width span ∧
          span.start = Line.offsetBehind front + Text.bytes line.gap ∧
          tokenize changed = .error (.inconsistentIndent (change line.width) twinSpan) ∧
          twinSpan.start =
            Line.offsetBehind (front.map (Line.reindent change)) + change line.width) ∧
      ∀ bindings, (compileSource changed bindings).toOption.map Evaluated.value =
        (compileSource source bindings).toOption.map Evaluated.value := by
  have inner : ∀ line ∈ (linesOf source).map (Line.reindent change), '\n' ∉ line := by
    intro line inside
    rcases List.mem_map.mp inside with ⟨original, known, rfl⟩
    exact Line.newline_notMem_reindent change (Text.newline_notMem_lines _ original known)
  refine ⟨exists_linesOf inner, fun changed reindented => ?_⟩
  refine ⟨fun read tokenized => reindented.reads increasing outermost plain tokenized,
    fun failure failed => ?_, fun bindings => ?_⟩
  · rcases reindented.fails increasing outermost plain failed with
      ⟨front, line, behind, lines, content, rfl, twinFailed⟩
    have noItem : line.isItem = false := plain line (by rw [lines]; simp)
    have twinNoItem := (Line.isItem_reindent change line).trans noItem
    rw [Line.fault_of_plain twinNoItem, (Line.reindent_of_content change content).2,
      Line.bytes_gap_reindent change content] at twinFailed
    exact ⟨front, line, behind, _, _, lines, content, Line.fault_of_plain noItem _, rfl,
      twinFailed, rfl⟩
  · rw [value_compileSource, value_compileSource,
      reindented.program_eq increasing outermost plain]

/-- Columns that are tripled, in a source that is read, and in one with a line between
the columns of two others. -/
theorem reindented_reads_alike_tripled :
    (∃ read twin, tokenize "a:\n b: c\n\td: e" = .ok read ∧
      tokenize "a:\n   b: c\n   d: e" = .ok twin ∧
      twin.tokens.map Token.lexeme =
        (read.tokens.map Token.lexeme).map (Lexeme.reindent (3 * ·))) ∧
    tokenize "a:\n  b: c\n d: e" = .error (.inconsistentIndent 1 ⟨11, 12⟩) ∧
      ∃ span, tokenize "a:\n      b: c\n   d: e" = .error (.inconsistentIndent 3 span) := by
  have increasing : StrictMono (3 * · : Nat → Nat) := by
    intro low high less
    dsimp only
    omega
  have checked : (tokenize "a:\n b: c\n\td: e").toOption.any (fun _ => true) = true := by
    decide +kernel
  have failed : tokenize "a:\n  b: c\n d: e" = .error (.inconsistentIndent 1 ⟨11, 12⟩) := by
    rw [tokenize_eq_error_iff_firstMisfit]
    decide +kernel
  rcases any_toOption checked with ⟨read, tokenized, _⟩
  rcases ((reindented_reads_alike increasing rfl (by decide +kernel)).2
    "a:\n   b: c\n   d: e" (by rw [Reindented]; decide +kernel)).1 read tokenized with
    ⟨twin, twinRead, same, _⟩
  rcases ((reindented_reads_alike increasing rfl (by decide +kernel)).2
    "a:\n      b: c\n   d: e" (by rw [Reindented]; decide +kernel)).2.1 _ failed with
    ⟨_, line, _, span, twinSpan, _, _, found, _, twinFailed, _⟩
  have width : 1 = line.width := (LexError.inconsistentIndent.inj found).1
  rw [← width] at twinFailed
  exact ⟨⟨read, twin, tokenized, twinRead, same⟩, failed, twinSpan, twinFailed⟩

end Manifest
