import Manifest.Proofs.Scan.Noise

/-!
# Noise in a source

A source may be written with empty lines and comments between its lines, with
gaps at the ends of its lines, and with either kind of line end.  A source that
is read without diagnostics is read as the same tokens with any such noise.
Blank are here the space and the tab, which alone may stand between tokens.
-/

namespace Manifest

/-- The lines of a text, without their ends.  The last of them may lack its end. -/
def Text.lines : List Char → List Line
  | [] => []
  | character :: rest =>
      if character = '\n' then [] :: lines rest
      else
        match lines rest with
        | [] => [[character]]
        | line :: others => (character :: line) :: others

/-- The lines of a source.  A line ends with a line feed, or with a carriage
return and a line feed. -/
def linesOf (source : String) : List Line :=
  Text.lines (joinLineEnds source.toList)

/-- Every line end is written with a carriage return. -/
def withReturns : List Char → List Char
  | '\r' :: '\n' :: rest => '\r' :: '\n' :: withReturns rest
  | '\n' :: rest => '\r' :: '\n' :: withReturns rest
  | character :: rest => character :: withReturns rest
  | [] => []

/-- A source is read as these tokens, and without diagnostics. -/
def ReadsAs (source : String) (lexemes : List Lexeme) : Prop :=
  ∃ read, tokenize source = .ok read ∧ read.diagnostics = [] ∧
    read.tokens.map Token.lexeme = lexemes

/-! ## Lines and their ends -/

theorem Text.newline_notMem_lines (text : List Char) : ∀ line ∈ lines text, '\n' ∉ line := by
  induction text with
  | nil => exact fun line inside => nomatch inside
  | cons character rest ih =>
    rw [lines]
    split
    · exact List.forall_mem_cons.mpr ⟨List.not_mem_nil, ih⟩
    · rename_i inner
      split
      · rintro line inside same
        rw [List.mem_singleton.mp inside] at same
        exact inner (List.mem_singleton.mp same).symm
      · rename_i line others known
        rw [known] at ih
        rcases List.forall_mem_cons.mp ih with ⟨first, others⟩
        refine List.forall_mem_cons.mpr ⟨fun inside => ?_, others⟩
        rcases List.mem_cons.mp inside with same | inside
        · exact inner same.symm
        · exact first inside

/-- The lines of a text make up the text, with an end behind the last of them. -/
theorem Text.written_lines {text : List Char} (some : text ≠ []) :
    Line.written (lines text) = if text.getLast? = .some '\n' then text else text ++ ['\n'] := by
  induction text with
  | nil => exact absurd rfl some
  | cons character rest ih =>
    rw [lines]
    cases rest with
    | nil =>
      split
      · rename_i same
        subst same
        rfl
      · rename_i inner
        rw [if_neg (by simpa using inner)]
        rfl
    | cons next rest =>
      have behind := ih (List.cons_ne_nil _ _)
      rw [List.getLast?_cons_cons]
      split
      · rename_i same
        rw [Line.written, behind, same]
        split <;> rfl
      · have front : ∀ line others, Line.written ((character :: line) :: others) =
            character :: Line.written (line :: others) := fun _ _ => rfl
        split
        · rename_i none
          rw [none] at behind
          split at behind
          · cases behind
          · cases behind
        · rename_i line others known
          rw [front, ← known, behind]
          split <;> rfl

theorem joinLineEnds_eq_nil_iff {text : List Char} : joinLineEnds text = [] ↔ text = [] := by
  constructor
  · intro none
    unfold joinLineEnds at none
    split at none
    · cases none
    · cases none
    · rfl
  · rintro rfl
    rfl

theorem written_linesOf {source : String} (some : source.isEmpty = false) :
    Line.written (linesOf source) = normalize source.toList := by
  have filled : joinLineEnds source.toList ≠ [] := by
    intro none
    have empty := joinLineEnds_eq_nil_iff.mp none
    rw [String.toList_eq_nil_iff] at empty
    rw [empty] at some
    cases some
  rw [linesOf, Text.written_lines filled, normalize]

theorem head_withReturns (text : List Char) : (withReturns text).head? ≠ some '\n' := by
  unfold withReturns
  split
  · simp
  · simp
  · rename_i notLine
    intro same
    cases same
    exact notLine rfl
  · simp

/-- Carriage returns in front of line feeds belong to the line ends. -/
theorem joinLineEnds_withReturns (text : List Char) :
    joinLineEnds (withReturns text) = joinLineEnds text := by
  fun_induction withReturns text with
  | case1 rest ih => rw [joinLineEnds, joinLineEnds, ih]
  | case2 rest ih =>
    have alone : joinLineEnds ('\n' :: rest) = '\n' :: joinLineEnds rest := by
      rw [joinLineEnds]
      exact fun _ same => nomatch same
    rw [joinLineEnds, ih, alone]
  | case3 character rest noReturn noLine ih =>
    have alone : joinLineEnds (character :: rest) = character :: joinLineEnds rest := by
      rw [joinLineEnds]
      exact fun behind return_ line => noReturn behind return_ line
    have apart : joinLineEnds (character :: withReturns rest) =
        character :: joinLineEnds (withReturns rest) := by
      rw [joinLineEnds]
      intro behind _ line
      exact head_withReturns rest (line ▸ rfl)
    rw [apart, ih, alone]
  | case4 => rfl

/-! ## Readings of the lines -/

/-- What the lines of a source are read as. -/
def LinesReadAs (lines : List Line) (lexemes : List Lexeme) : Prop :=
  ∃ entered final, (Scanner.ofText (Line.written lines)).beginLine 0 false = .ok entered ∧
    entered.run = .ok final ∧ final.finish.diagnostics = [] ∧
    final.finish.tokens.reverse.map Token.lexeme = lexemes

theorem linesReadAs_nil {lexemes : List Lexeme} :
    LinesReadAs [] lexemes ↔ lexemes = [.endOfInput] := by
  have checked : ((Scanner.ofText []).beginLine 0 false).toOption.any (fun entered =>
      entered.run.toOption.any fun final => decide (final.finish.diagnostics = [] ∧
        final.finish.tokens.reverse.map Token.lexeme = [.endOfInput])) = true := by
    decide +kernel
  rcases any_toOption checked with ⟨entered, begun, checked⟩
  rcases any_toOption checked with ⟨final, finished, checked⟩
  rcases of_decide_eq_true checked with ⟨clean, same⟩
  constructor
  · rintro ⟨first, last, again, ran, _, rfl⟩
    cases begun.symm.trans again
    cases finished.symm.trans ran
    exact same
  · rintro rfl
    exact ⟨entered, final, begun, finished, clean, same⟩

/-- Nothing but the lines of a source matters. -/
theorem readsAs_iff {source : String} {lexemes : List Lexeme} :
    ReadsAs source lexemes ↔ LinesReadAs (linesOf source) lexemes := by
  cases empty : source.isEmpty with
  | true =>
    have none : source = "" := String.isEmpty_iff.mp empty
    subst none
    have lines : linesOf "" = [] := rfl
    have tokenized : tokenize "" = .ok ⟨"", [⟨.endOfInput, 0, 0⟩], []⟩ := rfl
    rw [lines, linesReadAs_nil]
    constructor
    · rintro ⟨read, again, _, rfl⟩
      cases tokenized.symm.trans again
      rfl
    · rintro rfl
      exact ⟨_, tokenized, rfl, rfl⟩
  | false =>
    rw [LinesReadAs, written_linesOf empty]
    constructor
    · rintro ⟨read, tokenized, clean, rfl⟩
      rcases tokenize_eq_ok empty tokenized with ⟨entered, final, begun, finished, rfl⟩
      exact ⟨entered, final, begun, finished, List.reverse_eq_nil_iff.mp clean, rfl⟩
    · rintro ⟨entered, final, begun, finished, clean, same⟩
      refine ⟨⟨String.ofList (normalize source.toList), final.finish.tokens.reverse,
        final.finish.diagnostics.reverse⟩, ?_, List.reverse_eq_nil_iff.mpr clean, same⟩
      rw [tokenize, if_neg (by simp [empty])]
      simp only [begun, finished, bind, Except.bind, pure, Except.pure]

theorem LinesReadAs.noisy {lines others : List Line} {lexemes : List Lexeme}
    (reads : LinesReadAs lines lexemes) (noisy : Noisy lines others)
    (plain : ∀ line ∈ others, '\n' ∉ line) : LinesReadAs others lexemes := by
  rcases reads with ⟨entered, final, begun, finished, clean, rfl⟩
  have starts : ∀ lines, (Scanner.ofText (Line.written lines)).cursor.Starts lines :=
    fun lines => ⟨rfl, rfl, rfl⟩
  have same : Scanner.Echoes (.ofText (Line.written lines)) (.ofText (Line.written others)) :=
    ⟨rfl, rfl, rfl, rfl, rfl, rfl⟩
  rcases @Scanner.Echoes.beginLine _ _ _ _ 0 _ same
    (Cursor.ahead_toContent noisy plain (starts lines) (starts others))
    (.inr fun name stop newest => nomatch newest) begun with ⟨twin, twinBegun, follows⟩
  have unstained : ¬ final.Stained := by
    intro stained
    have noted := Scanner.lasting_stained.finish stained
    exact noted.elim (fun pending => pending (Scanner.pending_emit _ _ _)) (· clean)
  rcases follows.run finished unstained with ⟨last, ran, echoes⟩
  rcases echoes.finish with ⟨lexemes, silent⟩
  refine ⟨twin, last, twinBegun, ran, silent, ?_⟩
  rw [List.map_reverse, List.map_reverse, lexemes]

/-! ## Noise -/

/-- A source that is read without diagnostics is read as the same tokens, and
without diagnostics, with noise: with lines that hold no more than a gap and a
comment in front of any line or at the end, with gaps behind any lines, and
with either kind of line end, as with a carriage return in every one. -/
theorem readsAs_noise {source : String} {lexemes : List Lexeme} (reads : ReadsAs source lexemes) :
    (∀ changed, Noisy (linesOf source) (linesOf changed) → ReadsAs changed lexemes) ∧
      ReadsAs (String.ofList (withReturns source.toList)) lexemes := by
  have known := readsAs_iff.mp reads
  refine ⟨fun changed noisy => ?_, ?_⟩
  · exact readsAs_iff.mpr (known.noisy noisy (Text.newline_notMem_lines _))
  · have same : linesOf (String.ofList (withReturns source.toList)) = linesOf source := by
      rw [linesOf, String.toList_ofList, joinLineEnds_withReturns, linesOf]
    exact readsAs_iff.mpr (same ▸ known)

/-- An item with an assignment, written with comments, empty lines, gaps and
carriage returns. -/
theorem readsAs_noise_around_item :
    ∃ lexemes, lexemes.length = 15 ∧ ReadsAs "a:\n- b: c\n  e: f" lexemes ∧
      Noisy (linesOf "a:\n- b: c\n  e: f")
        (linesOf "# g\r\na: \n\n   # h\n- b: c\t\r\n \n  e: f  \n# i\n\t") ∧
      ReadsAs "# g\r\na: \n\n   # h\n- b: c\t\r\n \n  e: f  \n# i\n\t" lexemes ∧
      ReadsAs (String.ofList (withReturns "a:\n- b: c\n  e: f".toList)) lexemes := by
  have checked : (tokenize "a:\n- b: c\n  e: f").toOption.any (fun read =>
      decide (read.diagnostics = [] ∧ (read.tokens.map Token.lexeme).length = 15)) = true := by
    decide +kernel
  rcases any_toOption checked with ⟨read, tokenized, checked⟩
  rcases of_decide_eq_true checked with ⟨clean, length⟩
  have reads : ReadsAs "a:\n- b: c\n  e: f" (read.tokens.map Token.lexeme) :=
    ⟨read, tokenized, clean, rfl⟩
  have lines : linesOf "a:\n- b: c\n  e: f" =
      ["a:".toList, "- b: c".toList, "  e: f".toList] := by
    decide +kernel
  have others : linesOf "# g\r\na: \n\n   # h\n- b: c\t\r\n \n  e: f  \n# i\n\t" =
      ["# g".toList, "a:".toList ++ [' '], [], "   # h".toList, "- b: c".toList ++ ['\t'], [' '],
        "  e: f".toList ++ [' ', ' '], "# i".toList, ['\t']] := by
    decide +kernel
  have noisy : Noisy (linesOf "a:\n- b: c\n  e: f")
      (linesOf "# g\r\na: \n\n   # h\n- b: c\t\r\n \n  e: f  \n# i\n\t") := by
    rw [lines, others]
    exact .insert rfl (.keep rfl (.insert rfl (.insert rfl (.keep rfl (.insert rfl
      (.keep rfl (.insert rfl (.insert rfl .nil))))))))
  rcases readsAs_noise reads with ⟨changed, returns⟩
  exact ⟨_, length, reads, noisy, changed _ noisy, returns⟩

end Manifest
