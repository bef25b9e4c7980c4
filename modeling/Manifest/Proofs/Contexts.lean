import Mathlib.Data.Bool.AllAny
import Manifest.Compile
import Manifest.Proofs.Noise
import Manifest.Proofs.Rendering.Evaluation
import Manifest.Proofs.Scan.Scalars

/-!
# Scalars as literals and in expressions

A number or a boolean may be assigned as a literal, behind `:`, or as an expression, behind
`:=`.  A text without blanks and comments is read as the same number or boolean in both
places, unless it is a boolean word with a long s, which is one for literals alone.
-/

namespace Manifest

/-! ## Sources of one line -/

/-- The tokens of a source are these. -/
def HasLexemes (source : String) (lexemes : List Lexeme) : Prop :=
  ∃ read, tokenize source = .ok read ∧ read.tokens.map Token.lexeme = lexemes

/-- The diagnostics of a source show among its tokens. -/
theorem hasLexemes_iff_readsAs {source : String} {lexemes : List Lexeme}
    (clean : ∀ text, .unknown text ∉ lexemes) :
    HasLexemes source lexemes ↔ ReadsAs source lexemes := by
  constructor
  · rintro ⟨read, tokenized, rfl⟩
    have none : read.tokens.filterMap Token.unrecognized? = [] := by
      rw [List.filterMap_eq_nil_iff]
      intro token inside
      rw [Token.unrecognized?]
      split
      · rename_i text unknown
        exact absurd (unknown ▸ List.mem_map_of_mem inside) (clean text)
      · rfl
    have diagnosed := tokenize_diagnosed tokenized
    rw [none] at diagnosed
    exact ⟨read, tokenized, List.map_eq_nil_iff.mp diagnosed, rfl⟩
  · rintro ⟨read, tokenized, _, same⟩
    exact ⟨read, tokenized, same⟩

theorem Text.lines_of_notMem {text : List Char} (filled : text ≠ []) (inner : '\n' ∉ text) :
    lines text = [text] := by
  induction text with
  | nil => exact absurd rfl filled
  | cons first more ih =>
    have other : first ≠ '\n' := fun same => inner (same ▸ List.mem_cons_self)
    rw [lines, if_neg other]
    cases more with
    | nil => rfl
    | cons second rest =>
      rw [ih (List.cons_ne_nil _ _) fun inside => inner (List.mem_cons_of_mem _ inside)]

/-- A source of one line is read from its beginning to its end. -/
theorem readsAs_line_iff {source : String} {lexemes : List Lexeme} (filled : source.toList ≠ [])
    (inner : '\n' ∉ source.toList) (noReturn : '\r' ∉ source.toList) :
    ReadsAs source lexemes ↔ ∃ entered,
      (Scanner.ofText (source.toList ++ ['\n'])).beginLine 0 false = .ok entered ∧
        entered.ReadsTo lexemes := by
  rw [readsAs_iff, linesOf, (Joined.of_notMem noReturn).joinLineEnds_eq,
    Text.lines_of_notMem filled inner]
  constructor
  · rintro ⟨entered, final, begun, finished⟩
    exact ⟨entered, begun, final, finished⟩
  · rintro ⟨entered, begun, final, finished⟩
    exact ⟨entered, final, begun, finished⟩

/-! ## The key of an entry -/

namespace Scanner

variable {scanner next : Scanner} {text : List Char} {said lexemes : List Lexeme}

/-- A source that begins with a symbol is entered there. -/
theorem shows_symbol {first : Char} {more : List Char} (starts : isSymbolStart first = true) :
    ∃ entered, (Scanner.ofText (first :: more)).beginLine 0 false = .ok entered ∧
      entered.Shows (first :: more) 0 [0] [] := by
  have begins : BeginsLine (first :: more) := by
    intro character stands
    cases stands
    exact ⟨isGap_of_isSymbolStart starts, ne_of_isSymbolStart starts (by decide),
      ne_of_isSymbolStart starts (by decide)⟩
  have noItem : beginsItem (first :: more) = false := by
    rw [beginsItem.eq_def]
    split
    · rename_i found
      exact absurd (List.cons.inj found).1 (ne_of_isSymbolStart starts (by decide))
    · rfl
  rcases shows_content begins (List.cons_ne_nil _ _) with ⟨entered, begun, shows, _⟩
  rw [noItem] at shows
  exact ⟨entered, begun, shows⟩

/-- The key of the first line is read. -/
theorem inside_key (key : Key) (ends : EndsWord (text ++ ['\n'])) :
    ∃ entered next,
      (Scanner.ofText (key.name.toList ++ text ++ ['\n'])).beginLine 0 false = .ok entered ∧
        entered.Moves next ∧ next.Inside text [.symbol key.name] := by
  rcases key.head with ⟨first, more, spelled, starts⟩
  have other : ∀ mark, isSymbolStart mark = false → first ≠ mark :=
    fun mark foreign => ne_of_isSymbolStart starts foreign
  rcases @shows_symbol first (more ++ text ++ ['\n']) starts with ⟨entered, begun, shows⟩
  have word : entered.content = some (entered.read key.name.toList.length (.symbol key.name)) := by
    have front : entered.cursor.rest = key.name.toList ++ (text ++ ['\n']) := by
      rw [shows.rest, spelled, List.append_assoc]
      rfl
    have read := content_word front key.starts key.whole ends
    rw [key.noBoolean, String.ofList_toList] at read
    exact read
  have stepped := shows.step_content (other '\n' (by decide)) (isGap_of_isSymbolStart starts)
    (other '#' (by decide)) (Shows.atListHyphen_eq_false shows.rest (other '-' (by decide))) word
  have chunk : entered.Shows (key.name.toList ++ (text ++ ['\n'])) 0 [0] [] := by
    rw [spelled, ← List.append_assoc]
    exact shows
  have filled : 1 ≤ key.name.toList.length := by
    rw [spelled]
    exact Nat.succ_pos _
  have along := Cursor.onLine_chunk chunk.rest key.newline_notMem filled
  refine ⟨entered, _, ?_, ⟨shows.rest ▸ List.cons_ne_nil _ _, stepped⟩,
    ⟨_, chunk.read key.newline_notMem⟩, ?_⟩
  · rw [spelled]
    exact begun
  · rw [Scanner.read, cursor_emit]
    refine along.fresh_eq_false fun _ character stands => ?_
    rw [shows.rest] at stands
    cases stands
    exact isGap_of_isSymbolStart starts

namespace Inside

/-- A gap is passed over. -/
theorem moves_gap (inside : scanner.Inside (' ' :: text) said) :
    scanner.Moves (scanner.skip 1) ∧ (scanner.skip 1).Inside text said := by
  rcases inside.shows with ⟨column, shows⟩
  have front : scanner.cursor.rest = ' ' :: (text ++ ['\n']) := shows.rest
  exact ⟨step_gap shows.calm (by decide) front,
    @Inside.skip _ [' '] _ _ inside (by decide) (by decide)⟩

/-- The sign of an assignment is read. -/
theorem moves_sign (inside : scanner.Inside (':' :: '=' :: text) said) :
    scanner.Moves (scanner.read 2 (.assignment false)) ∧
      (scanner.read 2 (.assignment false)).Inside text (said ++ [.assignment false]) := by
  rcases inside.shows with ⟨column, shows⟩
  have front : scanner.cursor.rest = ':' :: '=' :: (text ++ ['\n']) := shows.rest
  have noMark : scanner.mark = none := mark_eq_none front (by decide)
  have read : scanner.content = some (scanner.read 2 (.assignment false)) := by
    rw [content, noMark, colon_of_rest front]
    rfl
  have moves := inside.moves (by decide) (by decide)
  rw [read] at moves
  exact ⟨moves, @Inside.read _ [':', '='] _ _ _ inside (by decide) (by decide)⟩

end Inside

end Scanner

/-! ## Entries -/

/-- A line that assigns a text to a key, as a literal or as an expression. -/
def entry (key : Key) (literal : Bool) (text : String) : String :=
  key.name ++ (if literal then ": " else " := ") ++ text

/-- The tokens of an entry whose text is read as one token. -/
def entryLexemes (key : Key) (literal : Bool) (lexeme : Lexeme) : List Lexeme :=
  [.symbol key.name, .assignment literal, lexeme, .endOfInput]

section

variable (key : Key) {text : String} {scalar : Lexeme}
  (filled : text ≠ "")
  (plain : ∀ character ∈ text.toList, Text.isBlank character = false ∧ character ≠ '#')
  (known : scalar.scalar? ≠ none)

include plain in
/-- The line of an entry ends with the source. -/
theorem notMem_entry (literal : Bool) {mark : Char} (ends : mark ∈ ['\n', '\r']) :
    mark ∉ (entry key literal text).toList := by
  have foreign : ∀ mark ∈ ['\n', '\r'], Text.isBlank mark = true ∧ isSymbolChar mark = false ∧
      mark ∉ (if literal then ": " else " := ").toList := by
    cases literal <;> exact List.all_iff_forall_prop.mp (by decide)
  rcases foreign mark ends with ⟨blank, noSymbol, noSign⟩
  rw [entry, String.toList_append, String.toList_append, List.mem_append, List.mem_append]
  rintro ((inside | inside) | inside)
  · cases noSymbol.symm.trans (isSymbolChar_of_whole key.whole mark inside)
  · exact noSign inside
  · cases blank.symm.trans (plain mark inside).1

include plain in
/-- An entry is read from behind its key. -/
theorem exists_inside_entry (literal : Bool) :
    ∃ scanner : Scanner, scanner.Inside ((if literal then ": " else " := ").toList ++ text.toList)
        [.symbol key.name] ∧
      ∀ lexemes, ReadsAs (entry key literal text) lexemes ↔ scanner.ReadsTo lexemes := by
  have source : (entry key literal text).toList =
      key.name.toList ++ ((if literal then ": " else " := ").toList ++ text.toList) := by
    rw [entry, String.toList_append, String.toList_append, List.append_assoc]
  have some : (entry key literal text).toList ≠ [] := by
    rcases key.head with ⟨first, more, spelled, _⟩
    rw [source, spelled]
    exact List.cons_ne_nil _ _
  have ends : EndsWord ((if literal then ": " else " := ").toList ++ text.toList ++ ['\n']) := by
    intro character stands
    cases literal <;>
      cases stands <;> decide
  rcases Scanner.inside_key key ends with ⟨entered, next, begun, moves, inside⟩
  refine ⟨next, inside, fun lexemes => ?_⟩
  rw [readsAs_line_iff some (notMem_entry key plain literal (by decide))
    (notMem_entry key plain literal (by decide)), source]
  constructor
  · rintro ⟨again, same, reads⟩
    cases begun.symm.trans same
    exact moves.readsTo_iff.mp reads
  · intro reads
    exact ⟨entered, begun, moves.readsTo_iff.mpr reads⟩

include known in
theorem hasLexemes_entry_iff (literal : Bool) :
    HasLexemes (entry key literal text) (entryLexemes key literal scalar) ↔
      ReadsAs (entry key literal text) (entryLexemes key literal scalar) := by
  refine hasLexemes_iff_readsAs fun unknown inside => known ?_
  have same : .unknown unknown = scalar := by simpa [entryLexemes] using inside
  rw [← same]
  rfl

include filled plain known

/-- As an expression a number or a boolean is read where it is spelled. -/
theorem readsAs_expression_iff :
    ReadsAs (entry key false text) (entryLexemes key false scalar) ↔
      Scalar.Spells text.toList scalar := by
  have some : text.toList ≠ [] := by simpa using filled
  rcases exists_inside_entry key plain false with ⟨scanner, inside, same⟩
  rcases inside.moves_gap with ⟨behindKey, atSign⟩
  rcases atSign.moves_sign with ⟨sign, behindSign⟩
  rcases behindSign.moves_gap with ⟨gap, atText⟩
  rw [same, behindKey.readsTo_iff, sign.readsTo_iff, gap.readsTo_iff]
  exact atText.readsTo_scalar_iff some plain known

/-- As a literal a number or a boolean is read where the text is classified as one. -/
theorem readsAs_literal_iff :
    ReadsAs (entry key true text) (entryLexemes key true scalar) ↔
      Scalar.classify text.toList = scalar := by
  have some : text.toList ≠ [] := by simpa using filled
  rcases exists_inside_entry key plain true with ⟨scanner, inside, same⟩
  rw [same]
  exact inside.readsTo_literal_iff some plain known

end

/-! ## The program of an entry -/

/-- A source whose tokens the grammar reads compiles to what they are read as. -/
theorem compile_of_reads {source : String} {lexemes : List Lexeme} {document : Document}
    (reads : ReadsAs source lexemes) (ends : lexemes.getLast? = some .endOfInput)
    (derived : Grammar.Reads lexemes document) : compile source = .ok ⟨⟨document⟩, []⟩ := by
  rcases reads with ⟨read, tokenized, silent, rfl⟩
  have parsed := Grammar.ofTokens_eq_ok_iff.mpr ⟨(endsWithEnd_eq_true_iff _).mpr ends, derived⟩
  rw [compile, tokenized]
  dsimp only
  rw [parsed, silent]

/-- Either sign assigns the literal behind it. -/
theorem Grammar.reads_entry (key : Key) (literal : Bool) {lexeme : Lexeme} {operand : Expr}
    (known : lexeme.literal? = some operand) :
    ∃ scopes, Reads (entryLexemes key literal lexeme)
      ⟨.scope 0 (.block [⟨1, [.assignment key.name operand]⟩]), scopes⟩ := by
  have statement : Derives (.statement 1) (.ofLexemes (entryLexemes key literal lexeme))
      ((Scopes.empty.push none).2.push (some 0)).2 (.assignment key.name operand)
      ⟨[lexeme, .assignment literal, .symbol key.name], [.endOfInput]⟩ _ :=
    .assigned (chain_literal known rfl)
  have sections : Derives (.sections .endOfInput [] ⟨1, []⟩ true)
      (.ofLexemes (entryLexemes key literal lexeme))
      ((Scopes.empty.push none).2.push (some 0)).2
      (.block [⟨1, [.assignment key.name operand]⟩])
      ⟨[lexeme, .assignment literal, .symbol key.name], [.endOfInput]⟩ _ :=
    .state statement (.closeDocument rfl)
  exact ⟨_, _, _, .block sections, rfl⟩

/-- An entry that is read as a leaf binds the key to its value. -/
theorem compileSource_entry {source : String} {key : Key} {literal : Bool} {leaf : Leaf}
    (reads : ReadsAs source (entryLexemes key literal leaf.lexeme)) (bindings : Value.Bindings) :
    compileSource source bindings = .ok ⟨.mapping [(key.name, leaf.value)], []⟩ := by
  rcases Grammar.literal_leaf leaf with ⟨operand, known⟩
  rcases Grammar.reads_entry key literal known with ⟨scopes, derived⟩
  have distinct : Tree.DistinctKeys (.mapping key (.leaf leaf) []) :=
    .mapping (List.pairwise_singleton _ _) (.leaf leaf) (List.forall_mem_nil _)
  have denotes : Grammar.DenotesRoot (.mapping key (.leaf leaf) [])
      (.block [⟨1, [.assignment key.name operand]⟩]) :=
    .mapping (.mapping (.cons (.leaf known) .nil))
  have value := @Program.evaluate_of_denotesRoot _ _ scopes distinct denotes bindings
  rw [compileSource, compile_of_reads reads rfl derived]
  dsimp only
  rw [value]
  rfl

/-! ## Both contexts -/

/-- A number or a boolean is the token of a leaf. -/
theorem exists_leaf {text : List Char} {scalar : Lexeme} {value : Value}
    (known : scalar.scalar? = some value) (classified : Scalar.classify text = scalar) :
    ∃ leaf : Leaf, leaf.lexeme = scalar ∧ leaf.value = value := by
  cases scalar with
  | number number =>
    cases known
    rcases Scalar.exists_numeral (Scalar.classify_eq_number_iff.mp classified) with
      ⟨numeral, _, rfl⟩
    exact ⟨.number numeral, rfl, rfl⟩
  | boolean truth =>
    cases known
    exact ⟨.boolean truth, rfl, rfl⟩
  | _ => cases known

/-- A text without blanks and comments is read as a number or a boolean behind `:=` exactly
if it is classified as that one and has no long s in it, and behind `:` exactly if it is
classified as that one.  Where it is read so in one place, the key is bound to the same
value in both, except behind `:=` where there is a long s. -/
theorem scalar_in_both_contexts (key : Key) {text : String} {scalar : Lexeme} {value : Value}
    (filled : text ≠ "")
    (plain : ∀ character ∈ text.toList, Text.isBlank character = false ∧ character ≠ '#')
    (known : scalar.scalar? = some value) :
    (HasLexemes (entry key false text) (entryLexemes key false scalar) ↔
        Scalar.classify text.toList = scalar ∧ 'ſ' ∉ text.toList) ∧
      (HasLexemes (entry key true text) (entryLexemes key true scalar) ↔
        Scalar.classify text.toList = scalar) ∧
      ∀ literal, HasLexemes (entry key literal text) (entryLexemes key literal scalar) →
        ∀ other bindings, (other = false → 'ſ' ∉ text.toList) →
          compileSource (entry key other text) bindings =
            .ok ⟨.mapping [(key.name, value)], []⟩ := by
  have some : scalar.scalar? ≠ none := known ▸ Option.some_ne_none value
  have expression := readsAs_expression_iff key filled plain some
  have literal := readsAs_literal_iff key filled plain some
  rw [Scalar.spells_iff some] at expression
  refine ⟨(hasLexemes_entry_iff key some false).trans expression,
    (hasLexemes_entry_iff key some true).trans literal, ?_⟩
  intro sign reads other bindings short
  have classified : Scalar.classify text.toList = scalar := by
    rw [hasLexemes_entry_iff key some] at reads
    cases sign with
    | false => exact (expression.mp reads).1
    | true => exact literal.mp reads
  rcases exists_leaf known classified with ⟨leaf, rfl, rfl⟩
  cases other with
  | false => exact compileSource_entry (expression.mpr ⟨classified, short rfl⟩) bindings
  | true => exact compileSource_entry (literal.mpr classified) bindings

/-- A numeral with a sign and a fraction. -/
theorem scalar_in_both_contexts_numeral :
    HasLexemes "x := -1.50" [.symbol "x", .assignment false, .number (.ofDecimal true 150 2),
        .endOfInput] ∧
      ∀ bindings, compileSource "x: -1.50" bindings =
        .ok ⟨.mapping [("x", .number (.ofDecimal true 150 2))], []⟩ := by
  let key : Key := ⟨"x", by decide, by decide, by decide, by decide⟩
  have plain : ∀ character ∈ "-1.50".toList, Text.isBlank character = false ∧ character ≠ '#' :=
    List.all_iff_forall_prop.mp (by decide)
  have known : (Lexeme.number (.ofDecimal true 150 2)).scalar? =
      some (.number (.ofDecimal true 150 2)) := rfl
  have classified : Scalar.classify "-1.50".toList = .number (.ofDecimal true 150 2) := rfl
  rcases scalar_in_both_contexts key (by decide) plain known with ⟨expression, _, both⟩
  have reads := expression.mpr ⟨classified, by decide⟩
  exact ⟨reads, fun bindings => both false reads true bindings (by rintro ⟨⟩)⟩

/-- With a long s the word is a boolean as a literal, while the expression breaks off. -/
theorem long_s_breaks_off :
    Scalar.classify "falſe".toList = .boolean false ∧
      HasLexemes "x: falſe" [.symbol "x", .assignment true, .boolean false, .endOfInput] ∧
      HasLexemes "x := falſe" [.symbol "x", .assignment false, .symbol "fal", .unknown "ſe",
        .symbol "e", .endOfInput] := by
  have checked : ∀ source lexemes, (tokenize source).toOption.any (fun read =>
      decide (read.tokens.map Token.lexeme = lexemes)) = true → HasLexemes source lexemes := by
    intro source lexemes checked
    rcases any_toOption checked with ⟨read, tokenized, known⟩
    exact ⟨read, tokenized, of_decide_eq_true known⟩
  exact ⟨rfl, checked _ _ (by decide +kernel), checked _ _ (by decide +kernel)⟩

end Manifest
