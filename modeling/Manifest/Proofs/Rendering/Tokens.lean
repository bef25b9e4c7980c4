import Manifest.Proofs.Rendering.Reading

/-!
# The tokens of a rendering

The source of a tree ends every line with a single line feed, so it is read as
it stands.  The tree stands at the outermost level, where a sequence opens a
level of its own.
-/

namespace Manifest

/-! ## Line ends -/

/-- A text that stays as it is, whatever follows. -/
def Joined (text : List Char) : Prop :=
  ∀ behind, joinLineEnds (text ++ behind) = text ++ joinLineEnds behind

namespace Joined

variable {text more : List Char}

theorem nil : Joined [] := fun _ => rfl

theorem append (joined : Joined text) (other : Joined more) : Joined (text ++ more) := by
  intro behind
  rw [List.append_assoc, joined, other, List.append_assoc]

theorem singleton {character : Char} (other : character ≠ '\r') : Joined [character] := by
  intro behind
  rw [List.singleton_append, joinLineEnds]
  · rfl
  · rintro rest rfl
    exact absurd rfl other

theorem of_notMem (plain : '\r' ∉ text) : Joined text := by
  induction text with
  | nil => exact nil
  | cons character text ih =>
    have other : character ≠ '\r' := fun same => plain (same ▸ List.mem_cons_self)
    exact (singleton other).append (ih fun inside => plain (List.mem_cons_of_mem _ inside))

/-- Inside a line a carriage return stands in front of something else than a line feed. -/
theorem of_line {mark : Char} (line : '\n' ∉ text) (closed : mark ≠ '\r') (inner : mark ≠ '\n') :
    Joined (text ++ [mark]) := by
  induction text with
  | nil => exact singleton closed
  | cons character text ih =>
    have rest := ih fun inside => line (List.mem_cons_of_mem _ inside)
    have begins : ∃ next behind, text ++ [mark] = next :: behind ∧ next ≠ '\n' := by
      cases text with
      | nil => exact ⟨mark, [], rfl, inner⟩
      | cons next text =>
        refine ⟨next, _, rfl, ?_⟩
        rintro rfl
        exact line (List.mem_cons_of_mem _ List.mem_cons_self)
    rcases begins with ⟨next, behind, same, noLine⟩
    intro tail
    have inside := rest tail
    rw [same] at inside
    rw [List.cons_append, same, List.cons_append]
    change joinLineEnds (character :: next :: (behind ++ tail)) =
      character :: (next :: behind ++ joinLineEnds tail)
    rw [← inside, joinLineEnds]
    · rfl
    · rintro _ _ found
      cases found
      exact noLine rfl

theorem joinLineEnds_eq (joined : Joined text) : joinLineEnds text = text := by
  have same := joined []
  rwa [joinLineEnds, List.append_nil] at same

theorem normalize_eq {source : List Char} (joined : Joined source)
    (ends : source.getLast? = some '\n') : normalize source = source := by
  rw [normalize, joined.joinLineEnds_eq]
  exact if_pos ends

end Joined

namespace Tree

theorem joined_leaf (leaf : Leaf) : Joined leaf.spelling := by
  cases known : leaf.isText with
  | true =>
    cases leaf with
    | text content oneLine =>
      refine @Joined.of_line ('\'' :: Leaf.quoted content) '\'' ?_ (by decide) (by decide)
      intro inside
      exact (Leaf.text content oneLine).newline_notMem (List.mem_append_left _ inside)
    | _ => cases known
  | false =>
    refine Joined.of_notMem fun inside => ?_
    exact ne_of_isPlain (Leaf.isPlain_of_mem known inside) (by decide) rfl

theorem joined_indentation (column : Nat) : Joined (indentation column) := by
  refine Joined.of_notMem fun inside => ?_
  cases (List.mem_replicate.mp inside).2

theorem joined_key (key : Key) : Joined key.name.toList := by
  refine Joined.of_notMem fun inside => ?_
  have known := isSymbolChar_of_whole key.whole _ inside
  cases known

theorem joined_itemText (column : Nat) {tree : Tree} {text : List Char} (joined : Joined text) :
    Joined (itemText column tree text) := by
  have below := (joined_indentation (column + 2)).append joined
  rw [itemText]
  split
  · exact @Joined.append ['-', '\n'] (indentation (column + 2) ++ text)
      (Joined.of_notMem (by decide)) below
  · exact @Joined.append ['-', ' '] _ (Joined.of_notMem (by decide)) joined

theorem joined_entryText (column : Nat) {key : Key} {tree : Tree} {text : List Char}
    (joined : Joined text) : Joined (entryText column key tree text) := by
  have below := (joined_indentation (column + 2)).append joined
  rw [entryText]
  split
  · exact (joined_key key).append
      (@Joined.append [':', ' '] _ (Joined.of_notMem (by decide)) joined)
  · rw [List.append_assoc]
    exact (joined_key key).append (@Joined.append [':', '\n'] (indentation (column + 2) ++ text)
      (Joined.of_notMem (by decide)) below)

theorem joined_moreItems {rest : List Tree}
    (joined : ∀ tree ∈ rest, ∀ column, Joined (tree.block column)) (column : Nat) :
    Joined (moreItems column rest) := by
  induction rest with
  | nil => exact Joined.nil
  | cons tree rest ih =>
    rw [moreItems]
    exact ((joined_indentation _).append
      (joined_itemText column (joined tree List.mem_cons_self _))).append
        (ih fun other inside => joined other (List.mem_cons_of_mem _ inside))

theorem joined_moreEntries {rest : List (Key × Tree)}
    (joined : ∀ entry ∈ rest, ∀ column, Joined (entry.2.block column)) (column : Nat) :
    Joined (moreEntries column rest) := by
  induction rest with
  | nil => exact Joined.nil
  | cons entry rest ih =>
    rcases entry with ⟨key, tree⟩
    rw [moreEntries]
    exact ((joined_indentation _).append
      (joined_entryText column (joined _ List.mem_cons_self _))).append
        (ih fun other inside => joined other (List.mem_cons_of_mem _ inside))

theorem joined_block (tree : Tree) (column : Nat) : Joined (tree.block column) := by
  induction tree using induct generalizing column with
  | leaf scalar => exact (joined_leaf scalar).append (Joined.singleton (by decide))
  | sequence first rest joinedFirst joinedRest =>
    exact (joined_itemText column (joinedFirst _)).append (joined_moreItems joinedRest column)
  | mapping key first rest joinedFirst joinedRest =>
    exact (joined_entryText column (joinedFirst _)).append (joined_moreEntries joinedRest column)

/-! ## The whole source -/

/-- The last line of a text ends. -/
def EndsLine (text : List Char) : Prop :=
  text.getLast? = some '\n'

theorem EndsLine.append (front : List Char) {text : List Char} (ends : EndsLine text) :
    EndsLine (front ++ text) := by
  rw [EndsLine, List.getLast?_append, ends]
  rfl

theorem endsLine_itemText (column : Nat) {tree : Tree} {text : List Char} (ends : EndsLine text) :
    EndsLine (itemText column tree text) := by
  rw [itemText]
  split
  · exact ends.append ('-' :: '\n' :: indentation (column + 2))
  · exact ends.append ['-', ' ']

theorem endsLine_entryText (column : Nat) {key : Key} {tree : Tree} {text : List Char}
    (ends : EndsLine text) : EndsLine (entryText column key tree text) := by
  rw [entryText]
  split
  · exact (ends.append [':', ' ']).append key.name.toList
  · exact ends.append (key.name.toList ++ ':' :: '\n' :: indentation (column + 2))

theorem endsLine_moreItems {rest : List Tree} {front : List Char} {column : Nat}
    (ends : ∀ tree ∈ rest, ∀ column, EndsLine (tree.block column)) (before : EndsLine front) :
    EndsLine (front ++ moreItems column rest) := by
  induction rest generalizing front with
  | nil =>
    rw [moreItems, List.append_nil]
    exact before
  | cons tree rest ih =>
    rw [moreItems, ← List.append_assoc]
    refine ih (fun other inside => ends other (List.mem_cons_of_mem _ inside)) ?_
    exact ((endsLine_itemText column (ends tree List.mem_cons_self _)).append _).append front

theorem endsLine_moreEntries {rest : List (Key × Tree)} {front : List Char} {column : Nat}
    (ends : ∀ entry ∈ rest, ∀ column, EndsLine (entry.2.block column)) (before : EndsLine front) :
    EndsLine (front ++ moreEntries column rest) := by
  induction rest generalizing front with
  | nil =>
    rw [moreEntries, List.append_nil]
    exact before
  | cons entry rest ih =>
    rcases entry with ⟨key, tree⟩
    rw [moreEntries, ← List.append_assoc]
    refine ih (fun other inside => ends other (List.mem_cons_of_mem _ inside)) ?_
    exact ((endsLine_entryText column (ends _ List.mem_cons_self _)).append _).append front

theorem endsLine_block (tree : Tree) (column : Nat) : EndsLine (tree.block column) := by
  induction tree using induct generalizing column with
  | leaf scalar =>
    have single : EndsLine ['\n'] := rfl
    exact single.append scalar.spelling
  | sequence first rest endsFirst endsRest =>
    exact endsLine_moreItems endsRest (endsLine_itemText column (endsFirst _))
  | mapping key first rest endsFirst endsRest =>
    exact endsLine_moreEntries endsRest (endsLine_entryText column (endsFirst _))

/-- The lexemes of a source that holds a tree. -/
def documentLexemes (tree : Tree) : List Lexeme :=
  (if tree.isSequence then .indent :: tree.lexemes 0 ++ [.outdent] else tree.lexemes 0) ++
    [.endOfInput]

end Tree

namespace Scanner

variable {tree : Tree}

/-- A source is entered in front of its content, at the outermost level or at the level of
the items of a list. -/
theorem shows_content {content : List Char} (begins : BeginsLine content)
    (filled : content ≠ []) :
    ∃ entered : Scanner, (Scanner.ofText content).beginLine 0 false = .ok entered ∧
      entered.Shows content 0 (if beginsItem content then [1, 0] else [0])
        (if beginsItem content then [.indent] else []) ∧
      entered.cursor.fresh = true := by
  have start : (Scanner.ofText content).cursor.rest = Tree.indentation 0 ++ content := rfl
  have fresh : ((Scanner.ofText content).cursor.advance 0).fresh = true := rfl
  have rest : ((Scanner.ofText content).cursor.advance 0).rest = content := rfl
  have some : ((Scanner.ofText content).cursor.advance 0).rest.isEmpty = false :=
    List.isEmpty_eq_false_iff.mpr filled
  rw [beginLine, Cursor.toContent_eq start begins]
  dsimp only
  rw [Cursor.atListHyphen_eq fresh rest, some]
  cases beginsItem content with
  | true => exact ⟨_, rfl, ⟨rfl, rfl, rfl, rfl, rfl, rfl⟩, rfl⟩
  | false => exact ⟨_, rfl, ⟨rfl, rfl, rfl, rfl, rfl, rfl⟩, rfl⟩

/-- The source of a tree is entered at its own level. -/
theorem shows_start (nested : tree.isLeaf = false) :
    ∃ entered : Scanner, (Scanner.ofText (tree.block 0)).beginLine 0 false = .ok entered ∧
      entered.Shows (tree.block 0) 0 (if tree.isSequence then [1, 0] else [0])
        (if tree.isSequence then [.indent] else []) ∧
      entered.cursor.fresh = true := by
  rcases Tree.begins_block 0 tree nested [] with ⟨begins, item⟩
  rw [List.append_nil] at begins item
  rw [← item]
  exact shows_content begins (Tree.block_ne_nil 0 tree)

end Scanner

/-- The source of a tree is read without diagnostics. -/
theorem tokenize_rendering {tree : Tree} (nested : tree.isLeaf = false) :
    ∃ read, tokenize tree.rendering = .ok read ∧ read.diagnostics = [] ∧
      read.tokens.map Token.lexeme = tree.documentLexemes := by
  rcases Scanner.shows_start nested with ⟨entered, begun, shows, fresh⟩
  have stands : Levels.current (if tree.isSequence then [1, 0] else [0]) =
      Levels.ofColumn 0 tree.isSequence := by
    cases tree.isSequence <;> rfl
  rw [← List.append_nil (tree.block 0)] at shows
  rcases Scanner.reads tree nested shows stands (fun _ => fresh) with ⟨flat, behind⟩
  have outermost : ∃ flat, entered.LeadsBehind [] [0]
      (if tree.isSequence then .indent :: tree.lexemes 0 ++ [.outdent] else tree.lexemes 0)
      flat := by
    cases sequence : tree.isSequence with
    | true =>
      rw [sequence] at behind
      exact ⟨false, behind.close (by decide)⟩
    | false =>
      rw [sequence] at behind
      exact ⟨flat, behind⟩
  rcases outermost with ⟨_, leads⟩
  rcases leads.finish with ⟨last, column, run, ended⟩
  have source : normalize tree.rendering.toList = tree.block 0 := by
    rw [Tree.rendering, String.toList_ofList]
    exact (Tree.joined_block tree 0).normalize_eq (Tree.endsLine_block tree 0)
  have some : tree.rendering.isEmpty = false := by
    rw [Tree.rendering, String.isEmpty_eq_false_iff]
    intro none
    have nothing := congrArg String.toList none
    rw [String.toList_ofList] at nothing
    exact Tree.block_ne_nil 0 tree nothing
  refine ⟨⟨String.ofList (tree.block 0), last.finish.tokens.reverse,
    last.finish.diagnostics.reverse⟩, ?_, ?_, ?_⟩
  · rw [tokenize, if_neg (by rw [some]; exact Bool.false_ne_true), source]
    dsimp only
    rw [begun]
    change (entered.run >>= _) = _
    rw [run]
    rfl
  · dsimp only
    rw [ended.finish.silent]
    rfl
  · exact ended.finish.said_eq

end Manifest
