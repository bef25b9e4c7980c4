import Manifest.Proofs.Rendering.Layout

/-!
# Reading a rendering

A scanner that stands in front of a rendered tree comes to stand at the end of
its last line.  Levels that the tree has opened inside of its own are still
open there.  They are closed by whatever line follows, so the tokens that close
them are counted as spoken already.
-/

namespace Manifest

namespace Scanner

variable {scanner next : Scanner} {content tail : List Char} {column : Nat} {levels : Levels}
  {said spoken : List Lexeme}

/-! ## Items -/

section

variable {gap : List Char}

/-- The scanner at the content of an item. -/
def item (scanner : Scanner) : Scanner :=
  { scanner.emit (.symbol "yield") ⟨scanner.cursor.offset, scanner.cursor.offset + 1⟩ with
    cursor := (scanner.cursor.advance 1).skipGap }

variable (shows : scanner.Shows ('-' :: (gap ++ content)) column levels said)
  (gaps : gap.all Text.isGap = true)
  (stops : ∀ character, content.head? = some character → Text.isGap character = false)

include shows gaps stops

theorem Shows.item :
    scanner.item.Shows content (column + 1 + gap.length) levels (said ++ [.symbol "yield"]) := by
  have front : scanner.Shows (['-'] ++ (gap ++ content)) column levels said := shows
  have inner := (front.skip (by decide)).skipGap gaps stops
  have emitted := @Shows.emit _ _ _ _ _ (.symbol "yield")
    ⟨scanner.cursor.offset, scanner.cursor.offset + 1⟩ shows
  exact ⟨inner.rest, inner.column_eq, emitted.levels_eq, emitted.said_eq, emitted.calm,
    emitted.silent⟩

variable (fresh : scanner.cursor.fresh = true)
  (begins : beginsItem ('-' :: (gap ++ content)) = true)
  (stands : levels.current = Levels.ofColumn column true)

include fresh begins stands

theorem Shows.step_item : scanner.step = .ok
    (if holdsAssignment none (Text.line content) = true then
      ({ scanner.item with
        levels := Levels.ofColumn (column + 1 + gap.length) false :: levels }).emit .indent
          ⟨scanner.cursor.offset, scanner.item.cursor.offset⟩
    else scanner.item) := by
  have item := shows.item gaps stops
  have hyphen : scanner.cursor.atListHyphen = true := by
    rw [Cursor.atListHyphen_eq fresh shows.rest, begins]
  rw [step, shows.rest]
  dsimp only
  rw [if_neg (by decide), if_neg (by decide), if_neg (by decide), if_pos hyphen, listItem,
    if_neg (by rw [shows.levels_eq, shows.column_eq, stands]; exact fun other => other rfl)]
  change (if holdsAssignment none (Text.line scanner.item.cursor.rest) = true then
    Except.ok (({ scanner.item with
      levels := Levels.ofColumn scanner.item.cursor.column false :: scanner.item.levels }).emit
        .indent ⟨scanner.cursor.offset, scanner.item.cursor.offset⟩)
    else Except.ok scanner.item) = _
  rw [item.rest, item.column_eq, item.levels_eq]
  split <;> rfl

/-- An item whose line holds no assignment. -/
theorem Shows.item_plain (plain : holdsAssignment none (Text.line content) = false) :
    scanner.LeadsTo content levels (said ++ [.symbol "yield"]) := by
  have stepped := shows.step_item gaps stops fresh begins stands
  rw [plain, if_neg Bool.false_ne_true] at stepped
  have item := shows.item gaps stops
  refine ⟨_, _, shows.run_eq item stepped ?_, item⟩
  simp only [List.length_cons, List.length_append]
  omega

/-- An item whose line holds an assignment opens a level. -/
theorem Shows.item_opening (opening : holdsAssignment none (Text.line content) = true) :
    ∃ next : Scanner, scanner.run = next.run ∧ next.Shows content (column + 1 + gap.length)
      (Levels.ofColumn (column + 1 + gap.length) false :: levels)
      (said ++ [.symbol "yield", .indent]) := by
  have stepped := shows.step_item gaps stops fresh begins stands
  rw [opening, if_pos rfl] at stepped
  have item := shows.item gaps stops
  have inside : ({ scanner.item with
      levels := Levels.ofColumn (column + 1 + gap.length) false :: levels } : Scanner).Shows content
      (column + 1 + gap.length) (Levels.ofColumn (column + 1 + gap.length) false :: levels)
      (said ++ [.symbol "yield"]) :=
    ⟨item.rest, item.column_eq, rfl, item.said_eq, item.calm, item.silent⟩
  have opened := @Shows.emit _ _ _ _ _ .indent
    ⟨scanner.cursor.offset, scanner.item.cursor.offset⟩ inside
  rw [List.append_assoc] at opened
  refine ⟨_, shows.run_eq opened stepped ?_, opened⟩
  simp only [List.length_cons, List.length_append]
  omega

end

/-! ## Behind a piece -/

/-- A run leads to the end of the last line of a piece.  What is spoken holds
the tokens that close the levels inside; without any the piece ends flat. -/
def LeadsBehind (scanner : Scanner) (tail : List Char) (levels : Levels) (spoken : List Lexeme)
    (flat : Bool) : Prop :=
  ∃ (inner : Levels) (said : List Lexeme), scanner.LeadsTo ('\n' :: tail) (inner ++ levels) said ∧
    (∀ found ∈ inner, levels.current < found) ∧
    said ++ List.replicate inner.length .outdent = spoken ∧ inner.isEmpty = flat ∧
    (flat = true → ∃ front latest, said = front ++ [latest] ∧ latest.isLayout = false)

theorem LeadsTo.of_run {text : List Char} (same : scanner.run = next.run)
    (leads : next.LeadsTo text levels said) : scanner.LeadsTo text levels said := by
  rcases leads with ⟨last, column, run, shows⟩
  exact ⟨last, column, same.trans run, shows⟩

theorem LeadsBehind.of_run {flat : Bool} (same : scanner.run = next.run)
    (leads : next.LeadsBehind tail levels spoken flat) :
    scanner.LeadsBehind tail levels spoken flat := by
  rcases leads with ⟨inner, said, leads, rest⟩
  exact ⟨inner, said, leads.of_run same, rest⟩

/-- Behind a scalar. -/
theorem LeadsTo.behind {front : List Lexeme} {latest : Lexeme} (spoken : said = front ++ [latest])
    (noLayout : latest.isLayout = false) (leads : scanner.LeadsTo ('\n' :: tail) levels said) :
    scanner.LeadsBehind tail levels said true :=
  ⟨[], said, leads, fun _ inside => absurd inside List.not_mem_nil, List.append_nil _, rfl,
    fun _ => ⟨front, latest, spoken, noLayout⟩⟩

/-- Behind a piece on a level of its own. -/
theorem LeadsBehind.close {level : Nat} {flat : Bool} (deeper : levels.current < level)
    (leads : scanner.LeadsBehind tail (level :: levels) spoken flat) :
    scanner.LeadsBehind tail levels (spoken ++ [.outdent]) false := by
  rcases leads with ⟨inner, said, leads, inside, rfl, -, -⟩
  refine ⟨inner ++ [level], said, ?_, ?_, ?_, ?_, fun none => nomatch none⟩
  · rw [List.append_assoc]
    exact leads
  · intro found member
    rcases List.mem_append.mp member with member | member
    · exact Nat.lt_trans deeper (inside found member)
    · rw [List.mem_singleton.mp member]
      exact deeper
  · rw [List.length_append, List.length_singleton, List.replicate_succ', List.append_assoc]
  · exact List.isEmpty_eq_false_iff.mpr
      (List.append_ne_nil_of_right_ne_nil _ (List.cons_ne_nil _ _))

/-- The line behind a piece. -/
theorem LeadsBehind.line {width : Nat} {flat : Bool} (begins : BeginsLine content)
    (some : content ≠ []) (stands : levels.current = Levels.ofColumn width (beginsItem content))
    (leads : scanner.LeadsBehind (Tree.indentation width ++ content) levels spoken flat) :
    scanner.LeadsToLine content width levels
      (spoken ++ if flat then [.newline width] else []) := by
  rcases leads with ⟨inner, said, ⟨next, column, run, shows⟩, inside, rfl, rfl, ends⟩
  cases inner with
  | nil =>
    rcases ends rfl with ⟨front, latest, rfl, noLayout⟩
    rcases shows.level begins some stands rfl noLayout with ⟨last, more, behind⟩
    refine ⟨last, run.trans more, ?_⟩
    rw [List.length_nil, List.replicate_zero, List.append_nil]
    exact behind
  | cons top inner =>
    rcases shows.outward begins some rfl (List.cons_ne_nil _ _)
      (fun found member => stands ▸ inside found member) stands with ⟨last, more, behind⟩
    refine ⟨last, run.trans more, ?_⟩
    rw [List.isEmpty_cons, if_neg Bool.false_ne_true, List.append_nil]
    exact behind

/-- Behind a piece the source ends. -/
theorem LeadsBehind.finish {flat : Bool} (leads : scanner.LeadsBehind [] [0] spoken flat) :
    ∃ (last : Scanner) (column : Nat),
      scanner.run = .ok last ∧ last.Shows [] column [0] spoken := by
  rcases leads with ⟨inner, said, ⟨next, column, run, shows⟩, inside, rfl, -, -⟩
  rcases shows.last_line inside with ⟨last, more, behind⟩
  exact ⟨last, 0, run.trans more, behind⟩

end Scanner

/-! ## How pieces begin -/

namespace Tree

theorem isLeaf_iff {tree : Tree} : tree.isLeaf = true ↔ ∃ scalar, tree = .leaf scalar := by
  cases tree with
  | leaf scalar => exact ⟨fun _ => ⟨scalar, rfl⟩, fun _ => rfl⟩
  | sequence | mapping =>
    constructor
    · intro none
      cases none
    · rintro ⟨scalar, none⟩
      cases none

theorem begins_itemText (column : Nat) (tree : Tree) (text tail : List Char) :
    BeginsLine (itemText column tree text ++ tail) ∧
      beginsItem (itemText column tree text ++ tail) = true := by
  rw [itemText]
  split
  · exact ⟨fun character stands => by cases stands; decide, rfl⟩
  · exact ⟨fun character stands => by cases stands; decide, rfl⟩

theorem begins_entryText (column : Nat) (key : Key) (tree : Tree) (text tail : List Char) :
    BeginsLine (entryText column key tree text ++ tail) ∧
      beginsItem (entryText column key tree text ++ tail) = false := by
  rcases key.head with ⟨first, more, spelled, starts⟩
  have text_eq : ∃ behind, entryText column key tree text ++ tail = first :: behind := by
    rw [entryText, spelled]
    split
    · exact ⟨_, rfl⟩
    · exact ⟨_, rfl⟩
  rcases text_eq with ⟨behind, same⟩
  rw [same]
  constructor
  · intro character stands
    cases stands
    exact ⟨isGap_of_isSymbolStart starts, ne_of_isSymbolStart starts (by decide),
      ne_of_isSymbolStart starts (by decide)⟩
  · rw [beginsItem]
    intro next tail found
    cases found
    cases starts

/-- A collection begins like its first part. -/
theorem begins_block (column : Nat) (tree : Tree) (nested : tree.isLeaf = false)
    (tail : List Char) :
    BeginsLine (tree.block column ++ tail) ∧
      beginsItem (tree.block column ++ tail) = tree.isSequence := by
  cases tree with
  | leaf scalar => cases nested
  | sequence first rest =>
    rw [block, List.append_assoc]
    exact begins_itemText column first _ _
  | mapping key first rest =>
    rw [block, List.append_assoc]
    exact begins_entryText column key first _ _

/-- The first line of an entry holds an assignment. -/
theorem holdsAssignment_entryText (column : Nat) (key : Key) (tree : Tree) (tail : List Char) :
    holdsAssignment none (Text.line
      (entryText column key tree (tree.block (column + 2)) ++ tail)) = true := by
  rw [entryText]
  cases leaf : tree.isLeaf with
  | true =>
    rcases isLeaf_iff.mp leaf with ⟨scalar, rfl⟩
    have line : '\n' ∉ key.name.toList ++ ':' :: ' ' :: scalar.spelling := by
      simp [key.newline_notMem, scalar.newline_notMem]
    have text : key.name.toList ++ ':' :: ' ' :: (Tree.leaf scalar).block (column + 2) ++ tail =
        (key.name.toList ++ ':' :: ' ' :: scalar.spelling) ++ '\n' :: tail := by
      simp [block]
    rw [if_pos rfl, text, Text.line_append line]
    exact holdsAssignment_key key rfl
  | false =>
    have line : '\n' ∉ key.name.toList ++ [':'] := by
      simp [key.newline_notMem]
    have text : key.name.toList ++ ':' :: '\n' :: indentation (column + 2) ++
        tree.block (column + 2) ++ tail = (key.name.toList ++ [':']) ++
          '\n' :: (indentation (column + 2) ++ (tree.block (column + 2) ++ tail)) := by
      simp
    rw [if_neg Bool.false_ne_true, text, Text.line_append line]
    exact holdsAssignment_key key rfl

theorem block_ne_nil (column : Nat) (tree : Tree) : tree.block column ≠ [] := by
  cases tree with
  | leaf scalar => exact List.append_ne_nil_of_right_ne_nil _ (List.cons_ne_nil _ _)
  | sequence first rest =>
    rw [block, itemText]
    split
    · exact List.cons_ne_nil _ _
    · exact List.cons_ne_nil _ _
  | mapping key first rest =>
    rcases key.head with ⟨initial, more, spelled, starts⟩
    rw [block, entryText, spelled]
    split
    · exact List.cons_ne_nil _ _
    · exact List.cons_ne_nil _ _

end Tree

/-! ## Trees -/

namespace Scanner

variable {scanner : Scanner} {tail : List Char} {column : Nat} {levels : Levels}
  {said : List Lexeme} {tree : Tree}

/-- The lines of a collection are read as its tokens, wherever it stands. -/
def Reads (tree : Tree) : Prop :=
  ∀ {scanner : Scanner} {tail : List Char} {column : Nat} {levels : Levels} {said : List Lexeme},
    tree.isLeaf = false → scanner.Shows (tree.block column ++ tail) column levels said →
    levels.current = Levels.ofColumn column tree.isSequence →
    (tree.isSequence = true → scanner.cursor.fresh = true) →
    ∃ flat, scanner.LeadsBehind tail levels (said ++ tree.lexemes column) flat

/-- A collection on the lines below. -/
theorem LeadsTo.below (reads : Reads tree) (nested : tree.isLeaf = false)
    (deeper : levels.current < Levels.ofColumn column tree.isSequence)
    (leads : scanner.LeadsTo
      ('\n' :: (Tree.indentation column ++ (tree.block column ++ tail))) levels said) :
    scanner.LeadsBehind tail levels
      (said ++ Tree.nested tree (tree.lexemes column)) false := by
  rcases leads with ⟨next, place, run, shows⟩
  rcases Tree.begins_block column tree nested tail with ⟨begins, item⟩
  have some : tree.block column ++ tail ≠ [] :=
    List.append_ne_nil_of_left_ne_nil (Tree.block_ne_nil column tree) _
  rw [← item] at deeper
  rcases shows.deeper begins some deeper with ⟨inside, more, shows, fresh⟩
  rw [item] at shows deeper
  rcases reads nested shows rfl fun _ => fresh with ⟨flat, behind⟩
  have closed := (behind.of_run (run.trans more)).close deeper
  rw [Tree.nested, nested, if_neg Bool.false_ne_true]
  rw [List.append_assoc, List.append_assoc] at closed
  exact closed

theorem Shows.entry {key : Key} (reads : Reads tree)
    (shows : scanner.Shows (Tree.entryText column key tree (tree.block (column + 2)) ++ tail)
      column levels said)
    (stands : levels.current = Levels.ofColumn column false) :
    scanner.LeadsBehind tail levels
      (said ++ Tree.entryLexemes key tree (tree.lexemes (column + 2))) tree.isLeaf := by
  rw [Tree.entryText] at shows
  rw [Tree.entryLexemes]
  cases leaf : tree.isLeaf with
  | true =>
    rcases Tree.isLeaf_iff.mp leaf with ⟨scalar, rfl⟩
    have front : scanner.Shows (key.name.toList ++ ':' :: ' ' :: (scalar.spelling ++ '\n' :: tail))
        column levels said := by
      simpa [Tree.isLeaf, Tree.block] using shows
    rcases front.key with ⟨next, place, run, behind⟩
    have leads := behind.colon_leaf.of_run run
    rw [List.append_assoc] at leads
    exact leads.behind (List.append_assoc said [_, _] [_]).symm scalar.isLayout_lexeme
  | false =>
    rw [leaf, if_neg Bool.false_ne_true] at shows
    have front : scanner.Shows (key.name.toList ++ ':' :: '\n' ::
        (Tree.indentation (column + 2) ++ (tree.block (column + 2) ++ tail)))
        column levels said := by
      simpa using shows
    rcases front.key with ⟨next, place, run, behind⟩
    have deeper : levels.current < Levels.ofColumn (column + 2) tree.isSequence := by
      rw [stands, Levels.ofColumn, Levels.ofColumn]
      simp only [Bool.toNat_false]
      omega
    have leads := (behind.colon_line.of_run run).below reads leaf deeper
    rw [List.append_assoc, List.append_assoc] at leads
    exact leads

theorem Shows.item_tree (reads : Reads tree)
    (shows : scanner.Shows (Tree.itemText column tree (tree.block (column + 2)) ++ tail)
      column levels said)
    (fresh : scanner.cursor.fresh = true)
    (stands : levels.current = Levels.ofColumn column true) :
    scanner.LeadsBehind tail levels
      (said ++ Tree.itemLexemes tree (tree.lexemes (column + 2))) tree.isLeaf := by
  rw [Tree.itemText] at shows
  rw [Tree.itemLexemes]
  cases tree with
  | leaf scalar =>
    have front : scanner.Shows ('-' :: ([' '] ++ (scalar.spelling ++ '\n' :: tail)))
        column levels said := by
      simpa [Tree.isSequence, Tree.block] using shows
    have plain : holdsAssignment none (Text.line (scalar.spelling ++ '\n' :: tail)) = false := by
      rw [Text.line_append scalar.newline_notMem]
      exact holdsAssignment_leaf scalar
    rcases front.item_plain (by decide) (scalar.stops _) fresh rfl stands plain with
      ⟨next, place, run, behind⟩
    have leads := (behind.leaf scalar).of_run run
    rw [List.append_assoc] at leads
    exact leads.behind (List.append_assoc said [_] [_]).symm scalar.isLayout_lexeme
  | sequence first rest =>
    have front : scanner.Shows ('-' :: ([] ++ '\n' :: (Tree.indentation (column + 2) ++
        ((Tree.sequence first rest).block (column + 2) ++ tail)))) column levels said := by
      simpa [Tree.isSequence] using shows
    have deeper : levels.current < Levels.ofColumn (column + 2) true := by
      rw [stands, Levels.ofColumn, Levels.ofColumn]
      omega
    have stops : ∀ character, List.head? ('\n' :: (Tree.indentation (column + 2) ++
        ((Tree.sequence first rest).block (column + 2) ++ tail))) = some character →
        Text.isGap character = false := by
      intro character stands
      cases stands
      rfl
    have leads := (front.item_plain (by decide) stops fresh rfl stands rfl).below reads rfl deeper
    rw [List.append_assoc] at leads
    exact leads
  | mapping key first rest =>
    have front : scanner.Shows ('-' :: ([' '] ++
        ((Tree.mapping key first rest).block (column + 2) ++ tail))) column levels said := by
      simpa [Tree.isSequence] using shows
    have opening : holdsAssignment none
        (Text.line ((Tree.mapping key first rest).block (column + 2) ++ tail)) = true := by
      rw [Tree.block, List.append_assoc]
      exact Tree.holdsAssignment_entryText (column + 2) key first _
    rcases front.item_opening (by decide)
      (fun character stands => ((Tree.begins_block _ _ rfl tail).1 character stands).1) fresh rfl
      stands opening with ⟨next, run, behind⟩
    rcases reads rfl behind rfl (fun none => nomatch none) with ⟨flat, behind⟩
    have deeper : levels.current < Levels.ofColumn (column + 2) false := by
      rw [stands, Levels.ofColumn, Levels.ofColumn]
      simp only [Bool.toNat_true, Bool.toNat_false]
      omega
    have closed := (behind.of_run run).close deeper
    rw [List.append_assoc, List.append_assoc] at closed
    exact closed

/-! ## Further parts -/

theorem LeadsBehind.entries {rest : List (Key × Tree)} (reads : ∀ entry ∈ rest, Reads entry.2)
    {spoken : List Lexeme} {previous : Tree}
    (stands : levels.current = Levels.ofColumn column false)
    (leads : scanner.LeadsBehind (Tree.moreEntries column rest ++ tail) levels spoken
      previous.isLeaf) :
    ∃ flat, scanner.LeadsBehind tail levels
      (spoken ++ Tree.entriesBehind column previous rest) flat := by
  induction rest generalizing spoken previous with
  | nil =>
    rw [Tree.entriesBehind, List.append_nil]
    exact ⟨_, leads⟩
  | cons entry rest ih =>
    rcases entry with ⟨key, tree⟩
    rw [Tree.moreEntries, List.append_assoc, List.append_assoc] at leads
    rcases Tree.begins_entryText column key tree (tree.block (column + 2))
      (Tree.moreEntries column rest ++ tail) with ⟨begins, item⟩
    have some : Tree.entryText column key tree (tree.block (column + 2)) ++
        (Tree.moreEntries column rest ++ tail) ≠ [] := by
      intro none
      have opened := Tree.holdsAssignment_entryText column key tree
        (Tree.moreEntries column rest ++ tail)
      rw [none] at opened
      cases opened
    rcases leads.line begins some (item ▸ stands) with ⟨next, run, shows, -⟩
    have behind := shows.entry (reads _ List.mem_cons_self) stands
    rcases ih (fun other inside => reads other (List.mem_cons_of_mem _ inside))
      (behind.of_run run) with ⟨flat, ends⟩
    refine ⟨flat, ?_⟩
    rw [Tree.entriesBehind]
    rw [List.append_assoc, List.append_assoc] at ends
    rw [List.append_assoc]
    exact ends

theorem LeadsBehind.items {rest : List Tree} (reads : ∀ tree ∈ rest, Reads tree)
    {spoken : List Lexeme} {previous : Tree}
    (stands : levels.current = Levels.ofColumn column true)
    (leads : scanner.LeadsBehind (Tree.moreItems column rest ++ tail) levels spoken
      previous.isLeaf) :
    ∃ flat, scanner.LeadsBehind tail levels
      (spoken ++ Tree.itemsBehind column previous rest) flat := by
  induction rest generalizing spoken previous with
  | nil =>
    rw [Tree.itemsBehind, List.append_nil]
    exact ⟨_, leads⟩
  | cons tree rest ih =>
    rw [Tree.moreItems, List.append_assoc, List.append_assoc] at leads
    rcases Tree.begins_itemText column tree (tree.block (column + 2))
      (Tree.moreItems column rest ++ tail) with ⟨begins, item⟩
    have some : Tree.itemText column tree (tree.block (column + 2)) ++
        (Tree.moreItems column rest ++ tail) ≠ [] := by
      intro none
      rw [none] at item
      cases item
    rcases leads.line begins some (item ▸ stands) with ⟨next, run, shows, fresh⟩
    have behind := shows.item_tree (reads _ List.mem_cons_self) fresh stands
    rcases ih (fun other inside => reads other (List.mem_cons_of_mem _ inside))
      (behind.of_run run) with ⟨flat, ends⟩
    refine ⟨flat, ?_⟩
    rw [Tree.itemsBehind]
    rw [List.append_assoc, List.append_assoc] at ends
    rw [List.append_assoc]
    exact ends

/-- Every collection is read as its tokens. -/
theorem reads (tree : Tree) : Reads tree := by
  induction tree using Tree.induct with
  | leaf scalar => exact fun none => nomatch none
  | sequence first rest readsFirst readsRest =>
    intro scanner tail column levels said _ shows stands fresh
    rw [Tree.block, List.append_assoc] at shows
    have behind := shows.item_tree readsFirst (fresh rfl) stands
    rcases behind.items readsRest stands with ⟨flat, ends⟩
    rw [List.append_assoc] at ends
    exact ⟨flat, ends⟩
  | mapping key first rest readsFirst readsRest =>
    intro scanner tail column levels said _ shows stands _
    rw [Tree.block, List.append_assoc] at shows
    have behind := shows.entry readsFirst stands
    rcases behind.entries readsRest stands with ⟨flat, ends⟩
    rw [List.append_assoc] at ends
    exact ⟨flat, ends⟩

end Scanner
end Manifest
