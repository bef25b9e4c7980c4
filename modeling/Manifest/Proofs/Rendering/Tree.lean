import Manifest.Proofs.Scan.Numerals
import Manifest.Token.Scan
import Manifest.Value

/-!
# Trees and their rendering

A tree is plain data: scalars and empty collections at its ends, non-empty
sequences and mappings inside.  It is rendered in block layout, one entry or
item after the other, each on a line that starts in the column of its
collection.
-/

namespace Manifest

/-- A name that is read whole as one symbol, and that a mapping shows. -/
structure Key where
  name : String
  starts : name.toList.head?.any isSymbolStart = true
  whole : symbolText name.toList = name.toList
  noBoolean : Scalar.readBoolean name.toList = none
  shown : name.toList.head? ≠ some '_'

/-- What stands at the end of a tree. -/
inductive Leaf where
  | text (content : List Char) (oneLine : '\n' ∉ content)
  | number (numeral : Numeral)
  | boolean (truth : Bool)
  | emptyMapping
  | emptySequence

namespace Leaf

/-- Quotes inside of quotes are doubled. -/
def quoted (content : List Char) : List Char :=
  content.flatMap fun character => if character = '\'' then ['\'', '\''] else [character]

def spelling : Leaf → List Char
  | text content _ => '\'' :: quoted content ++ ['\'']
  | number numeral => numeral.spelling
  | boolean true => "true".toList
  | boolean false => "false".toList
  | emptyMapping => "{}".toList
  | emptySequence => "[]".toList

def value : Leaf → Value
  | text content _ => .text (String.ofList content)
  | number numeral => .number numeral.value
  | boolean truth => .boolean truth
  | emptyMapping => .mapping []
  | emptySequence => .sequence []

/-- The token of a leaf. -/
def lexeme : Leaf → Lexeme
  | text content _ => .text (String.ofList content)
  | number numeral => .number numeral.value
  | boolean truth => .boolean truth
  | emptyMapping => .emptyMapping
  | emptySequence => .emptySequence

end Leaf

inductive Tree where
  | leaf (scalar : Leaf)
  | sequence (first : Tree) (rest : List Tree)
  | mapping (key : Key) (first : Tree) (rest : List (Key × Tree))

namespace Tree

def isLeaf : Tree → Bool
  | leaf _ => true
  | _ => false

def isSequence : Tree → Bool
  | sequence _ _ => true
  | _ => false

/-- No mapping of the tree has a key twice. -/
inductive DistinctKeys : Tree → Prop
  | leaf (scalar : Leaf) : DistinctKeys (.leaf scalar)
  | sequence {first : Tree} {rest : List Tree} :
      DistinctKeys first → (∀ tree ∈ rest, DistinctKeys tree) →
      DistinctKeys (.sequence first rest)
  | mapping {key : Key} {first : Tree} {rest : List (Key × Tree)} :
      (key.name :: rest.map fun entry => entry.1.name).Nodup →
      DistinctKeys first → (∀ entry ∈ rest, DistinctKeys entry.2) →
      DistinctKeys (.mapping key first rest)

/-- What holds of every leaf, and of every collection of whose parts it holds,
holds of every tree. -/
@[elab_as_elim]
theorem induct {motive : Tree → Prop} (leaf : ∀ scalar, motive (.leaf scalar))
    (sequence : ∀ first rest, motive first → (∀ tree ∈ rest, motive tree) →
      motive (.sequence first rest))
    (mapping : ∀ key first rest, motive first → (∀ entry ∈ rest, motive entry.2) →
      motive (.mapping key first rest)) : ∀ tree, motive tree
  | .leaf scalar => leaf scalar
  | .sequence first rest =>
      sequence first rest (induct leaf sequence mapping first)
        fun tree _ => induct leaf sequence mapping tree
  | .mapping key first rest =>
      mapping key first rest (induct leaf sequence mapping first)
        fun entry _ => induct leaf sequence mapping entry.2
termination_by tree => sizeOf tree
decreasing_by
  all_goals simp_wf
  · omega
  · rename_i inside
    have smaller := List.sizeOf_lt_of_mem inside
    omega
  · omega
  · rename_i inside
    have smaller := List.sizeOf_lt_of_mem inside
    have held : sizeOf entry = 1 + sizeOf entry.1 + sizeOf entry.2 :=
      Prod.mk.sizeOf_spec entry.1 entry.2
    omega

/-! ## The value of a tree -/

mutual
def value : Tree → Value
  | leaf scalar => scalar.value
  | sequence first rest => .sequence (first.value :: values rest)
  | mapping key first rest => .mapping (enter (Fields.insert [] key.name first.value) rest)

def values : List Tree → List Value
  | [] => []
  | tree :: rest => tree.value :: values rest

/-- Fields with further entries. -/
def enter (fields : Fields Value) : List (Key × Tree) → Fields Value
  | [] => fields
  | (key, tree) :: rest => enter (Fields.insert fields key.name tree.value) rest
end

/-! ## Block layout -/

def indentation (column : Nat) : List Char :=
  List.replicate column ' '

/-- An item with the text of its tree, rendered two columns deeper.  A mapping
begins on the line of the hyphen, a sequence on a line of its own. -/
def itemText (column : Nat) (tree : Tree) (text : List Char) : List Char :=
  if tree.isSequence then '-' :: '\n' :: indentation (column + 2) ++ text
  else '-' :: ' ' :: text

/-- An entry with the text of its tree, rendered two columns deeper. -/
def entryText (column : Nat) (key : Key) (tree : Tree) (text : List Char) : List Char :=
  if tree.isLeaf then key.name.toList ++ ':' :: ' ' :: text
  else key.name.toList ++ ':' :: '\n' :: indentation (column + 2) ++ text

mutual
/-- The lines of a tree from the first one's content on. -/
def block (column : Nat) : Tree → List Char
  | leaf scalar => scalar.spelling ++ ['\n']
  | sequence first rest =>
      itemText column first (block (column + 2) first) ++ moreItems column rest
  | mapping key first rest =>
      entryText column key first (block (column + 2) first) ++ moreEntries column rest

def moreItems (column : Nat) : List Tree → List Char
  | [] => []
  | tree :: rest =>
      indentation column ++ itemText column tree (block (column + 2) tree) ++
        moreItems column rest

def moreEntries (column : Nat) : List (Key × Tree) → List Char
  | [] => []
  | (key, tree) :: rest =>
      indentation column ++ entryText column key tree (block (column + 2) tree) ++
        moreEntries column rest
end

/-- The source of a tree. -/
def rendering (tree : Tree) : String :=
  String.ofList (tree.block 0)

/-! ## The tokens of a rendering -/

/-- Behind a scalar the next line is announced.  Behind a nested collection
its level has just been closed. -/
def separator (column : Nat) (previous : Tree) : List Lexeme :=
  if previous.isLeaf then [.newline column] else []

/-- A nested collection stands at a level of its own. -/
def nested (tree : Tree) (lexemes : List Lexeme) : List Lexeme :=
  if tree.isLeaf then lexemes else .indent :: lexemes ++ [.outdent]

def itemLexemes (tree : Tree) (lexemes : List Lexeme) : List Lexeme :=
  .symbol "yield" :: nested tree lexemes

def entryLexemes (key : Key) (tree : Tree) (lexemes : List Lexeme) : List Lexeme :=
  .symbol key.name :: .assignment tree.isLeaf :: nested tree lexemes

mutual
def lexemes (column : Nat) : Tree → List Lexeme
  | leaf scalar => [scalar.lexeme]
  | sequence first rest =>
      itemLexemes first (lexemes (column + 2) first) ++ itemsBehind column first rest
  | mapping key first rest =>
      entryLexemes key first (lexemes (column + 2) first) ++ entriesBehind column first rest

def itemsBehind (column : Nat) (previous : Tree) : List Tree → List Lexeme
  | [] => []
  | tree :: rest =>
      separator column previous ++ itemLexemes tree (lexemes (column + 2) tree) ++
        itemsBehind column tree rest

def entriesBehind (column : Nat) (previous : Tree) : List (Key × Tree) → List Lexeme
  | [] => []
  | (key, tree) :: rest =>
      separator column previous ++ entryLexemes key tree (lexemes (column + 2) tree) ++
        entriesBehind column tree rest
end

end Tree
end Manifest
