import Manifest.Proofs.Grammar.Completeness
import Manifest.Proofs.Rendering.Tokens

/-!
# The document of a rendering

The lexemes of a collection read as one section with an expression for each of
its parts.  A scalar ends its chain where the line ends, a nested collection
where its level is closed.
-/

namespace Manifest
namespace Grammar

mutual
/-- An expression stands for a tree.  The numbers of its scopes do not matter. -/
inductive Denotes : Tree → Expr → Prop
  | leaf {scalar : Leaf} {expression : Expr} :
      scalar.lexeme.literal? = some expression → Denotes (.leaf scalar) expression
  | sequence {first : Tree} {rest : List Tree} {scope : Nat} {expressions : List Expr} :
      DenotesItems (first :: rest) expressions →
      Denotes (.sequence first rest) (.block [⟨scope, expressions⟩])
  | mapping {key : Key} {first : Tree} {rest : List (Key × Tree)} {scope : Nat}
      {expressions : List Expr} :
      DenotesEntries ((key, first) :: rest) expressions →
      Denotes (.mapping key first rest) (.block [⟨scope, expressions⟩])

inductive DenotesItems : List Tree → List Expr → Prop
  | nil : DenotesItems [] []
  | cons {tree : Tree} {rest : List Tree} {operand : Expr} {expressions : List Expr} :
      Denotes tree operand → DenotesItems rest expressions →
      DenotesItems (tree :: rest) (.yield operand :: expressions)

inductive DenotesEntries : List (Key × Tree) → List Expr → Prop
  | nil : DenotesEntries [] []
  | cons {key : Key} {tree : Tree} {rest : List (Key × Tree)} {operand : Expr}
      {expressions : List Expr} :
      Denotes tree operand → DenotesEntries rest expressions →
      DenotesEntries ((key, tree) :: rest) (.assignment key.name operand :: expressions)
end

variable {stop : BlockEnd} {scope column : Nat} {taken more : List Expr} {leading : Bool}
  {start middle finish : Point} {scopes between after : Scopes} {before rest : List Lexeme}
  {closing : Lexeme} {tree : Tree}

/-! ## Chains -/

/-- The chain of a part is read up to what stands behind the part. -/
def ReadsChain (tree : Tree) : Prop :=
  ∀ (column scope : Nat) (before rest : List Lexeme) (scopes : Scopes),
    (tree.isLeaf = true → ∃ closing behind, rest = closing :: behind ∧ closing.endsChain = true) →
    ∃ operand last after, Denotes tree operand ∧
      Derives (.chain scope) ⟨before, Tree.nested tree (tree.lexemes column) ++ rest⟩ scopes
        operand ⟨last, rest⟩ after

theorem literal_leaf (leaf : Leaf) : ∃ expression, leaf.lexeme.literal? = some expression := by
  cases leaf <;> exact ⟨_, rfl⟩

theorem startsTerm_leaf (leaf : Leaf) : leaf.lexeme.startsTerm = true := by
  cases leaf <;> rfl

/-- A literal is a chain of its own. -/
theorem chain_literal {lexeme : Lexeme} {operand : Expr}
    (literal : lexeme.literal? = some operand) (closes : closing.endsChain = true) :
    Derives (.chain scope) ⟨before, lexeme :: closing :: rest⟩ scopes operand
      ⟨lexeme :: before, closing :: rest⟩ scopes := by
  have starts : lexeme.startsTerm = true := by
    cases lexeme <;> first | rfl | cases literal
  have inner : lexeme ≠ .outdent := by
    rintro rfl
    cases literal
  exact .chain (.begin starts (.literal literal) (.further inner (.finish closes rfl)))

theorem readsChain_leaf (leaf : Leaf) : ReadsChain (.leaf leaf) := by
  intro column scope before rest scopes ends
  rcases ends rfl with ⟨closing, behind, rfl, closes⟩
  rcases literal_leaf leaf with ⟨expression, literal⟩
  exact ⟨expression, leaf.lexeme :: before, scopes, .leaf literal, chain_literal literal closes⟩

/-! ## Sections -/

/-- Between two points some expressions are added to the section of a block. -/
def Adds (stop : BlockEnd) (scope : Nat) (taken : List Expr) (leading : Bool) (start : Point)
    (scopes : Scopes) (more : List Expr) (middle : Point) (between : Scopes) : Prop :=
  ∀ {result : Expr} {finish : Point} {after : Scopes},
    Derives (.sections stop [] ⟨scope, taken ++ more⟩ false) middle between result finish after →
    Derives (.sections stop [] ⟨scope, taken⟩ leading) start scopes result finish after

theorem Adds.none : Adds stop scope taken false start scopes [] start scopes := by
  intro result finish after derived
  rw [List.append_nil] at derived
  exact derived

theorem Adds.trans {further : List Expr}
    (first : Adds stop scope taken leading start scopes more middle between)
    (second : Adds stop scope (taken ++ more) false middle between further finish after) :
    Adds stop scope taken leading start scopes (more ++ further) finish after := by
  intro result last final derived
  rw [← List.append_assoc] at derived
  exact first (second derived)

theorem Adds.newline (indent : Nat) :
    Adds stop scope taken false ⟨before, .newline indent :: rest⟩ scopes []
      ⟨.newline indent :: before, rest⟩ scopes := by
  intro result finish after derived
  rw [List.append_nil] at derived
  exact .skip rfl derived

theorem Adds.statement {expression : Expr}
    (derived : Derives (.statement scope) start scopes expression middle between) :
    Adds stop scope taken leading start scopes [expression] middle between :=
  fun behind => .state derived behind

/-- Between two parts nothing is added. -/
theorem Adds.separator (column : Nat) (previous : Tree) (before rest : List Lexeme) :
    ∃ last, Adds stop scope taken false ⟨before, Tree.separator column previous ++ rest⟩ scopes []
      ⟨last, rest⟩ scopes := by
  rw [Tree.separator]
  split
  · exact ⟨_, Adds.newline column⟩
  · exact ⟨before, Adds.none⟩

theorem Adds.item (reads : ReadsChain tree) (column : Nat) (before : List Lexeme) (scopes : Scopes)
    (ends : tree.isLeaf = true → ∃ closing behind, rest = closing :: behind ∧
      closing.endsChain = true) :
    ∃ operand last between, Denotes tree operand ∧
      Adds stop scope taken leading
        ⟨before, Tree.itemLexemes tree (tree.lexemes column) ++ rest⟩ scopes
        [.yield operand] ⟨last, rest⟩ between := by
  rcases reads column scope (.symbol "yield" :: before) rest scopes ends with
    ⟨operand, last, between, denotes, derived⟩
  refine ⟨operand, last, between, denotes, Adds.statement ?_⟩
  have begins : ∃ lexeme behind, Tree.nested tree (tree.lexemes column) ++ rest =
      lexeme :: behind ∧ lexeme.startsTerm = true := by
    rw [Tree.nested]
    cases tree with
    | leaf scalar => exact ⟨_, _, rfl, startsTerm_leaf scalar⟩
    | sequence | mapping => exact ⟨_, _, rfl, rfl⟩
  rcases begins with ⟨lexeme, behind, same, startsTerm⟩
  rw [Tree.itemLexemes, List.cons_append, same]
  rw [same] at derived
  exact .yielded startsTerm derived

theorem Adds.entry (reads : ReadsChain tree) (key : Key) (column : Nat) (before : List Lexeme)
    (scopes : Scopes)
    (ends : tree.isLeaf = true → ∃ closing behind, rest = closing :: behind ∧
      closing.endsChain = true) :
    ∃ operand last between, Denotes tree operand ∧
      Adds stop scope taken leading
        ⟨before, Tree.entryLexemes key tree (tree.lexemes column) ++ rest⟩ scopes
        [.assignment key.name operand] ⟨last, rest⟩ between := by
  rcases reads column scope (.assignment tree.isLeaf :: .symbol key.name :: before) rest scopes
    ends with ⟨operand, last, between, denotes, derived⟩
  exact ⟨operand, last, _, denotes, Adds.statement (.assigned derived)⟩

/-- Behind a scalar its chain ends, since a further part or the end follows. -/
theorem itemsBehind_ends (column : Nat) {previous : Tree} (items : List Tree)
    (ends : closing.endsChain = true) (leaf : previous.isLeaf = true) :
    ∃ next behind, Tree.itemsBehind column previous items ++ closing :: rest = next :: behind ∧
      next.endsChain = true := by
  cases items with
  | nil => exact ⟨closing, rest, rfl, ends⟩
  | cons tree items =>
    rw [Tree.itemsBehind, Tree.separator, leaf]
    exact ⟨_, _, rfl, rfl⟩

theorem entriesBehind_ends (column : Nat) {previous : Tree} (entries : List (Key × Tree))
    (ends : closing.endsChain = true) (leaf : previous.isLeaf = true) :
    ∃ next behind, Tree.entriesBehind column previous entries ++ closing :: rest =
      next :: behind ∧ next.endsChain = true := by
  cases entries with
  | nil => exact ⟨closing, rest, rfl, ends⟩
  | cons entry entries =>
    rcases entry with ⟨key, tree⟩
    rw [Tree.entriesBehind, Tree.separator, leaf]
    exact ⟨_, _, rfl, rfl⟩

theorem Adds.items {items : List Tree} (reads : ∀ tree ∈ items, ReadsChain tree)
    (column : Nat) (previous : Tree) (before : List Lexeme) (scopes : Scopes)
    (ends : closing.endsChain = true) :
    ∃ expressions last between, DenotesItems items expressions ∧
      Adds stop scope taken false
        ⟨before, Tree.itemsBehind column previous items ++ closing :: rest⟩ scopes
        expressions ⟨last, closing :: rest⟩ between := by
  induction items generalizing previous before scopes taken with
  | nil => exact ⟨[], before, scopes, .nil, Adds.none⟩
  | cons tree items ih =>
    rw [Tree.itemsBehind, List.append_assoc, List.append_assoc]
    rcases @Adds.separator stop scope taken scopes column previous before
      (Tree.itemLexemes tree (tree.lexemes (column + 2)) ++
        (Tree.itemsBehind column tree items ++ closing :: rest)) with ⟨begun, separated⟩
    rcases @Adds.item stop scope (taken ++ []) false _ tree (reads tree List.mem_cons_self)
      (column + 2) begun scopes (itemsBehind_ends column items ends) with
      ⟨operand, last, between, denotes, added⟩
    rcases @ih (taken ++ [] ++ [.yield operand])
      (fun other inside => reads other (List.mem_cons_of_mem _ inside)) tree last between with
      ⟨expressions, final, after, others, behind⟩
    refine ⟨.yield operand :: expressions, final, after, .cons denotes others, ?_⟩
    exact separated.trans (added.trans behind)

theorem Adds.entries {entries : List (Key × Tree)} (reads : ∀ entry ∈ entries, ReadsChain entry.2)
    (column : Nat) (previous : Tree) (before : List Lexeme) (scopes : Scopes)
    (ends : closing.endsChain = true) :
    ∃ expressions last between, DenotesEntries entries expressions ∧
      Adds stop scope taken false
        ⟨before, Tree.entriesBehind column previous entries ++ closing :: rest⟩ scopes
        expressions ⟨last, closing :: rest⟩ between := by
  induction entries generalizing previous before scopes taken with
  | nil => exact ⟨[], before, scopes, .nil, Adds.none⟩
  | cons entry entries ih =>
    rcases entry with ⟨key, tree⟩
    rw [Tree.entriesBehind, List.append_assoc, List.append_assoc]
    rcases @Adds.separator stop scope taken scopes column previous before
      (Tree.entryLexemes key tree (tree.lexemes (column + 2)) ++
        (Tree.entriesBehind column tree entries ++ closing :: rest)) with ⟨begun, separated⟩
    rcases @Adds.entry stop scope (taken ++ []) false _ tree (reads _ List.mem_cons_self) key
      (column + 2) begun scopes (entriesBehind_ends column entries ends) with
      ⟨operand, last, between, denotes, added⟩
    rcases @ih (taken ++ [] ++ [.assignment key.name operand])
      (fun other inside => reads other (List.mem_cons_of_mem _ inside)) tree last between with
      ⟨expressions, final, after, others, behind⟩
    refine ⟨.assignment key.name operand :: expressions, final, after, .cons denotes others, ?_⟩
    exact separated.trans (added.trans behind)

/-! ## Collections -/

/-- The lexemes of a collection are read as the expressions of one section. -/
def ReadsParts (tree : Tree) : Prop :=
  ∀ (stop : BlockEnd) (scope column : Nat) (leading : Bool) (before : List Lexeme)
    (closing : Lexeme) (rest : List Lexeme) (scopes : Scopes),
    tree.isLeaf = false → closing.endsChain = true →
    ∃ expressions last between, expressions ≠ [] ∧ Denotes tree (.block [⟨scope, expressions⟩]) ∧
      Adds stop scope [] leading ⟨before, tree.lexemes column ++ closing :: rest⟩ scopes
        expressions ⟨last, closing :: rest⟩ between

/-- A nested collection is closed by an outdent, which ends its chain too. -/
theorem ReadsParts.chain (reads : ReadsParts tree) : ReadsChain tree := by
  cases leaf : tree.isLeaf with
  | true =>
    rcases Tree.isLeaf_iff.mp leaf with ⟨scalar, rfl⟩
    exact readsChain_leaf scalar
  | false =>
    intro column scope before rest scopes _
    rcases reads .outdent scopes.size column true (.indent :: before) .outdent rest
      (scopes.push (some scope)).2 leaf rfl with ⟨expressions, last, after, some, denotes, added⟩
    have parts : closed [] ⟨scopes.size, expressions⟩ = Option.some [⟨scopes.size, expressions⟩] :=
      if_pos (by simpa using some)
    refine ⟨_, .outdent :: last, after, denotes, ?_⟩
    rw [Tree.nested, leaf, if_neg Bool.false_ne_true, List.append_assoc]
    exact .chain (.begin rfl (.inner (.block (added (.closeBlock parts)))) (.behindBlock rfl rfl))

theorem readsParts (tree : Tree) : ReadsParts tree := by
  induction tree using Tree.induct with
  | leaf scalar => exact fun _ _ _ _ _ _ _ _ none => nomatch none
  | sequence first rest readsFirst readsRest =>
    intro stop scope column leading before closing behind scopes _ ends
    rw [Tree.lexemes, List.append_assoc]
    rcases @Adds.item stop scope [] leading _ first readsFirst.chain (column + 2) before scopes
      (itemsBehind_ends column rest ends) with ⟨operand, last, between, denotes, added⟩
    rcases @Adds.items stop scope [.yield operand] behind closing rest
      (fun tree inside => (readsRest tree inside).chain) column first last between ends with
      ⟨expressions, final, after, others, further⟩
    exact ⟨_, final, after, List.cons_ne_nil _ _, .sequence (.cons denotes others),
      added.trans further⟩
  | mapping key first rest readsFirst readsRest =>
    intro stop scope column leading before closing behind scopes _ ends
    rw [Tree.lexemes, List.append_assoc]
    rcases @Adds.entry stop scope [] leading _ first readsFirst.chain key (column + 2) before scopes
      (entriesBehind_ends column rest ends) with ⟨operand, last, between, denotes, added⟩
    rcases @Adds.entries stop scope [.assignment key.name operand] behind closing rest
      (fun entry inside => (readsRest entry inside).chain) column first last between ends with
      ⟨expressions, final, after, others, further⟩
    exact ⟨_, final, after, List.cons_ne_nil _ _, .mapping (.cons denotes others),
      added.trans further⟩

/-! ## Documents -/

/-- What a document with a tree at its root consists of: the parts of a mapping,
or the block of a sequence. -/
inductive DenotesRoot : Tree → Expr → Prop
  | mapping {tree : Tree} {block : Expr} : Denotes tree block → DenotesRoot tree block
  | sequence {tree : Tree} {scope : Nat} {block : Expr} :
      Denotes tree block → DenotesRoot tree (.block [⟨scope, [block]⟩])

theorem reads_document (nested : tree.isLeaf = false) :
    ∃ block scopes, DenotesRoot tree block ∧
      Reads tree.documentLexemes ⟨.scope 0 block, scopes⟩ := by
  rw [Tree.documentLexemes]
  cases tree.isSequence with
  | false =>
    rcases readsParts tree .endOfInput 1 0 true [] .endOfInput []
      ((Scopes.empty.push none).2.push (some 0)).2 nested rfl with
      ⟨expressions, last, after, some, denotes, added⟩
    have parts : closed [] ⟨1, expressions⟩ = Option.some [⟨1, expressions⟩] :=
      if_pos (by simpa using some)
    exact ⟨_, after, .mapping denotes, _, _, .block (added (.closeDocument parts)), rfl⟩
  | true =>
    rcases readsParts tree .outdent 2 0 true [.indent] .outdent [.endOfInput]
      (((Scopes.empty.push none).2.push (some 0)).2.push (some 1)).2 nested rfl with
      ⟨expressions, last, after, filled, denotes, added⟩
    have parts : closed [] ⟨2, expressions⟩ = some [⟨2, expressions⟩] :=
      if_pos (by simpa using filled)
    have inner := added (.closeBlock parts)
    have statement : Derives (.statement 1)
        (.ofLexemes (.indent :: (tree.lexemes 0 ++ [.outdent, .endOfInput])))
        ((Scopes.empty.push none).2.push (some 0)).2 (.block [⟨2, expressions⟩])
        ⟨.outdent :: last, [.endOfInput]⟩ after := .nested (.block inner)
    have document : Derives (.sections .endOfInput [] ⟨1, []⟩ true)
        (.ofLexemes (.indent :: (tree.lexemes 0 ++ [.outdent, .endOfInput])))
        ((Scopes.empty.push none).2.push (some 0)).2
        (.block [⟨1, [.block [⟨2, expressions⟩]]⟩]) ⟨.outdent :: last, [.endOfInput]⟩ after :=
      .state statement (.closeDocument rfl)
    rw [if_pos rfl, List.append_assoc]
    exact ⟨_, after, .sequence denotes, _, _, .block document, rfl⟩

end Grammar
end Manifest
