import Manifest.Compile
import Manifest.Proofs.Rendering.Evaluation

/-!
# Rendering in block layout

A tree of plain data that is rendered in block layout compiles to a program
whose value is the tree, whatever the depth and width of the tree and whatever
the bindings of the caller.
-/

namespace Manifest

/-- The document of a rendering. -/
theorem ofTokens_rendering {tree : Tree} (nested : tree.isLeaf = false) :
    ∃ read block scopes, tokenize tree.rendering = .ok read ∧ read.diagnostics = [] ∧
      Grammar.DenotesRoot tree block ∧
      Document.ofTokens read.tokens = .ok ⟨.scope 0 block, scopes⟩ := by
  rcases tokenize_rendering nested with ⟨read, tokenized, silent, lexemes⟩
  rcases Grammar.reads_document nested with ⟨block, scopes, denotes, reads⟩
  refine ⟨read, block, scopes, tokenized, silent, denotes, ?_⟩
  refine Grammar.ofTokens_eq_ok_iff.mpr ⟨?_, lexemes ▸ reads⟩
  have ends : (read.tokens.map Token.lexeme).getLast? = some .endOfInput := by
    rw [lexemes, Tree.documentLexemes]
    exact List.getLast?_concat
  rw [Stream.endsWithEnd, Stream.ofTokens, List.back?_toArray]
  rw [List.getLast?_map] at ends
  rcases Option.map_eq_some_iff.mp ends with ⟨last, found, same⟩
  rw [found, Option.any_some, same]
  rfl

/-- A rendered tree compiles without diagnostics, and its program has the value
of the tree. -/
theorem rendering_keeps_value {tree : Tree} (nested : tree.isLeaf = false)
    (distinct : tree.DistinctKeys) :
    ∃ program, compile tree.rendering = .ok ⟨program, []⟩ ∧
      ∀ bindings, program.evaluate bindings = .ok tree.value ∧
        compileSource tree.rendering bindings = .ok ⟨tree.value, []⟩ := by
  rcases ofTokens_rendering nested with
    ⟨read, block, scopes, tokenized, silent, denotes, parsed⟩
  have compiled : compile tree.rendering = .ok ⟨⟨⟨.scope 0 block, scopes⟩⟩, []⟩ := by
    rw [compile, tokenized]
    dsimp only
    rw [parsed, silent]
  refine ⟨⟨⟨.scope 0 block, scopes⟩⟩, compiled, fun bindings => ?_⟩
  have fits : block.size ≤ block.size + 4000 := by omega
  rcases Evaluator.yields_root distinct denotes fits 0 (.ofBindings bindings) with
    ⟨after, evaluated, _⟩
  have value : Program.evaluate ⟨⟨.scope 0 block, scopes⟩⟩ bindings = .ok tree.value := by
    have depth : Program.depthFor (.scope 0 block) = block.size + 4000 + 1 := by
      rw [Program.depthFor, Expr.size]
    rw [Program.evaluate]
    dsimp only
    rw [depth, evaluate, Evaluator.step, evaluated]
  refine ⟨value, ?_⟩
  rw [compileSource, compiled]
  dsimp only
  rw [value]

/-- A list of a mapping and a list, in a mapping. -/
def Tree.stock : Tree :=
  .mapping ⟨"stock", by decide, by decide, by decide, by decide⟩
    (.sequence
      (.mapping ⟨"name", by decide, by decide, by decide, by decide⟩
        (.leaf (.text "it's".toList (by decide)))
        [(⟨"price", by decide, by decide, by decide, by decide⟩,
          .leaf (.number ⟨true, ['1'], ['5'], by decide, by decide, by decide⟩))])
      [.sequence (.leaf (.boolean true)) [.leaf .emptySequence]])
    []

/-- The price is the number whose bits are those of -1.5, a sign and a rank. -/
theorem rendering_keeps_value_stock :
    Tree.stock.rendering =
      "stock:\n  - name: 'it''s'\n    price: -1.5\n  -\n    - true\n    - []\n" ∧
    Tree.stock.value = .mapping [("stock", .sequence [
      .mapping [("name", .text "it's"), ("price", .number ⟨true, 0x3FF8000000000000, by decide⟩)],
      .sequence [.boolean true, .sequence []]])] ∧
    Tree.stock.isLeaf = false ∧ Tree.stock.DistinctKeys ∧
    ∃ program, compile Tree.stock.rendering = .ok ⟨program, []⟩ ∧
      ∀ bindings, program.evaluate bindings = .ok Tree.stock.value ∧
        compileSource Tree.stock.rendering bindings = .ok ⟨Tree.stock.value, []⟩ := by
  have distinct : Tree.stock.DistinctKeys := by
    refine .mapping (by decide) (.sequence (.mapping (by decide) (.leaf _) ?_) ?_) ?_
    · intro entry inside
      cases List.mem_singleton.mp inside
      exact .leaf _
    · intro tree inside
      cases List.mem_singleton.mp inside
      refine .sequence (.leaf _) fun tree inside => ?_
      cases List.mem_singleton.mp inside
      exact .leaf _
    · exact fun entry inside => absurd inside List.not_mem_nil
  exact ⟨rfl, by decide +kernel, rfl, distinct, rendering_keeps_value rfl distinct⟩

end Manifest
