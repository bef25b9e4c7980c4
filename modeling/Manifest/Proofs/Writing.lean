import Manifest.Proofs.Grammar.Rereading

/-!
# Parsing undoes writing

Whatever can be written is parsed back.  The numbers of scopes and the
definitions of names are not written; they come about in the parse.
-/

namespace Manifest

open Grammar

/-- A block of expressions that can be written has lexemes that write it, and
from all of them it is parsed back, up to what is not written. -/
theorem parsing_undoes_writing {sections : List (Section Expr)}
    (filled : ∀ part ∈ sections, part.expressions ≠ [])
    (writable : ∀ part ∈ sections, ∀ expression ∈ part.expressions,
      Writable .statement expression) :
    (∃ lexemes, Writes .block (.block sections) lexemes) ∧
      ∀ (lexemes : List Lexeme) (tokens : List Token), Writes .block (.block sections) lexemes →
        tokens.map Token.lexeme = lexemes ++ [.endOfInput] →
        ∃ document parts, Document.ofTokens tokens = .ok document ∧
          document.root = .scope 0 (.block parts) ∧
          (Expr.block parts).outline = (Expr.block sections).outline := by
  constructor
  · have written : ∀ part ∈ sections, ∀ expression ∈ part.expressions,
        ∃ lexemes, Writes .statement expression lexemes :=
      fun part found expression inside => (writable part found expression inside).exists_writes
    rcases exists_passages filled written with ⟨passages, rfl, writes⟩
    exact ⟨_, .block passages writes⟩
  · intro lexemes tokens writes same
    rcases writes.reads_document with ⟨parts, scopes, outlines, reads⟩
    have ends : (Stream.ofTokens tokens).endsWithEnd = true := by
      have last : (tokens.map Token.lexeme).getLast? = some .endOfInput := by
        rw [same, List.getLast?_concat]
      rcases List.getLast?_map ▸ last with last
      rcases Option.map_eq_some_iff.mp last with ⟨token, found, known⟩
      rw [Stream.endsWithEnd, Stream.ofTokens, List.back?_toArray, found, Option.any_some, known]
      rfl
    refine ⟨⟨.scope 0 (.block parts), scopes⟩, parts, ofTokens_eq_ok_iff.mpr ⟨ends, ?_⟩, rfl,
      outlines⟩
    rw [same]
    exact reads

/-- A function of two parameters in front of a section that applies it. -/
theorem parsing_undoes_writing_two_sections :
    ∃ document parts,
      Document.ofTokens ((
        [.symbol "f", .assignment false, .openParen, .symbol "x", .symbol "y", .arrow, .openParen,
          .symbol "x", .hardMerge, .symbol "y", .closeParen, .closeParen, .sectionStart,
          .symbol "yield", .openParen, .symbol "f", .boolean true, .symbol "a", .accessor,
          .symbol "b", .closeParen, .newline 0, .openParen, .closeParen, .endOfInput].map
          fun lexeme => ⟨lexeme, 0, 0⟩) : List Token) = .ok document ∧
      document.root = .scope 0 (.block parts) ∧
      (Expr.block parts).outline = .block
        [⟨0, [.assignment "f" (.function ⟨"x", .function ⟨"y",
            .scope 0 (.merge (.reference "x") (.reference "y") .hard)⟩⟩)]⟩,
          ⟨0, [.yield (.application "f" [.scalar (.boolean true), .access (.reference "a") "b"]
            none), .unit]⟩] := by
  let sum : Phrase := ⟨.merge (.reference "x") (.reference "y") .hard,
    [.openParen, .symbol "x", .hardMerge, .symbol "y", .closeParen]⟩
  let function : Phrase := ⟨curried ["x", "y"] (.scope 0 sum.expression),
    .openParen :: .symbol "x" :: .symbol "y" :: .arrow :: sum.lexemes ++ [.closeParen]⟩
  let operands : List Phrase := [⟨.scalar (.boolean true), [.boolean true]⟩,
    ⟨.access (.reference "a") "b", [.symbol "a", .accessor, .symbol "b"]⟩]
  let definition : Phrase :=
    ⟨.assignment "f" function.expression, .symbol "f" :: .assignment false :: function.lexemes⟩
  let application : Phrase := ⟨.application "f" (operands.map Phrase.expression) none,
    .openParen :: .symbol "f" :: operands.flatMap Phrase.lexemes ++ [.closeParen]⟩
  let result : Phrase := ⟨.yield application.expression, .symbol "yield" :: application.lexemes⟩
  let passages : List Passage :=
    [⟨0, definition, []⟩, ⟨0, result, [(0, ⟨.unit, [.openParen, .closeParen]⟩)]⟩]
  have sumWrites : Writes .operand sum.expression sum.lexemes :=
    .grouped (.merge .hard (.path "x" none []) (.path "y" none []))
  have operandsWrite : ∀ operand ∈ operands, Writes .operand operand.expression operand.lexemes :=
    List.forall_mem_cons.mpr ⟨.literal rfl, List.forall_mem_singleton.mpr (.path "a" none ["b"])⟩
  have definitionWrites : Writes .statement definition.expression definition.lexemes :=
    .assigned "f" false (.grouped (.function 0 "x" ["y"] sumWrites))
  have resultWrites : Writes .statement result.expression result.lexemes :=
    .yielded (.grouped (.application "f" operands none operandsWrite))
  have writes : ∀ passage ∈ passages, ∀ phrase ∈ passage.phrases,
      Writes .statement phrase.expression phrase.lexemes :=
    List.forall_mem_cons.mpr ⟨List.forall_mem_singleton.mpr definitionWrites,
      List.forall_mem_singleton.mpr <| List.forall_mem_cons.mpr
        ⟨resultWrites, List.forall_mem_singleton.mpr (.plain (.grouped .unit))⟩⟩
  have operandsWritable : ∀ operand ∈ operands.map Phrase.expression, Writable .operand operand :=
    List.forall_mem_cons.mpr ⟨.literal (Eq.refl (Lexeme.boolean true).literal?),
      List.forall_mem_singleton.mpr (.path "a" none ["b"])⟩
  have definitionWritable : Writable .statement definition.expression :=
    .assigned "f" (.function 0 "x" ["y"] (.merge .hard (.path "x" none []) (.path "y" none [])))
  have resultWritable : Writable .statement result.expression :=
    .yielded (.application "f" none operandsWritable)
  have writable : ∀ part ∈ passages.map Passage.part, ∀ expression ∈ part.expressions,
      Writable .statement expression :=
    List.forall_mem_cons.mpr ⟨List.forall_mem_singleton.mpr definitionWritable,
      List.forall_mem_singleton.mpr <| List.forall_mem_cons.mpr
        ⟨resultWritable, List.forall_mem_singleton.mpr (.plain .unit)⟩⟩
  have filled : ∀ part ∈ passages.map Passage.part, part.expressions ≠ [] :=
    List.forall_mem_cons.mpr ⟨nofun, List.forall_mem_singleton.mpr nofun⟩
  let tokens : List Token :=
    (Passage.lexemesOf passages ++ [Lexeme.endOfInput]).map fun lexeme => ⟨lexeme, 0, 0⟩
  have same : tokens.map Token.lexeme = Passage.lexemesOf passages ++ [.endOfInput] := by
    rw [List.map_map]
    exact List.map_id _
  rcases (parsing_undoes_writing filled writable).2 _ tokens (.block passages writes) same with
    ⟨document, parts, reads, root, outlines⟩
  exact ⟨document, parts, reads, root, outlines⟩

end Manifest
