import Manifest.Compile
import Manifest.Proofs.Grammar.Nesting
import Manifest.Proofs.Scan.Spans

/-!
# Nothing is accepted in silence

A document is read from all the tokens in front of the first end of input, and
none of them is an unrecognized run.  The scanner leaves such a run for every
diagnostic, so a source that compiles has none.
-/

namespace Manifest

open Grammar

/-- The lexemes in front of the first end of input. -/
def frontOf (tokens : List Token) : List Lexeme :=
  (tokens.map Token.lexeme).takeWhile (· ≠ .endOfInput)

theorem frontOf_eq {tokens : List Token} {front behind : List Lexeme}
    (split : tokens.map Token.lexeme = front ++ .endOfInput :: behind)
    (none : .endOfInput ∉ front) : frontOf tokens = front := by
  rw [frontOf, split, List.takeWhile_append_of_pos, List.takeWhile_cons_of_neg (by simp),
    List.append_nil]
  intro lexeme inside
  refine decide_eq_true ?_
  rintro rfl
  exact none inside

/-- A document is read from everything in front of the first end of input. -/
theorem readable_of_parsed {tokens : List Token} {document : Document}
    (parsed : Document.ofTokens tokens = .ok document) : Readable (frontOf tokens) := by
  rcases ofTokens_eq_ok_iff.mp parsed with ⟨_, block, finish, derived, _⟩
  rcases derived.readsNested with ⟨front, split, readable⟩
  have readable : Readable front := readable
  rcases derived.closesDocument trivial with ⟨behind, closes⟩
  have split : tokens.map Token.lexeme = front ++ .endOfInput :: behind := closes ▸ split
  have none : .endOfInput ∉ front := fun inside => nomatch readable.known _ inside
  rw [frontOf_eq split none]
  exact readable

/-- The stages that a compiled source has passed. -/
theorem stages_of_compiled {source : String} {compiled : Compiled}
    (compiles : compile source = .ok compiled) :
    ∃ read, tokenize source = .ok read ∧
      Document.ofTokens read.tokens = .ok compiled.program.document ∧
      compiled.diagnostics = read.diagnostics := by
  rw [compile] at compiles
  split at compiles
  · cases compiles
  · rename_i read tokenized
    split at compiles
    · cases compiles
    · rename_i document parsed
      cases compiles
      exact ⟨read, tokenized, parsed, rfl⟩

/-- Without unrecognized tokens there are no diagnostics. -/
theorem diagnostics_eq_nil {source : String} {read : TokenizedSource}
    (tokenized : tokenize source = .ok read)
    (known : ∀ text, .unknown text ∉ read.tokens.map Token.lexeme) : read.diagnostics = [] := by
  have none : read.tokens.filterMap Token.unrecognized? = [] := by
    refine List.filterMap_eq_nil_iff.mpr fun token inside => ?_
    rcases token with ⟨lexeme, span⟩
    have found : lexeme ∈ read.tokens.map Token.lexeme := List.mem_map.mpr ⟨_, inside, rfl⟩
    cases lexeme <;> first | rfl | exact absurd found (known _)
  exact List.map_eq_nil_iff.mp ((tokenize_diagnosed tokenized).trans none)

/-- The tokens of a document are recognized and nested up to the end of input,
and a source that compiles leaves no diagnostic. -/
theorem nothing_accepted_in_silence :
    (∀ (tokens : List Token) (document : Document), Document.ofTokens tokens = .ok document →
      (∀ text, .unknown text ∉ frontOf tokens) ∧ Nested (frontOf tokens)) ∧
    ∀ (source : String) (compiled : Compiled), compile source = .ok compiled →
      compiled.diagnostics = [] := by
  constructor
  · intro tokens document parsed
    have readable := readable_of_parsed parsed
    refine ⟨fun text inside => ?_, readable.nested⟩
    cases readable.known _ inside
  · intro source compiled compiles
    rcases stages_of_compiled compiles with ⟨read, tokenized, parsed, same⟩
    rcases tokenize_ends tokenized with ⟨front, split, none⟩
    have readable := readable_of_parsed parsed
    rw [frontOf_eq split none] at readable
    rw [same]
    refine diagnostics_eq_nil tokenized fun text inside => ?_
    rw [split] at inside
    rcases List.mem_append.mp inside with inside | inside
    · cases readable.known _ inside
    · cases List.mem_singleton.mp inside

/-- A group in a nested block of a source that compiles. -/
theorem nothing_accepted_in_silence_group_in_block :
    ∃ read document compiled, tokenize "a:\n  b := f (g -> ^ g)\n" = .ok read ∧
      Document.ofTokens read.tokens = .ok document ∧
      compile "a:\n  b := f (g -> ^ g)\n" = .ok compiled ∧
      .openParen ∈ frontOf read.tokens ∧ .indent ∈ frontOf read.tokens ∧
      Nested (frontOf read.tokens) ∧ compiled.diagnostics = [] := by
  have checked : ((tokenize "a:\n  b := f (g -> ^ g)\n").toOption.any fun read =>
      decide (.openParen ∈ frontOf read.tokens ∧ .indent ∈ frontOf read.tokens)) = true := by
    decide +kernel
  have compiles : ((compile "a:\n  b := f (g -> ^ g)\n").toOption.any fun _ => true) = true := by
    decide +kernel
  rcases any_toOption checked with ⟨read, tokenized, checked⟩
  rcases any_toOption compiles with ⟨compiled, compiles, _⟩
  rcases stages_of_compiled compiles with ⟨again, same, parsed, _⟩
  cases tokenized.symm.trans same
  rcases of_decide_eq_true checked with ⟨group, level⟩
  exact ⟨read, _, compiled, tokenized, parsed, compiles, group, level,
    (nothing_accepted_in_silence.1 _ _ parsed).2, nothing_accepted_in_silence.2 _ _ compiles⟩

end Manifest
