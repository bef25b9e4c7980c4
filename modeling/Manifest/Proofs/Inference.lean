import Manifest.Compile
import Manifest.Pattern.Reader
import Manifest.Proofs.Grammar.Closure
import Manifest.Proofs.Inference.Soundness

/-!
# Schemas foretell values

A document is inferred from its first expression to its last, each with the
names in front of it, but is evaluated with all names of a section at hand.
Where it is settled the two agree: its value conforms to its schema.  Otherwise
they need not, as the use of a name in front of its assignment shows.
-/

namespace Manifest

/-- Scalars conform to their schemas in every document. -/
theorem Expr.every_literal [Pattern.Engine] {tokens : List Token} {document : Document}
    (parsed : Document.ofTokens tokens = .ok document) : Every Literal document.root := by
  refine Document.closed (Grammar.closed_every ?_ ?_ ?_) parsed
  · intro lexeme result reads
    cases lexeme <;> cases reads <;> trivial
  · exact fun _ => trivial
  · intro expression noScalar _
    cases expression with
    | scalar value => exact absurd rfl (noScalar value)
    | _ => trivial

/-- The bindings of a caller conform to their own schemas. -/
theorem sees_ofBindings [Pattern.Engine] {bindings : Value.Bindings}
    (canonical : FieldsCanonical bindings) :
    Sees depth [.ofBindings bindings] (.ofBindings bindings) [] := by
  intro name schema _ inferred _
  rw [SchemaTable.get?, SchemaTable.ofBindings, List.find?_map] at inferred
  rcases Option.map_eq_some_iff.mp inferred with ⟨_, found, rfl⟩
  rcases Option.map_eq_some_iff.mp found with ⟨⟨key, value⟩, first, rfl⟩
  have holds : (Layer.ofBindings bindings).get? name = some (.ready value) := by
    rw [Layer.get?, Layer.ofBindings, List.find?_map]
    exact congrArg (Option.map Prod.snd) (congrArg (Option.map _) first)
  refine ⟨[.ofBindings bindings], .ready value, ?_, ?_⟩
  · rw [Scene.find?, holds]
  · exact Schema.admits_ofValue_field canonical (List.mem_of_find?_eq_some first)

/-- A program that compiles is a parsed document. -/
theorem compile_eq_ok {source : String} {compiled : Compiled}
    (compiles : compile source = .ok compiled) :
    ∃ tokens, Document.ofTokens tokens = .ok compiled.program.document := by
  rw [compile] at compiles
  split at compiles
  · cases compiles
  · split at compiles
    · cases compiles
    · rename_i document parsed
      cases compiles
      exact ⟨_, parsed⟩

/-- The value of a settled program conforms to the schema that is inferred of
the program. -/
theorem schema_admits_value [Pattern.Engine] {source : String} {compiled : Compiled}
    {bindings : Value.Bindings} {value : Value} (compiles : compile source = .ok compiled)
    (canonical : FieldsCanonical bindings) (settled : compiled.program.settled bindings = true)
    (evaluated : compiled.program.evaluate bindings = .ok value) :
    (compiled.program.schema bindings).admits value = true := by
  rcases compile_eq_ok compiles with ⟨tokens, parsed⟩
  rcases Program.meaning_of_evaluate evaluated with ⟨depth, means⟩
  refine conforms_meaning depth ?_ (sees_ofBindings canonical) ⟨?_, ?_, settled⟩ means
  · exact Scene.every_ofBindings (fun _ _ => trivial) bindings
  · exact Expr.Anchored.mono _ (List.nil_subset _) (Document.anchored parsed)
  · exact Expr.every_literal parsed

/-- A name that is assigned in front of its use hides a binding of the same name. -/
theorem schema_admits_value_of_hidden_binding :
    ∃ compiled value, compile "b: 1\na: b\nf := x -> c\nc := a\n" = .ok compiled ∧
      compiled.program.evaluate [("b", .text "s")] = .ok value ∧
      (compiled.program.schema [("b", .text "s")]).admits value = true := by
  have checked : ((compile "b: 1\na: b\nf := x -> c\nc := a\n").toOption.any fun compiled =>
      compiled.program.settled [("b", .text "s")] &&
        (compiled.program.evaluate [("b", .text "s")]).toOption.any fun _ => true) = true := by
    decide +kernel
  rcases any_toOption checked with ⟨compiled, compiles, checked⟩
  rcases (Bool.and_eq_true _ _).mp checked with ⟨settled, some⟩
  rcases any_toOption some with ⟨value, evaluated, _⟩
  exact ⟨compiled, value, compiles, evaluated,
    schema_admits_value compiles ⟨trivial, trivial⟩ settled evaluated⟩

/-- In front of the assignment to a name its use is inferred from a binding,
but is evaluated to what is assigned. -/
theorem binding_foretold_for_later_assignment :
    ∃ compiled value, compile "a := b\nb := 1\n" = .ok compiled ∧
      FieldsCanonical [("b", .text "s")] ∧
      compiled.program.evaluate [("b", .text "s")] = .ok value ∧
      (compiled.program.schema [("b", .text "s")]).admits value = false := by
  have checked : ((compile "a := b\nb := 1\n").toOption.any fun compiled =>
      (compiled.program.evaluate [("b", .text "s")]).toOption.any fun value =>
        !(compiled.program.schema [("b", .text "s")]).admits value) = true := by
    decide +kernel
  rcases any_toOption checked with ⟨compiled, compiles, checked⟩
  rcases any_toOption checked with ⟨value, evaluated, refused⟩
  exact ⟨compiled, value, compiles, ⟨trivial, trivial⟩, evaluated,
    (Bool.not_eq_true' _).mp refused⟩

end Manifest
