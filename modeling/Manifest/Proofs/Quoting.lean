import Manifest.Proofs.Scan.Quotes

/-!
# Strings in quotes come back

A string that is written in quotes is the value that the source assigns or lists.  The line of
an item is searched for an assignment without regard to escapes, so an escaped quote can make
the item open a level of its own.  Then the string stands in a block inside the item, which
has the same value.
-/

namespace Manifest

variable {quotes : Quotes} {content : String}

/-! ## Tokens -/

theorem readsAs_quoted_entry (key : Key) (literal : Bool) (holds : quotes.Hold content) :
    ReadsAs (entry key literal (quotes.enclose content))
      (entryLexemes key literal (.text content)) := by
  have spelled : (entry key literal (quotes.enclose content)).toList = key.name.toList ++
      ((if literal then ": " else " := ").toList ++ (quotes.enclose content).toList) := by
    rw [entry, String.toList_append, String.toList_append, List.append_assoc]
  have noSign : ∀ mark ∈ ['\n', '\r'], mark ∉ (if literal then ": " else " := ").toList := by
    cases literal <;> exact List.all_iff_forall_prop.mp (by decide)
  have inner : '\n' ∉ (entry key literal (quotes.enclose content)).toList := by
    rw [spelled]
    exact List.not_mem_append key.newline_notMem
      (List.not_mem_append (noSign '\n' (by decide)) (Quotes.newline_notMem_enclose holds))
  have joined : Joined (entry key literal (quotes.enclose content)).toList := by
    rw [spelled]
    exact (Tree.joined_key key).append
      ((Joined.of_notMem (noSign '\r' (by decide))).append (Quotes.joined_enclose holds))
  refine @readsAs_of_readsOver _ [.symbol key.name, .assignment literal] (.text content) ?_ inner
    joined rfl ?_
  · rw [spelled]
    exact key.startsContent.append _
  · rw [spelled]
    cases literal with
    | true =>
      have whole := (Scanner.ReadsOver.word key (endsWord_colon _)).append (.literal holds [])
      exact whole
    | false =>
      have sign := (Scanner.ReadsOver.sign _).append (Scanner.ReadsOver.enclosed holds []).gap
      have whole := (Scanner.ReadsOver.word key (endsWord_gap _)).append sign.gap
      exact whole

theorem readsAs_quoted_item (holds : quotes.Hold content) :
    ∃ nested, ReadsAs ("- " ++ quotes.enclose content) (itemLexemes nested (.text content)) :=
  readsAs_item (quotes.startsContent_enclose content) (Quotes.newline_notMem_enclose holds)
    (Quotes.joined_enclose holds) rfl (.enclosed holds [])

/-! ## Documents -/

/-- The block of an item that is read as one token. -/
def itemBlock (nested : Bool) (operand : Expr) : Expr :=
  .block [⟨1, [.block [⟨2, [.yield (if nested then .block [⟨3, [operand]⟩] else operand)]⟩]]⟩]

namespace Grammar

variable {lexeme : Lexeme} {operand : Expr} {before rest : List Lexeme} {scopes : Scopes}
  {scope : Nat}

/-- A literal in a block of its own is a chain. -/
theorem chain_block (known : lexeme.literal? = some operand) :
    Derives (.chain scope) ⟨before, .indent :: lexeme :: .outdent :: rest⟩ scopes
      (.block [⟨scopes.size, [operand]⟩]) ⟨.outdent :: lexeme :: .indent :: before, rest⟩
      (scopes.push (some scope)).2 := by
  have starts : startsChain ⟨.indent :: before, lexeme :: .outdent :: rest⟩ = true := by
    cases lexeme <;> first | rfl | cases known
  have statement : Derives (.statement scopes.size)
      ⟨.indent :: before, lexeme :: .outdent :: rest⟩ (scopes.push (some scope)).2 operand
      ⟨lexeme :: .indent :: before, .outdent :: rest⟩ (scopes.push (some scope)).2 :=
    .plain starts (chain_literal known rfl)
  exact .chain (.begin rfl (.inner (.block (.state statement (.closeBlock rfl))))
    (.behindBlock rfl rfl))

/-- A document that consists of one item. -/
theorem reads_item_of_statement {lexemes last : List Lexeme} {after : Scopes}
    (statement : Derives (.statement 2) ⟨[.indent], lexemes⟩
      (((Scopes.empty.push none).2.push (some 0)).2.push (some 1)).2 (.yield operand)
      ⟨last, [.outdent, .endOfInput]⟩ after) :
    Reads (.indent :: lexemes)
      ⟨.scope 0 (.block [⟨1, [.block [⟨2, [.yield operand]⟩]]⟩]), after⟩ := by
  have item : Derives (.sections .outdent [] ⟨2, []⟩ true) ⟨[.indent], lexemes⟩
      (((Scopes.empty.push none).2.push (some 0)).2.push (some 1)).2
      (.block [⟨2, [.yield operand]⟩]) ⟨.outdent :: last, [.endOfInput]⟩ after :=
    .state statement (.closeBlock rfl)
  have nested : Derives (.statement 1) (.ofLexemes (.indent :: lexemes))
      ((Scopes.empty.push none).2.push (some 0)).2 (.block [⟨2, [.yield operand]⟩])
      ⟨.outdent :: last, [.endOfInput]⟩ after := .nested (.block item)
  have document : Derives (.sections .endOfInput [] ⟨1, []⟩ true) (.ofLexemes (.indent :: lexemes))
      ((Scopes.empty.push none).2.push (some 0)).2
      (.block [⟨1, [.block [⟨2, [.yield operand]⟩]]⟩]) ⟨.outdent :: last, [.endOfInput]⟩ after :=
    .state nested (.closeDocument rfl)
  exact ⟨_, _, .block document, rfl⟩

theorem reads_item (nested : Bool) (known : lexeme.literal? = some operand) :
    ∃ scopes, Reads (itemLexemes nested lexeme) ⟨.scope 0 (itemBlock nested operand), scopes⟩ := by
  cases nested with
  | true => exact ⟨_, reads_item_of_statement (.yielded rfl (chain_block known))⟩
  | false =>
    have starts : lexeme.startsTerm = true := by
      cases lexeme <;> first | rfl | cases known
    exact ⟨_, reads_item_of_statement (.yielded starts (chain_literal known rfl))⟩

end Grammar

/-! ## Values -/

namespace Evaluator

variable {eval : Evaluator} {operand : Expr} {value : Value} {scope : Nat}

/-- A block that yields once is a sequence of one item. -/
theorem yields_item (yields : eval.Yields operand value) :
    Yields (step eval) (.block [⟨scope, [.yield operand]⟩]) (.sequence [value]) := by
  refine yields_block fun frame memory => ?_
  rcases gather_yield yields memory.frames.size .empty
    (enterSection memory frame [.yield operand]) with ⟨after, gathered, grows⟩
  refine ⟨⟨[], [value], none⟩, after, ?_, rfl, (grows_enterSection memory frame _).trans grows⟩
  rw [gatherAll, Stepwise.bind_of_ok _ gathered]
  rfl

/-- A block with one assignment is a mapping of one key. -/
theorem yields_entry {key : Key} (noFunction : operand.isFunction = false)
    (yields : eval.Yields operand value) :
    Yields (step eval) (.block [⟨scope, [.assignment key.name operand]⟩])
      (.mapping [(key.name, value)]) := by
  refine yields_block fun frame memory => ?_
  have waits : (slots ⟨[], some frame⟩ [.assignment key.name operand]).get? key.name =
      some (.pending operand) := by
    have slot : slots ⟨[], some frame⟩ [.assignment key.name operand] =
        Frame.set ⟨[], some frame⟩ key.name (.pending operand) := by
      cases operand <;> first | rfl | cases noFunction
    rw [slot, Frame.get?_set_self]
  rcases gather_assignment noFunction yields
    (grows_enterSection memory frame [.assignment key.name operand]) (Nat.le_refl _)
    (getElem?_enterSection memory frame _) waits .empty with ⟨after, _, gathered, grows, _⟩
  refine ⟨⟨[(key.name, value)], [], none⟩, after, ?_, rfl, grows⟩
  rw [gatherAll, Stepwise.bind_of_ok _ gathered]
  rfl

theorem yields_scalar (eval : Evaluator) (value : Value) :
    Yields (step eval) (.scalar value) value :=
  fun _ memory => ⟨memory, rfl, .refl memory⟩

theorem yields_assigned (key : Key) (value : Value) (depth : Nat) :
    (evaluate (depth + Expr.size (.block [⟨1, [.assignment key.name (.scalar value)]⟩]))).Yields
      (.block [⟨1, [.assignment key.name (.scalar value)]⟩]) (.mapping [(key.name, value)]) :=
  yields_entry rfl (yields_scalar (evaluate (depth + 1)) value)

/-- The block of an item is a sequence of one item, on a level of its own or not. -/
theorem yields_itemBlock (nested : Bool) (value : Value) (depth : Nat) :
    (evaluate (depth + (itemBlock nested (.scalar value)).size)).Yields
      (itemBlock nested (.scalar value)) (.sequence [value]) := by
  cases nested with
  | true =>
    have block := @yields_only _ _ _ 3 (yields_scalar (evaluate depth) value) rfl rfl
    exact yields_only (yields_item block) rfl rfl
  | false => exact yields_only (yields_item (yields_scalar (evaluate (depth + 1)) value)) rfl rfl

end Evaluator

/-- A string comes back from its quotes without diagnostics, whether it is assigned to a key, as
a literal or as an expression, or stands in a list.  Double quotes hold every string, and single
quotes those without a line feed. -/
theorem quoted_round_trip (holds : quotes.Hold content) (bindings : Value.Bindings) :
    (∀ key literal, compileSource (entry key literal (quotes.enclose content)) bindings =
      .ok ⟨.mapping [(key.name, .text content)], []⟩) ∧
    compileSource ("- " ++ quotes.enclose content) bindings =
      .ok ⟨.sequence [.text content], []⟩ := by
  have known : (Lexeme.text content).literal? = some (.scalar (.text content)) := rfl
  constructor
  · intro key literal
    rcases Grammar.reads_entry key literal known with ⟨scopes, derived⟩
    have value := @Program.evaluate_of_yields _ scopes _ (fun depth =>
      Evaluator.yields_assigned key (.text content) depth) bindings
    rw [compileSource, compile_of_reads (readsAs_quoted_entry key literal holds) rfl derived]
    dsimp only
    rw [value]
  · rcases readsAs_quoted_item holds with ⟨nested, reads⟩
    rcases Grammar.reads_item nested known with ⟨scopes, derived⟩
    have ends : (itemLexemes nested (.text content)).getLast? = some .endOfInput := by
      cases nested <;> rfl
    rw [compileSource, compile_of_reads reads ends derived]
    dsimp only
    rw [Program.evaluate_of_yields (Evaluator.yields_itemBlock nested (.text content))]

/-- Marks of every kind in double quotes, which open a level for the item, and a carriage return
in single quotes. -/
theorem quoted_round_trip_of_marks :
    Quotes.double.Hold "it\"s: \\ #\n" ∧ Quotes.single.Hold "it's\r" ∧
      holdsAssignment none "\"it\\\"s: \\\\ #\\n\"".toList = true ∧
      ∀ bindings, compileSource "- \"it\\\"s: \\\\ #\\n\"" bindings =
          .ok ⟨.sequence [.text "it\"s: \\ #\n"], []⟩ ∧
        compileSource "k := 'it''s\r'" bindings = .ok ⟨.mapping [("k", .text "it's\r")], []⟩ := by
  let key : Key := ⟨"k", by decide, by decide, by decide, by decide⟩
  have double : Quotes.double.Hold "it\"s: \\ #\n" := by
    rintro ⟨⟩
  have single : Quotes.single.Hold "it's\r" := fun _ => by decide
  refine ⟨double, single, by decide, fun bindings => ⟨?_, ?_⟩⟩
  · exact (quoted_round_trip double bindings).2
  · exact (quoted_round_trip single bindings).1 key false

end Manifest
