import Manifest.Proofs.Grammar.Derivation

/-!
# Procedures by the rule that applies

Where a state stands decides which rule of the grammar a procedure follows.
Each rule is an equation here: the procedure, with the lexeme of the rule under
it, is its smaller procedures run one after the other.  Where no rule applies
the procedure fails.
-/

namespace Manifest

namespace ParserState

/-- One more call or round is counted. -/
def ticked (state : ParserState) : ParserState := { state with work := state.work + 1 }

/-- The next token has been read. -/
def advanced (state : ParserState) : ParserState := { state with stream := state.stream.next.2 }

def withScopes (state : ParserState) (scopes : Scopes) : ParserState := { state with scopes }

end ParserState

namespace Stands

variable {state : ParserState} {point : Point}

theorem ticked (stands : Stands state point) : Stands state.ticked point :=
  stands.of_stream_eq rfl

theorem withScopes (stands : Stands state point) (scopes : Scopes) :
    Stands (state.withScopes scopes) point :=
  stands.of_stream_eq rfl

theorem advanced (stands : Stands state point) (more : point.next ≠ .endOfInput) :
    Stands state.advanced point.step :=
  stands.next more

/-- The lexeme of the token that is read next. -/
theorem read_next (stands : Stands state point) :
    state.stream.next.1.lexeme = point.next :=
  stands.peek_next

end Stands

namespace Grammar

open Manifest.Parser ParserState

variable {α : Type} {state : ParserState} {point : Point} {before rest : List Lexeme}
  {lexeme : Lexeme} {depth scope : Nat}

/- One call of a procedure is one rewriting step. -/
attribute [local simp] Parser.block Parser.sections Parser.statement Parser.chain Parser.links
  Parser.term Parser.application Parser.operands Parser.operand Parser.path Parser.function

/-! ## Single accesses -/

theorem tick_bind (next : Unit → Parser α) : (tick >>= next) state = next () state.ticked := rfl

theorem next_bind (next : Token → Parser α) :
    (Parser.next >>= next) state = next state.stream.next.1 state.advanced := rfl

theorem peek_bind (distance : Int) (next : Token → Parser α) :
    (peek distance >>= next) state = next (state.stream.peek distance) state := rfl

theorem openScope_bind (parent : Option Nat) (next : Nat → Parser α) :
    (openScope parent >>= next) state =
      next state.scopes.size (state.withScopes (state.scopes.push parent).2) := rfl

/-- Giving back the token that was just read restores the stream. -/
theorem stepBack_advanced (stands : Stands state point) (more : point.next ≠ .endOfInput) :
    stepBack state.advanced = .ok () state := by
  have moved := (stands.advanced more).position
  have origin := (stands.advanced more).origin
  have here := stands.position
  have same : { state.advanced.stream with position := state.advanced.stream.position - 1 } =
      state.stream := by
    have tokens : state.advanced.stream.tokens = state.stream.tokens := by
      simp only [ParserState.advanced, Stream.next]
      split <;> rfl
    have origins : state.advanced.stream.origin = state.stream.origin :=
      origin.trans stands.origin.symm
    have positions : state.advanced.stream.position - 1 = state.stream.position := by
      rw [moved, here]
      simp [Point.step]
    change Stream.mk state.advanced.stream.tokens state.advanced.stream.origin
      (state.advanced.stream.position - 1) = state.stream
    rw [tokens, origins, positions]
  have enough : ¬ state.advanced.stream.position - state.advanced.stream.origin < 1 := by
    rw [moved, origin]
    simp [Point.step]
  have back : state.advanced.stream.backtrack? 1 = some state.stream := by
    rw [Stream.backtrack?, if_neg enough, same]
  rw [stepBack, Stepwise.get_bind, back]
  rfl

theorem bindAll_eq (scope : Nat) (names : List String) (state : ParserState) :
    (names.forM fun name => Parser.bind scope name .parameter) state =
      .ok () (state.withScopes (withParameters state.scopes scope names)) := by
  induction names generalizing state with
  | nil => rfl
  | cons name names ih =>
    have bound : Parser.bind scope name .parameter state =
        .ok () (state.withScopes (state.scopes.bind scope name .parameter)) := rfl
    change (Parser.bind scope name .parameter >>= fun _ =>
      names.forM fun name => Parser.bind scope name .parameter) state = _
    rw [Stepwise.bind_of_ok _ bound, ih]
    rfl

/-! ## Parts of procedures -/

/-- A step that does not succeed. -/
def Fails (step : Parser α) (state : ParserState) : Prop :=
  ∃ failure stop, step state = .error failure stop

theorem Fails.ne_ok {step : Parser α} (fails : Fails step state) {result : α}
    {stop : ParserState} : step state ≠ .ok result stop := by
  rcases fails with ⟨failure, place, failed⟩
  intro succeeded
  cases failed.symm.trans succeeded

theorem Fails.map {β : Type} {step : Parser α} (f : α → β) (fails : Fails step state) :
    Fails (f <$> step) state := by
  rcases fails with ⟨failure, place, failed⟩
  exact ⟨failure, place, by simp only [Functor.map, EStateM.map, failed]⟩

/-- The end of a chain. -/
def settleHere (stack : List Expr) : Parser Expr := do
  match stack with
  | [] => return .unit
  | [expression] => return expression
  | _ => throw (.stackShape stack.length (← peek 0).span)

theorem settleHere_eq {stack : List Expr} {result : Expr} (settled : settle stack = some result) :
    settleHere stack state = .ok result state := by
  cases stack with
  | nil => cases settled; rfl
  | cons expression stack =>
    cases stack with
    | nil => cases settled; rfl
    | cons second stack => cases settled

theorem settleHere_fails {stack : List Expr} (unsettled : settle stack = none) :
    Fails (settleHere stack) state := by
  cases stack with
  | nil => cases unsettled
  | cons expression stack =>
    cases stack with
    | nil => cases unsettled
    | cons second stack => exact ⟨_, _, rfl⟩

/-- Go on with a chain behind a term. -/
def proceed (depth scope : Nat) (stack : List Expr) : Parser Expr := do
  match (← peek (-1)).lexeme with
  | .outdent => settleHere stack
  | _ => links depth scope stack

theorem proceed_behindBlock {stack : List Expr} (stands : Stands state point)
    (behind : point.previous = .outdent) :
    proceed depth scope stack state = settleHere stack state := by
  rw [proceed, peek_bind, stands.peek_previous, behind]

theorem proceed_further {stack : List Expr} (stands : Stands state point)
    (further : point.previous ≠ .outdent) :
    proceed depth scope stack state = links depth scope stack state := by
  rw [proceed, peek_bind, stands.peek_previous]
  cases latest : point.previous <;> first | exact absurd latest further | rfl

/-- The end of a block. -/
def closeHere (finished : List (Section Expr)) (part : Section Expr) :
    Parser (List (Section Expr)) := do
  if !part.expressions.isEmpty then return finished ++ [part]
  else if finished.isEmpty then return []
  else throw (.emptySection (← peek (-1)).span)

theorem closeHere_eq {finished parts : List (Section Expr)} {part : Section Expr}
    (ended : closed finished part = some parts) :
    closeHere finished part state = .ok parts state := by
  simp only [closed] at ended
  simp only [closeHere]
  split at ended
  · rename_i filled
    cases ended
    rw [if_pos filled]
    rfl
  · rename_i unfilled
    rw [if_neg unfilled]
    split at ended
    · rename_i alone
      cases ended
      rw [if_pos alone]
      rfl
    · cases ended

theorem closeHere_fails {finished : List (Section Expr)} {part : Section Expr}
    (unclosed : closed finished part = none) : Fails (closeHere finished part) state := by
  simp only [closed] at unclosed
  simp only [closeHere]
  split at unclosed
  · cases unclosed
  · rename_i unfilled
    rw [if_neg unfilled]
    split at unclosed
    · cases unclosed
    · rename_i some
      rw [if_neg some]
      exact ⟨_, _, rfl⟩

/-- One expression of a section. -/
def entry (depth scope : Nat) : Parser Expr := do
  let token ← Parser.next
  match token.lexeme with
  | .indent => return .block (← Parser.block depth scope .outdent)
  | .symbol name => Parser.statement depth name scope
  | lexeme =>
      if lexeme.startsTerm then
        stepBack
        Parser.chain depth scope
      else throw (.unexpected token "block")

/-! ## Sections and statements -/

section Sections

variable {stop : BlockEnd} {finished : List (Section Expr)} {part : Section Expr} {leading : Bool}

theorem sections_skip (stands : Stands state ⟨before, lexeme :: rest⟩)
    (blank : lexeme.isLineBreak = true) :
    Parser.sections (depth + 1) stop finished part leading state =
      Parser.sections depth stop finished part leading state.ticked.advanced := by
  have found := stands.ticked.read_next
  rw [Parser.sections, tick_bind, next_bind]
  cases lexeme <;> simp only [Lexeme.isLineBreak, Bool.false_eq_true] at blank <;> rw [found] <;>
    rfl

theorem sections_lead (stands : Stands state ⟨before, .sectionStart :: rest⟩)
    (unfilled : part.expressions = []) :
    Parser.sections (depth + 1) stop [] part true state =
      Parser.sections depth stop [] part false state.ticked.advanced := by
  have found := stands.ticked.read_next
  rw [Parser.sections, tick_bind, next_bind, found]
  simp only [Point.next_cons, unfilled, List.isEmpty_nil, Bool.and_self, if_true]

theorem sections_divide (stands : Stands state ⟨before, .sectionStart :: rest⟩)
    (filled : part.expressions ≠ []) :
    Parser.sections (depth + 1) stop finished part leading state =
      Parser.sections depth stop (finished ++ [part]) ⟨state.scopes.size, []⟩ false
        (state.ticked.advanced.withScopes
          (state.scopes.push (some (front finished part))).2) := by
  have found := stands.ticked.read_next
  have some : part.expressions.isEmpty = false := List.isEmpty_eq_false_iff.mpr filled
  rw [Parser.sections, tick_bind, next_bind, found]
  simp only [Point.next_cons, some, Bool.false_eq_true, if_false]
  rfl

theorem sections_marker_fails (stands : Stands state ⟨before, .sectionStart :: rest⟩)
    (unfilled : part.expressions = []) (late : (finished.isEmpty && leading) = false) :
    Fails (Parser.sections (depth + 1) stop finished part leading) state := by
  have found := stands.ticked.read_next
  rw [Fails, Parser.sections]
  simp only [tick_bind, next_bind, found, Point.next_cons, unfilled, List.isEmpty_nil, late,
    Bool.false_eq_true, if_true, if_false]
  exact ⟨_, _, rfl⟩

theorem sections_state (stands : Stands state ⟨before, lexeme :: rest⟩)
    (opens : lexeme.startsTerm = true) :
    Parser.sections (depth + 1) stop finished part leading state =
      (entry depth part.scope >>= fun expression =>
        Parser.sections depth stop finished (grown part expression) false) state.ticked := by
  have found := stands.ticked.read_next
  rw [Parser.sections, tick_bind, next_bind, entry, bind_assoc, next_bind]
  cases lexeme <;> simp only [Lexeme.startsTerm, Bool.false_eq_true] at opens <;>
    simp only [found, Point.next_cons, Lexeme.startsTerm, if_true, bind_assoc, pure_bind] <;> rfl

theorem sections_outdent (stands : Stands state ⟨before, .outdent :: rest⟩) :
    Parser.sections (depth + 1) .outdent finished part leading state =
      closeHere finished part state.ticked.advanced := by
  have found := stands.ticked.read_next
  rw [Parser.sections, tick_bind, next_bind, found]
  simp only [Point.next_cons, if_true]
  rfl

theorem sections_endOfInput (stands : Stands state ⟨before, .endOfInput :: rest⟩) :
    Parser.sections (depth + 1) .endOfInput finished part leading state =
      closeHere finished part state.ticked.advanced := by
  have found := stands.ticked.read_next
  rw [Parser.sections, tick_bind, next_bind, found]
  simp only [Point.next_cons, if_true]
  rfl

theorem sections_fails (stands : Stands state ⟨before, lexeme :: rest⟩)
    (noBreak : lexeme.isLineBreak = false) (noTerm : lexeme.startsTerm = false)
    (noMarker : lexeme ≠ .sectionStart) (noOutdent : ¬ (lexeme = .outdent ∧ stop = .outdent))
    (noEnd : ¬ (lexeme = .endOfInput ∧ stop = .endOfInput)) :
    Fails (Parser.sections (depth + 1) stop finished part leading) state := by
  have found := stands.ticked.read_next
  rw [Fails, Parser.sections]
  simp only [tick_bind, next_bind, found, Point.next_cons]
  cases lexeme <;> cases stop <;>
    first
    | (cases noBreak; done)
    | (cases noTerm; done)
    | exact absurd rfl noMarker
    | exact absurd ⟨rfl, rfl⟩ noOutdent
    | exact absurd ⟨rfl, rfl⟩ noEnd
    | exact ⟨_, _, rfl⟩

end Sections

theorem entry_nested (stands : Stands state ⟨before, .indent :: rest⟩) :
    entry depth scope state =
      (Expr.block <$> Parser.block depth scope .outdent) state.advanced := by
  rw [entry, next_bind, stands.read_next]
  rfl

theorem entry_yielded (stands : Stands state ⟨before, .symbol "yield" :: lexeme :: rest⟩)
    (opens : lexeme.startsTerm = true) :
    entry (depth + 1) scope state =
      (Expr.yield <$> Parser.chain depth scope) state.advanced.ticked := by
  have found := (stands.advanced (by simp)).ticked.peek_next
  rw [entry, next_bind, stands.read_next]
  simp only [Point.next_cons, Parser.statement, tick_bind, peek_bind, found, Point.step_cons, opens,
    decide_true, Bool.and_self, if_true]
  rfl

theorem entry_assigned {name : String} {literal : Bool}
    (stands : Stands state ⟨before, .symbol name :: .assignment literal :: rest⟩) :
    entry (depth + 1) scope state =
      (Parser.chain depth scope >>= fun operand => do
        Parser.bind scope name (.expression operand)
        return .assignment name operand) state.advanced.ticked.advanced := by
  have found : (state.advanced.ticked.stream.peek 0).lexeme = .assignment literal :=
    (stands.advanced (by simp)).ticked.peek_next
  have noTerm : (Lexeme.assignment literal).startsTerm = false := rfl
  rw [entry, next_bind, stands.read_next]
  simp only [Point.next_cons, Parser.statement, tick_bind, peek_bind, noTerm, found,
    Bool.and_false, Bool.false_eq_true, if_false, next_bind]

/-- A symbol that begins a chain is given back first. -/
theorem entry_plain_symbol {name : String}
    (stands : Stands state ⟨before, .symbol name :: rest⟩)
    (plain : startsChain ⟨before, .symbol name :: rest⟩ = true) :
    entry (depth + 1) scope state = Parser.chain depth scope state.ticked := by
  have found := (stands.advanced (by simp)).ticked.peek_next
  have back : stepBack state.advanced.ticked = .ok () state.ticked :=
    stepBack_advanced stands.ticked (by simp)
  simp only [startsChain, Point.next_cons, Bool.and_eq_true, Bool.not_eq_true'] at plain
  rcases plain with ⟨noYield, noAssignment⟩
  have follows : (state.advanced.ticked.stream.peek 0).lexeme =
      (⟨before, .symbol name :: rest⟩ : Point).second := found
  rw [entry, next_bind, stands.read_next]
  simp only [Point.next_cons, Parser.statement, tick_bind, peek_bind, follows]
  rw [if_neg (by rw [Bool.not_eq_true]; exact noYield)]
  cases behind : (⟨before, .symbol name :: rest⟩ : Point).second <;>
    first
    | (rw [behind] at noAssignment; cases noAssignment; done)
    | exact Stepwise.bind_of_ok _ back

theorem entry_plain_term (stands : Stands state ⟨before, lexeme :: rest⟩)
    (noSymbol : ∀ name, lexeme ≠ .symbol name)
    (plain : startsChain ⟨before, lexeme :: rest⟩ = true) :
    entry depth scope state = Parser.chain depth scope state := by
  have back : stepBack state.advanced = .ok () state :=
    stepBack_advanced stands (by intro same; cases same; cases plain)
  rw [entry, next_bind, stands.read_next]
  cases lexeme <;>
    first
    | exact absurd rfl (noSymbol _)
    | (cases plain; done)
    | exact Stepwise.bind_of_ok _ back

theorem entry_fails (stands : Stands state ⟨before, lexeme :: rest⟩)
    (noNest : lexeme ≠ .indent) (noSymbol : ∀ name, lexeme ≠ .symbol name)
    (noChain : ¬ startsChain ⟨before, lexeme :: rest⟩ = true) :
    Fails (entry depth scope) state := by
  rw [Fails, entry]
  simp only [next_bind, stands.read_next, Point.next_cons]
  cases lexeme <;>
    first
    | exact absurd rfl noNest
    | exact absurd rfl (noSymbol _)
    | exact absurd rfl noChain
    | exact ⟨_, _, rfl⟩

/-! ## Chains -/

section Chains

variable {stack : List Expr}

theorem links_finish (stands : Stands state ⟨before, lexeme :: rest⟩)
    (ends : lexeme.endsChain = true) :
    links (depth + 1) scope stack state = settleHere stack state.ticked := by
  have found := stands.ticked.peek_next
  rw [links, tick_bind, peek_bind]
  cases lexeme <;> simp only [Lexeme.endsChain, Bool.false_eq_true] at ends <;> rw [found] <;> rfl

theorem links_operator {left : Expr} (stands : Stands state ⟨before, lexeme :: rest⟩)
    (joins : lexeme.isOperator = true) :
    links (depth + 1) scope (left :: stack) state =
      (term depth scope >>= fun right =>
        proceed depth scope (combine lexeme left right :: stack)) state.ticked.advanced := by
  have found := stands.ticked.peek_next
  have read := stands.ticked.read_next
  simp only [Point.next_cons] at found read
  rw [links, tick_bind, peek_bind]
  cases lexeme <;> simp only [Lexeme.isOperator, Bool.false_eq_true] at joins <;> rw [found] <;>
    simp only [next_bind, read] <;> rfl

theorem links_operator_fails (stands : Stands state ⟨before, lexeme :: rest⟩)
    (joins : lexeme.isOperator = true) :
    Fails (links (depth + 1) scope []) state := by
  have found := stands.ticked.peek_next
  rw [Fails, links]
  simp only [tick_bind, peek_bind]
  cases lexeme <;> simp only [Lexeme.isOperator, Bool.false_eq_true] at joins <;> rw [found] <;>
    exact ⟨_, _, rfl⟩

theorem links_arrow {names : List String} (stands : Stands state ⟨before, .arrow :: rest⟩)
    (named : parameters stack = some names) :
    links (depth + 1) scope stack state =
      (function depth scope names >>= fun result => proceed depth scope [result])
        state.ticked.advanced := by
  have found := stands.ticked.peek_next
  rw [links, tick_bind, peek_bind, found]
  simp only [parameters] at named
  split at named
  · rename_i groups listed
    split at named
    · cases named
    · rename_i some
      cases named
      simp only [Point.next_cons, next_bind, listed, some, Bool.false_eq_true, if_false]
      rfl
  · cases named

theorem links_arrow_fails (stands : Stands state ⟨before, .arrow :: rest⟩)
    (unnamed : parameters stack = none) :
    Fails (links (depth + 1) scope stack) state := by
  have found := stands.ticked.peek_next
  rw [Fails, links]
  simp only [tick_bind, peek_bind, found, Point.next_cons, next_bind]
  simp only [parameters] at unnamed
  split at unnamed
  · rename_i groups listed
    split at unnamed
    · rename_i none
      simp only [listed, none, if_true]
      exact ⟨_, _, rfl⟩
    · cases unnamed
  · rename_i unlisted
    simp only [unlisted]
    exact ⟨_, _, rfl⟩

theorem links_begin (stands : Stands state ⟨before, lexeme :: rest⟩)
    (opens : lexeme.startsTerm = true) :
    links (depth + 1) scope [] state =
      (term depth scope >>= fun expression => proceed depth scope [expression]) state.ticked := by
  have found := stands.ticked.peek_next
  rw [links, tick_bind, peek_bind]
  cases lexeme <;> simp only [Lexeme.startsTerm, Bool.false_eq_true] at opens <;> rw [found] <;> rfl

theorem links_begin_fails {expression : Expr} (stands : Stands state ⟨before, lexeme :: rest⟩)
    (opens : lexeme.startsTerm = true) :
    Fails (links (depth + 1) scope (expression :: stack)) state := by
  have found := stands.ticked.peek_next
  rw [Fails, links]
  simp only [tick_bind, peek_bind]
  cases lexeme <;> simp only [Lexeme.startsTerm, Bool.false_eq_true] at opens <;> rw [found] <;>
    exact ⟨_, _, rfl⟩

theorem links_fails (stands : Stands state ⟨before, lexeme :: rest⟩)
    (noEnd : lexeme.endsChain = false) (noOperator : lexeme.isOperator = false)
    (noArrow : lexeme ≠ .arrow) (noTerm : lexeme.startsTerm = false) :
    Fails (links (depth + 1) scope stack) state := by
  have found := stands.ticked.peek_next
  rw [Fails, links]
  simp only [tick_bind, peek_bind, found, Point.next_cons]
  cases lexeme <;>
    first
    | (cases noEnd; done)
    | (cases noOperator; done)
    | exact absurd rfl noArrow
    | (cases noTerm; done)
    | exact ⟨_, _, rfl⟩

end Chains

/-! ## Terms -/

theorem term_literal {result : Expr} (stands : Stands state ⟨before, lexeme :: rest⟩)
    (literal : lexeme.literal? = some result) :
    term (depth + 1) scope state = .ok result state.ticked.advanced := by
  have found := stands.ticked.read_next
  rw [term, tick_bind, next_bind]
  cases lexeme <;> cases literal <;> rw [found] <;> rfl

theorem term_lift (stands : Stands state ⟨before, .lift :: rest⟩) :
    term (depth + 1) scope state = (Expr.lift <$> term depth scope) state.ticked.advanced := by
  rw [term, tick_bind, next_bind, stands.ticked.read_next]
  rfl

theorem term_group (stands : Stands state ⟨before, .openParen :: rest⟩) :
    term (depth + 1) scope state =
      (Parser.chain depth scope >>= fun inside => do
        let close ← Parser.next
        if close.lexeme = .closeParen then return inside
        else throw (.unexpected close "parenthesized expression")) state.ticked.advanced := by
  rw [term, tick_bind, next_bind, stands.ticked.read_next]
  rfl

theorem term_nested (stands : Stands state ⟨before, .indent :: rest⟩) :
    term (depth + 1) scope state =
      (Expr.block <$> Parser.block depth scope .outdent) state.ticked.advanced := by
  rw [term, tick_bind, next_bind, stands.ticked.read_next]
  rfl

theorem term_symbol {name : String} (stands : Stands state ⟨before, .symbol name :: rest⟩) :
    term (depth + 1) scope state = application depth name scope state.ticked.advanced := by
  rw [term, tick_bind, next_bind, stands.ticked.read_next]
  rfl

theorem term_fails (stands : Stands state ⟨before, lexeme :: rest⟩)
    (noTerm : lexeme.startsTerm = false) : Fails (term (depth + 1) scope) state := by
  have found := stands.ticked.read_next
  rw [Fails, term]
  simp only [tick_bind, next_bind, found, Point.next_cons]
  cases lexeme <;> first | (cases noTerm; done) | exact ⟨_, _, rfl⟩

theorem application_selected {name : String} (stands : Stands state point)
    (selects : point.next = .accessor) :
    application (depth + 1) name scope state =
      path depth (.reference name) state.ticked := by
  rw [application, tick_bind, peek_bind, stands.ticked.peek_next, selects]

theorem application_applied {name : String} (stands : Stands state point)
    (applies : point.next ≠ .accessor) :
    application (depth + 1) name scope state = operands depth name [] scope state.ticked := by
  rw [application, tick_bind, peek_bind, stands.ticked.peek_next]
  cases behind : point.next <;> first | exact absurd behind applies | rfl

theorem takesOperand_eq (stands : Stands state point) :
    Parser.takesOperand state = .ok (takesOperand point) state := by
  have found := stands.peek_next
  rw [Parser.takesOperand, peek_bind, found, takesOperand]
  cases next : point.next with
  | symbol name =>
    have second := stands.peek_second (by rw [next]; simp)
    simp only [peek_bind, second]
    cases point.second <;> rfl
  | _ => rfl

theorem operands_more {name : String} {taken : List Expr} (stands : Stands state point)
    (takes : takesOperand point = true) :
    operands (depth + 1) name taken scope state =
      (operand depth scope >>= fun expression =>
        operands depth name (taken ++ [expression]) scope) state.ticked := by
  rw [operands, tick_bind, Stepwise.bind_of_ok _ (takesOperand_eq stands.ticked), takes, if_pos rfl]

theorem operands_enough {name : String} {taken : List Expr} (stands : Stands state point)
    (takes : takesOperand point = false) :
    operands (depth + 1) name taken scope state =
      .ok (.application name taken (definition state.scopes scope name)) state.ticked := by
  rw [operands, tick_bind, Stepwise.bind_of_ok _ (takesOperand_eq stands.ticked), takes,
    if_neg Bool.false_ne_true]
  rfl

theorem operand_symbol {name : String} (stands : Stands state ⟨before, .symbol name :: rest⟩)
    (bare : (⟨.symbol name :: before, rest⟩ : Point).next ≠ .accessor) :
    operand (depth + 1) scope state =
      .ok (.application name [] (definition state.scopes scope name)) state.ticked.advanced := by
  have behind := (stands.ticked.advanced (by simp)).peek_next
  rw [operand, tick_bind, peek_bind, stands.ticked.peek_next]
  simp only [Point.next_cons, next_bind, peek_bind, behind, Point.step_cons]
  cases following : (⟨.symbol name :: before, rest⟩ : Point).next <;>
    first | exact absurd following bare | rfl

theorem operand_selected {name : String} (stands : Stands state ⟨before, .symbol name :: rest⟩)
    (selects : (⟨.symbol name :: before, rest⟩ : Point).next = .accessor) :
    operand (depth + 1) scope state =
      path depth (.reference name) state.ticked.advanced := by
  have behind := (stands.ticked.advanced (by simp)).peek_next
  rw [operand, tick_bind, peek_bind, stands.ticked.peek_next]
  simp only [Point.next_cons, next_bind, peek_bind, behind, Point.step_cons, selects]

theorem operand_lift (stands : Stands state ⟨before, .lift :: rest⟩) :
    operand (depth + 1) scope state =
      (Expr.lift <$> operand depth scope) state.ticked.advanced := by
  rw [operand, tick_bind, peek_bind, stands.ticked.peek_next]
  rfl

theorem operand_simple (stands : Stands state point)
    (noSymbol : ∀ name, point.next ≠ .symbol name) (noLift : point.next ≠ .lift) :
    operand (depth + 1) scope state = term depth scope state.ticked := by
  rw [operand, tick_bind, peek_bind, stands.ticked.peek_next]
  cases next : point.next <;>
    first | exact absurd next (noSymbol _) | exact absurd next noLift | rfl

theorem path_field {target : Expr} {name : String}
    (stands : Stands state ⟨before, .accessor :: .symbol name :: rest⟩) :
    path (depth + 1) target state =
      path depth (.access target name) state.ticked.advanced.advanced := by
  have behind := (stands.ticked.advanced (by simp)).read_next
  rw [path, tick_bind, peek_bind, stands.ticked.peek_next]
  simp only [Point.next_cons, next_bind, behind, Point.step_cons]

theorem path_field_fails {target : Expr} (stands : Stands state ⟨before, .accessor :: rest⟩)
    (noSymbol : ∀ name, (⟨.accessor :: before, rest⟩ : Point).next ≠ .symbol name) :
    Fails (path (depth + 1) target) state := by
  have behind := (stands.ticked.advanced (by simp)).read_next
  rw [Fails, path]
  simp only [tick_bind, peek_bind, stands.ticked.peek_next, Point.next_cons, next_bind, behind,
    Point.step_cons]
  cases following : (⟨.accessor :: before, rest⟩ : Point).next <;>
    first | exact absurd following (noSymbol _) | exact ⟨_, _, rfl⟩

theorem path_reached {target : Expr} (stands : Stands state point)
    (ends : point.next ≠ .accessor) :
    path (depth + 1) target state = .ok target state.ticked := by
  rw [path, tick_bind, peek_bind, stands.ticked.peek_next]
  cases next : point.next <;> first | exact absurd next ends | rfl

theorem function_eq (depth scope : Nat) (names : List String) (state : ParserState) :
    function (depth + 1) scope names state =
      ((fun body => curried names (.scope state.scopes.size body)) <$>
        Parser.chain depth state.scopes.size)
        (state.ticked.withScopes
          (withParameters (state.scopes.push (some scope)).2 state.scopes.size names)) := by
  rw [function, tick_bind, openScope_bind, Stepwise.bind_of_ok _ (bindAll_eq _ _ _)]
  rfl

end Grammar
end Manifest
