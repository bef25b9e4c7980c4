import Manifest.Proofs.Grammar.Procedure

/-!
# Parsing under watch

The parser tells the work that it has done by a number only.  Here its procedures are
written once more, so that they keep a history of what they do: which of them is called
or goes round, how many expressions are on the stack of a chain, which tokens are read
and where the stream goes back.  Nothing in them depends on the history, so without it
a parse under watch is the parse of the parser.
-/

namespace Manifest

open Stepwise

/-- What happens in a parse. -/
inductive Event where
  | block
  /-- A block goes round. -/
  | sections
  | statement
  | chain
  /-- A chain goes round, with so many expressions on its stack. -/
  | link (height : Nat)
  /-- An expression is put on the stack of a chain, which then has so many. -/
  | push (height : Nat)
  | term
  | application
  /-- A list of operands goes round. -/
  | operands
  | operand
  /-- A path of fields goes round. -/
  | path
  | function
  /-- A loop over parameters goes round. -/
  | parameter
  /-- The token at a place is read. -/
  | read (place : Nat)
  /-- The stream goes back to a place. -/
  | rewind (place : Nat)
deriving DecidableEq

/-- A parse under watch. -/
structure Watch where
  state : ParserState
  /-- What has happened so far, the latest first. -/
  history : List Event

abbrev Watched := EStateM ParseError Watch

/-- How many names an expression has if it stands in front of an arrow. -/
def Expr.heads : Expr → Nat
  | .application _ operands _ => operands.length + 1
  | _ => 1

namespace Watched

/-! ## Access to the state -/

/-- A step of the parser that is not worth noting. -/
def quiet {α : Type} (step : Parser α) : Watched α := fun watch =>
  match step watch.state with
  | .ok value state => .ok value ⟨state, watch.history⟩
  | .error failure state => .error failure ⟨state, watch.history⟩

def note (events : List Event) : Watched Unit :=
  modify fun watch => ⟨watch.state, events ++ watch.history⟩

/-- A procedure is called, or goes round. -/
def call (event : Event) : Watched Unit := do
  note [event]
  quiet Parser.tick

def next : Watched Token := do
  note [.read (← get).state.stream.position]
  quiet Parser.next

def peek (distance : Int) : Watched Token := quiet (Parser.peek distance)

def stepBack : Watched Unit := do
  quiet Parser.stepBack
  note [.rewind (← get).state.stream.position]

def openScope (parent : Option Nat) : Watched Nat := quiet (Parser.openScope parent)

/-- Go on with a chain, unless a nested block has ended it. -/
def proceed (further : List Expr → Watched Expr) (stack : List Expr) : Watched Expr := do
  note [.push stack.length]
  match (← peek (-1)).lexeme with
  | .outdent => quiet (Grammar.settleHere stack)
  | _ => further stack

/-! ## Procedures -/

mutual
def block : Nat → Nat → BlockEnd → Watched (List (Section Expr))
  | 0, _, _ => throw .tooDeep
  | depth + 1, parent, stop => do
      call .block
      let scope ← openScope (some parent)
      sections depth stop [] ⟨scope, []⟩ true
termination_by structural depth => depth

def sections : Nat → BlockEnd → List (Section Expr) → Section Expr → Bool →
    Watched (List (Section Expr))
  | 0, _, _, _, _ => throw .tooDeep
  | depth + 1, stop, finished, part, leading => do
      call .sections
      let token ← next
      let append (expression : Expr) : Watched (List (Section Expr)) :=
        sections depth stop finished { part with expressions := part.expressions ++ [expression] }
          false
      match token.lexeme with
      | .newline _ | .comment _ => sections depth stop finished part leading
      | .sectionStart =>
          if part.expressions.isEmpty then
            if finished.isEmpty && leading then sections depth stop finished part false
            else throw (.emptySection token.span)
          else
            let front := (finished.head?.map Section.scope).getD part.scope
            let scope ← openScope (some front)
            sections depth stop (finished ++ [part]) ⟨scope, []⟩ false
      | .indent => append (.block (← block depth part.scope .outdent))
      | .symbol name => append (← statement depth name part.scope)
      | .outdent =>
          if stop = .outdent then quiet (Grammar.closeHere finished part)
          else throw (.unexpected token "block")
      | .endOfInput =>
          if stop = .endOfInput then quiet (Grammar.closeHere finished part)
          else throw (.unexpected token "block")
      | lexeme =>
          if lexeme.startsTerm then
            stepBack
            append (← chain depth part.scope)
          else throw (.unexpected token "block")
termination_by structural depth => depth

def statement : Nat → String → Nat → Watched Expr
  | 0, _, _ => throw .tooDeep
  | depth + 1, name, scope => do
      call .statement
      let token ← peek 0
      if name = "yield" && token.lexeme.startsTerm then
        return .yield (← chain depth scope)
      else if token.lexeme.isAssignment then
        let _ ← next
        let operand ← chain depth scope
        quiet (Parser.bind scope name (.expression operand))
        return .assignment name operand
      else
        stepBack
        chain depth scope
termination_by structural depth => depth

def chain : Nat → Nat → Watched Expr
  | 0, _ => throw .tooDeep
  | depth + 1, scope => do
      call .chain
      links depth scope []
termination_by structural depth => depth

def links : Nat → Nat → List Expr → Watched Expr
  | 0, _, _ => throw .tooDeep
  | depth + 1, scope, stack => do
      call (.link stack.length)
      let token ← peek 0
      if token.lexeme.endsChain then quiet (Grammar.settleHere stack)
      else if token.lexeme.isOperator then
        let operator ← next
        match stack with
        | [] => throw (.stackUnderflow operator.lexeme.name operator.span)
        | left :: rest =>
            let right ← term depth scope
            proceed (links depth scope) (Parser.combine operator.lexeme left right :: rest)
      else if token.lexeme = .arrow then
        let arrow ← next
        note (stack.flatMap fun expression => .replicate expression.heads .parameter)
        match stack.reverse.mapM Parser.parameterNames? with
        | none => throw (.invalidParameter arrow.span)
        | some names =>
            if names.flatten.isEmpty then throw (.invalidParameter arrow.span)
            else proceed (links depth scope) [← function depth scope names.flatten]
      else if token.lexeme.startsTerm then
        if stack.isEmpty then proceed (links depth scope) [← term depth scope]
        else throw (.stackShape (stack.length + 1) token.span)
      else throw (.unexpected token "expression")
termination_by structural depth => depth

def term : Nat → Nat → Watched Expr
  | 0, _ => throw .tooDeep
  | depth + 1, scope => do
      call .term
      let token ← next
      match token.lexeme.literal? with
      | some literal => return literal
      | none =>
          match token.lexeme with
          | .lift => return .lift (← term depth scope)
          | .openParen =>
              let inside ← chain depth scope
              let close ← next
              if close.lexeme = .closeParen then return inside
              else throw (.unexpected close "parenthesized expression")
          | .indent => return .block (← block depth scope .outdent)
          | .symbol name => application depth name scope
          | _ => throw (.unexpected token "expression")
termination_by structural depth => depth

def application : Nat → String → Nat → Watched Expr
  | 0, _, _ => throw .tooDeep
  | depth + 1, name, scope => do
      call .application
      match (← peek 0).lexeme with
      | .accessor => path depth (.reference name)
      | _ => operands depth name [] scope
termination_by structural depth => depth

def operands : Nat → String → List Expr → Nat → Watched Expr
  | 0, _, _, _ => throw .tooDeep
  | depth + 1, name, taken, scope => do
      call .operands
      if ← quiet Parser.takesOperand then
        let expression ← operand depth scope
        operands depth name (taken ++ [expression]) scope
      else quiet (Parser.reference name taken scope)
termination_by structural depth => depth

def operand : Nat → Nat → Watched Expr
  | 0, _ => throw .tooDeep
  | depth + 1, scope => do
      call .operand
      match (← peek 0).lexeme with
      | .symbol name =>
          let _ ← next
          match (← peek 0).lexeme with
          | .accessor => path depth (.reference name)
          | _ => quiet (Parser.reference name [] scope)
      | .lift =>
          let _ ← next
          return .lift (← operand depth scope)
      | _ => term depth scope
termination_by structural depth => depth

def path : Nat → Expr → Watched Expr
  | 0, _ => throw .tooDeep
  | depth + 1, target => do
      call .path
      match (← peek 0).lexeme with
      | .accessor =>
          let _ ← next
          let token ← next
          match token.lexeme with
          | .symbol field => path depth (.access target field)
          | _ => throw (.unexpected token "field access")
      | _ => return target
termination_by structural depth => depth

def function : Nat → Nat → List String → Watched Expr
  | 0, _, _ => throw .tooDeep
  | depth + 1, scope, parameters => do
      call .function
      let inner ← openScope (some scope)
      note (.replicate parameters.length .parameter)
      quiet (parameters.forM fun parameter => Parser.bind inner parameter .parameter)
      let body ← chain depth inner
      note (.replicate parameters.length .parameter)
      return Grammar.curried parameters (.scope inner body)
termination_by structural depth => depth
end

/-- A whole document. -/
def document (depth : Nat) : Watched Expr := do
  if (← get).state.stream.endsWithEnd then
    let root ← openScope none
    return .scope root (.block (← block depth root .endOfInput))
  else throw .missingEnd

/-! ## Without the history -/

section Erasure

variable {α β : Type}

/-- Where a parse has come to. -/
def finish : EStateM.Result ParseError Watch α → Watch
  | .ok _ watch => watch
  | .error _ watch => watch

/-- The end of a parse without its history. -/
def erase : EStateM.Result ParseError Watch α → EStateM.Result ParseError ParserState α
  | .ok value watch => .ok value watch.state
  | .error failure watch => .error failure watch.state

/-- A step under watch is a step of the parser. -/
def Erases (watched : Watched α) (step : Parser α) : Prop :=
  ∀ watch, erase (watched watch) = step watch.state

namespace Erases

theorem quiet (step : Parser α) : Erases (quiet step) step := by
  intro watch
  rw [Watched.quiet]
  cases step watch.state <;> rfl

theorem pure (value : α) : Erases (Pure.pure value) (Pure.pure value) := fun _ => rfl

theorem throw (failure : ParseError) :
    Erases (MonadExcept.throw failure : Watched α) (MonadExcept.throw failure) := fun _ => rfl

theorem bind {watched : Watched α} {step : Parser α} {next : α → Watched β}
    {further : α → Parser β} (first : Erases watched step)
    (second : ∀ value, Erases (next value) (further value)) :
    Erases (watched >>= next) (step >>= further) := by
  intro watch
  have same := first watch
  cases ran : watched watch with
  | ok value middle =>
    rw [ran] at same
    rw [bind_of_ok _ ran, bind_of_ok _ same.symm]
    exact second value middle
  | error failure middle =>
    rw [ran] at same
    rw [bind_of_error _ ran, bind_of_error _ same.symm]
    rfl

/-- What is noted is forgotten. -/
theorem note {watched : Watched α} {step : Parser α} (events : List Event)
    (behind : Erases watched step) : Erases (note events >>= fun _ => watched) step :=
  fun _ => behind _

theorem call (event : Event) : Erases (call event) Parser.tick := fun _ => rfl

theorem next : Erases next Parser.next := fun _ => rfl

theorem stepBack : Erases stepBack Parser.stepBack := by
  intro watch
  have same := quiet Parser.stepBack watch
  rw [Watched.stepBack]
  cases ran : Watched.quiet Parser.stepBack watch with
  | ok value middle =>
    rw [ran] at same
    rw [bind_of_ok _ ran]
    exact same
  | error failure middle =>
    rw [ran] at same
    rw [bind_of_error _ ran]
    exact same

theorem ite {watched other : Watched α} {step further : Parser α} {test : Prop} [Decidable test]
    (first : Erases watched step) (second : Erases other further) :
    Erases (if test then watched else other) (if test then step else further) := by
  split
  · exact first
  · exact second

end Erases

/-- Of a depth all procedures under watch are those of the parser. -/
structure ErasesAt (depth : Nat) : Prop where
  block : ∀ parent stop, Erases (block depth parent stop) (Parser.block depth parent stop)
  sections : ∀ stop finished part leading, Erases (sections depth stop finished part leading)
    (Parser.sections depth stop finished part leading)
  statement : ∀ name scope, Erases (statement depth name scope) (Parser.statement depth name scope)
  chain : ∀ scope, Erases (chain depth scope) (Parser.chain depth scope)
  links : ∀ scope stack, Erases (links depth scope stack) (Parser.links depth scope stack)
  term : ∀ scope, Erases (term depth scope) (Parser.term depth scope)
  application : ∀ name scope,
    Erases (application depth name scope) (Parser.application depth name scope)
  operands : ∀ name taken scope,
    Erases (operands depth name taken scope) (Parser.operands depth name taken scope)
  operand : ∀ scope, Erases (operand depth scope) (Parser.operand depth scope)
  path : ∀ target, Erases (path depth target) (Parser.path depth target)
  function : ∀ scope parameters,
    Erases (function depth scope parameters) (Parser.function depth scope parameters)

theorem erasesAt_zero : ErasesAt 0 where
  block _ _ := .throw _
  sections _ _ _ _ := .throw _
  statement _ _ := .throw _
  chain _ := .throw _
  links _ _ := .throw _
  term _ := .throw _
  application _ _ := .throw _
  operands _ _ _ := .throw _
  operand _ := .throw _
  path _ := .throw _
  function _ _ := .throw _

namespace ErasesAt

variable {depth : Nat} (erases : ErasesAt depth)

include erases

theorem next_block (parent : Nat) (stop : BlockEnd) :
    Erases (Watched.block (depth + 1) parent stop) (Parser.block (depth + 1) parent stop) := by
  rw [Watched.block, Parser.block]
  exact .bind (.call _) fun _ => .bind (.quiet _) fun scope => erases.sections _ _ _ _

theorem next_sections (stop : BlockEnd) (finished : List (Section Expr)) (part : Section Expr)
    (leading : Bool) :
    Erases (Watched.sections (depth + 1) stop finished part leading)
      (Parser.sections (depth + 1) stop finished part leading) := by
  rw [Watched.sections, Parser.sections]
  refine .bind (.call _) fun _ => .bind .next fun token => ?_
  generalize token.lexeme = lexeme
  cases lexeme with
  | newline | comment => exact erases.sections _ _ _ _
  | sectionStart =>
    refine .ite (.ite (erases.sections _ _ _ _) (.throw _)) ?_
    exact .bind (.quiet _) fun scope => erases.sections _ _ _ _
  | indent => exact .bind (erases.block _ _) fun _ => erases.sections _ _ _ _
  | symbol name => exact .bind (erases.statement _ _) fun _ => erases.sections _ _ _ _
  | outdent | endOfInput => exact .ite (.quiet _) (.throw _)
  | _ =>
    first
    | exact .throw _
    | exact .bind .stepBack fun _ => .bind (erases.chain _) fun _ => erases.sections _ _ _ _

theorem next_statement (name : String) (scope : Nat) :
    Erases (Watched.statement (depth + 1) name scope)
      (Parser.statement (depth + 1) name scope) := by
  rw [Watched.statement, Parser.statement]
  refine .bind (.call _) fun _ => .bind (.quiet _) fun token => ?_
  refine .ite (.bind (erases.chain _) fun _ => .pure _) ?_
  cases token.lexeme with
  | assignment =>
    exact .bind .next fun _ => .bind (erases.chain _) fun _ => .bind (.quiet _) fun _ => .pure _
  | _ => exact .bind .stepBack fun _ => erases.chain _

theorem next_chain (scope : Nat) :
    Erases (Watched.chain (depth + 1) scope) (Parser.chain (depth + 1) scope) := by
  rw [Watched.chain, Parser.chain]
  exact .bind (.call _) fun _ => erases.links _ _

theorem next_links (scope : Nat) (stack : List Expr) :
    Erases (Watched.links (depth + 1) scope stack) (Parser.links (depth + 1) scope stack) := by
  rw [Watched.links, Parser.links]
  refine .bind (.call _) fun _ => .bind (.quiet _) fun token => ?_
  have finish : Erases (quiet (Grammar.settleHere stack)) (Grammar.settleHere stack) := .quiet _
  have proceed (stack : List Expr) : Erases (proceed (Watched.links depth scope) stack)
      (Grammar.proceed depth scope stack) := by
    refine .note _ (.bind (.quiet _) fun token => ?_)
    cases token.lexeme with
    | outdent => exact .quiet _
    | _ => exact erases.links _ _
  have begins : Erases
      (if stack.isEmpty then do
          Watched.proceed (Watched.links depth scope) [← Watched.term depth scope]
        else throw (.stackShape (stack.length + 1) token.span))
      (if stack.isEmpty then do Grammar.proceed depth scope [← Parser.term depth scope]
        else throw (.stackShape (stack.length + 1) token.span)) :=
    .ite (.bind (erases.term _) fun _ => proceed _) (.throw _)
  dsimp only
  generalize token.lexeme = lexeme
  cases lexeme with
  | newline | outdent | endOfInput | comment | sectionStart | closeParen => exact finish
  | hardMerge | softMerge | pipeline | patternMatch =>
    refine Erases.bind .next fun operator => ?_
    cases stack with
    | nil => exact .throw _
    | cons left rest => exact .bind (erases.term _) fun right => proceed _
  | arrow =>
    refine Erases.bind .next fun arrow => .note _ ?_
    cases stack.reverse.mapM Parser.parameterNames? with
    | none => exact .throw _
    | some names =>
      exact .ite (.throw _) (.bind (erases.function _ _) fun _ => proceed _)
  | assignment | accessor | unknown => exact Erases.throw _
  | _ => exact begins

theorem next_term (scope : Nat) :
    Erases (Watched.term (depth + 1) scope) (Parser.term (depth + 1) scope) := by
  rw [Watched.term, Parser.term]
  refine .bind (.call _) fun _ => .bind .next fun token => ?_
  generalize token.lexeme = lexeme
  cases lexeme with
  | lift => exact .bind (erases.term _) fun _ => .pure _
  | openParen =>
    exact .bind (erases.chain _) fun _ => .bind .next fun _ => .ite (.pure _) (.throw _)
  | indent => exact .bind (erases.block _ _) fun _ => .pure _
  | symbol name => exact erases.application _ _
  | _ => first | exact .pure _ | exact .throw _

theorem next_application (name : String) (scope : Nat) :
    Erases (Watched.application (depth + 1) name scope)
      (Parser.application (depth + 1) name scope) := by
  rw [Watched.application, Parser.application]
  refine .bind (.call _) fun _ => .bind (.quiet _) fun token => ?_
  cases token.lexeme with
  | accessor => exact erases.path _
  | _ => exact erases.operands _ _ _

theorem next_operands (name : String) (taken : List Expr) (scope : Nat) :
    Erases (Watched.operands (depth + 1) name taken scope)
      (Parser.operands (depth + 1) name taken scope) := by
  rw [Watched.operands, Parser.operands]
  refine .bind (.call _) fun _ => .bind (.quiet _) fun takes => .ite ?_ (.quiet _)
  exact .bind (erases.operand _) fun _ => erases.operands _ _ _

theorem next_operand (scope : Nat) :
    Erases (Watched.operand (depth + 1) scope) (Parser.operand (depth + 1) scope) := by
  rw [Watched.operand, Parser.operand]
  refine .bind (.call _) fun _ => .bind (.quiet _) fun token => ?_
  cases token.lexeme with
  | symbol name =>
    refine .bind .next fun _ => .bind (.quiet _) fun behind => ?_
    cases behind.lexeme with
    | accessor => exact erases.path _
    | _ => exact .quiet _
  | lift => exact .bind .next fun _ => .bind (erases.operand _) fun _ => .pure _
  | _ => exact erases.term _

theorem next_path (target : Expr) :
    Erases (Watched.path (depth + 1) target) (Parser.path (depth + 1) target) := by
  rw [Watched.path, Parser.path]
  refine .bind (.call _) fun _ => .bind (.quiet _) fun token => ?_
  cases token.lexeme with
  | accessor =>
    refine .bind .next fun _ => .bind .next fun field => ?_
    generalize field.lexeme = lexeme
    cases lexeme with
    | symbol name => exact erases.path _
    | _ => exact .throw _
  | _ => exact .pure _

theorem next_function (scope : Nat) (parameters : List String) :
    Erases (Watched.function (depth + 1) scope parameters)
      (Parser.function (depth + 1) scope parameters) := by
  rw [Watched.function, Parser.function]
  refine .bind (.call _) fun _ => .bind (.quiet _) fun inner => .note _ ?_
  exact .bind (.quiet _) fun _ => .bind (erases.chain _) fun body => .note _ (.pure _)

end ErasesAt

theorem erasesAt (depth : Nat) : ErasesAt depth := by
  induction depth with
  | zero => exact erasesAt_zero
  | succ depth ih =>
    exact ⟨ih.next_block, ih.next_sections, ih.next_statement, ih.next_chain, ih.next_links,
      ih.next_term, ih.next_application, ih.next_operands, ih.next_operand, ih.next_path,
      ih.next_function⟩

theorem erases_document (depth : Nat) : Erases (document depth) (Parser.document depth) := by
  intro watch
  change erase ((if watch.state.stream.endsWithEnd then _ else throw .missingEnd : Watched Expr)
    watch) = (if watch.state.stream.endsWithEnd then _ else throw .missingEnd : Parser Expr)
      watch.state
  refine Erases.ite (.bind (.quiet _) fun root => ?_) (.throw _) watch
  exact .bind ((erasesAt depth).block _ _) fun _ => .pure _

end Erasure

end Watched
end Manifest
