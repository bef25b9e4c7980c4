import Manifest.Document.Error
import Manifest.Expr.Scope
import Manifest.Token.Stream

/-!
# From tokens to a document

The parser descends from blocks to statements, chains, terms and operands.
It reads a stream, opens scopes as it meets sections and function bodies, and
counts its own calls and rounds.  The nesting allowance of the procedures
only makes their recursion evident.
-/

namespace Manifest

/-- The state of a parse. -/
structure ParserState where
  stream : Stream
  scopes : Scopes
  /-- Calls of parsing procedures and rounds of their loops so far. -/
  work : Nat

/-- A step of parsing.  A failure keeps the state in which it arose. -/
abbrev Parser := EStateM ParseError ParserState

/-- What closes a block. -/
inductive BlockEnd where
  | outdent
  | endOfInput
deriving DecidableEq

namespace Parser

/-! ## Access to the state -/

def next : Parser Token := do
  let state ← get
  let (token, stream) := state.stream.next
  set { state with stream }
  return token

def peek (distance : Int) : Parser Token := do
  return (← get).stream.peek distance

/-- Give the last token back. -/
def stepBack : Parser Unit := do
  let state ← get
  match state.stream.backtrack? 1 with
  | some stream => set { state with stream }
  | none => throw (.backtrack 1 state.stream.position)

def openScope (parent : Option Nat) : Parser Nat := do
  let state ← get
  let (id, scopes) := state.scopes.push parent
  set { state with scopes }
  return id

def bind (scope : Nat) (name : String) (binding : Binding) : Parser Unit :=
  modify fun state => { state with scopes := state.scopes.bind scope name binding }

/-- Count one call or round. -/
def tick : Parser Unit :=
  modify fun state => { state with work := state.work + 1 }

/-! ## Pieces without recursion -/

/-- Join two operands. -/
def combine (operator : Lexeme) (left right : Expr) : Expr :=
  match operator with
  | .softMerge => .merge left right .soft
  | .pipeline => .pipeline left right
  | .patternMatch => .patternMatch left right
  | _ => .merge left right .hard

/-- The name of a reference without operands. -/
def bareName? : Expr → Option String
  | .application name [] _ => some name
  | _ => none

/-- Read what stands before an arrow as parameter names: `x y ->` arrives as
`x` applied to `y`. -/
def parameterNames? : Expr → Option (List String)
  | .application name operands _ => (operands.mapM bareName?).map (name :: ·)
  | _ => none

/-- The reference to a name, with the function that it stands for in its scope. -/
def reference (name : String) (operands : List Expr) (scope : Nat) : Parser Expr := do
  let definition :=
    match (← get).scopes.lookup scope name with
    | some (.expression (.function lambda)) => some lambda
    | _ => none
  return .application name operands definition

/-- Whether the next token continues a list of operands.  A nested block does
not, nor does the key of an assignment. -/
def takesOperand : Parser Bool := do
  let token ← peek 0
  match token.lexeme with
  | .indent => return false
  | .symbol _ =>
      match (← peek 1).lexeme with
      | .assignment _ => return false
      | _ => return true
  | lexeme => return lexeme.startsTerm

/-! ## Procedures -/

mutual
/-- The sections of a block, up to its end. -/
def block : Nat → Nat → BlockEnd → Parser (List (Section Expr))
  | 0, _, _ => throw .tooDeep
  | depth + 1, parent, stop => do
      tick
      let scope ← openScope (some parent)
      sections depth stop [] ⟨scope, []⟩ true
termination_by structural depth => depth

/-- Continue a block behind its finished sections and the open one.  A first
section marker in front of everything opens the block and makes no section. -/
def sections : Nat → BlockEnd → List (Section Expr) → Section Expr → Bool →
    Parser (List (Section Expr))
  | 0, _, _, _, _ => throw .tooDeep
  | depth + 1, stop, finished, part, leading => do
      tick
      let token ← next
      let close : Parser (List (Section Expr)) := do
        if !part.expressions.isEmpty then return finished ++ [part]
        else if finished.isEmpty then return []
        else throw (.emptySection (← peek (-1)).span)
      let append (expression : Expr) : Parser (List (Section Expr)) :=
        sections depth stop finished { part with expressions := part.expressions ++ [expression] }
          false
      match token.lexeme with
      | .newline _ | .comment _ => sections depth stop finished part leading
      | .sectionStart =>
          if part.expressions.isEmpty then
            if finished.isEmpty && leading then sections depth stop finished part false
            else throw (.emptySection token.span)
          else
            let front := (finished.head?.map Section.scope).getD part.scope
            let scope ← openScope (some front)
            sections depth stop (finished ++ [part]) ⟨scope, []⟩ false
      | .indent => append (.block (← block depth part.scope .outdent))
      | .symbol name => append (← statement depth name part.scope)
      | .outdent => if stop = .outdent then close else throw (.unexpected token "block")
      | .endOfInput => if stop = .endOfInput then close else throw (.unexpected token "block")
      | lexeme =>
          if lexeme.startsTerm then
            stepBack
            append (← chain depth part.scope)
          else throw (.unexpected token "block")
termination_by structural depth => depth

/-- A statement whose first name has been read. -/
def statement : Nat → String → Nat → Parser Expr
  | 0, _, _ => throw .tooDeep
  | depth + 1, name, scope => do
      tick
      let token ← peek 0
      if name = "yield" && token.lexeme.startsTerm then
        return .yield (← chain depth scope)
      else
        match token.lexeme with
        | .assignment _ =>
            let _ ← next
            let operand ← chain depth scope
            bind scope name (.expression operand)
            return .assignment name operand
        | _ =>
            stepBack
            chain depth scope
termination_by structural depth => depth

/-- The right-hand side of a statement, the inside of parentheses or a
function body.  An empty chain is the unit. -/
def chain : Nat → Nat → Parser Expr
  | 0, _ => throw .tooDeep
  | depth + 1, scope => do
      tick
      links depth scope []
termination_by structural depth => depth

/-- Continue a chain with the expressions read so far on a stack.  A nested
block ends the chain, since what follows belongs to the block around it. -/
def links : Nat → Nat → List Expr → Parser Expr
  | 0, _, _ => throw .tooDeep
  | depth + 1, scope, stack => do
      tick
      let token ← peek 0
      let finish (stack : List Expr) : Parser Expr := do
        match stack with
        | [] => return .unit
        | [expression] => return expression
        | _ => throw (.stackShape stack.length (← peek 0).span)
      let proceed (stack : List Expr) : Parser Expr := do
        match (← peek (-1)).lexeme with
        | .outdent => finish stack
        | _ => links depth scope stack
      match token.lexeme with
      | .newline _ | .outdent | .endOfInput | .comment _ | .sectionStart | .closeParen =>
          finish stack
      | .hardMerge | .softMerge | .pipeline | .patternMatch =>
          let operator ← next
          match stack with
          | [] => throw (.stackUnderflow operator.lexeme.name operator.span)
          | left :: rest =>
              let right ← term depth scope
              proceed (combine operator.lexeme left right :: rest)
      | .arrow =>
          let arrow ← next
          match stack.reverse.mapM parameterNames? with
          | none => throw (.invalidParameter arrow.span)
          | some names =>
              if names.flatten.isEmpty then throw (.invalidParameter arrow.span)
              else proceed [← function depth scope names.flatten]
      | lexeme =>
          if lexeme.startsTerm then
            if stack.isEmpty then proceed [← term depth scope]
            else throw (.stackShape (stack.length + 1) token.span)
          else throw (.unexpected token "expression")
termination_by structural depth => depth

/-- A literal, a group, a lift, a nested block or an application. -/
def term : Nat → Nat → Parser Expr
  | 0, _ => throw .tooDeep
  | depth + 1, scope => do
      tick
      let token ← next
      match token.lexeme with
      | .text value => return .scalar (.text value)
      | .number value => return .scalar (.number value)
      | .boolean value => return .scalar (.boolean value)
      | .emptyMapping => return .scalar (.mapping [])
      | .emptySequence => return .vector []
      | .lift => return .lift (← term depth scope)
      | .openParen =>
          let inside ← chain depth scope
          let close ← next
          if close.lexeme = .closeParen then return inside
          else throw (.unexpected close "parenthesized expression")
      | .indent => return .block (← block depth scope .outdent)
      | .symbol name => application depth name scope
      | _ => throw (.unexpected token "expression")
termination_by structural depth => depth

/-- A name that has been read, with the path or the operands behind it. -/
def application : Nat → String → Nat → Parser Expr
  | 0, _, _ => throw .tooDeep
  | depth + 1, name, scope => do
      tick
      match (← peek 0).lexeme with
      | .accessor => path depth (.reference name)
      | _ => operands depth name [] scope
termination_by structural depth => depth

/-- Continue a list of operands.  Every term is one, up to a token that cannot
begin one. -/
def operands : Nat → String → List Expr → Nat → Parser Expr
  | 0, _, _, _ => throw .tooDeep
  | depth + 1, name, taken, scope => do
      tick
      if ← takesOperand then
        let expression ← operand depth scope
        operands depth name (taken ++ [expression]) scope
      else reference name taken scope
termination_by structural depth => depth

/-- One operand.  A name takes no operands of its own here. -/
def operand : Nat → Nat → Parser Expr
  | 0, _ => throw .tooDeep
  | depth + 1, scope => do
      tick
      match (← peek 0).lexeme with
      | .symbol name =>
          let _ ← next
          match (← peek 0).lexeme with
          | .accessor => path depth (.reference name)
          | _ => reference name [] scope
      | .lift =>
          let _ ← next
          return .lift (← operand depth scope)
      | _ => term depth scope
termination_by structural depth => depth

/-- Continue a path of fields. -/
def path : Nat → Expr → Parser Expr
  | 0, _ => throw .tooDeep
  | depth + 1, target => do
      tick
      match (← peek 0).lexeme with
      | .accessor =>
          let _ ← next
          let token ← next
          match token.lexeme with
          | .symbol field => path depth (.access target field)
          | _ => throw (.unexpected token "field access")
      | _ => return target
termination_by structural depth => depth

/-- The function of some parameters, with the cursor on its body.  Parameters
shadow outer names. -/
def function : Nat → Nat → List String → Parser Expr
  | 0, _, _ => throw .tooDeep
  | depth + 1, scope, parameters => do
      tick
      let inner ← openScope (some scope)
      parameters.forM fun parameter => bind inner parameter .parameter
      let body ← chain depth inner
      return parameters.foldr (fun parameter body => .function ⟨parameter, body⟩)
        (.scope inner body)
termination_by structural depth => depth
end

/-- A whole document. -/
def document (depth : Nat) : Parser Expr := do
  if (← get).stream.endsWithEnd then
    let root ← openScope none
    return .scope root (.block (← block depth root .endOfInput))
  else throw .missingEnd

end Parser

namespace Document

/-- The nesting that is allowed for a number of tokens. -/
def depthFor (count : Nat) : Nat := 16 * count + 16

/-- Parse a token sequence, with the state in which the parse ends. -/
def parse (tokens : List Token) : EStateM.Result ParseError ParserState Expr :=
  Parser.document (depthFor tokens.length) ⟨.ofTokens tokens, .empty, 0⟩

/-- The document of a token sequence. -/
def ofTokens (tokens : List Token) : Except ParseError Document :=
  match parse tokens with
  | .ok root state => .ok ⟨root, state.scopes⟩
  | .error failure _ => .error failure

end Document
end Manifest
