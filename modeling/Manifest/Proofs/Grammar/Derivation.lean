import Manifest.Proofs.Grammar.Point

/-!
# The grammar of documents

A derivation says that the lexemes between two points read as an expression.
It has one rule for each thing that the parser may do, and neither depth nor
failure: where no rule applies, nothing is derived.  Scopes are opened and
filled on the way, so a derivation leads from the scopes in front of the
lexemes to the scopes behind them.
-/

namespace Manifest
namespace Grammar

/-- What is to be read at a point.  The sections of a block are read as the
block itself. -/
inductive Goal where
  | block (parent : Nat) (stop : BlockEnd)
  | sections (stop : BlockEnd) (finished : List (Section Expr)) (part : Section Expr)
      (leading : Bool)
  | statement (scope : Nat)
  | chain (scope : Nat)
  | links (scope : Nat) (stack : List Expr)
  /-- Continue a chain behind a term. -/
  | proceed (scope : Nat) (stack : List Expr)
  | term (scope : Nat)
  | application (name : String) (scope : Nat)
  | operands (name : String) (taken : List Expr) (scope : Nat)
  | operand (scope : Nat)
  | path (target : Expr)
  | function (scope : Nat) (parameters : List String)

/-- The value of a chain that ends with these expressions on its stack. -/
def settle : List Expr → Option Expr
  | [] => some .unit
  | [expression] => some expression
  | _ => none

/-- The parameters that stand on the stack in front of an arrow.  There has to
be one. -/
def parameters (stack : List Expr) : Option (List String) :=
  match stack.reverse.mapM Parser.parameterNames? with
  | some names => if names.flatten.isEmpty then none else some names.flatten
  | none => none

/-- The function of some parameters and a body, one function inside another. -/
def curried (parameters : List String) (body : Expr) : Expr :=
  parameters.foldr (fun parameter body => .function ⟨parameter, body⟩) body

/-- The sections of a block that ends behind an open section.  An empty
section is no section, and only a block without any may end in one. -/
def closed (finished : List (Section Expr)) (part : Section Expr) :
    Option (List (Section Expr)) :=
  if !part.expressions.isEmpty then some (finished ++ [part])
  else if finished.isEmpty then some []
  else none

/-- The scope in which the sections after the first stand. -/
def front (finished : List (Section Expr)) (part : Section Expr) : Nat :=
  (finished.head?.map Section.scope).getD part.scope

/-- A section with one more expression. -/
def grown (part : Section Expr) (expression : Expr) : Section Expr :=
  { part with expressions := part.expressions ++ [expression] }

/-- The function that a name stands for in a scope. -/
def definition (scopes : Scopes) (scope : Nat) (name : String) : Option (Lambda Expr) :=
  match scopes.lookup scope name with
  | some (.expression (.function lambda)) => some lambda
  | _ => none

/-- The scopes with a new one that holds parameters. -/
def withParameters (scopes : Scopes) (scope : Nat) (parameters : List String) : Scopes :=
  parameters.foldl (fun scopes parameter => scopes.bind scope parameter .parameter) scopes

/-- Whether an operand stands here: not a nested block, nor the key of an
assignment. -/
def takesOperand (point : Point) : Bool :=
  match point.next with
  | .indent => false
  | .symbol _ => !point.second.isAssignment
  | lexeme => lexeme.startsTerm

/-- Whether a chain stands here by itself: not a nested block, nor a yield,
nor an assignment. -/
def startsChain (point : Point) : Bool :=
  match point.next with
  | .indent => false
  | .symbol name => !(name = "yield" && point.second.startsTerm) && !point.second.isAssignment
  | lexeme => lexeme.startsTerm

/-- What the lexemes between two points read as. -/
inductive Derives : Goal → Point → Scopes → Expr → Point → Scopes → Prop
  | block {parent : Nat} {stop : BlockEnd} {result : Expr} {start finish : Point}
      {scopes after : Scopes} :
      Derives (.sections stop [] ⟨scopes.size, []⟩ true) start (scopes.push (some parent)).2
        result finish after →
      Derives (.block parent stop) start scopes result finish after
  /-- Line breaks and comments between expressions say nothing. -/
  | skip {stop : BlockEnd} {finished : List (Section Expr)} {part : Section Expr} {leading : Bool}
      {lexeme : Lexeme} {result : Expr} {before rest : List Lexeme} {finish : Point}
      {scopes after : Scopes} :
      lexeme.isLineBreak = true →
      Derives (.sections stop finished part leading) ⟨lexeme :: before, rest⟩ scopes
        result finish after →
      Derives (.sections stop finished part leading) ⟨before, lexeme :: rest⟩ scopes
        result finish after
  /-- A first section marker opens the block. -/
  | lead {stop : BlockEnd} {scope : Nat} {result : Expr} {before rest : List Lexeme}
      {finish : Point} {scopes after : Scopes} :
      Derives (.sections stop [] ⟨scope, []⟩ false) ⟨.sectionStart :: before, rest⟩ scopes
        result finish after →
      Derives (.sections stop [] ⟨scope, []⟩ true) ⟨before, .sectionStart :: rest⟩ scopes
        result finish after
  /-- A section marker ends a section that is not empty. -/
  | divide {stop : BlockEnd} {finished : List (Section Expr)} {part : Section Expr}
      {leading : Bool} {result : Expr} {before rest : List Lexeme} {finish : Point}
      {scopes after : Scopes} :
      part.expressions ≠ [] →
      Derives (.sections stop (finished ++ [part]) ⟨scopes.size, []⟩ false)
        ⟨.sectionStart :: before, rest⟩ (scopes.push (some (front finished part))).2
        result finish after →
      Derives (.sections stop finished part leading) ⟨before, .sectionStart :: rest⟩ scopes
        result finish after
  | state {stop : BlockEnd} {finished : List (Section Expr)} {part : Section Expr}
      {leading : Bool} {expression result : Expr} {start middle finish : Point}
      {scopes between after : Scopes} :
      Derives (.statement part.scope) start scopes expression middle between →
      Derives (.sections stop finished (grown part expression) false) middle between
        result finish after →
      Derives (.sections stop finished part leading) start scopes result finish after
  | closeBlock {finished parts : List (Section Expr)} {part : Section Expr} {leading : Bool}
      {before rest : List Lexeme} {scopes : Scopes} :
      closed finished part = some parts →
      Derives (.sections .outdent finished part leading) ⟨before, .outdent :: rest⟩ scopes
        (.block parts) ⟨.outdent :: before, rest⟩ scopes
  | closeDocument {finished parts : List (Section Expr)} {part : Section Expr} {leading : Bool}
      {before rest : List Lexeme} {scopes : Scopes} :
      closed finished part = some parts →
      Derives (.sections .endOfInput finished part leading) ⟨before, .endOfInput :: rest⟩ scopes
        (.block parts) ⟨before, .endOfInput :: rest⟩ scopes
  | nested {scope : Nat} {result : Expr} {before rest : List Lexeme} {finish : Point}
      {scopes after : Scopes} :
      Derives (.block scope .outdent) ⟨.indent :: before, rest⟩ scopes result finish after →
      Derives (.statement scope) ⟨before, .indent :: rest⟩ scopes result finish after
  | yielded {scope : Nat} {lexeme : Lexeme} {operand : Expr} {before rest : List Lexeme}
      {finish : Point} {scopes after : Scopes} :
      lexeme.startsTerm = true →
      Derives (.chain scope) ⟨.symbol "yield" :: before, lexeme :: rest⟩ scopes
        operand finish after →
      Derives (.statement scope) ⟨before, .symbol "yield" :: lexeme :: rest⟩ scopes
        (.yield operand) finish after
  | assigned {scope : Nat} {name : String} {literal : Bool} {operand : Expr}
      {before rest : List Lexeme} {finish : Point} {scopes after : Scopes} :
      Derives (.chain scope) ⟨.assignment literal :: .symbol name :: before, rest⟩ scopes
        operand finish after →
      Derives (.statement scope) ⟨before, .symbol name :: .assignment literal :: rest⟩ scopes
        (.assignment name operand) finish (after.bind scope name (.expression operand))
  | plain {scope : Nat} {result : Expr} {start finish : Point} {scopes after : Scopes} :
      startsChain start = true →
      Derives (.chain scope) start scopes result finish after →
      Derives (.statement scope) start scopes result finish after
  | chain {scope : Nat} {result : Expr} {start finish : Point} {scopes after : Scopes} :
      Derives (.links scope []) start scopes result finish after →
      Derives (.chain scope) start scopes result finish after
  | finish {scope : Nat} {stack : List Expr} {lexeme : Lexeme} {result : Expr}
      {before rest : List Lexeme} {scopes : Scopes} :
      lexeme.endsChain = true → settle stack = some result →
      Derives (.links scope stack) ⟨before, lexeme :: rest⟩ scopes
        result ⟨before, lexeme :: rest⟩ scopes
  | operator {scope : Nat} {stack : List Expr} {lexeme : Lexeme} {left right result : Expr}
      {before rest : List Lexeme} {middle finish : Point} {scopes between after : Scopes} :
      lexeme.isOperator = true →
      Derives (.term scope) ⟨lexeme :: before, rest⟩ scopes right middle between →
      Derives (.proceed scope (Parser.combine lexeme left right :: stack)) middle between
        result finish after →
      Derives (.links scope (left :: stack)) ⟨before, lexeme :: rest⟩ scopes result finish after
  | arrow {scope : Nat} {stack : List Expr} {names : List String} {function result : Expr}
      {before rest : List Lexeme} {middle finish : Point} {scopes between after : Scopes} :
      parameters stack = some names →
      Derives (.function scope names) ⟨.arrow :: before, rest⟩ scopes function middle between →
      Derives (.proceed scope [function]) middle between result finish after →
      Derives (.links scope stack) ⟨before, .arrow :: rest⟩ scopes result finish after
  | begin {scope : Nat} {expression result : Expr} {start middle finish : Point}
      {scopes between after : Scopes} :
      start.next.startsTerm = true →
      Derives (.term scope) start scopes expression middle between →
      Derives (.proceed scope [expression]) middle between result finish after →
      Derives (.links scope []) start scopes result finish after
  /-- A nested block is the last part of its chain. -/
  | behindBlock {scope : Nat} {stack : List Expr} {result : Expr} {start : Point}
      {scopes : Scopes} :
      start.previous = .outdent → settle stack = some result →
      Derives (.proceed scope stack) start scopes result start scopes
  | further {scope : Nat} {stack : List Expr} {result : Expr} {start finish : Point}
      {scopes after : Scopes} :
      start.previous ≠ .outdent →
      Derives (.links scope stack) start scopes result finish after →
      Derives (.proceed scope stack) start scopes result finish after
  | literal {scope : Nat} {lexeme : Lexeme} {result : Expr} {before rest : List Lexeme}
      {scopes : Scopes} :
      lexeme.literal? = some result →
      Derives (.term scope) ⟨before, lexeme :: rest⟩ scopes result ⟨lexeme :: before, rest⟩ scopes
  | lifted {scope : Nat} {operand : Expr} {before rest : List Lexeme} {finish : Point}
      {scopes after : Scopes} :
      Derives (.term scope) ⟨.lift :: before, rest⟩ scopes operand finish after →
      Derives (.term scope) ⟨before, .lift :: rest⟩ scopes (.lift operand) finish after
  | grouped {scope : Nat} {inside : Expr} {within behind : List Lexeme}
      {before rest : List Lexeme} {scopes after : Scopes} :
      Derives (.chain scope) ⟨.openParen :: before, rest⟩ scopes
        inside ⟨within, .closeParen :: behind⟩ after →
      Derives (.term scope) ⟨before, .openParen :: rest⟩ scopes
        inside ⟨.closeParen :: within, behind⟩ after
  | inner {scope : Nat} {result : Expr} {before rest : List Lexeme} {finish : Point}
      {scopes after : Scopes} :
      Derives (.block scope .outdent) ⟨.indent :: before, rest⟩ scopes result finish after →
      Derives (.term scope) ⟨before, .indent :: rest⟩ scopes result finish after
  | named {scope : Nat} {name : String} {result : Expr} {before rest : List Lexeme}
      {finish : Point} {scopes after : Scopes} :
      Derives (.application name scope) ⟨.symbol name :: before, rest⟩ scopes
        result finish after →
      Derives (.term scope) ⟨before, .symbol name :: rest⟩ scopes result finish after
  | selected {scope : Nat} {name : String} {result : Expr} {start finish : Point}
      {scopes after : Scopes} :
      start.next = .accessor →
      Derives (.path (.reference name)) start scopes result finish after →
      Derives (.application name scope) start scopes result finish after
  | applied {scope : Nat} {name : String} {result : Expr} {start finish : Point}
      {scopes after : Scopes} :
      start.next ≠ .accessor →
      Derives (.operands name [] scope) start scopes result finish after →
      Derives (.application name scope) start scopes result finish after
  | more {scope : Nat} {name : String} {taken : List Expr} {expression result : Expr}
      {start middle finish : Point} {scopes between after : Scopes} :
      takesOperand start = true →
      Derives (.operand scope) start scopes expression middle between →
      Derives (.operands name (taken ++ [expression]) scope) middle between result finish after →
      Derives (.operands name taken scope) start scopes result finish after
  | enough {scope : Nat} {name : String} {taken : List Expr} {start : Point} {scopes : Scopes} :
      takesOperand start = false →
      Derives (.operands name taken scope) start scopes
        (.application name taken (definition scopes scope name)) start scopes
  /-- As an operand, a name takes no operands of its own. -/
  | bareName {scope : Nat} {name : String} {before rest : List Lexeme} {scopes : Scopes} :
      (⟨.symbol name :: before, rest⟩ : Point).next ≠ .accessor →
      Derives (.operand scope) ⟨before, .symbol name :: rest⟩ scopes
        (.application name [] (definition scopes scope name)) ⟨.symbol name :: before, rest⟩ scopes
  | selectedOperand {scope : Nat} {name : String} {result : Expr} {before rest : List Lexeme}
      {finish : Point} {scopes after : Scopes} :
      (⟨.symbol name :: before, rest⟩ : Point).next = .accessor →
      Derives (.path (.reference name)) ⟨.symbol name :: before, rest⟩ scopes
        result finish after →
      Derives (.operand scope) ⟨before, .symbol name :: rest⟩ scopes result finish after
  | liftedOperand {scope : Nat} {operand : Expr} {before rest : List Lexeme} {finish : Point}
      {scopes after : Scopes} :
      Derives (.operand scope) ⟨.lift :: before, rest⟩ scopes operand finish after →
      Derives (.operand scope) ⟨before, .lift :: rest⟩ scopes (.lift operand) finish after
  | simple {scope : Nat} {result : Expr} {start finish : Point} {scopes after : Scopes} :
      (∀ name, start.next ≠ .symbol name) → start.next ≠ .lift →
      Derives (.term scope) start scopes result finish after →
      Derives (.operand scope) start scopes result finish after
  | field {target result : Expr} {name : String} {before rest : List Lexeme} {finish : Point}
      {scopes after : Scopes} :
      Derives (.path (.access target name)) ⟨.symbol name :: .accessor :: before, rest⟩ scopes
        result finish after →
      Derives (.path target) ⟨before, .accessor :: .symbol name :: rest⟩ scopes
        result finish after
  | reached {target : Expr} {start : Point} {scopes : Scopes} :
      start.next ≠ .accessor →
      Derives (.path target) start scopes target start scopes
  | body {scope : Nat} {names : List String} {body : Expr} {start finish : Point}
      {scopes after : Scopes} :
      Derives (.chain scopes.size) start
        (withParameters (scopes.push (some scope)).2 scopes.size names) body finish after →
      Derives (.function scope names) start scopes (curried names (.scope scopes.size body))
        finish after

end Grammar
end Manifest
