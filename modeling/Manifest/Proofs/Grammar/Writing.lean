import Manifest.Proofs.Grammar.Derivation

/-!
# Writing expressions

An expression is written for the grammar by putting every compound part of it
in parentheses.  Names, paths and literals need none.  What the lexemes do not
tell is left open: the columns of further lines, whether an assignment is
literal, and parentheses around what could stand without them.
-/

namespace Manifest

/-! ## Outlines -/

mutual
/-- An expression without the numbers of its scopes and the definitions of its
names. -/
def Expr.outline : Expr → Expr
  | .unit => .unit
  | .scalar value => .scalar value
  | .vector items => .vector (outlineAll items)
  | .assignment key operand => .assignment key operand.outline
  | .application name operands _ => .application name (outlineAll operands) none
  | .function lambda => .function lambda.outline
  | .lift operand => .lift operand.outline
  | .merge left right mode => .merge left.outline right.outline mode
  | .yield operand => .yield operand.outline
  | .block sections => .block (outlineSections sections)
  | .scope _ operand => .scope 0 operand.outline
  | .pipeline left right => .pipeline left.outline right.outline
  | .patternMatch subject pattern => .patternMatch subject.outline pattern.outline
  | .access target field => .access target.outline field
termination_by structural expression => expression

def outlineAll : List Expr → List Expr
  | [] => []
  | expression :: rest => expression.outline :: outlineAll rest
termination_by structural expressions => expressions

def Lambda.outline : Lambda Expr → Lambda Expr
  | ⟨parameter, body⟩ => ⟨parameter, body.outline⟩
termination_by structural lambda => lambda

def outlineSections : List (Section Expr) → List (Section Expr)
  | [] => []
  | part :: rest => part.outline :: outlineSections rest
termination_by structural sections => sections

def Section.outline : Section Expr → Section Expr
  | ⟨_, expressions⟩ => ⟨0, outlineAll expressions⟩
termination_by structural part => part
end

@[simp] theorem outlineAll_eq (expressions : List Expr) :
    outlineAll expressions = expressions.map Expr.outline := by
  induction expressions with
  | nil => rfl
  | cons expression rest ih => exact congrArg (expression.outline :: ·) ih

@[simp] theorem outlineSections_eq (sections : List (Section Expr)) :
    outlineSections sections = sections.map Section.outline := by
  induction sections with
  | nil => rfl
  | cons part rest ih => exact congrArg (part.outline :: ·) ih

namespace Grammar

/-! ## Phrases -/

/-- An expression with the lexemes that write it. -/
structure Phrase where
  expression : Expr
  lexemes : List Lexeme

/-- A section with the phrases that write it, one on each line.  There is a
column in front of every line but the first. -/
structure Passage where
  scope : Nat
  first : Phrase
  others : List (Nat × Phrase)

namespace Passage

def phrases (passage : Passage) : List Phrase :=
  passage.first :: passage.others.map Prod.snd

def part (passage : Passage) : Section Expr :=
  ⟨passage.scope, passage.phrases.map Phrase.expression⟩

/-- Further lines, each behind the end of the line in front of it. -/
def linesBehind (lines : List (Nat × Phrase)) : List Lexeme :=
  lines.flatMap fun line => .newline line.1 :: line.2.lexemes

def lexemes (passage : Passage) : List Lexeme :=
  passage.first.lexemes ++ linesBehind passage.others

/-- Further sections, each behind a marker. -/
def passagesBehind (passages : List Passage) : List Lexeme :=
  passages.flatMap fun passage => .sectionStart :: passage.lexemes

/-- All sections of a block, with markers in between. -/
def lexemesOf : List Passage → List Lexeme
  | [] => []
  | first :: others => first.lexemes ++ passagesBehind others

end Passage

/-- Where something is written. -/
inductive Place where
  /-- As one operand among others. -/
  | operand
  /-- Alone between parentheses. -/
  | inside
  /-- As an expression of a section. -/
  | statement
  /-- As the sections of a block. -/
  | block

/-- The sign of a merge. -/
def mergeSign : MergeMode → Lexeme
  | .hard => .hardMerge
  | .soft => .softMerge

/-- The path of some fields that begins at a name. -/
def pathOf (name : String) (definition : Option (Lambda Expr)) (fields : List String) : Expr :=
  fields.foldl .access (.application name [] definition)

/-- The fields of a path behind its name. -/
def fieldsBehind (fields : List String) : List Lexeme :=
  fields.flatMap fun field => [.accessor, .symbol field]

/-- Some lexemes write an expression at a place. -/
inductive Writes : Place → Expr → List Lexeme → Prop
  | literal {lexeme : Lexeme} {value : Expr} :
      lexeme.literal? = some value → Writes .operand value [lexeme]
  /-- A name, with the fields behind it if there are any. -/
  | path (name : String) (definition : Option (Lambda Expr)) (fields : List String) :
      Writes .operand (pathOf name definition fields) (.symbol name :: fieldsBehind fields)
  | grouped {expression : Expr} {lexemes : List Lexeme} :
      Writes .inside expression lexemes →
      Writes .operand expression (.openParen :: (lexemes ++ [.closeParen]))
  | alone {expression : Expr} {lexemes : List Lexeme} :
      Writes .operand expression lexemes → Writes .inside expression lexemes
  | unit : Writes .inside .unit []
  | application (name : String) (operands : List Phrase) (definition : Option (Lambda Expr)) :
      (∀ operand ∈ operands, Writes .operand operand.expression operand.lexemes) →
      Writes .inside (.application name (operands.map Phrase.expression) definition)
        (.symbol name :: operands.flatMap Phrase.lexemes)
  | lift {operand : Expr} {lexemes : List Lexeme} :
      Writes .operand operand lexemes → Writes .inside (.lift operand) (.lift :: lexemes)
  | merge {left right : Expr} {front behind : List Lexeme} (mode : MergeMode) :
      Writes .operand left front → Writes .operand right behind →
      Writes .inside (.merge left right mode) (front ++ mergeSign mode :: behind)
  | pipeline {left right : Expr} {front behind : List Lexeme} :
      Writes .operand left front → Writes .operand right behind →
      Writes .inside (.pipeline left right) (front ++ .pipeline :: behind)
  | patternMatch {subject pattern : Expr} {front behind : List Lexeme} :
      Writes .operand subject front → Writes .operand pattern behind →
      Writes .inside (.patternMatch subject pattern) (front ++ .patternMatch :: behind)
  /-- A function of one parameter or several. -/
  | function {body : Expr} {lexemes : List Lexeme} (scope : Nat) (first : String)
      (others : List String) :
      Writes .operand body lexemes →
      Writes .inside (curried (first :: others) (.scope scope body))
        ((first :: others).map .symbol ++ .arrow :: lexemes)
  | nested {block : Expr} {lexemes : List Lexeme} :
      Writes .block block lexemes → Writes .inside block (.indent :: (lexemes ++ [.outdent]))
  | block (passages : List Passage) :
      (∀ passage ∈ passages, ∀ phrase ∈ passage.phrases,
        Writes .statement phrase.expression phrase.lexemes) →
      Writes .block (.block (passages.map Passage.part)) (Passage.lexemesOf passages)
  | assigned {operand : Expr} {lexemes : List Lexeme} (key : String) (literal : Bool) :
      Writes .operand operand lexemes →
      Writes .statement (.assignment key operand) (.symbol key :: .assignment literal :: lexemes)
  | yielded {operand : Expr} {lexemes : List Lexeme} :
      Writes .operand operand lexemes →
      Writes .statement (.yield operand) (.symbol "yield" :: lexemes)
  | plain {expression : Expr} {lexemes : List Lexeme} :
      Writes .operand expression lexemes → Writes .statement expression lexemes

/-! ## What can be written -/

/-- The expressions that can be written as operands, and with them the
expressions of sections. -/
inductive Writable : Place → Expr → Prop
  | unit : Writable .operand .unit
  | literal {lexeme : Lexeme} {value : Expr} :
      lexeme.literal? = some value → Writable .operand value
  | path (name : String) (definition : Option (Lambda Expr)) (fields : List String) :
      Writable .operand (pathOf name definition fields)
  | application (name : String) {operands : List Expr} (definition : Option (Lambda Expr)) :
      (∀ operand ∈ operands, Writable .operand operand) →
      Writable .operand (.application name operands definition)
  | lift {operand : Expr} : Writable .operand operand → Writable .operand (.lift operand)
  | merge {left right : Expr} (mode : MergeMode) :
      Writable .operand left → Writable .operand right →
      Writable .operand (.merge left right mode)
  | pipeline {left right : Expr} :
      Writable .operand left → Writable .operand right → Writable .operand (.pipeline left right)
  | patternMatch {subject pattern : Expr} :
      Writable .operand subject → Writable .operand pattern →
      Writable .operand (.patternMatch subject pattern)
  | function {body : Expr} (scope : Nat) (first : String) (others : List String) :
      Writable .operand body →
      Writable .operand (curried (first :: others) (.scope scope body))
  /-- No section is empty. -/
  | block {sections : List (Section Expr)} :
      (∀ part ∈ sections, part.expressions ≠ []) →
      (∀ part ∈ sections, ∀ expression ∈ part.expressions, Writable .statement expression) →
      Writable .operand (.block sections)
  | assigned {operand : Expr} (key : String) :
      Writable .operand operand → Writable .statement (.assignment key operand)
  | yielded {operand : Expr} :
      Writable .operand operand → Writable .statement (.yield operand)
  | plain {expression : Expr} : Writable .operand expression → Writable .statement expression

/-- Expressions that can be written one by one can be written together. -/
theorem exists_phrases {place : Place} {expressions : List Expr}
    (written : ∀ expression ∈ expressions, ∃ lexemes, Writes place expression lexemes) :
    ∃ phrases : List Phrase, phrases.map Phrase.expression = expressions ∧
      ∀ phrase ∈ phrases, Writes place phrase.expression phrase.lexemes := by
  induction expressions with
  | nil => exact ⟨[], rfl, fun _ none => nomatch none⟩
  | cons expression rest ih =>
    rcases List.forall_mem_cons.mp written with ⟨⟨lexemes, first⟩, written⟩
    rcases ih written with ⟨phrases, rfl, others⟩
    exact ⟨⟨expression, lexemes⟩ :: phrases, rfl, List.forall_mem_cons.mpr ⟨first, others⟩⟩

/-- A section that is not empty can be written if its expressions can. -/
theorem exists_passage {part : Section Expr} (filled : part.expressions ≠ [])
    (written : ∀ expression ∈ part.expressions, ∃ lexemes, Writes .statement expression lexemes) :
    ∃ passage : Passage, passage.part = part ∧
      ∀ phrase ∈ passage.phrases, Writes .statement phrase.expression phrase.lexemes := by
  rcases part with ⟨scope, expressions⟩
  rcases exists_phrases written with ⟨phrases, rfl, writes⟩
  cases phrases with
  | nil => exact absurd rfl filled
  | cons first others =>
    have same : (Passage.mk scope first (others.map fun phrase => (0, phrase))).phrases =
        first :: others := by
      rw [Passage.phrases, List.map_map]
      exact congrArg (first :: ·) (List.map_id others)
    refine ⟨⟨scope, first, others.map fun phrase => (0, phrase)⟩, ?_, ?_⟩
    · rw [Passage.part, same]
    · rw [same]
      exact writes

theorem exists_passages {sections : List (Section Expr)}
    (filled : ∀ part ∈ sections, part.expressions ≠ [])
    (written : ∀ part ∈ sections, ∀ expression ∈ part.expressions,
      ∃ lexemes, Writes .statement expression lexemes) :
    ∃ passages : List Passage, passages.map Passage.part = sections ∧
      ∀ passage ∈ passages, ∀ phrase ∈ passage.phrases,
        Writes .statement phrase.expression phrase.lexemes := by
  induction sections with
  | nil => exact ⟨[], rfl, fun _ none => nomatch none⟩
  | cons part rest ih =>
    rcases List.forall_mem_cons.mp filled with ⟨some, filledRest⟩
    rcases List.forall_mem_cons.mp written with ⟨here, writtenRest⟩
    rcases ih filledRest writtenRest with ⟨passages, rfl, others⟩
    rcases exists_passage some here with ⟨passage, rfl, first⟩
    exact ⟨passage :: passages, rfl, List.forall_mem_cons.mpr ⟨first, others⟩⟩

/-- What can be written is written by some lexemes. -/
theorem Writable.exists_writes {place : Place} {expression : Expr}
    (writable : Writable place expression) : ∃ lexemes, Writes place expression lexemes := by
  induction writable with
  | unit => exact ⟨_, .grouped .unit⟩
  | literal reads => exact ⟨_, .literal reads⟩
  | path name definition fields => exact ⟨_, .path name definition fields⟩
  | application name definition _ ih =>
    rcases exists_phrases ih with ⟨phrases, rfl, writes⟩
    exact ⟨_, .grouped (.application name phrases definition writes)⟩
  | lift _ ih =>
    rcases ih with ⟨lexemes, writes⟩
    exact ⟨_, .grouped (.lift writes)⟩
  | merge mode _ _ first second =>
    rcases first with ⟨front, left⟩
    rcases second with ⟨behind, right⟩
    exact ⟨_, .grouped (.merge mode left right)⟩
  | pipeline _ _ first second =>
    rcases first with ⟨front, left⟩
    rcases second with ⟨behind, right⟩
    exact ⟨_, .grouped (.pipeline left right)⟩
  | patternMatch _ _ first second =>
    rcases first with ⟨front, subject⟩
    rcases second with ⟨behind, pattern⟩
    exact ⟨_, .grouped (.patternMatch subject pattern)⟩
  | function scope first others _ ih =>
    rcases ih with ⟨lexemes, writes⟩
    exact ⟨_, .grouped (.function scope first others writes)⟩
  | block filled _ ih =>
    rcases exists_passages filled ih with ⟨passages, rfl, writes⟩
    exact ⟨_, .grouped (.nested (.block passages writes))⟩
  | assigned key _ ih =>
    rcases ih with ⟨lexemes, writes⟩
    exact ⟨_, .assigned key false writes⟩
  | yielded _ ih =>
    rcases ih with ⟨lexemes, writes⟩
    exact ⟨_, .yielded writes⟩
  | plain _ ih =>
    rcases ih with ⟨lexemes, writes⟩
    exact ⟨_, .plain writes⟩

end Grammar
end Manifest
