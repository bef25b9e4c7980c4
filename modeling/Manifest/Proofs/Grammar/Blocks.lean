import Manifest.Proofs.Grammar.Nesting

/-!
# The blocks of a document

A block is written in the lexemes between its opening and its end.  The blocks of
a document are compared with these texts in the order of their openings, so the
definitions that names carry are left out: each is a copy of a function that
stands elsewhere.
-/

namespace Manifest

/-! ## The texts of blocks -/

/-- The lexemes up to the end of the level that is open in front of them.  The
levels that are opened on the way are passed with their ends. -/
def levelOf : Nat → List Lexeme → List Lexeme
  | _, [] => []
  | depth, .indent :: rest => .indent :: levelOf (depth + 1) rest
  | 0, .outdent :: _ => []
  | depth + 1, .outdent :: rest => .outdent :: levelOf depth rest
  | depth, lexeme :: rest => lexeme :: levelOf depth rest

/-- The texts of the nested blocks, in the order of their openings. -/
def blockTexts : List Lexeme → List (List Lexeme)
  | [] => []
  | .indent :: rest => levelOf 0 rest :: blockTexts rest
  | _ :: rest => blockTexts rest

/-- What stands directly in a block.  Of a nested block that is its opening. -/
def direct : Nat → List Lexeme → List Lexeme
  | _, [] => []
  | 0, .indent :: rest => .indent :: direct 1 rest
  | depth + 1, .indent :: rest => direct (depth + 2) rest
  | depth, .outdent :: rest => direct (depth - 1) rest
  | 0, lexeme :: rest => lexeme :: direct 0 rest
  | depth + 1, _ :: rest => direct (depth + 1) rest

variable {lexeme : Lexeme} {front inside : List Lexeme}

theorem levelOf_plain (noBracket : lexeme.isBracket = false) (depth : Nat) (rest : List Lexeme) :
    levelOf depth (lexeme :: rest) = lexeme :: levelOf depth rest := by
  cases lexeme <;> first | (cases depth <;> rfl) | cases noBracket

theorem blockTexts_plain (noBracket : lexeme.isBracket = false) (rest : List Lexeme) :
    blockTexts (lexeme :: rest) = blockTexts rest := by
  cases lexeme <;> first | rfl | cases noBracket

theorem direct_plain (noBracket : lexeme.isBracket = false) (rest : List Lexeme) :
    direct 0 (lexeme :: rest) = lexeme :: direct 0 rest := by
  cases lexeme <;> first | rfl | cases noBracket

theorem direct_deeper_plain (noBracket : lexeme.isBracket = false) (depth : Nat)
    (rest : List Lexeme) : direct (depth + 1) (lexeme :: rest) = direct (depth + 1) rest := by
  cases lexeme <;> first | rfl | cases noBracket

/-- A level does not end in nested lexemes. -/
theorem Nested.levelOf_append (nested : Nested front) (depth : Nat) (rest : List Lexeme) :
    levelOf depth (front ++ rest) = front ++ levelOf depth rest := by
  induction nested generalizing depth rest with
  | nil => rfl
  | plain noBracket _ ih =>
    rw [List.cons_append, levelOf_plain noBracket, ih, List.cons_append]
  | @level inside behind _ _ ihInside ihBehind =>
    have opened : ∀ rest, levelOf depth (.indent :: rest) = .indent :: levelOf (depth + 1) rest :=
      fun rest => by cases depth <;> rfl
    have ended : ∀ rest, levelOf (depth + 1) (.outdent :: rest) = .outdent :: levelOf depth rest :=
      fun _ => rfl
    rw [List.cons_append, List.append_assoc, List.cons_append, opened, ihInside, ended, ihBehind]
    simp only [List.cons_append, List.append_assoc]
  | @group inside behind _ _ ihInside ihBehind =>
    have opened : ∀ rest, levelOf depth (.openParen :: rest) = .openParen :: levelOf depth rest :=
      fun rest => by cases depth <;> rfl
    have ended : ∀ rest, levelOf depth (.closeParen :: rest) = .closeParen :: levelOf depth rest :=
      fun rest => by cases depth <;> rfl
    rw [List.cons_append, List.append_assoc, List.cons_append, opened, ihInside, ended, ihBehind]
    simp only [List.cons_append, List.append_assoc]

theorem Nested.levelOf_outdent (nested : Nested inside) (rest : List Lexeme) :
    levelOf 0 (inside ++ .outdent :: rest) = inside := by
  rw [nested.levelOf_append]
  exact List.append_nil _

theorem Nested.blockTexts_append (nested : Nested front) (rest : List Lexeme) :
    blockTexts (front ++ rest) = blockTexts front ++ blockTexts rest := by
  induction nested generalizing rest with
  | nil => rfl
  | plain noBracket _ ih =>
    rw [List.cons_append, blockTexts_plain noBracket, blockTexts_plain noBracket, ih]
  | @level inside behind nested _ ihInside ihBehind =>
    rw [List.cons_append, List.append_assoc, List.cons_append, blockTexts, blockTexts,
      nested.levelOf_outdent, nested.levelOf_outdent, ihInside, ihInside, blockTexts, blockTexts,
      ihBehind]
    · rw [List.cons_append, List.append_assoc]
    all_goals rintro ⟨⟩
  | @group inside behind _ _ ihInside ihBehind =>
    rw [List.cons_append, List.append_assoc, List.cons_append, blockTexts, blockTexts,
      ihInside, ihInside, blockTexts, blockTexts, ihBehind]
    · rw [List.append_assoc]
    all_goals rintro ⟨⟩

theorem Nested.blockTexts_level (nested : Nested inside) (rest : List Lexeme) :
    blockTexts (.indent :: (inside ++ .outdent :: rest)) =
      inside :: (blockTexts inside ++ blockTexts rest) := by
  rw [blockTexts, nested.levelOf_outdent, nested.blockTexts_append, blockTexts]
  rintro ⟨⟩

/-- Nothing of a nested level stands directly in the block around it. -/
theorem Nested.direct_deeper (nested : Nested front) (depth : Nat) (rest : List Lexeme) :
    direct (depth + 1) (front ++ rest) = direct (depth + 1) rest := by
  induction nested generalizing depth rest with
  | nil => rfl
  | plain noBracket _ ih => rw [List.cons_append, direct_deeper_plain noBracket, ih]
  | @level inside behind _ _ ihInside ihBehind =>
    have ended : ∀ rest, direct (depth + 2) (.outdent :: rest) = direct (depth + 1) rest :=
      fun _ => rfl
    rw [List.cons_append, List.append_assoc, List.cons_append, direct, ihInside, ended, ihBehind]
  | @group inside behind _ _ ihInside ihBehind =>
    have opened : ∀ rest, direct (depth + 1) (.openParen :: rest) = direct (depth + 1) rest :=
      fun _ => rfl
    have ended : ∀ rest, direct (depth + 1) (.closeParen :: rest) = direct (depth + 1) rest :=
      fun _ => rfl
    rw [List.cons_append, List.append_assoc, List.cons_append, opened, ihInside, ended, ihBehind]

theorem Nested.direct_level (nested : Nested inside) (rest : List Lexeme) :
    direct 0 (.indent :: (inside ++ .outdent :: rest)) = .indent :: direct 0 rest := by
  rw [direct, nested.direct_deeper]
  rfl

theorem Nested.direct_append (nested : Nested front) (rest : List Lexeme) :
    direct 0 (front ++ rest) = direct 0 front ++ direct 0 rest := by
  induction nested generalizing rest with
  | nil => rfl
  | plain noBracket _ ih =>
    rw [List.cons_append, direct_plain noBracket, direct_plain noBracket, ih, List.cons_append]
  | @level inside behind nested _ _ ihBehind =>
    rw [List.cons_append, List.append_assoc, List.cons_append, nested.direct_level,
      nested.direct_level, ihBehind, List.cons_append]
  | @group inside behind _ _ ihInside ihBehind =>
    have opened : ∀ rest, direct 0 (.openParen :: rest) = .openParen :: direct 0 rest :=
      fun _ => rfl
    have ended : ∀ rest, direct 0 (.closeParen :: rest) = .closeParen :: direct 0 rest :=
      fun _ => rfl
    rw [List.cons_append, List.append_assoc, List.cons_append, opened, opened, ihInside, ihInside,
      ended, ended, ihBehind]
    simp only [List.cons_append, List.append_assoc]

/-- The first of nested lexemes stands directly in their block. -/
theorem Nested.direct_ne_nil (nested : Nested front) (filled : front ≠ []) :
    direct 0 front ≠ [] := by
  cases nested with
  | nil => exact absurd rfl filled
  | plain noBracket =>
    rw [direct_plain noBracket]
    exact List.cons_ne_nil _ _
  | level nested =>
    rw [nested.direct_level]
    exact List.cons_ne_nil _ _
  | group => exact List.cons_ne_nil _ _

/-! ## The blocks of an expression -/

mutual
/-- The sections of each block in an expression, in the order of the text. -/
def Expr.blocks : Expr → List (List (Section Expr))
  | .unit | .scalar _ => []
  | .vector items => blocksOfAll items
  | .assignment _ operand | .lift operand | .yield operand | .access operand _
  | .scope _ operand => operand.blocks
  | .application _ operands _ => blocksOfAll operands
  | .function lambda => lambda.blocks
  | .merge left right _ | .pipeline left right | .patternMatch left right =>
      left.blocks ++ right.blocks
  | .block sections => sections :: blocksOfSections sections
termination_by structural expression => expression

def blocksOfAll : List Expr → List (List (Section Expr))
  | [] => []
  | expression :: rest => expression.blocks ++ blocksOfAll rest
termination_by structural expressions => expressions

def Lambda.blocks : Lambda Expr → List (List (Section Expr))
  | ⟨_, body⟩ => body.blocks
termination_by structural lambda => lambda

def blocksOfSections : List (Section Expr) → List (List (Section Expr))
  | [] => []
  | part :: rest => part.blocks ++ blocksOfSections rest
termination_by structural sections => sections

def Section.blocks : Section Expr → List (List (Section Expr))
  | ⟨_, expressions⟩ => blocksOfAll expressions
termination_by structural part => part
end

theorem blocksOfAll_append (first second : List Expr) :
    blocksOfAll (first ++ second) = blocksOfAll first ++ blocksOfAll second := by
  induction first with
  | nil => rfl
  | cons expression first ih =>
    rw [List.cons_append, blocksOfAll, ih, blocksOfAll, List.append_assoc]

theorem blocksOfSections_append (first second : List (Section Expr)) :
    blocksOfSections (first ++ second) = blocksOfSections first ++ blocksOfSections second := by
  induction first with
  | nil => rfl
  | cons part first ih =>
    rw [List.cons_append, blocksOfSections, ih, blocksOfSections, List.append_assoc]

theorem blocksOfAll_singleton (expression : Expr) : blocksOfAll [expression] = expression.blocks :=
  List.append_nil _

theorem blocksOfAll_eq_nil {expressions : List Expr}
    (none : ∀ expression ∈ expressions, expression.blocks = []) : blocksOfAll expressions = [] := by
  induction expressions with
  | nil => rfl
  | cons expression rest ih =>
    rcases List.forall_mem_cons.mp none with ⟨first, others⟩
    rw [blocksOfAll, first, ih others, List.append_nil]

namespace Grammar

variable {result : Expr}

/-- The blocks of what a goal goes on from, in the order of the text.  The latest
expression of a chain lies on top of its stack. -/
def Goal.blocks : Goal → List (List (Section Expr))
  | .sections _ finished part _ => blocksOfSections (finished ++ [part])
  | .links _ stack | .proceed _ stack => blocksOfAll stack.reverse
  | .operands _ taken _ => blocksOfAll taken
  | .path target => target.blocks
  | _ => []

theorem blocks_settle {stack : List Expr} (settled : settle stack = some result) :
    result.blocks = blocksOfAll stack.reverse := by
  cases stack with
  | nil =>
    cases settled
    rfl
  | cons expression stack =>
    cases stack with
    | nil =>
      cases settled
      exact (blocksOfAll_singleton _).symm
    | cons second stack => cases settled

theorem blocks_combine (lexeme : Lexeme) (left right : Expr) :
    (Parser.combine lexeme left right).blocks = left.blocks ++ right.blocks := by
  cases lexeme <;> rfl

theorem blocks_curried (names : List String) (body : Expr) :
    (curried names body).blocks = body.blocks := by
  induction names with
  | nil => rfl
  | cons name names ih => exact ih

theorem blocks_literal {lexeme : Lexeme} (reads : lexeme.literal? = some result) :
    result.blocks = [] := by
  cases lexeme <;> cases reads <;> rfl

theorem blocks_stack_cons (left : Expr) (stack : List Expr) :
    blocksOfAll (left :: stack).reverse = blocksOfAll stack.reverse ++ left.blocks := by
  rw [List.reverse_cons, blocksOfAll_append, blocksOfAll_singleton]

theorem blocks_grown (finished : List (Section Expr)) (part : Section Expr) (expression : Expr) :
    blocksOfSections (finished ++ [grown part expression]) =
      blocksOfSections (finished ++ [part]) ++ expression.blocks := by
  rcases part with ⟨id, expressions⟩
  simp only [grown, blocksOfSections_append, blocksOfSections, Section.blocks, blocksOfAll_append,
    blocksOfAll_singleton, List.append_nil, List.append_assoc]

theorem blocks_closed {finished parts : List (Section Expr)} {part : Section Expr}
    (ended : closed finished part = some parts) :
    blocksOfSections parts = blocksOfSections (finished ++ [part]) := by
  rw [closed] at ended
  split at ended
  · cases ended
    rfl
  · rename_i empty
    split at ended
    · rename_i none
      cases ended
      rcases part with ⟨id, expressions⟩
      have empty : expressions = [] := by simpa using empty
      rw [List.isEmpty_iff.mp none, empty]
      rfl
    · cases ended

theorem blocks_of_bareName? {name : String} (bare : Parser.bareName? result = some name) :
    result.blocks = [] := by
  cases result with
  | application _ operands =>
    cases operands with
    | nil => rfl
    | cons => cases bare
  | _ => cases bare

theorem mem_of_mapM_eq_some {α β : Type} {f : α → Option β} {items : List α} {images : List β}
    (mapped : items.mapM f = some images) : ∀ item ∈ items, ∃ image, f item = some image := by
  induction items generalizing images with
  | nil => exact fun _ none => nomatch none
  | cons first rest ih =>
    rw [List.mapM_cons] at mapped
    rcases Option.bind_eq_some_iff.mp mapped with ⟨image, found, mapped⟩
    rcases Option.bind_eq_some_iff.mp mapped with ⟨others, mapped, _⟩
    exact List.forall_mem_cons.mpr ⟨⟨image, found⟩, ih mapped⟩

/-- What stands in front of an arrow are names, and no blocks. -/
theorem blocks_parameters {stack : List Expr} {names : List String}
    (named : parameters stack = some names) : blocksOfAll stack.reverse = [] := by
  rw [parameters] at named
  split at named
  · rename_i mapped
    refine blocksOfAll_eq_nil fun expression member => ?_
    rcases mem_of_mapM_eq_some mapped expression member with ⟨read, found⟩
    cases expression with
    | application name operands definition =>
      rcases Option.map_eq_some_iff.mp found with ⟨others, mapped, _⟩
      refine blocksOfAll_eq_nil fun operand member => ?_
      rcases mem_of_mapM_eq_some mapped operand member with ⟨_, bare⟩
      exact blocks_of_bareName? bare
    | _ => cases found
  · cases named

end Grammar
end Manifest
