import Manifest.Proofs.Evaluation.Adequacy
import Manifest.Proofs.Merging
import Manifest.Proofs.Scan.Pieces

/-!
# Merges regroup

A merge of bound names is read, parsed and evaluated along its tree, whose inner merges stand
in parentheses.  Where a merge is to be evaluated, the cardinality of neither side is known
from the text, so the values decide between adding to a sequence and merging.  The two agree
wherever sequences meet only sequences or nothing, and then three values can be merged in
either grouping.
-/

namespace Manifest

/-! ## Merges of names -/

/-- A merge of names. -/
inductive Merging where
  | name (key : Key)
  | merge (left right : Merging)

def MergeMode.sign : MergeMode → List Char
  | .hard => ['+']
  | .soft => ['+', '?']

def MergeMode.lexeme : MergeMode → Lexeme
  | .hard => .hardMerge
  | .soft => .softMerge

namespace Merging

variable {mode : MergeMode} {left right tree : Merging} {bindings : Value.Bindings}

/-- Two operands with the sign of a merge between them. -/
def joined (mode : MergeMode) (left right : List Char) : List Char :=
  left ++ ' ' :: (mode.sign ++ ' ' :: right)

/-- An operand of a merge.  A merge inside of another stands in parentheses. -/
def operand (mode : MergeMode) : Merging → List Char
  | name key => key.name.toList
  | merge left right => '(' :: (joined mode (left.operand mode) (right.operand mode) ++ [')'])

/-- The source of the merge of two operands. -/
def source (mode : MergeMode) (left right : Merging) : String :=
  String.ofList (joined mode (left.operand mode) (right.operand mode))

def lexemes (mode : MergeMode) : Merging → List Lexeme
  | name key => [.symbol key.name]
  | merge left right =>
      .openParen :: (left.lexemes mode ++ mode.lexeme :: right.lexemes mode ++ [.closeParen])

/-- The expression of a merge, where some names stand for functions in the text around it. -/
def expr (mode : MergeMode) (define : String → Option (Lambda Expr)) : Merging → Expr
  | name key => .application key.name [] (define key.name)
  | merge left right => .merge (left.expr mode define) (right.expr mode define) mode

/-- All names of a merge are bound. -/
def Bound (bindings : Value.Bindings) : Merging → Prop
  | name key => ∃ value, Fields.get? bindings key.name = some value
  | merge left right => left.Bound bindings ∧ right.Bound bindings

/-- What comes out of a merge of bound names. -/
def outcome (mode : MergeMode) (bindings : Value.Bindings) : Merging → Except EvalError Value
  | name key => .ok ((Fields.get? bindings key.name).getD .unit)
  | merge left right => do
      let target ← left.outcome mode bindings
      let addition ← right.outcome mode bindings
      (Evaluator.mergeValues .unknown mode target addition).outcome

/-! ## Reading -/

theorem startsContent_operand (mode : MergeMode) (tree : Merging) :
    StartsContent (tree.operand mode) := by
  cases tree with
  | name key => exact key.startsContent
  | merge left right => exact ⟨_, _, rfl, by decide⟩

/-- A merge stands on one line. -/
theorem notMem_joined (mode : MergeMode) {first second : List Char} {mark : Char}
    (ends : mark ∈ ['\n', '\r']) (notFirst : mark ∉ first) (notSecond : mark ∉ second) :
    mark ∉ joined mode first second := by
  have foreign : ∀ mark ∈ ['\n', '\r'], mark ≠ ' ' ∧ mark ∉ mode.sign := by
    cases mode <;> exact List.all_iff_forall_prop.mp (by decide)
  rcases foreign mark ends with ⟨noGap, noSign⟩
  exact List.not_mem_append notFirst
    (List.not_mem_cons_of_ne_of_not_mem noGap (List.not_mem_append noSign
      (List.not_mem_cons_of_ne_of_not_mem noGap notSecond)))

theorem notMem_operand (mode : MergeMode) (tree : Merging) {mark : Char}
    (ends : mark ∈ ['\n', '\r']) : mark ∉ tree.operand mode := by
  induction tree with
  | name key =>
    have foreign : ∀ mark ∈ ['\n', '\r'], isSymbolChar mark = false :=
      List.all_iff_forall_prop.mp (by decide)
    intro inside
    cases (foreign mark ends).symm.trans (isSymbolChar_of_whole key.whole mark inside)
  | merge left right notLeft notRight =>
    have foreign : ∀ mark ∈ ['\n', '\r'], mark ≠ '(' ∧ mark ∉ [')'] :=
      List.all_iff_forall_prop.mp (by decide)
    rcases foreign mark ends with ⟨noOpen, noClose⟩
    exact List.not_mem_cons_of_ne_of_not_mem noOpen
      (List.not_mem_append (notMem_joined mode ends notLeft notRight) noClose)

/-- The tokens of an operand end with a word or a parenthesis. -/
theorem exists_latest (mode : MergeMode) (tree : Merging) :
    ∃ front latest, tree.lexemes mode = front ++ [latest] ∧ latest.isLayout = false := by
  cases tree with
  | name key => exact ⟨[], _, rfl, rfl⟩
  | merge left right => exact ⟨_, .closeParen, List.cons_append.symm, rfl⟩

section

open Scanner

variable {first second tail : List Char} {front behind : List Lexeme}

theorem readsOver_sign (mode : MergeMode) (tail : List Char) :
    ReadsOver mode.sign (' ' :: tail) [mode.lexeme] := by
  cases mode with
  | hard => exact @ReadsOver.mark _ _ _ "+" rfl ⟨_, _, rfl, by decide⟩ (by decide) rfl
  | soft => exact @ReadsOver.mark _ _ _ "+?" rfl ⟨_, _, rfl, by decide⟩ (by decide) rfl

theorem readsOver_joined
    (reads : ReadsOver first (' ' :: (mode.sign ++ ' ' :: second) ++ tail) front)
    (further : ReadsOver second tail behind) :
    ReadsOver (joined mode first second) tail (front ++ mode.lexeme :: behind) := by
  have sign : ReadsOver mode.sign (' ' :: second ++ tail) [mode.lexeme] :=
    readsOver_sign mode (second ++ tail)
  exact reads.append (sign.append further.gap).gap

theorem readsOver_grouped (reads : ReadsOver first (')' :: tail) front) :
    ReadsOver ('(' :: (first ++ [')'])) tail (.openParen :: (front ++ [.closeParen])) := by
  have opens : ReadsOver ['('] (first ++ [')'] ++ tail) [.openParen] :=
    @ReadsOver.mark _ _ _ "(" rfl ⟨_, _, rfl, by decide⟩ (by decide) rfl
  have closes : ReadsOver [')'] tail [.closeParen] :=
    @ReadsOver.mark _ _ _ ")" rfl ⟨_, _, rfl, by decide⟩ (by decide) rfl
  exact opens.append (reads.append closes)

/-- An operand is read as its tokens. -/
theorem readsOver_operand (mode : MergeMode) (tree : Merging) (ends : EndsWord tail) :
    ReadsOver (tree.operand mode) tail (tree.lexemes mode) := by
  induction tree generalizing tail with
  | name key => exact .word key ends
  | merge left right readsLeft readsRight =>
    exact readsOver_grouped (readsOver_joined (readsLeft (endsWord_gap _))
      (readsRight (endsWord_closeParen _)))

end

/-- The source of a merge is read without diagnostics. -/
theorem readsAs_source (mode : MergeMode) (left right : Merging) :
    ReadsAs (source mode left right)
      (left.lexemes mode ++ mode.lexeme :: right.lexemes mode ++ [.endOfInput]) := by
  have notMem : ∀ {mark : Char}, mark ∈ ['\n', '\r'] →
      mark ∉ joined mode (left.operand mode) (right.operand mode) := fun ends =>
    notMem_joined mode ends (left.notMem_operand mode ends) (right.notMem_operand mode ends)
  have reads : Scanner.ReadsOver (joined mode (left.operand mode) (right.operand mode)) ['\n']
      (left.lexemes mode ++ mode.lexeme :: right.lexemes mode) :=
    readsOver_joined (left.readsOver_operand mode (endsWord_gap _))
      (right.readsOver_operand mode (endsWord_newline []))
  have spelled : (source mode left right).toList =
      joined mode (left.operand mode) (right.operand mode) := String.toList_ofList
  have starts : StartsContent (source mode left right).toList :=
    spelled ▸ (left.startsContent_operand mode).append _
  rcases right.exists_latest mode with ⟨front, latest, spoken, noLayout⟩
  rw [spoken, ← List.cons_append, ← List.append_assoc] at reads ⊢
  rw [← spelled] at reads notMem
  exact readsAs_of_readsOver starts (notMem (by decide)) (.of_notMem (notMem (by decide)))
    noLayout reads

/-! ## Parsing -/

section

open Grammar

variable {scope : Nat} {closing : Lexeme} {before rest : List Lexeme} {scopes : Scopes}

theorem startsTerm_lexemes (mode : MergeMode) (tree : Merging) (rest : List Lexeme) :
    (Point.next ⟨before, tree.lexemes mode ++ rest⟩).startsTerm = true := by
  cases tree <;> rfl

/-- An operand is a term, up to what can neither continue it nor select a field. -/
def ReadsTerm (mode : MergeMode) (tree : Merging) : Prop :=
  ∀ (scope : Nat) (scopes : Scopes) (closing : Lexeme) (before rest : List Lexeme),
    closing.startsTerm = false → closing ≠ .accessor →
    ∃ latest last, latest.isLayout = false ∧
      Derives (.term scope) ⟨before, tree.lexemes mode ++ closing :: rest⟩ scopes
        (tree.expr mode (definition scopes scope)) ⟨latest :: last, closing :: rest⟩ scopes

/-- Two operands are a chain. -/
theorem chain_of_terms (reads : left.ReadsTerm mode) (further : right.ReadsTerm mode)
    (closes : closing.endsChain = true) :
    ∃ last, Derives (.chain scope)
      ⟨before, left.lexemes mode ++ mode.lexeme :: (right.lexemes mode ++ closing :: rest)⟩ scopes
      ((left.merge right).expr mode (definition scopes scope)) ⟨last, closing :: rest⟩ scopes := by
  have operator : mode.lexeme.isOperator = true ∧ mode.lexeme.startsTerm = false ∧
      mode.lexeme ≠ .accessor := by
    cases mode <;> decide
  have stops : closing.startsTerm = false ∧ closing ≠ .accessor := by
    cases closing <;> first | (cases closes; done) | exact ⟨rfl, fun none => nomatch none⟩
  have within : ∀ {latest : Lexeme} {last rest : List Lexeme}, latest.isLayout = false →
      Point.previous ⟨latest :: last, rest⟩ ≠ .outdent := by
    rintro latest last rest noLayout rfl
    cases noLayout
  rcases reads scope scopes mode.lexeme before (right.lexemes mode ++ closing :: rest) operator.2.1
    operator.2.2 with ⟨latest, last, noLayout, first⟩
  rcases further scope scopes closing (mode.lexeme :: latest :: last) rest stops.1 stops.2 with
    ⟨newest, final, stillNone, second⟩
  have combined : Parser.combine mode.lexeme (left.expr mode (definition scopes scope))
      (right.expr mode (definition scopes scope)) =
        (left.merge right).expr mode (definition scopes scope) := by
    cases mode <;> rfl
  have ended : Derives (.proceed scope [(left.merge right).expr mode (definition scopes scope)])
      ⟨newest :: final, closing :: rest⟩ scopes
      ((left.merge right).expr mode (definition scopes scope))
      ⟨newest :: final, closing :: rest⟩ scopes := .further (within stillNone) (.finish closes rfl)
  rw [← combined] at ended ⊢
  exact ⟨_, .chain (.begin (left.startsTerm_lexemes mode _) first
    (.further (within noLayout) (.operator operator.1 second ended)))⟩

theorem readsTerm (mode : MergeMode) (tree : Merging) : tree.ReadsTerm mode := by
  induction tree with
  | name key =>
    intro scope scopes closing before rest noTerm noAccessor
    have enough : takesOperand ⟨.symbol key.name :: before, closing :: rest⟩ = false := by
      cases closing <;> first | rfl | cases noTerm
    exact ⟨.symbol key.name, before, rfl, .named (.applied noAccessor (.enough enough))⟩
  | merge left right reads further =>
    intro scope scopes closing before rest _ _
    rcases @chain_of_terms mode left right scope .closeParen (.openParen :: before)
      (closing :: rest) scopes reads further rfl with ⟨last, inside⟩
    refine ⟨.closeParen, last, rfl, ?_⟩
    rw [lexemes, List.cons_append, List.append_assoc, List.append_assoc]
    exact .grouped inside

/-- The source of a merge compiles to a program of one expression. -/
theorem compile_source (mode : MergeMode) (left right : Merging) :
    ∃ define scopes, compile (source mode left right) =
      .ok ⟨⟨⟨.scope 0 (.block [⟨1, [(left.merge right).expr mode define]⟩]), scopes⟩⟩, []⟩ := by
  rcases @chain_of_terms mode left right 1 .endOfInput [] []
    ((Scopes.empty.push none).2.push (some 0)).2 (readsTerm mode left) (readsTerm mode right) rfl
    with ⟨last, chain⟩
  have starts : startsChain (.ofLexemes
      (left.lexemes mode ++ mode.lexeme :: (right.lexemes mode ++ [.endOfInput]))) = true := by
    cases left with
    | name key =>
      have noYield : (!(decide (key.name = "yield") && false) && !false) = true := by
        rw [Bool.and_false]
        rfl
      cases mode <;> exact noYield
    | merge => rfl
  have statement : Derives (.statement 1) (.ofLexemes
      (left.lexemes mode ++ mode.lexeme :: (right.lexemes mode ++ [.endOfInput])))
      ((Scopes.empty.push none).2.push (some 0)).2 _ ⟨last, [.endOfInput]⟩ _ := .plain starts chain
  have reads := readsAs_source mode left right
  rw [List.append_assoc, List.cons_append] at reads
  refine ⟨_, _, compile_of_reads reads ?_
    ⟨_, _, .block (.state statement (.closeDocument rfl)), rfl⟩⟩
  rw [← List.cons_append, ← List.append_assoc]
  exact List.getLast?_concat

end

end Merging

/-! ## Evaluation -/

/-- The end of a step that has an outcome and leaves the memory as it is. -/
def Memory.ending {α : Type} (memory : Memory) :
    Except EvalError α → EStateM.Result EvalError Memory α
  | .ok value => .ok value memory
  | .error failure => .error failure memory

theorem Memory.bind_of_ending {α β : Type} {step : Machine α} {next : α → Machine β}
    {memory after : Memory} {first : Except EvalError α} {second : α → Except EvalError β}
    (ran : step memory = after.ending first)
    (further : ∀ value, next value after = after.ending (second value)) :
    (step >>= next) memory = after.ending (first >>= second) := by
  cases first with
  | ok value => exact (Stepwise.bind_of_ok _ ran).trans (further value)
  | error failure => exact Stepwise.bind_eq_error.mpr (.inl ran)

theorem Machine.Settled.eq_ending {step : Machine Value} (settled : step.Settled)
    (memory : Memory) : step memory = memory.ending step.outcome := by
  cases settled with
  | ok value known =>
    rw [known, Machine.outcome, known]
    rfl
  | error failure _ known =>
    rw [known, Machine.outcome, known]
    rfl

namespace Evaluator

open Stepwise

variable {eval : Evaluator} {frame owner : Nat} {memory : Memory} {name : String} {value : Value}
  {left right : Expr} {mode : MergeMode} {first second : Except EvalError Value}

/-- A name that is bound to a value has that value. -/
theorem step_name {define : Option (Lambda Expr)}
    (bound : memory.owner? frame name = some (owner, .ready value)) :
    step eval (.application name [] define) frame memory = memory.ending (.ok value) := by
  have got : (get : Machine Memory) memory = .ok memory memory := rfl
  have resolved : eval.resolve name frame memory = .ok (.value value) memory := by
    rw [resolve, bind_of_ok _ got, bound]
    rfl
  have applied : eval.apply name define frame memory.arguments.length memory =
      .ok value memory := by
    rw [apply, bind_of_ok _ (Machine.attempt_of_ok resolved)]
    rfl
  have waiting : Machine.waiting memory = .ok memory.arguments.length memory := rfl
  have dropped := @Machine.dropArguments_eq memory memory.arguments [] rfl
  have attempted : Machine.attempt (do
      eval.pushOperands frame memory.arguments.length []
      eval.apply name define frame memory.arguments.length) memory = .ok (.ok value) memory :=
    Machine.attempt_of_ok applied
  rw [step, application, bind_of_ok _ waiting, bind_of_ok _ attempted, bind_of_ok _ dropped]
  rfl

/-- A merge evaluates one side after the other. -/
theorem step_merge (unknown : left.cardinality = .unknown)
    (target : eval left frame memory = memory.ending first)
    (addition : eval right frame memory = memory.ending second) :
    step eval (.merge left right mode) frame memory = memory.ending (do
      let target ← first
      let addition ← second
      (mergeValues .unknown mode target addition).outcome) := by
  rw [step, unknown]
  refine Memory.bind_of_ending target fun targetValue => ?_
  refine Memory.bind_of_ending addition fun additionValue => ?_
  exact (settled_mergeValues .unknown mode targetValue additionValue).eq_ending memory

/-- A block of one expression evaluates it in a frame of its own. -/
theorem step_only {operand : Expr} {scope : Nat} (noAssignment : operand.isAssignment = false)
    (noYield : operand.isYield = false)
    (ran : eval operand memory.frames.size (enterSection memory frame [operand]) =
      (enterSection memory frame [operand]).ending first) :
    step eval (.block [⟨scope, [operand]⟩]) frame memory =
      (enterSection memory frame [operand]).ending first := by
  have gathers : eval.gatherAll memory.frames.size .empty [operand] = do
      let value ← eval operand memory.frames.size
      return { Harvest.empty with trailing := some value } := by
    cases operand with
    | assignment => cases noAssignment
    | yield => cases noYield
    | _ => simp only [gatherAll, gather, bind_pure]
  have opened := Machine.openFrame_eq memory (slots ⟨[], some frame⟩ [operand])
  have gathered : eval.gatherAll memory.frames.size .empty [operand]
      (enterSection memory frame [operand]) = (enterSection memory frame [operand]).ending
        (first >>= fun value => .ok { Harvest.empty with trailing := some value }) := by
    rw [gathers]
    exact Memory.bind_of_ending ran fun _ => rfl
  have evaluated : eval.sectionValue frame ⟨scope, [operand]⟩ memory =
      (enterSection memory frame [operand]).ending
        ((first >>= fun value => .ok { Harvest.empty with trailing := some value }) >>=
          fun harvest => .ok (harvest.value, memory.frames.size)) := by
    rw [sectionValue, bind_of_ok _ opened]
    exact Memory.bind_of_ending gathered fun _ => rfl
  have whole := @Memory.bind_of_ending _ _ _ (fun entered => pure entered.1) _ _ _
    (fun entered => .ok entered.1) evaluated fun _ => rfl
  rw [step, blockValue, whole]
  cases first <;> rfl

end Evaluator

namespace Merging

variable {mode : MergeMode} {left right tree : Merging} {bindings : Value.Bindings}
  {define : String → Option (Lambda Expr)}

theorem cardinality_expr (tree : Merging) : (tree.expr mode define).cardinality = .unknown := by
  induction tree with
  | name key => rfl
  | merge left right unknown _ => exact unknown

/-- A merge of bound names has its outcome wherever the bindings are in sight. -/
theorem evaluate_expr {frame depth : Nat} {memory : Memory}
    (inSight : ∀ {name value}, Fields.get? bindings name = some value →
      memory.owner? frame name = some (0, .ready value))
    (bound : tree.Bound bindings) (fits : (tree.expr mode define).size ≤ depth) :
    evaluate depth (tree.expr mode define) frame memory =
      memory.ending (tree.outcome mode bindings) := by
  induction tree generalizing depth with
  | name key =>
    rcases bound with ⟨value, bound⟩
    cases depth with
    | zero => cases fits
    | succ depth =>
      rw [outcome, bound]
      exact Evaluator.step_name (inSight bound)
  | merge left right evaluatesLeft evaluatesRight =>
    cases depth with
    | zero => cases fits
    | succ depth =>
      rw [expr, Expr.size] at fits
      exact Evaluator.step_merge left.cardinality_expr (evaluatesLeft bound.1 (by omega))
        (evaluatesRight bound.2 (by omega))

/-- A name is found among the bindings of the caller. -/
theorem get?_ofBindings {name : String} {value : Value}
    (bound : Fields.get? bindings name = some value) :
    (Frame.ofBindings bindings).get? name = some (.ready value) := by
  induction bindings with
  | nil => cases bound
  | cons field rest ih =>
    rcases field with ⟨key, held⟩
    rw [Frame.get?, Frame.ofBindings, List.map_cons]
    dsimp only
    by_cases same : key = name
    · rw [Fields.get?, if_pos same, Option.some.injEq] at bound
      rw [List.find?_cons_of_pos (by simpa using same), bound]
      rfl
    · rw [Fields.get?, if_neg same] at bound
      rw [List.find?_cons_of_neg (by simpa using same)]
      exact ih bound

/-- The bindings are in sight of the only section. -/
theorem owner?_enterSection {name : String} {value : Value} (expression : Expr)
    (noAssignment : expression.isAssignment = false)
    (bound : Fields.get? bindings name = some value) :
    (Evaluator.enterSection (.ofBindings bindings) 0 [expression]).owner? 1 name =
      some (0, .ready value) := by
  have empty : Evaluator.slots ⟨[], some 0⟩ [expression] = ⟨[], some 0⟩ := by
    cases expression <;> first | rfl | cases noAssignment
  have outer : (Evaluator.enterSection (.ofBindings bindings) 0 [expression]).slot? 0 name =
      some (.ready value) := get?_ofBindings bound
  have inner : (Evaluator.enterSection (.ofBindings bindings) 0 [expression]).slot? 1 name =
      none := by
    rw [Evaluator.enterSection, empty]
    rfl
  have around : (Evaluator.enterSection (.ofBindings bindings) 0 [expression]).parent? 1 =
      some 0 := by
    rw [Evaluator.enterSection, empty]
    rfl
  rw [Memory.owner?_outward inner around Nat.one_pos, Memory.owner?_here outer]

/-- The program of a merge evaluates to its outcome. -/
theorem evaluate_program {scopes : Scopes} (bound : (left.merge right).Bound bindings) :
    Program.evaluate ⟨⟨.scope 0 (.block [⟨1, [(left.merge right).expr mode define]⟩]), scopes⟩⟩
      bindings = (left.merge right).outcome mode bindings := by
  generalize same : (left.merge right).expr mode define = operand
  have plain : operand.isAssignment = false ∧ operand.isYield = false := same ▸ ⟨rfl, rfl⟩
  have ran := @evaluate_expr mode (left.merge right) bindings define 1 (4000 + operand.size) _
    (owner?_enterSection operand plain.1) bound (same ▸ Nat.le_add_left _ _)
  rw [same] at ran
  have evaluated := @Evaluator.step_only _ _ _ _ operand 1 plain.1 plain.2 ran
  have depth : Program.depthFor (.scope 0 (.block [⟨1, [operand]⟩])) =
      4000 + operand.size + 1 + 1 := by
    simp only [Program.depthFor, Expr.size, Expr.sizeSections, Expr.sizeSection, Expr.sizeList]
    omega
  rw [Program.evaluate]
  dsimp only
  rw [depth, evaluate, Evaluator.step, evaluate, evaluated]
  cases (left.merge right).outcome mode bindings <;> rfl

end Merging

/-! ## Regrouping -/

namespace Value

variable {mode : MergeMode} {path : List String} {left right merged : Value} {sequences : Bool}

/-- Where there are sequences, all else is missing, and elsewhere no value is a sequence. -/
def Belongs : (sequences : Bool) → Value → Prop
  | true, value => value.isSequence = true ∨ value = .unit
  | false, value => value.isSequence = false

/-- A merge stays among the values that its sides are from. -/
theorem belongs_merge (canonical : left.Canonical) (further : right.Canonical)
    (among : left.Belongs sequences) (alike : right.Belongs sequences)
    (joined : left.merge mode path right = .ok merged) : merged.Belongs sequences := by
  cases (merge_eq_ok_iff canonical further).mp joined with
  | fresh => exact alike
  | kept => exact among
  | joined =>
    cases sequences with
    | true => exact .inl rfl
    | false => cases among
  | fieldwise =>
    cases sequences with
    | true => rcases among with among | among <;> cases among
    | false => rfl
  | conflict =>
    cases mode with
    | hard => exact alike
    | soft => exact among

/-- Among sequences, adding to a value is merging into it. -/
theorem mergeValues_eq_merge (among : left.Belongs sequences) (alike : right.Belongs sequences) :
    (Evaluator.mergeValues .unknown mode left right).outcome =
      (left.merge mode [] right).mapError .mergeMismatch := by
  cases listed : left.isSequence with
  | true =>
    cases left with
    | sequence items =>
      cases sequences with
      | false => cases among
      | true =>
        rcases alike with alike | rfl
        · cases right with
          | sequence more => rfl
          | _ => cases alike
        · rfl
    | _ => cases listed
  | false =>
    rw [Evaluator.mergeValues, listed]
    cases left.merge mode [] right <;> rfl

theorem mergeValues_eq_ok_iff (among : left.Belongs sequences)
    (alike : right.Belongs sequences) :
    (Evaluator.mergeValues .unknown mode left right).outcome = .ok merged ↔
      left.merge mode [] right = .ok merged := by
  rw [mergeValues_eq_merge among alike]
  cases left.merge mode [] right <;> simp [Except.mapError]

end Value

namespace Merging

variable {mode : MergeMode} {left middle right tree : Merging} {bindings : Value.Bindings}
  {sequences : Bool} {value : Value}

/-- All names of a merge are bound to values of one sort. -/
def Alike (sequences : Bool) (bindings : Value.Bindings) : Merging → Prop
  | name key => ∃ value, Fields.get? bindings key.name = some value ∧ value.Canonical ∧
      value.Belongs sequences
  | merge left right => left.Alike sequences bindings ∧ right.Alike sequences bindings

theorem Alike.bound (alike : tree.Alike sequences bindings) : tree.Bound bindings := by
  induction tree with
  | name key => exact alike.imp fun _ => And.left
  | merge left right boundLeft boundRight => exact ⟨boundLeft alike.1, boundRight alike.2⟩

/-- What comes out of a merge is of the sort of its names. -/
theorem Alike.outcome (alike : tree.Alike sequences bindings)
    (given : tree.outcome mode bindings = .ok value) :
    value.Canonical ∧ value.Belongs sequences := by
  induction tree generalizing value with
  | name key =>
    rcases alike with ⟨held, bound, kept⟩
    rw [Merging.outcome, bound] at given
    cases given
    exact kept
  | merge left right ofLeft ofRight =>
    rcases outcome_bind_eq_ok.mp given with ⟨target, first, given⟩
    rcases outcome_bind_eq_ok.mp given with ⟨addition, second, joined⟩
    rcases ofLeft alike.1 first with ⟨canonical, among⟩
    rcases ofRight alike.2 second with ⟨further, similar⟩
    rw [Value.mergeValues_eq_ok_iff among similar] at joined
    exact ⟨Value.canonical_merge canonical further joined,
      Value.belongs_merge canonical further among similar joined⟩

/-- The outcome of a merge is the merge of the outcomes. -/
theorem outcome_merge_eq_ok_iff (alike : (left.merge right).Alike sequences bindings) :
    (left.merge right).outcome mode bindings = .ok value ↔
      ∃ target addition, left.outcome mode bindings = .ok target ∧
        right.outcome mode bindings = .ok addition ∧ target.merge mode [] addition = .ok value := by
  constructor
  · intro given
    rcases outcome_bind_eq_ok.mp given with ⟨target, first, given⟩
    rcases outcome_bind_eq_ok.mp given with ⟨addition, second, joined⟩
    exact ⟨target, addition, first, second, (Value.mergeValues_eq_ok_iff
      (alike.1.outcome first).2 (alike.2.outcome second).2).mp joined⟩
  · rintro ⟨target, addition, first, second, joined⟩
    exact outcome_bind_eq_ok.mpr ⟨target, first, outcome_bind_eq_ok.mpr ⟨addition, second,
      (Value.mergeValues_eq_ok_iff (alike.1.outcome first).2 (alike.2.outcome second).2).mpr
        joined⟩⟩

/-- Both groupings of three merges have the same outcome, or none. -/
theorem outcome_regrouped (alike : ((left.merge middle).merge right).Alike sequences bindings) :
    (((left.merge middle).merge right).outcome mode bindings).toOption =
      ((left.merge (middle.merge right)).outcome mode bindings).toOption := by
  rcases alike with ⟨⟨ofLeft, ofMiddle⟩, ofRight⟩
  refine Value.toOption_eq fun value => ?_
  have leftward : ((left.merge middle).merge right).Alike sequences bindings :=
    ⟨⟨ofLeft, ofMiddle⟩, ofRight⟩
  have rightward : (left.merge (middle.merge right)).Alike sequences bindings :=
    ⟨ofLeft, ofMiddle, ofRight⟩
  rw [outcome_merge_eq_ok_iff leftward, outcome_merge_eq_ok_iff rightward]
  constructor
  · rintro ⟨joined, last, grouped, third, both⟩
    rcases (outcome_merge_eq_ok_iff ⟨ofLeft, ofMiddle⟩).mp grouped with
      ⟨first, middle, begins, goes, front⟩
    rcases (Value.associates_merge (ofLeft.outcome begins).1 (ofMiddle.outcome goes).1
      (ofRight.outcome third).1 value).mp ⟨joined, front, both⟩ with ⟨joined, behind, both⟩
    exact ⟨first, joined, begins, (outcome_merge_eq_ok_iff ⟨ofMiddle, ofRight⟩).mpr
      ⟨middle, last, goes, third, behind⟩, both⟩
  · rintro ⟨first, joined, begins, grouped, both⟩
    rcases (outcome_merge_eq_ok_iff ⟨ofMiddle, ofRight⟩).mp grouped with
      ⟨middle, last, goes, third, behind⟩
    rcases (Value.associates_merge (ofLeft.outcome begins).1 (ofMiddle.outcome goes).1
      (ofRight.outcome third).1 value).mpr ⟨joined, behind, both⟩ with ⟨joined, front, both⟩
    exact ⟨joined, last, (outcome_merge_eq_ok_iff ⟨ofLeft, ofMiddle⟩).mpr
      ⟨first, middle, begins, goes, front⟩, third, both⟩

/-- The sources of both groupings compile, and both programs fail or both give the same value. -/
theorem programs_regrouped (alike : ((left.merge middle).merge right).Alike sequences bindings) :
    ∃ leftward rightward,
      compile (source mode (left.merge middle) right) = .ok ⟨leftward, []⟩ ∧
      compile (source mode left (middle.merge right)) = .ok ⟨rightward, []⟩ ∧
      (leftward.evaluate bindings).toOption = (rightward.evaluate bindings).toOption := by
  have regrouped : (left.merge (middle.merge right)).Alike sequences bindings :=
    ⟨alike.1.1, alike.1.2, alike.2⟩
  rcases compile_source mode (left.merge middle) right with ⟨_, _, leftward⟩
  rcases compile_source mode left (middle.merge right) with ⟨_, _, rightward⟩
  refine ⟨_, _, leftward, rightward, ?_⟩
  rw [evaluate_program alike.bound, evaluate_program regrouped.bound]
  exact outcome_regrouped alike

/-- Three bound names can be merged in either grouping, where none of their values is a sequence
or each of them is a sequence or missing. -/
theorem either_grouping (mode : MergeMode) {a b c : Key} {x y z : Value}
    (first : Fields.get? bindings a.name = some x) (second : Fields.get? bindings b.name = some y)
    (third : Fields.get? bindings c.name = some z)
    (canonical : ∀ value ∈ [x, y, z], value.Canonical)
    (alike : (∀ value ∈ [x, y, z], value.isSequence = false) ∨
      ∀ value ∈ [x, y, z], value.isSequence = true ∨ value = .unit) :
    ∃ leftward rightward,
      compile (source mode (.merge (.name a) (.name b)) (.name c)) = .ok ⟨leftward, []⟩ ∧
      compile (source mode (.name a) (.merge (.name b) (.name c))) = .ok ⟨rightward, []⟩ ∧
      (leftward.evaluate bindings).toOption = (rightward.evaluate bindings).toOption := by
  have among : ∃ sequences, ∀ value ∈ [x, y, z], value.Belongs sequences := by
    rcases alike with none | every
    · exact ⟨false, none⟩
    · exact ⟨true, every⟩
  rcases among with ⟨sequences, among⟩
  have named : ∀ {key : Key} {value : Value}, Fields.get? bindings key.name = some value →
      value ∈ [x, y, z] → (name key).Alike sequences bindings := fun bound inside =>
    ⟨_, bound, canonical _ inside, among _ inside⟩
  have together : (((name a).merge (name b)).merge (name c)).Alike sequences bindings :=
    ⟨⟨named first (by simp), named second (by simp)⟩, named third (by simp)⟩
  exact programs_regrouped together

/-- What is missing in the middle is taken up by the sequence on either side. -/
theorem either_grouping_around_unit :
    let bindings : Value.Bindings :=
      [("a", .sequence [.text "x"]), ("b", .unit), ("c", .sequence [.unit])]
    let merged := Value.sequence [.text "x", .unit]
    ∃ leftward rightward, compile "(a +? b) +? c" = .ok ⟨leftward, []⟩ ∧
      compile "a +? (b +? c)" = .ok ⟨rightward, []⟩ ∧
      (leftward.evaluate bindings).toOption = some merged ∧
      (rightward.evaluate bindings).toOption = some merged := by
  intro bindings merged
  let a : Key := ⟨"a", by decide, by decide, by decide, by decide⟩
  let b : Key := ⟨"b", by decide, by decide, by decide, by decide⟩
  let c : Key := ⟨"c", by decide, by decide, by decide, by decide⟩
  have front : source .soft (.merge (.name a) (.name b)) (.name c) = "(a +? b) +? c" := by
    decide
  have behind : source .soft (.name a) (.merge (.name b) (.name c)) = "a +? (b +? c)" := by
    decide
  have canonical : ∀ value ∈ [Value.sequence [.text "x"], .unit, .sequence [.unit]],
      value.Canonical := by
    simp [Value.Canonical, AllCanonical]
  have alike : ∀ value ∈ [Value.sequence [.text "x"], .unit, .sequence [.unit]],
      value.isSequence = true ∨ value = .unit := by
    decide
  rw [← front, ← behind]
  rcases @either_grouping bindings .soft a b c _ _ _ rfl rfl rfl canonical (.inr alike) with
    ⟨leftward, rightward, compiled, further, same⟩
  rcases compile_source .soft (.name a) (.merge (.name b) (.name c)) with ⟨_, _, known⟩
  cases further.symm.trans known
  have bound : (merge (.name a) (.merge (.name b) (.name c))).Bound bindings :=
    ⟨⟨_, rfl⟩, ⟨_, rfl⟩, ⟨_, rfl⟩⟩
  rw [evaluate_program bound] at same
  exact ⟨leftward, _, compiled, further, same, congrArg _ (evaluate_program bound)⟩

end Merging
end Manifest
