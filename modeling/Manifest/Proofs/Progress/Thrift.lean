import Manifest.Proofs.Progress.Balance

/-!
# Every procedure keeps accounts

To a depth that its tokens cannot exceed, each procedure lets the balance rise by a few
events at most, and each one that reads a term lets it fall by more than those who call
it add.  An operand keeps back what it costs to go over its names, should they turn out
to be parameters.
-/

namespace Manifest

open Watched

variable {tokens : List Token} {depth : Nat} {start : Watch}

/-! ## Pieces -/

theorem Lexeme.ne_endOfInput_of_isAssignment {lexeme : Lexeme}
    (assigns : lexeme.isAssignment = true) : lexeme ≠ .endOfInput := by
  rintro rfl
  cases assigns

/-- What it costs to go over the names of an expression: they are collected, entered into
a scope, and put around a body. -/
def Expr.fee (expression : Expr) : Nat := 3 * expression.heads

theorem Expr.le_fee (expression : Expr) : 3 ≤ expression.fee := by
  cases expression <;> exact Nat.mul_le_mul_left 3 (Nat.succ_pos _)

theorem Lexeme.fee_literal {lexeme : Lexeme} {literal : Expr}
    (reads : lexeme.literal? = some literal) : literal.fee = 3 := by
  cases lexeme <;> cases reads <;> rfl

theorem Lexeme.ne_endOfInput_of_startsTerm {lexeme : Lexeme} (opens : lexeme.startsTerm = true) :
    lexeme ≠ .endOfInput := by
  rintro rfl
  cases opens

theorem Lexeme.ne_endOfInput_of_isOperator {lexeme : Lexeme} (joins : lexeme.isOperator = true) :
    lexeme ≠ .endOfInput := by
  rintro rfl
  cases joins

/-- An empty chain is the unit. -/
theorem earns_unit (fair : start.Fair tokens []) :
    Earns tokens start 0 Expr.fee 3 0 (quiet (Grammar.settleHere []) start) :=
  .ok fair (Nat.le_refl _) (Nat.le_refl _)

/-- A single expression is the end of its chain. -/
theorem earns_settle (expression : Expr) (fair : start.Fair tokens []) :
    Earns tokens start 0 Expr.fee expression.fee 0
      (quiet (Grammar.settleHere [expression]) start) :=
  .ok fair (Nat.le_refl _) (Nat.le_refl _)

theorem earns_close (finished : List (Section Expr)) (part : Section Expr)
    (fair : start.Fair tokens []) :
    Earns tokens start 0 (fun _ => 0) 0 0 (quiet (Grammar.closeHere finished part) start) := by
  rw [Grammar.closeHere]
  cases part.expressions.isEmpty with
  | false => exact .ok fair (Nat.le_refl _) (Nat.le_refl _)
  | true =>
    cases finished.isEmpty with
    | true => exact .ok fair (Nat.le_refl _) (Nat.le_refl _)
    | false => exact .error fair trivial (Nat.le_refl _)

/-- A reference takes no tokens. -/
theorem earns_reference (name : String) (operands : List Expr) (scope : Nat)
    (fair : start.Fair tokens []) :
    Earns tokens start 0 Expr.fee (3 * operands.length + 3) 0
      (quiet (Parser.reference name operands scope) start) :=
  .ok fair (Nat.le_refl _) (Nat.le_refl _)

/-- Looking for an operand changes nothing. -/
theorem takesOperand_bind {α : Type} (start : Watch) (further : Bool → Watched α) :
    ∃ takes, (quiet Parser.takesOperand >>= further) start = further takes start := by
  have looked : ∃ takes, Parser.takesOperand start.state = .ok takes start.state := by
    rw [Parser.takesOperand, Grammar.peek_bind]
    generalize (start.state.stream.peek 0).lexeme = lexeme
    cases lexeme with
    | symbol name =>
      dsimp only
      rw [Grammar.peek_bind]
      generalize (start.state.stream.peek 1).lexeme = second
      cases second <;> exact ⟨_, rfl⟩
    | _ => exact ⟨_, rfl⟩
  rcases looked with ⟨takes, looked⟩
  have quietly : quiet Parser.takesOperand start = .ok takes start := by
    rw [quiet, looked]
  exact ⟨takes, Stepwise.bind_of_ok _ quietly⟩

/-- A function has one name, and so has a body that stands in a scope. -/
theorem fee_curried (names : List String) (scope : Nat) (body : Expr) :
    (Grammar.curried names (.scope scope body)).fee = 3 := by
  cases names <;> rfl

theorem length_of_mapM_eq_some {α β : Type} {f : α → Option β} {items : List α} {images : List β}
    (mapped : items.mapM f = some images) : images.length = items.length := by
  induction items generalizing images with
  | nil =>
    cases mapped
    rfl
  | cons item rest ih =>
    rw [List.mapM_cons] at mapped
    rcases Option.bind_eq_some_iff.mp mapped with ⟨image, _, mapped⟩
    rcases Option.bind_eq_some_iff.mp mapped with ⟨others, found, same⟩
    cases same
    rw [List.length_cons, List.length_cons, ih found]

/-- The names of an expression that stands in front of an arrow. -/
theorem Expr.length_parameterNames {expression : Expr} {names : List String}
    (named : Parser.parameterNames? expression = some names) :
    names.length = expression.heads := by
  cases expression with
  | application name operands definition =>
    rcases Option.map_eq_some_iff.mp named with ⟨others, taken, rfl⟩
    rw [List.length_cons, length_of_mapM_eq_some taken]
    rfl
  | _ => cases named

theorem fee_combine (operator : Lexeme) (left right : Expr) :
    (Parser.combine operator left right).fee = 3 := by
  cases operator <;> rfl

/-! ## The accounts of all procedures -/

/-- To a depth every procedure keeps its accounts, wherever the tokens that are left
cannot exceed the depth.  No more than six procedures call each other between two tokens,
and each of them stands at its own distance from the next token.  Where a token opens a
chain, the token may have been given back just before, and then it is read again. -/
structure Thrifty (tokens : List Token) (depth : Nat) : Prop where
  block : ∀ {start : Watch} (parent : Nat) (stop : BlockEnd), start.Fair tokens [] →
    6 * start.left tokens + 6 ≤ depth →
    Earns tokens start 0 (fun _ => 0) 3 9 (Watched.block depth parent stop start)
  sections : ∀ {start : Watch} (stop : BlockEnd) (finished : List (Section Expr))
    (part : Section Expr) (leading : Bool), start.Fair tokens [] →
    6 * start.left tokens + 5 ≤ depth →
    Earns tokens start 0 (fun _ => 0) 2 8 (Watched.sections depth stop finished part leading start)
  /-- The name of the statement has been read already. -/
  statement : ∀ {start : Watch} (name : String) (scope : Nat), start.Fair tokens [] →
    start.state.stream.current.lexeme = .symbol name → 6 * start.left tokens + 4 ≤ depth →
    Earns tokens start 1 (fun _ => 1) 0 7 (Watched.statement depth name scope start.advanced)
  chain : ∀ {start : Watch} (scope : Nat), start.Fair tokens [] →
    6 * start.left tokens + 3 ≤ depth →
    Earns tokens start 0 Expr.fee 5 4 (Watched.chain depth scope start)
  opened : ∀ {start : Watch} (scope : Nat), start.Fair tokens (Event.rereading start.place) →
    start.state.stream.current.lexeme.startsTerm = true → 6 * start.left tokens + 3 ≤ depth →
    Earns tokens start 1 (fun result => result.fee + 1) 0 4 (Watched.chain depth scope start)
  links : ∀ {start : Watch} (scope : Nat), start.Fair tokens [] →
    6 * start.left tokens + 2 ≤ depth →
    Earns tokens start 0 Expr.fee 4 3 (Watched.links depth scope [] start)
  linked : ∀ {start : Watch} (scope : Nat),
    start.Fair tokens [.link 0, .term, .read start.place] →
    start.state.stream.current.lexeme.startsTerm = true → 6 * start.left tokens + 2 ≤ depth →
    Earns tokens start 1 (fun result => result.fee + 2) 0 3 (Watched.links depth scope [] start)
  further : ∀ {start : Watch} (scope : Nat) (expression : Expr), start.Fair tokens [] →
    6 * start.left tokens + 2 ≤ depth →
    Earns tokens start 0 Expr.fee (expression.fee + 1)
      (expression.fee + 3) (Watched.links depth scope [expression] start)
  term : ∀ {start : Watch} (scope : Nat), start.Fair tokens [.term, .read start.place] →
    6 * start.left tokens + 1 ≤ depth →
    Earns tokens start 1 (fun result => result.fee + 5) 0 2 (Watched.term depth scope start)
  application : ∀ {start : Watch} (name : String) (scope : Nat), start.Fair tokens [] →
    6 * start.left tokens + 4 ≤ depth →
    Earns tokens start 0 Expr.fee 5 5 (Watched.application depth name scope start)
  operands : ∀ {start : Watch} (name : String) (taken : List Expr) (scope : Nat),
    start.Fair tokens [] → 6 * start.left tokens + 3 ≤ depth →
    Earns tokens start 0 Expr.fee (3 * taken.length + 4) 4
      (Watched.operands depth name taken scope start)
  operand : ∀ {start : Watch} (scope : Nat), start.Fair tokens [] →
    6 * start.left tokens + 2 ≤ depth →
    Earns tokens start 1 (fun _ => 4) 0 3 (Watched.operand depth scope start)
  path : ∀ {start : Watch} (target : Expr), target.heads = 1 → start.Fair tokens [] →
    6 * start.left tokens + 1 ≤ depth →
    Earns tokens start 0 Expr.fee 4 1 (Watched.path depth target start)
  function : ∀ {start : Watch} (scope : Nat) (parameters : List String), start.Fair tokens [] →
    6 * start.left tokens + 4 ≤ depth →
    Earns tokens start 0 Expr.fee (2 * parameters.length + 6)
      (2 * parameters.length + 5) (Watched.function depth scope parameters start)

/-- A chain in front of a term reads the term. -/
theorem links_opens {scope : Nat} (opens : start.state.stream.current.lexeme.startsTerm = true) :
    Watched.links (depth + 1) scope [] start =
      (Watched.term depth scope >>= fun expression =>
        Watched.proceed (Watched.links depth scope) [expression]) (start.called (.link 0)) := by
  rw [Watched.links, look_bind]
  generalize start.state.stream.current = token at *
  have plain : token.lexeme.endsChain = false ∧ token.lexeme.isOperator = false ∧
      token.lexeme ≠ .arrow := by
    cases found : token.lexeme <;> rw [found] at opens <;> cases opens <;>
      exact ⟨rfl, rfl, by rintro ⟨⟩⟩
  rcases plain with ⟨noEnd, noOperator, noArrow⟩
  rw [noEnd, noOperator, if_neg Bool.false_ne_true, if_neg Bool.false_ne_true, if_neg noArrow,
    if_pos opens]
  rfl

namespace Thrifty

variable (thrifty : Thrifty tokens depth)

include thrifty

theorem next_block (parent : Nat) (stop : BlockEnd) (fair : start.Fair tokens [])
    (enough : 6 * start.left tokens + 6 ≤ depth + 1) :
    Earns tokens start 0 (fun _ => 0) 3 9 (Watched.block (depth + 1) parent stop start) := by
  rcases (fair.weaken [.block]).opening rfl with
    ⟨middle, same, called, left, balance, _⟩
  rw [Watched.block, call_bind, openScope_bind, same]
  have earns := thrifty.sections stop [] ⟨middle.state.scopes.size, []⟩ true
    (called.withScopes (middle.state.scopes.push (some parent)).2) (by
      rw [Watch.left_withScopes]
      omega)
  refine earns.since ?_ (fun _ => ?_) ?_
  · rw [Watch.left_withScopes]
    omega
  · rw [Watch.balance_withScopes]
    omega
  · rw [Watch.balance_withScopes]
    omega

/-- Where a token has been given back, it is read again as the start of a term. -/
theorem reread {watch : Watch} (scope : Nat) (fair : watch.Fair tokens [])
    (before : start.Fair tokens []) (opens : start.state.stream.current.lexeme.startsTerm = true)
    (read : watch.left tokens + 1 = start.left tokens)
    (spent : watch.balance tokens + 14 ≤ start.balance tokens)
    (enough : 6 * start.left tokens + 3 ≤ depth) :
    Earns tokens start 1 (fun _ => 1) 0 7
      (Watched.chain depth scope (watch.rewound start)) := by
  have left := @Watch.left_rewound tokens watch start
  have balance := @Watch.balance_rewound tokens watch start
  have owes : (watch.rewound start).Fair tokens (Event.rereading (watch.rewound start).place) :=
    @Watch.Fair.rewound tokens watch start fair before (fair.place_of_left read)
  have opened := thrifty.opened scope owes opens (by omega)
  refine opened.since (by omega) (fun result => ?_) (by omega)
  have fee := result.le_fee
  omega

/-- A block goes on behind an expression, which has taken some tokens. -/
theorem append {α : Type} {step : Watched α} {middle origin : Watch} (stop : BlockEnd)
    (finished : List (Section Expr)) (grown : α → Section Expr)
    (first : Earns tokens middle 1 (fun _ => 1) 0 7 (step origin))
    (left : middle.left tokens = start.left tokens)
    (balance : middle.balance tokens = start.balance tokens + 1)
    (enough : 6 * start.left tokens + 5 ≤ depth + 1) :
    Earns tokens start 0 (fun _ => 0) 2 8
      ((step >>= fun value =>
        Watched.sections depth stop finished (grown value) false) origin) := by
  refine .bind first ?_ (by omega)
  intro value place fair further earned
  exact (thrifty.sections stop finished (grown value) false fair (by omega)).since (by omega)
    (fun _ => by omega) (by omega)

theorem next_sections (stop : BlockEnd) (finished : List (Section Expr)) (part : Section Expr)
    (leading : Bool) (fair : start.Fair tokens [])
    (enough : 6 * start.left tokens + 5 ≤ depth + 1) :
    Earns tokens start 0 (fun _ => 0) 2 8
      (Watched.sections (depth + 1) stop finished part leading start) := by
  rcases (fair.weaken [.sections]).opening rfl with
    ⟨middle, same, called, left, balance, _⟩
  have read := called.advance
  have kept := called.left_advanced
  have most := called.balance_advanced_le
  rw [Watched.sections, call_bind, next_bind, same]
  cases found : middle.state.stream.current.lexeme with
  | newline | comment =>
    have paid := called.pays (by rw [found]; rintro ⟨⟩)
    exact (thrifty.sections stop finished part leading read (by omega)).since (by omega)
      (fun _ => by omega) (by omega)
  | sectionStart =>
    have paid := called.pays (by rw [found]; rintro ⟨⟩)
    dsimp only
    split
    · split
      · exact (thrifty.sections stop finished part false read (by omega)).since (by omega)
          (fun _ => by omega) (by omega)
      · exact .throw read trivial (by omega)
    · rw [openScope_bind]
      refine (thrifty.sections stop (finished ++ [part]) _ false (read.withScopes _) ?_).since
        ?_ (fun _ => ?_) ?_
      · rw [Watch.left_withScopes]
        omega
      · rw [Watch.left_withScopes]
        omega
      · rw [Watch.balance_withScopes]
        omega
      · rw [Watch.balance_withScopes]
        omega
  | indent =>
    have paid := called.pays (by rw [found]; rintro ⟨⟩)
    have inner := thrifty.block part.scope .outdent read (by omega)
    exact thrifty.append stop finished _
      (inner.since (by omega) (fun _ => by omega) (by omega)) left balance enough
  | symbol name =>
    exact thrifty.append stop finished _
      (thrifty.statement name part.scope called found (by omega)) left balance enough
  | outdent | endOfInput =>
    dsimp only
    split
    · exact (earns_close finished part read).since (by omega) (fun _ => by omega) (by omega)
    · exact .throw read (ParseError.harmless_unexpected _ _) (by omega)
  | text | number | boolean | emptyMapping | emptySequence | openParen | lift =>
    have opens : middle.state.stream.current.lexeme.startsTerm = true := by rw [found]; rfl
    have more := Lexeme.ne_endOfInput_of_startsTerm opens
    have paid := called.pays more
    -- what the token has paid is given back with it, and is paid again by the chain
    have again : Earns tokens middle 1 (fun _ => 1) 0 7
        (Watched.chain depth part.scope (middle.advanced.rewound middle)) :=
      thrifty.reread part.scope read called opens (by omega) (by omega) (by omega)
    change Earns tokens start 0 (fun _ => 0) 2 8 ((stepBack >>= fun _ =>
      Watched.chain depth part.scope >>= fun expression => Watched.sections depth stop finished
        { part with expressions := part.expressions ++ [expression] } false) middle.advanced)
    rw [stepBack_bind called more rfl]
    exact thrifty.append stop finished _ again left balance enough
  | _ => exact .throw read (ParseError.harmless_unexpected _ _) (by omega)

theorem next_statement (name : String) (scope : Nat) (fair : start.Fair tokens [])
    (named : start.state.stream.current.lexeme = .symbol name)
    (enough : 6 * start.left tokens + 4 ≤ depth + 1) :
    Earns tokens start 1 (fun _ => 1) 0 7
      (Watched.statement (depth + 1) name scope start.advanced) := by
  have more : start.state.stream.current.lexeme ≠ .endOfInput := by
    rw [named]
    rintro ⟨⟩
  have paid := fair.pays more
  rcases (fair.advance.weaken [.statement]).opening rfl with
    ⟨middle, same, called, left, balance, stream⟩
  rw [Watched.statement, look_bind, same]
  split
  · refine .bind (thrifty.chain scope called (by omega)) ?_ (by omega)
    intro operand stop fair further earned
    have fee := operand.le_fee
    exact .pure fair (by omega) (by omega)
  · split
    · rename_i assigns
      have moved := called.pays (by
        rw [stream]
        exact Lexeme.ne_endOfInput_of_isAssignment assigns)
      rw [next_bind]
      refine .bind (thrifty.chain scope called.advance (by omega)) ?_ (by omega)
      intro operand stop fair further earned
      have fee := operand.le_fee
      rw [bind_bind]
      refine .pure (fair.withScopes _) ?_ ?_
      · rw [Watch.left_withScopes]
        omega
      · rw [Watch.balance_withScopes]
        omega
    · rw [stepBack_bind fair more stream]
      exact thrifty.reread scope called fair (by rw [named]; rfl) (by omega) (by omega) (by omega)

theorem next_chain (scope : Nat) (fair : start.Fair tokens [])
    (enough : 6 * start.left tokens + 3 ≤ depth + 1) :
    Earns tokens start 0 Expr.fee 5 4 (Watched.chain (depth + 1) scope start) := by
  rcases (fair.weaken [.chain]).opening rfl with
    ⟨middle, same, called, left, balance, _⟩
  rw [Watched.chain, call_bind, same]
  exact (thrifty.links scope called (by omega)).since (by omega) (fun _ => by omega) (by omega)

theorem next_opened (scope : Nat) (fair : start.Fair tokens (Event.rereading start.place))
    (opens : start.state.stream.current.lexeme.startsTerm = true)
    (enough : 6 * start.left tokens + 3 ≤ depth + 1) :
    Earns tokens start 1 (fun result => result.fee + 1) 0 4
      (Watched.chain (depth + 1) scope start) := by
  have called : (start.called .chain).Fair tokens [.link 0, .term, .read start.place] :=
    fair.called rfl
  have left : (start.called .chain).left tokens = _ := Watch.left_called
  have balance : (start.called .chain).balance tokens = _ := Watch.balance_called
  have linked : Earns tokens (start.called .chain) 1 (fun result => result.fee + 2) 0 3
      (Watched.links depth scope [] (start.called .chain)) :=
    thrifty.linked scope called opens (by omega)
  rw [Watched.chain, call_bind]
  exact linked.since (by omega) (fun _ => by omega) (by omega)

/-- A chain goes on with one expression. -/
theorem proceed (scope : Nat) (expression : Expr) (fair : start.Fair tokens [])
    (enough : 6 * start.left tokens + 2 ≤ depth) :
    Earns tokens start 0 Expr.fee (expression.fee + 2) (expression.fee + 4)
      (Watched.proceed (Watched.links depth scope) [expression] start) := by
  have noted : (start.noted [.push 1]).Fair tokens [] :=
    fair.noted (List.forall_mem_singleton.mpr (Nat.le_refl 1))
  have left : (start.noted [.push 1]).left tokens = start.left tokens := Watch.left_noted _
  have balance : (start.noted [.push 1]).balance tokens = start.balance tokens + 1 :=
    Watch.balance_noted _
  rw [Watched.proceed, note_bind, peek_bind, List.length_singleton]
  generalize start.noted [.push 1] = middle at *
  cases (middle.state.stream.peek (-1)).lexeme with
  | outdent =>
    exact (earns_settle expression noted).since (by omega) (fun _ => by omega) (by omega)
  | _ =>
    exact (thrifty.further scope expression noted (by omega)).since (by omega)
      (fun _ => by omega) (by omega)

theorem next_linked (scope : Nat) (fair : start.Fair tokens [.link 0, .term, .read start.place])
    (opens : start.state.stream.current.lexeme.startsTerm = true)
    (enough : 6 * start.left tokens + 2 ≤ depth + 1) :
    Earns tokens start 1 (fun result => result.fee + 2) 0 3
      (Watched.links (depth + 1) scope [] start) := by
  have called : (start.called (.link 0)).Fair tokens [.term, .read start.place] :=
    fair.called (Nat.zero_le 1)
  have left : (start.called (.link 0)).left tokens = _ := Watch.left_called
  have balance : (start.called (.link 0)).balance tokens = _ := Watch.balance_called
  have term : Earns tokens (start.called (.link 0)) 1 (fun result => result.fee + 5) 0 2
      (Watched.term depth scope (start.called (.link 0))) :=
    thrifty.term scope called (by omega)
  rw [links_opens opens]
  refine .bind term ?_ (by omega)
  intro expression stop fair further earned
  exact (thrifty.proceed scope expression fair (by omega)).since (by omega)
    (fun _ => by omega) (by omega)

theorem next_links (scope : Nat) (fair : start.Fair tokens [])
    (enough : 6 * start.left tokens + 2 ≤ depth + 1) :
    Earns tokens start 0 Expr.fee 4 3 (Watched.links (depth + 1) scope [] start) := by
  by_cases opens : start.state.stream.current.lexeme.startsTerm = true
  · exact (thrifty.next_linked scope (fair.weaken _) opens enough).since (by omega)
      (fun _ => by omega) (by omega)
  rcases (fair.weaken [.link 0]).opening (Nat.zero_le 1) with
    ⟨middle, same, called, left, balance, stream⟩
  have read := called.balance_advanced_le
  rw [Watched.links, look_bind, List.length_nil, same]
  split
  · exact (earns_unit called).since (by omega) (fun _ => by omega) (by omega)
  · split
    · rw [next_bind]
      exact .throw called.advance trivial (by omega)
    · split
      · rw [next_bind, note_bind, List.flatMap_nil]
        refine Earns.throw (called.advance.noted (List.forall_mem_nil _)) trivial ?_
        rw [Watch.balance_noted, List.length_nil]
        omega
      · exact .throw called (ParseError.harmless_unexpected _ _) (by omega)

theorem next_further (scope : Nat) (expression : Expr) (fair : start.Fair tokens [])
    (enough : 6 * start.left tokens + 2 ≤ depth + 1) :
    Earns tokens start 0 Expr.fee (expression.fee + 1) (expression.fee + 3)
      (Watched.links (depth + 1) scope [expression] start) := by
  rcases (fair.weaken [.link 1]).opening (Nat.le_refl 1) with
    ⟨middle, same, called, left, balance, stream⟩
  rw [Watched.links, look_bind, List.length_singleton, same]
  split
  · exact (earns_settle expression called).since (by omega) (fun _ => by omega) (by omega)
  · split
    · rename_i joins
      have paid := called.pays (by rw [stream]; exact Lexeme.ne_endOfInput_of_isOperator joins)
      rw [next_bind]
      refine .bind (thrifty.term scope (called.advance.weaken _) (by omega)) ?_ (by omega)
      intro right stop fair further earned
      have fee := fee_combine middle.state.stream.current.lexeme expression right
      exact (thrifty.proceed scope _ fair (by omega)).since (by omega)
        (fun _ => by omega) (by omega)
    · split
      · rename_i arrow
        have paid := called.pays (by rw [stream, arrow]; rintro ⟨⟩)
        have fee : expression.fee = 3 * expression.heads := rfl
        -- the fee that came with the expression pays for going over its names
        rcases called.advance.counting expression.heads with
          ⟨counted, collected, fair, kept, more⟩
        rw [next_bind, note_bind, List.flatMap_singleton, collected, List.reverse_singleton,
          List.mapM_cons]
        cases named : Parser.parameterNames? expression with
        | none => exact Earns.throw fair trivial (by omega)
        | some names =>
          have count := Expr.length_parameterNames named
          change Earns _ _ _ _ _ _ ((if [names].flatten.isEmpty then throw _ else
            Watched.function depth scope [names].flatten >>= fun expression =>
              Watched.proceed (Watched.links depth scope) [expression] : Watched Expr) counted)
          rw [List.flatten_singleton]
          split
          · exact .throw fair trivial (by omega)
          · refine .bind (thrifty.function scope names fair (by omega)) ?_ (by omega)
            intro function stop fair further earned
            exact (thrifty.proceed scope function fair (by omega)).since (by omega)
              (fun _ => by omega) (by omega)
      · split
        · exact .throw called rfl (by omega)
        · exact .throw called (ParseError.harmless_unexpected _ _) (by omega)

theorem next_term (scope : Nat) (fair : start.Fair tokens [.term, .read start.place])
    (enough : 6 * start.left tokens + 1 ≤ depth + 1) :
    Earns tokens start 1 (fun result => result.fee + 5) 0 2
      (Watched.term (depth + 1) scope start) := by
  rcases fair.opening rfl with ⟨entered, same, called, kept, balance, stream⟩
  have place : entered.place = start.place := congrArg Stream.position stream
  rw [← place] at called
  have read := called.advanced
  have left := called.left_advanced
  have most := called.balance_advanced_le
  have paid := called.pays
  rw [Watched.term, call_bind, next_bind, same]
  generalize entered.state.stream.current = token at *
  generalize entered.advanced = middle at *
  cases reads : token.lexeme.literal? with
  | some literal =>
    have fee := Lexeme.fee_literal reads
    have paid := paid (by rintro last; rw [last] at reads; cases reads)
    exact .ok read (by omega) (by omega)
  | none =>
    dsimp only
    cases found : token.lexeme with
    | lift =>
      have paid := paid (by rw [found]; rintro ⟨⟩)
      refine .bind (thrifty.term scope (read.weaken _) (by omega)) ?_ (by omega)
      intro operand stop fair further earned
      have fee : (Expr.lift operand).fee = 3 := rfl
      exact .ok fair (by omega) (by omega)
    | openParen =>
      have paid := paid (by rw [found]; rintro ⟨⟩)
      refine .bind (thrifty.chain scope read (by omega)) ?_ (by omega)
      intro inside stop fair further earned
      have most := fair.balance_advanced_le
      have left := fair.left_advanced
      rw [next_bind]
      split
      · rename_i close
        have paid := fair.pays (by rw [close]; rintro ⟨⟩)
        exact .ok fair.advance (by omega) (by omega)
      · exact .error fair.advance (ParseError.harmless_unexpected _ _) (by omega)
    | indent =>
      have paid := paid (by rw [found]; rintro ⟨⟩)
      refine .bind (thrifty.block scope .outdent read (by omega)) ?_ (by omega)
      intro sections stop fair further earned
      have fee : (Expr.block sections).fee = 3 := rfl
      exact .ok fair (by omega) (by omega)
    | symbol name =>
      have paid := paid (by rw [found]; rintro ⟨⟩)
      exact (thrifty.application name scope read (by omega)).since (by omega)
        (fun _ => by omega) (by omega)
    | _ => exact .error read (ParseError.harmless_unexpected _ _) (by omega)

theorem next_application (name : String) (scope : Nat) (fair : start.Fair tokens [])
    (enough : 6 * start.left tokens + 4 ≤ depth + 1) :
    Earns tokens start 0 Expr.fee 5 5 (Watched.application (depth + 1) name scope start) := by
  rcases (fair.weaken [.application]).opening rfl with
    ⟨middle, same, called, left, balance, _⟩
  rw [Watched.application, look_bind, same]
  cases start.state.stream.current.lexeme with
  | accessor =>
    exact (thrifty.path (.reference name) rfl called (by omega)).since (by omega)
      (fun _ => by omega) (by omega)
  | _ =>
    have taken : ([] : List Expr).length = 0 := rfl
    exact (thrifty.operands name [] scope called (by omega)).since (by omega)
      (fun _ => by omega) (by omega)

theorem next_operands (name : String) (taken : List Expr) (scope : Nat)
    (fair : start.Fair tokens []) (enough : 6 * start.left tokens + 3 ≤ depth + 1) :
    Earns tokens start 0 Expr.fee (3 * taken.length + 4) 4
      (Watched.operands (depth + 1) name taken scope start) := by
  rcases (fair.weaken [.operands]).opening rfl with
    ⟨middle, same, called, left, balance, _⟩
  rw [Watched.operands, call_bind, same]
  rcases takesOperand_bind middle (fun takes => if takes = true then do
      let expression ← Watched.operand depth scope
      Watched.operands depth name (taken ++ [expression]) scope
    else quiet (Parser.reference name taken scope)) with ⟨takes, same⟩
  rw [same]
  cases takes with
  | true =>
    refine .bind (thrifty.operand scope called (by omega)) ?_ (by omega)
    intro expression stop fair further earned
    have length : (taken ++ [expression]).length = taken.length + 1 := List.length_append
    exact (thrifty.operands name _ scope fair (by omega)).since (by omega)
      (fun _ => by omega) (by omega)
  | false =>
    exact (earns_reference name taken scope called).since (by omega) (fun _ => by omega) (by omega)

theorem next_operand (scope : Nat) (fair : start.Fair tokens [])
    (enough : 6 * start.left tokens + 2 ≤ depth + 1) :
    Earns tokens start 1 (fun _ => 4) 0 3 (Watched.operand (depth + 1) scope start) := by
  rcases (fair.weaken [.operand]).opening rfl with
    ⟨middle, same, called, left, balance, stream⟩
  rw [Watched.operand, look_bind, same]
  cases found : start.state.stream.current.lexeme with
  | symbol name =>
    have paid := called.pays (by rw [stream, found]; rintro ⟨⟩)
    dsimp only
    rw [next_bind, peek_bind]
    cases (middle.advanced.state.stream.peek 0).lexeme with
    | accessor =>
      exact (thrifty.path (.reference name) rfl called.advance (by omega)).since (by omega)
        (fun _ => by omega) (by omega)
    | _ =>
      have bare : ([] : List Expr).length = 0 := rfl
      exact (earns_reference name [] scope called.advance).since (by omega)
        (fun _ => by omega) (by omega)
  | lift =>
    have paid := called.pays (by rw [stream, found]; rintro ⟨⟩)
    dsimp only
    rw [next_bind]
    refine .bind (thrifty.operand scope called.advance (by omega)) ?_ (by omega)
    intro operand stop fair further earned
    exact .ok fair (by omega) (by omega)
  | _ =>
    exact (thrifty.term scope (called.weaken _) (by omega)).since (by omega)
      (fun _ => by omega) (by omega)

theorem next_path (target : Expr) (single : target.heads = 1) (fair : start.Fair tokens [])
    (enough : 6 * start.left tokens + 1 ≤ depth + 1) :
    Earns tokens start 0 Expr.fee 4 1 (Watched.path (depth + 1) target start) := by
  rcases (fair.weaken [.path]).opening rfl with
    ⟨middle, same, called, left, balance, stream⟩
  rw [Watched.path, look_bind, same]
  cases found : start.state.stream.current.lexeme with
  | accessor =>
    have paid := called.pays (by rw [stream, found]; rintro ⟨⟩)
    have read := called.advance
    have further := read.left_advanced
    have most := read.balance_advanced_le
    dsimp only
    rw [next_bind, next_bind]
    cases middle.advanced.state.stream.current.lexeme with
    | symbol field =>
      exact (thrifty.path (.access target field) rfl read.advance (by omega)).since (by omega)
        (fun _ => by omega) (by omega)
    | _ => exact .error read.advance (ParseError.harmless_unexpected _ _) (by omega)
  | _ =>
    have fee : target.fee = 3 := congrArg (3 * ·) single
    exact .ok called (by omega) (by omega)

theorem next_function (scope : Nat) (parameters : List String) (fair : start.Fair tokens [])
    (enough : 6 * start.left tokens + 4 ≤ depth + 1) :
    Earns tokens start 0 Expr.fee (2 * parameters.length + 6) (2 * parameters.length + 5)
      (Watched.function (depth + 1) scope parameters start) := by
  rcases (fair.weaken [.function]).opening rfl with
    ⟨middle, same, called, left, balance, stream⟩
  have opened := called.withScopes (middle.state.scopes.push (some scope)).2
  rcases opened.counting parameters.length with ⟨counted, entered, fair, kept, more⟩
  rw [Watch.left_withScopes] at kept
  rw [Watch.balance_withScopes] at more
  rw [Watched.function, call_bind, openScope_bind, note_bind, same, entered, bindAll_bind]
  refine .bind (thrifty.chain _ (fair.withScopes _) ?_) (fun body stop fair further earned => ?_) ?_
  · rw [Watch.left_withScopes]
    omega
  · rw [Watch.left_withScopes] at further
    rw [Watch.balance_withScopes] at earned
    have fee := fee_curried parameters middle.state.scopes.size body
    have body := body.le_fee
    rcases fair.counting parameters.length with ⟨last, folded, fair, left, balance⟩
    rw [note_bind, folded]
    exact .pure fair (by omega) (by omega)
  · rw [Watch.balance_withScopes]
    omega

end Thrifty

theorem thrifty_zero : Thrifty tokens 0 where
  block _ _ _ enough := absurd enough (by omega)
  sections _ _ _ _ _ enough := absurd enough (by omega)
  statement _ _ _ _ enough := absurd enough (by omega)
  chain _ _ enough := absurd enough (by omega)
  opened _ _ _ enough := absurd enough (by omega)
  links _ _ enough := absurd enough (by omega)
  linked _ _ _ enough := absurd enough (by omega)
  further _ _ _ enough := absurd enough (by omega)
  term _ _ enough := absurd enough (by omega)
  application _ _ _ enough := absurd enough (by omega)
  operands _ _ _ _ enough := absurd enough (by omega)
  operand _ _ enough := absurd enough (by omega)
  path _ _ _ enough := absurd enough (by omega)
  function _ _ _ enough := absurd enough (by omega)

theorem thrifty (tokens : List Token) (depth : Nat) : Thrifty tokens depth := by
  induction depth with
  | zero => exact thrifty_zero
  | succ depth ih =>
    exact ⟨ih.next_block, ih.next_sections, ih.next_statement, ih.next_chain, ih.next_opened,
      ih.next_links, ih.next_linked, ih.next_further, ih.next_term, ih.next_application,
      ih.next_operands, ih.next_operand, ih.next_path, ih.next_function⟩

end Manifest
