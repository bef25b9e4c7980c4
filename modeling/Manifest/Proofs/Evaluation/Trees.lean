import Manifest.Proofs.Evaluation.Arity

/-!
# Trees of calls

A call whose operands are calls again can be written with every inner call in a
group of its own, or flat, with the names of the inner calls in front of their
operands.  Operands are pushed from the right to the left on one stack.  So where
every function finds as many arguments as it takes, a name takes from the stack
just what stands behind it in its own group.
-/

namespace Manifest

open Stepwise

/-- A tree of calls.  A leaf is any operand. -/
inductive CallTree where
  | leaf (operand : Expr)
  | call (name : String) (definition : Option (Lambda Expr)) (children : List CallTree)

mutual
/-- The operands of a tree without groups. -/
def CallTree.flat : CallTree → List Expr
  | .leaf operand => [operand]
  | .call name definition children => .application name [] definition :: flatAll children

def flatAll : List CallTree → List Expr
  | [] => []
  | tree :: rest => tree.flat ++ flatAll rest
end

mutual
/-- A tree as one operand, with every call in a group. -/
def CallTree.nested : CallTree → Expr
  | .leaf operand => operand
  | .call name definition children => .application name (nestedAll children) definition

def nestedAll : List CallTree → List Expr
  | [] => []
  | tree :: rest => tree.nested :: nestedAll rest
end

/-- A name is a function that takes a number of arguments. -/
def Memory.Takes (memory : Memory) (frame : Nat) (name : String) (count : Nat) : Prop :=
  ∃ owner lambda, memory.owner? frame name = some (owner, .function lambda) ∧ lambda.arity = count

mutual
/-- Every function in a tree has all its arguments, and no leaf is a bare name
that is a function. -/
def CallTree.Full (memory : Memory) (frame : Nat) : CallTree → Prop
  | .leaf operand => ∀ name definition owner lambda, operand = .application name [] definition →
      memory.owner? frame name ≠ some (owner, .function lambda)
  | .call name _ children =>
      memory.Takes frame name children.length ∧ FullAll memory frame children

def FullAll (memory : Memory) (frame : Nat) : List CallTree → Prop
  | [] => True
  | tree :: rest => tree.Full memory frame ∧ FullAll memory frame rest
end

/-- Memory with one more argument that waits. -/
def Memory.push (memory : Memory) (value : Value) : Memory :=
  { memory with arguments := value :: memory.arguments }

variable {frame base other count : Nat} {before after middle memory : Memory}
  {operand : Expr} {operands front behind : List Expr} {name : String}
  {definition : Option (Lambda Expr)}

/-! ## What pushing operands comes to -/

/-- What the evaluation of an expression comes to. -/
noncomputable abbrev valueEnd (frame : Nat) (expression : Expr) :=
  limit fun depth => evaluate depth expression frame

noncomputable abbrev operandEnd (frame base : Nat) (operand : Expr) :=
  limit fun depth => (evaluate depth).operandValue frame base operand

noncomputable abbrev applyEnd (name : String) (definition : Option (Lambda Expr))
    (frame base : Nat) :=
  limit fun depth => (evaluate depth).apply name definition frame base

/-- What pushing operands comes to. -/
noncomputable abbrev pushEnd (frame base : Nat) (operands : List Expr) :=
  limit fun depth => (evaluate depth).pushOperands frame base operands

theorem exists_floor (base : Nat) : ∃ floor : List Value, floor.length = base :=
  ⟨List.replicate base .unit, List.length_replicate⟩

theorem lasting_evaluate (frame : Nat) (expression : Expr) :
    Lasting fun depth => evaluate depth expression frame :=
  .of_persists fun _ _ le => persistent_evaluate le expression frame []

theorem lasting_operandValue (frame base : Nat) (operand : Expr) :
    Lasting fun depth => (evaluate depth).operandValue frame base operand := by
  rcases exists_floor base with ⟨floor, rfl⟩
  exact .of_persists fun _ _ le => (persistent_evaluate le).operandValue frame floor operand

theorem lasting_apply (name : String) (definition : Option (Lambda Expr)) (frame base : Nat) :
    Lasting fun depth => (evaluate depth).apply name definition frame base := by
  rcases exists_floor base with ⟨floor, rfl⟩
  exact .of_persists fun _ _ le => (persistent_evaluate le).apply name definition frame floor

theorem lasting_pushOperands (frame base : Nat) (operands : List Expr) :
    Lasting fun depth => (evaluate depth).pushOperands frame base operands := by
  rcases exists_floor base with ⟨floor, rfl⟩
  exact .of_persists fun _ _ le => (persistent_evaluate le).pushOperands frame floor operands

theorem pushEnd_nil : pushEnd frame base [] before = some (.ok () before) := by
  have ends : ¬ Cut ((Pure.pure () : Machine Unit) before) := by
    rintro ⟨_, ⟨⟩⟩
  exact limit_const ends

theorem pushEnd_cons : pushEnd frame base (operand :: operands) before =
    andThen (pushEnd frame base operands before) fun _ middle =>
      andThen (operandEnd frame base operand middle) fun value after =>
        some (.ok () (after.push value)) := by
  have pushes (value : Value) : Lasting fun _ : Nat => Machine.pushArgument value :=
    fun _ _ _ _ => .inr rfl
  have one := (lasting_operandValue frame base operand).bind pushes
  refine (limit_bind (lasting_pushOperands frame base operands) fun _ => one).trans ?_
  refine congrArg _ (funext fun _ => funext fun middle => ?_)
  refine (limit_bind (lasting_operandValue frame base operand) pushes).trans ?_
  refine congrArg _ (funext fun value => funext fun after => ?_)
  exact limit_const (by rintro ⟨_, ⟨⟩⟩)

theorem andThen_assoc {α β γ : Type} {first : Option (Machine.End α)}
    {next : α → Memory → Option (Machine.End β)} {last : β → Memory → Option (Machine.End γ)} :
    andThen (andThen first next) last =
      andThen first fun value middle => andThen (next value middle) last := by
  rcases first with _ | (_ | _) <;> rfl

theorem pushEnd_append : pushEnd frame base (front ++ behind) before =
    andThen (pushEnd frame base behind before) fun _ middle =>
      pushEnd frame base front middle := by
  induction front with
  | nil =>
    rw [List.nil_append]
    rcases pushEnd frame base behind before with _ | (⟨_, after⟩ | _)
    · rfl
    · exact pushEnd_nil.symm
    · rfl
  | cons operand rest ih =>
    rw [List.cons_append, pushEnd_cons, ih, andThen_assoc]
    exact congrArg _ (funext fun _ => funext fun middle => pushEnd_cons.symm)

theorem pushEnd_singleton : pushEnd frame base [operand] before =
    andThen (operandEnd frame base operand before) fun value after =>
      some (.ok () (after.push value)) := by
  rw [pushEnd_cons, pushEnd_nil]
  rfl

/-! ## What has been kept where something was pushed -/

theorem Lasting.kept {α : Type} {run : Nat → Machine α} {waits : List Value → Prop}
    {result : Machine.End α} (lasting : Lasting run)
    (persists : ∀ depth, Persists waits (run depth) (run depth))
    (known : limit run before = some result) : Kept waits before result := by
  rcases lasting.limit_eq_some_iff.mp known with ⟨depth, rfl, ends⟩
  exact ((persists depth before).resolve_left ends).2

theorem kept_pushEnd {floor : List Value} {result : Machine.End Unit}
    (known : pushEnd frame floor.length operands before = some result) :
    Kept (floor <:+ ·) before result :=
  (lasting_pushOperands frame floor.length operands).kept
    (fun depth => (persistent_evaluate (Nat.le_refl depth)).pushOperands frame floor operands) known

theorem holds_pushEnd {result : Machine.End Unit}
    (known : pushEnd frame base operands before = some result) :
    before.Holds (lastMemory result) := by
  rcases exists_floor base with ⟨floor, rfl⟩
  exact (kept_pushEnd known).holds

/-- What waits below the base stays. -/
theorem base_le_of_pushEnd {result : Machine.End Unit} (enough : base ≤ before.arguments.length)
    (known : pushEnd frame base operands before = some result) :
    base ≤ (lastMemory result).arguments.length := by
  have below : (before.arguments.drop (before.arguments.length - base)).length = base := by
    rw [List.length_drop]
    omega
  rw [← below] at known ⊢
  exact ((kept_pushEnd known).waits (List.drop_suffix _ _)).length_le

/-! ## Two ways to push the same -/

/-- Less has been pushed than a number of values. -/
def Short (before : Memory) (count : Nat) (pushed : Option (Machine.End Unit)) : Prop :=
  ∀ after, pushed = some (.ok () after) →
    after.arguments.length < before.arguments.length + count

/-- Two ways to push a number of values come to the same, or something is lost
that makes both of them push less. -/
inductive Alike (lost : Prop) (before : Memory) (count : Nat) :
    Option (Machine.End Unit) → Option (Machine.End Unit) → Prop
  | pushed {after : Memory} : after.arguments.length = before.arguments.length + count →
      Alike lost before count (some (.ok () after)) (some (.ok () after))
  | fails {failure : EvalError} {one other : Memory} : one.frames = other.frames →
      Alike lost before count (some (.error failure one)) (some (.error failure other))
  | endless : Alike lost before count none none
  | lost {one other : Option (Machine.End Unit)} : lost → Short before count one →
      Short before count other → Alike lost before count one other

/-- Pushing operands reaches a bare name that is not resolved, and its definition
is called in its place. -/
def Lost (frame base : Nat) (operands : List Expr) (before : Memory) : Prop :=
  ∃ front name lambda behind middle,
    operands = front ++ .application name [] (some lambda) :: behind ∧
    pushEnd frame base behind before = some (.ok () middle) ∧
    ∃ depth missing after, (evaluate depth).resolve name frame middle =
      .error (.unresolvedIdentifier missing) after

/-- A value that takes more arguments than are pushed above the base leaves less than
was there. -/
theorem short_push {found : Option (Machine.End Value)}
    (takes : ∀ value after, found = some (.ok value after) →
      after.arguments.length < before.arguments.length) :
    Short before 1 (andThen found fun value after => some (.ok () (after.push value))) := by
  intro after known
  rcases andThen_eq_ok known with ⟨value, last, same, ⟨⟩⟩
  exact Nat.succ_lt_succ (takes value last same)

/-! ## Leaves -/

theorem lasting_resolve (name : String) (frame : Nat) :
    Lasting fun depth => (evaluate depth).resolve name frame :=
  .of_persists fun _ _ le =>
    @Persistent.resolve _ _ (fun _ => True) (persistent_evaluate le) name frame

/-- An operand that does not look at the base is pushed alike above any base. -/
theorem alike_of_same {lost : Prop}
    (same : operandEnd frame base operand before = operandEnd frame other operand before)
    (leaves : ∀ value after, operandEnd frame base operand before = some (.ok value after) →
      after.arguments.length = before.arguments.length) :
    Alike lost before 1 (pushEnd frame base [operand] before)
      (pushEnd frame other [operand] before) := by
  rw [pushEnd_singleton, pushEnd_singleton, ← same]
  cases known : operandEnd frame base operand before with
  | none => exact .endless
  | some result =>
    cases result with
    | error failure after => exact .fails rfl
    | ok value after => exact .pushed (congrArg (· + 1) (leaves value after known))

theorem operandValue_of_not_bare {eval : Evaluator}
    (noName : ∀ name definition, operand = .application name [] definition → False) :
    eval.operandValue frame base operand = eval operand frame := by
  cases operand with
  | application name operands definition =>
    cases operands with
    | nil => exact absurd rfl (noName name definition)
    | cons first rest => rfl
  | _ => rfl

theorem length_of_valueEnd {value : Value}
    (known : valueEnd frame operand before = some (.ok value after)) :
    after.arguments.length = before.arguments.length := by
  rcases (lasting_evaluate frame operand).limit_eq_some_iff.mp known with ⟨depth, evaluated, _⟩
  rw [arguments_of_evaluate evaluated]

/-- An unresolved name with a definition takes at least one argument. -/
theorem short_of_unresolved {lambda : Lambda Expr} {depth : Nat} {missing : String}
    (lost : (evaluate depth).resolve name frame before =
      .error (.unresolvedIdentifier missing) middle) (base : Nat) :
    Short before 1 (pushEnd frame base [.application name [] (some lambda)] before) := by
  rw [pushEnd_singleton]
  refine short_push fun value last found => ?_
  rcases (lasting_apply name (some lambda) frame base).eventually found with ⟨least, called⟩
  have genuine : ¬ Cut ((evaluate depth).resolve name frame before) := by
    rw [lost]
    rintro ⟨_, ⟨⟩⟩
  have again := ((lasting_resolve name frame) (Nat.le_max_left depth least) before).resolve_left
    genuine
  have applied := called _ (Nat.le_max_right depth least)
  rw [Evaluator.apply_of_unresolved (again.trans lost)] at applied
  have taken := Evaluator.length_of_call
    (fun _ _ _ _ _ evaluated => congrArg List.length (arguments_of_evaluate evaluated)) applied
  have untouched : middle.arguments = before.arguments :=
    Evaluator.arguments_of_resolve (again.trans lost) (by rintro ⟨_, ⟨⟩⟩)
  rw [untouched] at taken
  omega

/-- A name that is no function looks at the base only where its definition is
called. -/
theorem alike_name
    (noFunction : ∀ owner lambda, before.owner? frame name ≠ some (owner, .function lambda)) :
    Alike (Lost frame base [.application name [] definition] before) before 1
      (pushEnd frame base [.application name [] definition] before)
      (pushEnd frame other [.application name [] definition] before) := by
  by_cases lost : ∃ lambda depth missing after, definition = some lambda ∧
      (evaluate depth).resolve name frame before = .error (.unresolvedIdentifier missing) after
  · rcases lost with ⟨lambda, depth, missing, after, rfl, lost⟩
    exact .lost ⟨[], name, lambda, [], before, rfl, pushEnd_nil, depth, missing, after, lost⟩
      (short_of_unresolved lost base) (short_of_unresolved lost other)
  · have plain (depth : Nat) (failure : EvalError) (after : Memory)
        (failed : (evaluate depth).resolve name frame before = .error failure after) :
        definition = none ∨ ∀ missing, failure ≠ .unresolvedIdentifier missing := by
      cases definition with
      | none => exact .inl rfl
      | some lambda =>
        refine .inr ?_
        rintro missing rfl
        exact lost ⟨lambda, depth, missing, after, rfl, failed⟩
    have forced (base depth : Nat) : (evaluate depth).operandValue frame base
        (.application name [] definition) before = (evaluate depth).force name frame before :=
      Evaluator.apply_eq_force noFunction (plain depth)
    refine alike_of_same (limit_congr fun depth => (forced base depth).trans
      (forced other depth).symm) fun value after known => ?_
    rcases (lasting_operandValue frame base _).limit_eq_some_iff.mp known with ⟨depth, applied, _⟩
    exact congrArg List.length
      (Evaluator.arguments_of_force ((forced base depth).symm.trans applied))

theorem alike_leaf (inside : frame < memory.frames.size) (holds : memory.Holds before)
    (full : (CallTree.leaf operand).Full memory frame) :
    Alike (Lost frame base [operand] before) before 1 (pushEnd frame base [operand] before)
      (pushEnd frame other [operand] before) := by
  by_cases bare : ∃ name definition, operand = .application name [] definition
  · rcases bare with ⟨name, definition, rfl⟩
    refine alike_name fun owner lambda found => ?_
    exact full name definition owner lambda rfl ((holds.function_iff inside).mp found)
  · have noName : ∀ name definition, operand = .application name [] definition → False :=
      fun name definition same => bare ⟨name, definition, same⟩
    have same (base : Nat) : operandEnd frame base operand before = valueEnd frame operand before :=
      limit_congr fun depth => congrFun (operandValue_of_not_bare noName) before
    refine alike_of_same ((same base).trans (same other).symm) fun value after known => ?_
    exact length_of_valueEnd ((same base).symm.trans known)

/-! ## One way behind the other -/

namespace Alike

variable {lost further : Prop} {one two : Option (Machine.End Unit)}

theorem imp (alike : Alike lost before count one two) (weaker : lost → further) :
    Alike further before count one two := by
  cases alike with
  | pushed length => exact .pushed length
  | fails same => exact .fails same
  | endless => exact .endless
  | lost held shortOne shortTwo => exact .lost (weaker held) shortOne shortTwo

/-- Never more is pushed than the number of values. -/
theorem le (alike : Alike lost before count one two) :
    (∀ after, one = some (.ok () after) →
        after.arguments.length ≤ before.arguments.length + count) ∧
      ∀ after, two = some (.ok () after) →
        after.arguments.length ≤ before.arguments.length + count := by
  cases alike with
  | pushed length =>
    refine ⟨fun after same => ?_, fun after same => ?_⟩ <;>
    · cases same
      exact Nat.le_of_eq length
  | fails | endless => exact ⟨fun _ same => (nomatch same), fun _ same => (nomatch same)⟩
  | lost _ shortOne shortTwo =>
    exact ⟨fun after same => Nat.le_of_lt (shortOne after same),
      fun after same => Nat.le_of_lt (shortTwo after same)⟩

/-- What is pushed alike behind values that have been pushed is pushed alike with
them. -/
theorem shift {more : Nat} (alike : Alike lost middle more one two)
    (length : middle.arguments.length = before.arguments.length + count) :
    Alike lost before (more + count) one two := by
  have wider {pushed : Option (Machine.End Unit)} (short : Short middle more pushed) :
      Short before (more + count) pushed := by
    intro after same
    have less := short after same
    omega
  cases alike with
  | pushed further => exact .pushed (by omega)
  | fails same => exact .fails same
  | endless => exact .endless
  | lost held shortOne shortTwo => exact .lost held (wider shortOne) (wider shortTwo)

end Alike

/-- Where less has been pushed, less remains pushed. -/
theorem Short.andThen {more : Nat} {one : Option (Machine.End Unit)}
    {next : Unit → Memory → Option (Machine.End Unit)} (short : Short before count one)
    (le : ∀ middle, one = some (.ok () middle) → ∀ after, next () middle = some (.ok () after) →
      after.arguments.length ≤ middle.arguments.length + more) :
    Short before (more + count) (andThen one next) := by
  intro after known
  rcases andThen_eq_ok known with ⟨_, middle, rfl, further⟩
  have less := short middle rfl
  have few := le middle rfl after further
  omega

/-- What is lost among the operands behind is lost among all, and so is what is
lost in front of operands that have been pushed. -/
theorem Lost.append_front (lost : Lost frame base behind before) (front : List Expr) :
    Lost frame base (front ++ behind) before := by
  rcases lost with ⟨first, name, lambda, last, middle, rfl, pushed, unresolved⟩
  exact ⟨front ++ first, name, lambda, last, middle, (List.append_assoc _ _ _).symm, pushed,
    unresolved⟩

theorem Lost.append_behind (lost : Lost frame base front middle)
    (pushed : pushEnd frame base behind before = some (.ok () middle)) :
    Lost frame base (front ++ behind) before := by
  rcases lost with ⟨first, name, lambda, last, later, rfl, further, unresolved⟩
  refine ⟨first, name, lambda, last ++ behind, later, ?_, ?_, unresolved⟩
  · rw [List.append_assoc, List.cons_append]
  · rw [pushEnd_append, pushed]
    exact further

/-- Two lists of operands push a number of values alike, above any bases, as long as
memory holds on to its functions. -/
def PushAlike (memory : Memory) (frame count : Nat) (operands others : List Expr) : Prop :=
  ∀ ⦃base other before⦄, memory.Holds before → base ≤ before.arguments.length →
    other ≤ before.arguments.length →
    Alike (Lost frame base operands before) before count (pushEnd frame base operands before)
      (pushEnd frame other others before)

theorem PushAlike.append {more : Nat} {otherFront otherBehind : List Expr}
    (one : PushAlike memory frame more front otherFront)
    (two : PushAlike memory frame count behind otherBehind) :
    PushAlike memory frame (more + count) (front ++ behind) (otherFront ++ otherBehind) := by
  intro base other before holds enough otherEnough
  have alike := two holds enough otherEnough
  rw [pushEnd_append, pushEnd_append]
  generalize pushedFlat : pushEnd frame base behind before = flat at alike
  generalize pushedNested : pushEnd frame other otherBehind before = nested at alike
  cases alike with
  | @pushed middle length =>
    have kept := base_le_of_pushEnd enough pushedFlat
    have otherKept := base_le_of_pushEnd otherEnough pushedNested
    have held := holds.trans (holds_pushEnd pushedFlat)
    exact ((one held kept otherKept).imp fun lost => lost.append_behind pushedFlat).shift length
  | fails same => exact .fails same
  | endless => exact .endless
  | lost lost short otherShort =>
    refine .lost (lost.append_front front) (short.andThen ?_) (otherShort.andThen ?_)
    · rintro middle rfl
      have held := holds.trans (holds_pushEnd pushedFlat)
      have kept := base_le_of_pushEnd enough pushedFlat
      exact (one held kept (Nat.zero_le _)).le.1
    · rintro middle rfl
      have held := holds.trans (holds_pushEnd pushedNested)
      have kept := base_le_of_pushEnd otherEnough pushedNested
      exact (one held (Nat.zero_le _) kept).le.2

/-! ## Calls -/

theorem Memory.Holds.takes (holds : memory.Holds before) (inside : frame < memory.frames.size)
    (takes : memory.Takes frame name count) : before.Takes frame name count := by
  rcases takes with ⟨owner, lambda, found, arity⟩
  exact ⟨owner, lambda, (holds.function_iff inside).mpr found, arity⟩

/-- With all its arguments a function is applied alike above any base. -/
theorem applyEnd_eq_of_enough (takes : before.Takes frame name count)
    (enough : base + count ≤ before.arguments.length)
    (otherEnough : other + count ≤ before.arguments.length) :
    applyEnd name definition frame base before = applyEnd name definition frame other before := by
  rcases takes with ⟨owner, lambda, found, rfl⟩
  refine limit_congr fun depth => ?_
  rw [Evaluator.apply_of_function found, Evaluator.apply_of_function found]
  exact Evaluator.call_eq_of_enough enough otherEnough

/-- With fewer arguments a function comes to no value. -/
theorem applyEnd_of_few (takes : before.Takes frame name count)
    (few : before.arguments.length < base + count) {value : Value} :
    applyEnd name definition frame base before ≠ some (.ok value after) := by
  rcases takes with ⟨owner, lambda, found, rfl⟩
  intro known
  rcases (lasting_apply name definition frame base).limit_eq_some_iff.mp known with
    ⟨depth, applied, _⟩
  rw [Evaluator.apply_of_function found] at applied
  rcases @Evaluator.call_of_few (evaluate depth) before name lambda.parameter lambda.body base owner
    few with ⟨_, failed⟩
  cases failed.symm.trans applied

/-- A function that comes to a value has taken its arguments. -/
theorem length_of_applyEnd (takes : before.Takes frame name count) {value : Value}
    (known : applyEnd name definition frame base before = some (.ok value after)) :
    after.arguments.length + count = before.arguments.length := by
  rcases takes with ⟨owner, lambda, found, rfl⟩
  rcases (lasting_apply name definition frame base).limit_eq_some_iff.mp known with
    ⟨depth, applied, _⟩
  rw [Evaluator.apply_of_function found] at applied
  exact Evaluator.length_of_call
    (fun _ _ _ _ _ evaluated => congrArg List.length (arguments_of_evaluate evaluated)) applied

theorem Evaluator.cut_conclude (name : String) (base : Nat) (result : Machine.End Value) :
    Cut (conclude name base result) ↔ Cut result := by
  cases result with
  | ok value after =>
    refine iff_of_false ?_ fun ⟨_, cut⟩ => nomatch cut
    rw [conclude]
    split <;> rintro ⟨_, ⟨⟩⟩
  | error failure after =>
    constructor <;>
    · rintro ⟨_, same⟩
      cases same
      exact ⟨_, rfl⟩

/-- An application comes to what its call comes to behind its operands. -/
theorem valueEnd_application : valueEnd frame (.application name operands definition) before =
    (andThen (pushEnd frame before.arguments.length operands before) fun _ middle =>
      applyEnd name definition frame before.arguments.length middle).map
        (Evaluator.conclude name before.arguments.length) := by
  have whole := lasting_evaluate frame (.application name operands definition)
  have pushes := lasting_pushOperands frame before.arguments.length operands
  have applies (_ : Unit) := lasting_apply name definition frame before.arguments.length
  have deeper : Lasting fun depth => (evaluate depth).application name operands definition frame :=
    fun _ _ le => whole (Nat.succ_le_succ le)
  refine whole.limit_succ.symm.trans ?_
  rw [← limit_bind pushes applies]
  exact limit_map (pushes.bind applies) deeper
    (fun depth => (evaluate depth).application_eq name operands definition frame before)
    (Evaluator.cut_conclude name _)

theorem Memory.dropTo_of_length {base : Nat} (length : after.arguments.length = base) :
    after.dropTo base = after := by
  rw [dropTo, length, Nat.sub_self]
  rfl

/-- Nothing is dropped where nothing is left above the base. -/
theorem Evaluator.conclude_of_length {value : Value} {base : Nat}
    (length : after.arguments.length = base) :
    conclude name base (.ok value after) = .ok value after := by
  rw [conclude, Memory.dropTo_of_length length, length, Nat.sub_self]
  rfl

/-- With too few arguments pushed, an application comes to no value. -/
theorem valueEnd_of_short (inside : frame < before.frames.size)
    (takes : before.Takes frame name count)
    (short : Short before count (pushEnd frame before.arguments.length operands before))
    (value : Value) (after : Memory) :
    valueEnd frame (.application name operands definition) before ≠ some (.ok value after) := by
  intro known
  rw [valueEnd_application] at known
  rcases Option.map_eq_some_iff.mp known with ⟨result, applied, concluded⟩
  cases result with
  | error failure last => cases concluded
  | ok inner last =>
    rcases andThen_eq_ok applied with ⟨_, middle, pushed, called⟩
    exact applyEnd_of_few ((holds_pushEnd pushed).takes inside takes) (short middle pushed) called

/-- A function that finds too few arguments in its group takes what is below it. -/
theorem short_of_short (inside : frame < before.frames.size)
    (takes : before.Takes frame name count)
    (short : Short before count (pushEnd frame base operands before)) :
    Short before 1 (pushEnd frame base (.application name [] definition :: operands) before) := by
  rw [pushEnd_cons]
  intro after known
  rcases andThen_eq_ok known with ⟨_, middle, pushed, further⟩
  refine short_push (fun value last applied => ?_) after further
  have taken : last.arguments.length + count = middle.arguments.length :=
    length_of_applyEnd ((holds_pushEnd pushed).takes inside takes) applied
  have less := short middle pushed
  omega

/-- Behind all its arguments a function pushes its value alike, in a group of its own
or above a lower base. -/
theorem alike_of_pushed {lost : Prop} (takes : middle.Takes frame name count)
    (length : middle.arguments.length = before.arguments.length + count)
    (enough : base ≤ before.arguments.length) :
    Alike lost before 1
      (andThen (applyEnd name definition frame base middle) fun value after =>
        some (.ok () (after.push value)))
      (andThen ((applyEnd name definition frame before.arguments.length middle).map
        (Evaluator.conclude name before.arguments.length)) fun value after =>
          some (.ok () (after.push value))) := by
  have same : applyEnd name definition frame before.arguments.length middle =
      applyEnd name definition frame base middle :=
    applyEnd_eq_of_enough takes (by omega) (by omega)
  rw [same]
  cases known : applyEnd name definition frame base middle with
  | none => exact .endless
  | some result =>
    cases result with
    | error failure after => exact .fails rfl
    | ok value after =>
      have taken : after.arguments.length + count = middle.arguments.length :=
        length_of_applyEnd takes known
      have back : after.arguments.length = before.arguments.length := by omega
      rw [Option.map_some, Evaluator.conclude_of_length back]
      exact .pushed (congrArg (· + 1) back)

/-- A function with all its arguments pushes the same value, with its arguments in
a group or without a group. -/
theorem pushAlike_call (inside : frame < memory.frames.size)
    (takes : memory.Takes frame name count) {others : List Expr} (some : others ≠ [])
    (pushes : PushAlike memory frame count operands others) :
    PushAlike memory frame 1 (.application name [] definition :: operands)
      [.application name others definition] := by
  intro base other before holds enough otherEnough
  have alike := pushes holds enough (Nat.le_refl _)
  have within := Nat.lt_of_lt_of_le inside holds.size_le
  have noName : ∀ name' definition', Expr.application name others definition =
      .application name' [] definition' → False := by
    rintro _ _ ⟨⟩
    exact some rfl
  have group : operandEnd frame other (.application name others definition) before =
      valueEnd frame (.application name others definition) before :=
    limit_congr fun depth => congrFun (operandValue_of_not_bare noName) before
  rw [pushEnd_singleton, group]
  generalize pushedFlat : pushEnd frame base operands before = flat at alike
  generalize pushedNested : pushEnd frame before.arguments.length others before = nested at alike
  cases alike with
  | @pushed middle length =>
    have later := (holds.trans (holds_pushEnd pushedFlat)).takes inside takes
    rw [pushEnd_cons, valueEnd_application, pushedFlat, pushedNested]
    exact alike_of_pushed later length enough
  | fails same =>
    rw [pushEnd_cons, valueEnd_application, pushedFlat, pushedNested]
    exact .fails same
  | endless =>
    rw [pushEnd_cons, valueEnd_application, pushedFlat, pushedNested]
    exact .endless
  | lost lost short otherShort =>
    rw [← pushedFlat] at short
    rw [← pushedNested] at otherShort
    have now := holds.takes inside takes
    refine .lost (lost.append_front [_]) (short_of_short within now short) ?_
    exact short_push fun value after known =>
      absurd known (valueEnd_of_short within now otherShort value after)

/-! ## Trees -/

theorem nestedAll_ne_nil {trees : List CallTree} (some : trees ≠ []) : nestedAll trees ≠ [] := by
  cases trees with
  | nil => exact absurd rfl some
  | cons tree rest => exact List.cons_ne_nil _ _

mutual
/-- A tree pushes its value with groups as without groups. -/
theorem CallTree.pushAlike (inside : frame < memory.frames.size) : (tree : CallTree) →
    tree.Full memory frame → PushAlike memory frame 1 tree.flat [tree.nested]
  | .leaf _, full => fun _ _ _ holds _ _ => alike_leaf inside holds full
  | .call name definition children, ⟨takes, full⟩ => by
    refine pushAlike_call inside takes (nestedAll_ne_nil ?_) (pushAlike_all inside children full)
    rintro rfl
    rcases takes with ⟨owner, lambda, _, arity⟩
    cases arity

theorem pushAlike_all (inside : frame < memory.frames.size) : (trees : List CallTree) →
    FullAll memory frame trees →
      PushAlike memory frame trees.length (flatAll trees) (nestedAll trees)
  | [], _ => fun _ _ before _ _ _ => by
    rw [flatAll, nestedAll, pushEnd_nil, pushEnd_nil]
    exact .pushed rfl
  | tree :: rest, ⟨full, further⟩ => by
    have pushes := (tree.pushAlike inside full).append (pushAlike_all inside rest further)
    rw [Nat.add_comm] at pushes
    exact pushes
end

end Manifest
