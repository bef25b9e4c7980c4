import Manifest.Proofs.Evaluation.Trees

/-!
# Calls without groups

Where every function finds as many arguments as it takes, the groups around the
inner calls of a call can be left out: the call comes to the same value, to the
same failure, or to no end.  The exception is an operand that is a bare name and
carries a definition.  If the name is not resolved, its definition is called in
its place and takes an argument, and without groups it may be an argument that
another function waits for.  No value comes about then, but the failures may be
different ones.
-/

namespace Manifest

/-- To a depth that is great enough, an evaluation ends with a result. -/
def ComesTo (expression : Expr) (frame : Nat) (before : Memory) (result : Machine.End Value) :
    Prop :=
  ∃ depth, evaluate depth expression frame before = result ∧ ¬ Cut result

/-- On the way to push operands, a bare name is reached that is not resolved, and
that carries a definition. -/
def CallsDefinition (frame : Nat) (operands : List Expr) (before : Memory) : Prop :=
  ∃ front name lambda behind middle,
    operands = front ++ .application name [] (some lambda) :: behind ∧
    (∃ depth, (evaluate depth).pushOperands frame before.arguments.length behind before =
      .ok () middle) ∧
    ∃ depth missing after, (evaluate depth).resolve name frame middle =
      .error (.unresolvedIdentifier missing) after

variable {memory : Memory} {frame : Nat} {name : String} {definition : Option (Lambda Expr)}
  {children : List CallTree} {expression : Expr} {result : Machine.End Value}

theorem comesTo_iff : ComesTo expression frame memory result ↔
    valueEnd frame expression memory = some result :=
  (lasting_evaluate frame expression).limit_eq_some_iff.symm

/-- An evaluation comes to no more than one result. -/
theorem ComesTo.unique {other : Machine.End Value} (one : ComesTo expression frame memory result)
    (two : ComesTo expression frame memory other) : result = other :=
  Option.some.inj ((comesTo_iff.mp one).symm.trans (comesTo_iff.mp two))

/-- The failure of a run that has failed. -/
def failure? : Machine.End Value → Option EvalError
  | .ok _ _ => none
  | .error failure _ => some failure

theorem comesTo_of_failure? {depth : Nat} {failure : EvalError}
    (failed : failure? (evaluate depth expression frame memory) = some failure)
    (ends : failure ≠ .exhausted) :
    ∃ after, ComesTo expression frame memory (.error failure after) := by
  cases ran : evaluate depth expression frame memory with
  | ok value after =>
    rw [ran] at failed
    cases failed
  | error found after =>
    rw [ran] at failed
    cases failed
    refine ⟨after, depth, ran, ?_⟩
    rintro ⟨_, ⟨⟩⟩
    exact ends rfl

theorem comesTo_of_run' {depth : Nat} {value : Value}
    (ran : (evaluate depth expression frame).run' memory = some value) :
    ∃ after, ComesTo expression frame memory (.ok value after) := by
  delta EStateM.run' EStateM.run at ran
  cases evaluated : evaluate depth expression frame memory with
  | ok found after =>
    rw [evaluated] at ran
    cases ran
    exact ⟨after, depth, evaluated, by rintro ⟨_, ⟨⟩⟩⟩
  | error failure after =>
    rw [evaluated] at ran
    cases ran

theorem Lost.callsDefinition {operands : List Expr}
    (lost : Lost frame memory.arguments.length operands memory) :
    CallsDefinition frame operands memory := by
  rcases lost with ⟨front, name, lambda, behind, middle, same, pushed, unresolved⟩
  rcases (lasting_pushOperands frame _ behind).limit_eq_some_iff.mp pushed with ⟨depth, ran, _⟩
  exact ⟨front, name, lambda, behind, middle, same, ⟨depth, ran⟩, unresolved⟩

theorem Memory.lt_size_of_takes {count : Nat} (takes : memory.Takes frame name count) :
    frame < memory.frames.size := by
  rcases takes with ⟨owner, lambda, found, _⟩
  exact lt_size_of_owner? found

/-- An application whose operands fail to be pushed fails, and what they have left
behind is dropped. -/
theorem valueEnd_of_failed {operands : List Expr} {failure : EvalError} {after : Memory}
    (failed : pushEnd frame memory.arguments.length operands memory =
      some (.error failure after)) :
    valueEnd frame (.application name operands definition) memory =
      some (.error failure ⟨after.frames, memory.arguments⟩) := by
  have kept : memory.arguments <:+ after.arguments := (kept_pushEnd failed).waits List.suffix_rfl
  have dropped : after.dropTo memory.arguments.length = ⟨after.frames, memory.arguments⟩ := by
    rw [Memory.dropTo, ← List.suffix_iff_eq_drop.mp kept]
  rw [valueEnd_application, failed, ← dropped]
  rfl

/-- With groups and without, a call comes to the same, or the definition of a bare
name is called and neither way comes to a value. -/
theorem valueEnd_flat (takes : memory.Takes frame name children.length)
    (full : FullAll memory frame children) :
    valueEnd frame (.application name (flatAll children) definition) memory =
        valueEnd frame (.application name (nestedAll children) definition) memory ∨
      CallsDefinition frame (flatAll children) memory ∧ ∀ value after,
        valueEnd frame (.application name (flatAll children) definition) memory ≠
            some (.ok value after) ∧
          valueEnd frame (.application name (nestedAll children) definition) memory ≠
            some (.ok value after) := by
  have inside := memory.lt_size_of_takes takes
  have alike := pushAlike_all inside children full (.refl memory) (Nat.le_refl _) (Nat.le_refl _)
  generalize pushedFlat : pushEnd frame memory.arguments.length (flatAll children) memory = one
    at alike
  generalize pushedNested : pushEnd frame memory.arguments.length (nestedAll children) memory = two
    at alike
  cases alike with
  | pushed | endless =>
    left
    rw [valueEnd_application, valueEnd_application, pushedFlat, pushedNested]
  | fails frames =>
    left
    rw [valueEnd_of_failed pushedFlat, valueEnd_of_failed pushedNested, frames]
  | lost lost short otherShort =>
    rw [← pushedFlat] at short
    rw [← pushedNested] at otherShort
    exact .inr ⟨lost.callsDefinition, fun value after =>
      ⟨valueEnd_of_short inside takes short value after,
        valueEnd_of_short inside takes otherShort value after⟩⟩

/-- A call of functions that have all their arguments comes to the same value
without groups.  It comes to the same altogether, unless the definition of a bare
name is called in its place. -/
theorem flat_call_comes_to (takes : memory.Takes frame name children.length)
    (full : FullAll memory frame children) :
    (∀ value after,
      ComesTo (.application name (flatAll children) definition) frame memory (.ok value after) ↔
        ComesTo (.application name (nestedAll children) definition) frame memory
          (.ok value after)) ∧
    ((∀ result, ComesTo (.application name (flatAll children) definition) frame memory result ↔
        ComesTo (.application name (nestedAll children) definition) frame memory result) ∨
      CallsDefinition frame (flatAll children) memory) := by
  simp only [comesTo_iff]
  rcases valueEnd_flat takes full with same | ⟨calls, noValue⟩
  · rw [same]
    exact ⟨fun _ _ => .rfl, .inl fun _ => .rfl⟩
  · exact ⟨fun value after => iff_of_false (noValue value after).1 (noValue value after).2,
      .inr calls⟩

/-- Functions of one and of two parameters, called without groups. -/
theorem flat_call_comes_to_value : ∃ (memory : Memory) (children : List CallTree)
    (after : Memory), memory.Takes 0 "f" children.length ∧ FullAll memory 0 children ∧
      flatAll children =
        [.application "g" [] none, .scalar (.boolean true), .scalar (.boolean false)] ∧
      ComesTo (.application "f" (flatAll children) none) 0 memory (.ok (.boolean true) after) ∧
      ComesTo (.application "f" (nestedAll children) none) 0 memory
        (.ok (.boolean true) after) := by
  let memory : Memory := ⟨#[⟨[
    ("f", .function ⟨"a", .function ⟨"b", .application "a" [] none⟩⟩),
    ("g", .function ⟨"y", .application "y" [] none⟩)], none⟩], []⟩
  let children : List CallTree :=
    [.call "g" none [.leaf (.scalar (.boolean true))], .leaf (.scalar (.boolean false))]
  have takes : memory.Takes 0 "f" children.length := ⟨0, _, Memory.owner?_here rfl, rfl⟩
  have inner : memory.Takes 0 "g" 1 := ⟨0, _, Memory.owner?_here rfl, rfl⟩
  have full : FullAll memory 0 children :=
    ⟨⟨inner, by rintro _ _ _ _ ⟨⟩, trivial⟩, by rintro _ _ _ _ ⟨⟩, trivial⟩
  have ran : (evaluate 9 (.application "f" (flatAll children) none) 0).run' memory =
      some (.boolean true) := by
    decide +kernel
  rcases comesTo_of_run' ran with ⟨after, flat⟩
  exact ⟨memory, children, after, takes, full, rfl, flat,
    ((flat_call_comes_to takes full).1 _ after).mp flat⟩

/-- The definition of a bare name takes an argument that another function waits
for. -/
theorem flat_call_takes_more : ∃ (memory : Memory) (children : List CallTree),
    memory.Takes 0 "f" children.length ∧ FullAll memory 0 children ∧
      (∃ after, ComesTo (.application "f" (flatAll children) none) 0 memory
        (.error (.missingArgument "f") after)) ∧
      ∃ after, ComesTo (.application "f" (nestedAll children) none) 0 memory
        (.error (.missingArgument "h") after) := by
  let memory : Memory := ⟨#[⟨[
    ("f", .function ⟨"a", .function ⟨"b", .application "a" [] none⟩⟩),
    ("g", .function ⟨"y", .application "y" [] none⟩),
    ("h", .pending (.application "nope" [] none))], none⟩], []⟩
  let children : List CallTree :=
    [.call "g" none [.leaf (.application "h" [] (some ⟨"x", .application "x" [] none⟩))],
      .leaf (.scalar (.boolean true))]
  have takes : memory.Takes 0 "f" children.length := ⟨0, _, Memory.owner?_here rfl, rfl⟩
  have inner : memory.Takes 0 "g" 1 := ⟨0, _, Memory.owner?_here rfl, rfl⟩
  have pending : memory.owner? 0 "h" = some (0, .pending (.application "nope" [] none)) :=
    Memory.owner?_here rfl
  have full : FullAll memory 0 children := by
    refine ⟨⟨inner, ?_, trivial⟩, by rintro _ _ _ _ ⟨⟩, trivial⟩
    rintro _ _ owner lambda ⟨⟩ found
    cases pending.symm.trans found
  have flat : failure? (evaluate 9 (.application "f" (flatAll children) none) 0 memory) =
      some (.missingArgument "f") := by
    decide +kernel
  have nested : failure? (evaluate 9 (.application "f" (nestedAll children) none) 0 memory) =
      some (.missingArgument "h") := by
    decide +kernel
  exact ⟨memory, children, takes, full, comesTo_of_failure? flat (by rintro ⟨⟩),
    comesTo_of_failure? nested (by rintro ⟨⟩)⟩

end Manifest
