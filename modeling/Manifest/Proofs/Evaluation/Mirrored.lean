import Manifest.Proofs.Evaluation.Mirror

/-!
# Runs from frames that correspond

From frames that correspond, every function of the evaluator comes to the same in both
memories, unless one of the two runs is cut off at its depth.  Behind the runs the
memories mirror each other again.
-/

namespace Manifest

open Stepwise

variable {α β γ δ : Type} {mirror further : Mirror} {one two oneAfter twoAfter : Memory}
  {frame other depth : Nat} {name : String}

/-- What the results of two runs have to do with each other, where frames correspond. -/
abbrev Likeness (α β : Type) := (Nat → Nat → Prop) → α → β → Prop

namespace Likeness

/-- The same result. -/
def same : Likeness α α := fun _ result result' => result = result'

/-- Frames that correspond. -/
def pair : Likeness Nat Nat := id

/-- The same value, and frames that correspond. -/
def valued : Likeness (Value × Nat) (Value × Nat) :=
  fun pairs result result' => result.1 = result'.1 ∧ pairs result.2 result'.2

/-- The same value, or the same function in frames that correspond. -/
inductive resolved (pairs : Nat → Nat → Prop) : Resolved → Resolved → Prop
  | value (value : Value) : resolved pairs (.value value) (.value value)
  | function (lambda : Lambda Expr) {owner owner' : Nat} : pairs owner owner' →
      resolved pairs (.function lambda owner) (.function lambda owner')

end Likeness

/-- From some depth on, runs come to an end. -/
def EndsAs (run : Nat → Machine β) (before : Memory) (result : Machine.End β) : Prop :=
  ∃ least, ∀ deep, least ≤ deep → run deep before = result

theorem EndsAs.always {run : Nat → Machine β} {before : Memory} {result : Machine.End β}
    (same : ∀ deep, run deep before = result) : EndsAs run before result :=
  ⟨0, fun deep _ => same deep⟩

theorem EndsAs.bind {run : Nat → Machine β} {next : Nat → β → Machine δ} {before middle : Memory}
    {value : β} {result : Machine.End δ} (first : EndsAs run before (.ok value middle))
    (second : EndsAs (next · value) middle result) :
    EndsAs (fun deep => run deep >>= next deep) before result := by
  rcases first with ⟨least, first⟩
  rcases second with ⟨more, second⟩
  refine ⟨max least more, fun deep le => ?_⟩
  dsimp only
  rw [bind_of_ok _ (first deep (Nat.le_trans (Nat.le_max_left _ _) le))]
  exact second deep (Nat.le_trans (Nat.le_max_right _ _) le)

theorem EndsAs.bind_error {run : Nat → Machine β} {next : Nat → β → Machine δ}
    {before after : Memory} {failure : EvalError}
    (first : EndsAs run before (.error failure after)) :
    EndsAs (fun deep => run deep >>= next deep) before (.error failure after) := by
  rcases first with ⟨least, first⟩
  exact ⟨least, fun deep le => bind_of_error _ (first deep le)⟩

theorem EndsAs.attempt {run : Nat → Machine β} {before : Memory} {result : Machine.End β}
    (comes : EndsAs run before result) :
    EndsAs (fun deep => Machine.attempt (run deep)) before
      (Machine.attempt (fun _ => result) before) := by
  rcases comes with ⟨least, comes⟩
  refine ⟨least, fun deep le => ?_⟩
  simp only [Machine.attempt, comes deep le]

theorem EndsAs.map {run : Nat → Machine β} {other : Nat → Machine δ} {before later : Memory}
    {result : Machine.End β} {change : Machine.End β → Machine.End δ}
    (comes : EndsAs run before result)
    (changed : ∀ deep, other deep later = change (run deep before)) :
    EndsAs other later (change result) := by
  rcases comes with ⟨least, comes⟩
  exact ⟨least, fun deep le => (changed deep).trans (congrArg change (comes deep le))⟩

/-- Unless it is cut off, runs in the other memory come to what a run comes to. -/
inductive Mirrored (mirror : Mirror) (one two : Memory) (agrees : Likeness α β)
    (run : Nat → Machine β) : Machine.End α → Prop
  | cut {result : Machine.End α} : Cut result → Mirrored mirror one two agrees run result
  | ok {further : Mirror} {oneAfter twoAfter : Memory} {result : α} {result' : β} :
      mirror.Reaches one two further oneAfter twoAfter → agrees further.pairs result result' →
      EndsAs run two (.ok result' twoAfter) →
      Mirrored mirror one two agrees run (.ok result oneAfter)
  | error {further : Mirror} {oneAfter twoAfter : Memory} {failure : EvalError} :
      mirror.Reaches one two further oneAfter twoAfter →
      EndsAs run two (.error failure twoAfter) →
      Mirrored mirror one two agrees run (.error failure oneAfter)

namespace Mirrored

variable {agrees : Likeness α β} {more : Likeness γ δ} {step : Machine α} {run : Nat → Machine β}

theorem pure {result : α} {result' : β} (shows : mirror.Shows one two)
    (agreed : agrees mirror.pairs result result') :
    Mirrored mirror one two agrees (fun _ => (Pure.pure result' : Machine β))
      ((Pure.pure result : Machine α) one) :=
  .ok (.refl shows) agreed (.always fun _ => rfl)

theorem throw (failure : EvalError) (shows : mirror.Shows one two) :
    Mirrored mirror one two agrees (fun _ => (MonadExcept.throw failure : Machine β))
      ((MonadExcept.throw failure : Machine α) one) :=
  .error (.refl shows) (.always fun _ => rfl)

/-- What is behind runs that come to the same comes to the same. -/
theorem behind {whole : Nat → Machine β} {result : Machine.End α}
    (reaches : mirror.Reaches one two further oneAfter twoAfter)
    (mirrored : Mirrored further oneAfter twoAfter agrees run result)
    (comes : ∀ {result'}, EndsAs run twoAfter result' → EndsAs whole two result') :
    Mirrored mirror one two agrees whole result := by
  cases mirrored with
  | cut cut => exact .cut cut
  | ok second agreed last => exact .ok (reaches.trans second) agreed (comes last)
  | error second last => exact .error (reaches.trans second) (comes last)

theorem bind {next : α → Machine γ} {next' : Nat → β → Machine δ}
    (first : Mirrored mirror one two agrees run (step one))
    (second : ∀ {further oneAfter twoAfter result result'},
      mirror.Reaches one two further oneAfter twoAfter → agrees further.pairs result result' →
      Mirrored further oneAfter twoAfter more (next' · result') (next result oneAfter)) :
    Mirrored mirror one two more (fun deep => run deep >>= next' deep) ((step >>= next) one) := by
  generalize ran : step one = result at first
  cases first with
  | cut cut =>
    rcases cut with ⟨after, rfl⟩
    exact .cut ⟨after, bind_of_error _ ran⟩
  | ok reaches agreed comes =>
    rw [bind_of_ok _ ran]
    exact (second reaches agreed).behind reaches comes.bind
  | error reaches comes =>
    rw [bind_of_error _ ran]
    exact .error reaches comes.bind_error

/-- A failure that is caught is handed on where a run is cut off. -/
theorem attempt_bind {next : Except EvalError α → Machine γ}
    {next' : Nat → Except EvalError β → Machine δ}
    (first : Mirrored mirror one two agrees run (step one))
    (hands : ∀ memory, Cut (next (.error .exhausted) memory))
    (second : ∀ {further oneAfter twoAfter result result'},
      mirror.Reaches one two further oneAfter twoAfter → agrees further.pairs result result' →
      Mirrored further oneAfter twoAfter more (next' · (.ok result')) (next (.ok result) oneAfter))
    (fails : ∀ {further oneAfter twoAfter} failure,
      mirror.Reaches one two further oneAfter twoAfter →
      Mirrored further oneAfter twoAfter more (next' · (.error failure))
        (next (.error failure) oneAfter)) :
    Mirrored mirror one two more (fun deep => Machine.attempt (run deep) >>= next' deep)
      ((Machine.attempt step >>= next) one) := by
  generalize ran : step one = result at first
  cases first with
  | cut cut =>
    rcases cut with ⟨after, rfl⟩
    rw [bind_of_ok _ (Machine.attempt_of_error ran)]
    exact .cut (hands after)
  | ok reaches agreed comes =>
    rw [bind_of_ok _ (Machine.attempt_of_ok ran)]
    exact (second reaches agreed).behind reaches comes.attempt.bind
  | error reaches comes =>
    rw [bind_of_ok _ (Machine.attempt_of_error ran)]
    exact (fails _ reaches).behind reaches comes.attempt.bind

/-- A step that reads no memory. -/
theorem of_settled {step : Machine Value} (settled : step.Settled) (shows : mirror.Shows one two) :
    Mirrored mirror one two .same (fun _ => step) (step one) := by
  cases settled with
  | ok value known =>
    rw [known]
    exact .ok (.refl shows) rfl (.always fun _ => known two)
  | error failure _ known =>
    rw [known]
    exact .error (.refl shows) (.always fun _ => known two)

/-! ## Steps on memory -/

theorem openFrame (shows : mirror.Shows one two) (pair : mirror.pairs frame other) {names : Layer}
    (fresh : ∀ name, names.get? name ≠ some .resolving) :
    Mirrored mirror one two .pair (fun _ => Machine.openFrame ⟨names, some other⟩)
      (Machine.openFrame ⟨names, some frame⟩ one) := by
  rcases shows.openFrame pair fresh with ⟨further, reaches, opened⟩
  exact .ok reaches opened (.always fun _ => rfl)

theorem pushArgument (shows : mirror.Shows one two) (value : Value) :
    Mirrored mirror one two .same (fun _ => Machine.pushArgument value)
      (Machine.pushArgument value one) := by
  have pushed : mirror.Reaches one two mirror { one with arguments := value :: one.arguments }
      { two with arguments := value :: two.arguments } := by
    rw [shows.arguments]
    exact shows.withArguments _
  exact .ok pushed rfl (.always fun _ => rfl)

theorem popArgument? (shows : mirror.Shows one two) (base : Nat) :
    Mirrored mirror one two .same (fun _ => Machine.popArgument? base)
      (Machine.popArgument? base one) := by
  have same := shows.arguments
  by_cases low : one.arguments.length ≤ base
  · have low' : two.arguments.length ≤ base := by rwa [same]
    rw [Machine.popArgument?_of_le low]
    exact .ok (.refl shows) rfl (.always fun _ => Machine.popArgument?_of_le low')
  · have high : ¬ two.arguments.length ≤ base := by rwa [same]
    cases waiting : one.arguments with
    | nil => exact absurd (waiting ▸ Nat.zero_le base) low
    | cons argument rest =>
      rw [Machine.popArgument?_of_lt waiting low]
      exact .ok (shows.withArguments rest) rfl
        (.always fun _ => Machine.popArgument?_of_lt (same.trans waiting) high)

end Mirrored

/-! ## Names -/

theorem Evaluator.advances_resolve (depth : Nat) (name : String) (frame : Nat) (before : Memory) :
    before.Advances (lastMemory ((evaluate depth).resolve name frame before)) := by
  have orderly : Manifest.Orderly (fun _ => True) fun _ => (evaluate depth).resolve name frame :=
    (orderly_evaluate depth).resolve name frame
  exact (orderly 0 before).2.advances

/-- A name whose operand has a meaning is found in either memory by itself. -/
theorem Mirror.Shows.resolve_of_known (shows : mirror.Shows one two)
    (pair : mirror.pairs frame other) {owner enough : Nat} {operand : Expr}
    (shown : (mirror.scenes frame).find? name = some (mirror.scenes owner, .pending operand))
    (known : meaning enough (mirror.scenes owner) operand ≠ .error .exhausted) :
    Mirrored mirror one two Likeness.resolved (fun deep => (evaluate deep).resolve name other)
      ((evaluate depth).resolve name frame one) := by
  have inside := shows.inside pair
  have rule (mean : Meaning) : mean.resolve (mirror.scenes frame) name =
      mean (mirror.scenes owner) operand >>= fun value => Pure.pure (.value value) := by
    rw [Meaning.resolve, shown]
  have settled : (meaning enough).resolve (mirror.scenes frame) name ≠ .error .exhausted := by
    rw [rule]
    cases outcome : meaning enough (mirror.scenes owner) operand with
    | ok value => rintro ⟨⟩
    | error failure =>
      rintro ⟨⟩
      exact known outcome
  have valued {named : Named}
      (same : (meaning enough).resolve (mirror.scenes frame) name = .ok named) :
      ∃ value, named = .value value := by
    rcases outcome_bind_eq_ok.mp ((rule _).symm.trans same) with ⟨value, _, ⟨⟩⟩
    exact ⟨value, rfl⟩
  have tracked := (adequate_evaluate depth).resolve shows.depicts inside.1 name
  have tracked' := (adequate_evaluate enough).resolve shows.depictsOther inside.2 name
  rw [shows.scene pair] at tracked'
  have steady := Steady.resolve (mirror.scenes frame) name
  have ends := tracked'.not_cut settled
  have comes : EndsAs (fun deep => (evaluate deep).resolve name other) two
      ((evaluate enough).resolve name other two) :=
    (lasting_resolve name other).eventually ((lasting_resolve name other).limit_of_ends ends)
  have found := tracked.known steady shows.straight settled
  have found' := tracked'.known steady shows.straightOther settled
  have advances := Evaluator.advances_resolve depth name frame one
  have advances' := Evaluator.advances_resolve enough name other two
  generalize (evaluate depth).resolve name frame one = result at found advances ⊢
  generalize (evaluate enough).resolve name other two = result' at found' advances' ends comes
  cases found' with
  | cut cut => exact absurd cut ends
  | ok follows' agreed' same' =>
    rcases valued same' with ⟨value, rfl⟩
    rcases agreed' with ⟨⟨⟩, left'⟩
    cases found with
    | cut cut => exact .cut cut
    | ok follows agreed same =>
      cases same.symm.trans same'
      rcases agreed with ⟨⟨⟩, left⟩
      exact .ok (shows.advance follows follows' advances advances'
        (left'.trans (shows.arguments.trans left.symm))) (.value value) comes
    | error _ _ same => cases same.symm.trans same'
  | error follows' left' same' =>
    cases found with
    | cut cut => exact .cut cut
    | ok _ _ same => cases same.symm.trans same'
    | error follows left same =>
      cases same.symm.trans same'
      exact .error (shows.advance follows follows' advances advances'
        (left'.trans (shows.arguments.trans left.symm))) comes

/-- From frames that correspond, expressions come to what they come to at some depth. -/
def Mirroring (depth : Nat) : Prop :=
  ∀ ⦃mirror one two frame other⦄, mirror.Shows one two → mirror.pairs frame other →
    ∀ expression, Mirrored mirror one two .same (fun deep => evaluate deep expression other)
      (evaluate depth expression frame one)

namespace Mirroring

variable (mirroring : Mirroring depth)

include mirroring

/-- A name whose operand has no meaning is evaluated in both memories or in none. -/
theorem resolve_of_endless (shows : mirror.Shows one two) {owner owner' : Nat}
    {held held' : Slot} {operand : Expr} (owners : mirror.pairs owner owner')
    (found : one.owner? frame name = some (owner, held))
    (found' : two.owner? other name = some (owner', held'))
    (own : (mirror.scenes owner).own? name = some (.pending operand))
    (depicted : Depicted (mirror.scenes owner) (.pending operand) held)
    (depicted' : Depicted (mirror.scenes owner) (.pending operand) held')
    (endless : ∀ depth, meaning depth (mirror.scenes owner) operand = .error .exhausted) :
    Mirrored mirror one two Likeness.resolved (fun deep => (evaluate deep).resolve name other)
      ((evaluate depth).resolve name frame one) := by
  have under := shows.under owners name
  rw [Memory.slot?_of_owner? found, Memory.slot?_of_owner? found'] at under
  cases depicted with
  | ready known => cases (endless _).symm.trans known
  | resolving =>
    obtain rfl := Option.some.inj (under.mp rfl)
    rw [Evaluator.resolve, get_bind, found]
    refine .error (.refl shows) (.always fun deep => ?_)
    rw [Evaluator.resolve, get_bind, found']
    rfl
  | same =>
    cases depicted' with
    | ready known => cases (endless _).symm.trans known
    | resolving => cases under.mpr rfl
    | same =>
      rw [Evaluator.resolve_of_pending found]
      have frozen := shows.freeze owners own endless
      have mirrored := mirroring frozen owners operand
      have tracked := adequate_evaluate depth _ _ owner operand frozen.depicts
        (frozen.inside owners).1
      generalize evaluate depth operand owner (one.setSlot owner name .resolving) = result
        at mirrored tracked ⊢
      cases mirrored with
      | cut cut =>
        rcases cut with ⟨after, rfl⟩
        exact .cut ⟨_, rfl⟩
      | ok reaches agreed =>
        -- a value would be a meaning of the operand
        cases tracked with
        | ok _ known _ => cases (endless _).symm.trans known
      | error reaches comes =>
        exact .error (shows.thaw owners own reaches)
          (comes.map fun deep => Evaluator.resolve_of_pending found')

theorem resolve (shows : mirror.Shows one two) (pair : mirror.pairs frame other) (name : String) :
    Mirrored mirror one two Likeness.resolved (fun deep => (evaluate deep).resolve name other)
      ((evaluate depth).resolve name frame one) := by
  cases shows.finds pair name with
  | nowhere none none' =>
    rw [Evaluator.resolve, get_bind, none]
    refine .error (.refl shows) (.always fun deep => ?_)
    rw [Evaluator.resolve, get_bind, none']
    rfl
  | @at_ owner owner' held held' slot owners found found' shown own depicted depicted' =>
    cases slot with
    | ready value =>
      cases depicted
      cases depicted'
      rw [Evaluator.resolve, get_bind, found]
      refine .ok (.refl shows) (.value value) (.always fun deep => ?_)
      rw [Evaluator.resolve, get_bind, found']
      rfl
    | function lambda =>
      cases depicted
      cases depicted'
      rw [Evaluator.resolve_of_function found]
      exact .ok (.refl shows) (.function lambda owners)
        (.always fun deep => Evaluator.resolve_of_function found')
    | resolving =>
      cases depicted with
      | same settled => exact absurd rfl settled
    | pending operand =>
      -- with a meaning, one memory may have the value already while the other has to find it
      by_cases known : ∃ enough, meaning enough (mirror.scenes owner) operand ≠ .error .exhausted
      · rcases known with ⟨enough, known⟩
        exact shows.resolve_of_known pair shown known
      · exact mirroring.resolve_of_endless shows owners found found' own depicted depicted'
          fun depth => Classical.byContradiction fun settled => known ⟨depth, settled⟩

theorem force (shows : mirror.Shows one two) (pair : mirror.pairs frame other) (name : String) :
    Mirrored mirror one two .same (fun deep => (evaluate deep).force name other)
      ((evaluate depth).force name frame one) := by
  refine .bind (mirroring.resolve shows pair name) fun reaches resolved => ?_
  cases resolved with
  | value value => exact .pure reaches.shows rfl
  | function lambda owners => exact .pure reaches.shows rfl

/-! ## Calls -/

omit mirroring in
/-- The next argument is bound in a frame of its own. -/
theorem bindArgument (shows : mirror.Shows one two) (pair : mirror.pairs frame other) {base : Nat}
    {parameter : String} {failure : EvalError} {next : Nat → Machine Value}
    {next' : Nat → Nat → Machine Value}
    (behind : ∀ {further oneAfter twoAfter inner inner'}, further.Shows oneAfter twoAfter →
      further.pairs inner inner' →
      Mirrored further oneAfter twoAfter .same (next' · inner') (next inner oneAfter)) :
    Mirrored mirror one two .same
      (fun deep => (do
        let some argument ← Machine.popArgument? base | throw failure
        let inner ← Machine.openFrame ⟨[(parameter, .ready argument)], some other⟩
        next' deep inner : Machine Value))
      ((do
        let some argument ← Machine.popArgument? base | throw failure
        let inner ← Machine.openFrame ⟨[(parameter, .ready argument)], some frame⟩
        next inner : Machine Value) one) := by
  refine .bind (.popArgument? shows base) fun {_ _ _ popped _} reaches same => ?_
  cases same
  cases popped with
  | none => exact .throw failure reaches.shows
  | some argument =>
    refine .bind (.openFrame reaches.shows (reaches.pairs pair)
      (Layer.get?_ofArgument_ne parameter argument)) fun opened pair => ?_
    exact behind opened.shows pair

theorem call (shows : mirror.Shows one two) (pair : mirror.pairs frame other) (name : String)
    (base : Nat) (parameter : String) (body : Expr) :
    Mirrored mirror one two .same
      (fun deep => (evaluate deep).call name base parameter body other)
      ((evaluate depth).call name base parameter body frame one) := by
  induction parameter, body, frame using Evaluator.call.induct
    generalizing mirror one two other with
  | case1 parameter inner body frame ih =>
    exact bindArgument shows pair fun shows pair => ih _ shows pair
  | case2 parameter body frame noFunction =>
    simp only [Evaluator.call]
    exact bindArgument shows pair fun shows pair => mirroring shows pair body

theorem apply (shows : mirror.Shows one two) (pair : mirror.pairs frame other) (name : String)
    (definition : Option (Lambda Expr)) (base : Nat) :
    Mirrored mirror one two .same (fun deep => (evaluate deep).apply name definition other base)
      ((evaluate depth).apply name definition frame base one) := by
  refine .attempt_bind (mirroring.resolve shows pair name) cut_throw
    (fun reaches resolved => ?_) fun failure reaches => ?_
  · cases resolved with
    | value value => exact .pure reaches.shows rfl
    | function lambda owners => exact mirroring.call reaches.shows owners name base _ _
  · cases failure with
    | unresolvedIdentifier missing =>
      cases definition with
      | none => exact .throw _ reaches.shows
      | some lambda => exact mirroring.call reaches.shows (reaches.pairs pair) name base _ _
    | _ => exact .throw _ reaches.shows

theorem operandValue (shows : mirror.Shows one two) (pair : mirror.pairs frame other) (base : Nat)
    (operand : Expr) :
    Mirrored mirror one two .same (fun deep => (evaluate deep).operandValue other base operand)
      ((evaluate depth).operandValue frame base operand one) := by
  cases operand with
  | application name operands definition =>
    cases operands with
    | nil => exact mirroring.apply shows pair name definition base
    | cons first rest => exact mirroring shows pair _
  | _ => exact mirroring shows pair _

theorem pushOperands (shows : mirror.Shows one two) (pair : mirror.pairs frame other) (base : Nat)
    (operands : List Expr) :
    Mirrored mirror one two .same (fun deep => (evaluate deep).pushOperands other base operands)
      ((evaluate depth).pushOperands frame base operands one) := by
  induction operands with
  | nil => exact .pure shows rfl
  | cons operand rest ih =>
    refine .bind ih fun reaches _ => ?_
    refine .bind (mirroring.operandValue reaches.shows (reaches.pairs pair) base operand)
      fun {_ _ _ value _} further same => ?_
    cases same
    exact .pushArgument further.shows value

theorem application (shows : mirror.Shows one two) (pair : mirror.pairs frame other)
    (name : String) (operands : List Expr) (definition : Option (Lambda Expr)) :
    Mirrored mirror one two .same
      (fun deep => (evaluate deep).application name operands definition other)
      ((evaluate depth).application name operands definition frame one) := by
  have applied : Mirrored mirror one two .same
      (fun deep => (evaluate deep).pushAndApply name operands definition other one.arguments.length)
      ((evaluate depth).pushAndApply name operands definition frame one.arguments.length one) := by
    refine .bind (mirroring.pushOperands shows pair one.arguments.length operands)
      fun reaches _ => ?_
    exact mirroring.apply reaches.shows (reaches.pairs pair) name definition one.arguments.length
  have whole (deep : Nat) : (evaluate deep).application name operands definition other two =
      Evaluator.conclude name one.arguments.length
        ((evaluate deep).pushAndApply name operands definition other one.arguments.length two) := by
    rw [Evaluator.application_eq, shows.arguments]
  have dropped {further : Mirror} {oneAfter twoAfter : Memory} (base : Nat)
      (shows : further.Shows oneAfter twoAfter) :
      further.Reaches oneAfter twoAfter further (oneAfter.dropTo base) (twoAfter.dropTo base) := by
    rw [Memory.dropTo, Memory.dropTo, shows.arguments]
    exact shows.withArguments _
  rw [Evaluator.application_eq]
  generalize (evaluate depth).pushAndApply name operands definition frame one.arguments.length one =
    result at applied ⊢
  cases applied with
  | cut cut => exact .cut ((Evaluator.cut_conclude _ _ _).mpr cut)
  | error reaches comes => exact .error (reaches.trans (dropped _ reaches.shows)) (comes.map whole)
  | ok reaches same comes =>
    cases same
    have cleared := reaches.trans (dropped one.arguments.length reaches.shows)
    have concluded := comes.map whole
    rw [Evaluator.conclude, reaches.shows.arguments] at concluded
    rw [Evaluator.conclude]
    split
    · rename_i left
      rw [if_pos left] at concluded
      exact .error cleared concluded
    · rename_i left
      rw [if_neg left] at concluded
      exact .ok cleared rfl concluded

/-! ## Blocks and expressions -/

theorem gather (shows : mirror.Shows one two) (pair : mirror.pairs frame other)
    (harvest : Harvest) (expression : Expr) :
    Mirrored mirror one two .same (fun deep => (evaluate deep).gather other harvest expression)
      ((evaluate depth).gather frame harvest expression one) := by
  cases expression with
  | assignment key operand =>
    simp only [Evaluator.gather]
    split
    · exact .pure shows rfl
    · refine .bind (mirroring.force shows pair key) fun reaches same => ?_
      cases same
      exact .pure reaches.shows rfl
  | _ =>
    refine .bind (mirroring shows pair _) fun reaches same => ?_
    cases same
    exact .pure reaches.shows rfl

theorem gatherAll (shows : mirror.Shows one two) (pair : mirror.pairs frame other)
    (harvest : Harvest) (expressions : List Expr) :
    Mirrored mirror one two .same (fun deep => (evaluate deep).gatherAll other harvest expressions)
      ((evaluate depth).gatherAll frame harvest expressions one) := by
  induction expressions generalizing mirror one two harvest with
  | nil => exact .pure shows rfl
  | cons expression rest ih =>
    refine .bind (mirroring.gather shows pair harvest expression) fun reaches same => ?_
    cases same
    exact ih reaches.shows (reaches.pairs pair) _

theorem sectionValue (shows : mirror.Shows one two) (pair : mirror.pairs frame other)
    (part : Section Expr) :
    Mirrored mirror one two .valued (fun deep => (evaluate deep).sectionValue other part)
      ((evaluate depth).sectionValue frame part one) := by
  simp only [Evaluator.sectionValue, Evaluator.slots_eq [] (some frame),
    Evaluator.slots_eq [] (some other)]
  refine .bind (.openFrame shows pair (Layer.get?_ofSection_ne part.expressions))
    fun opened inner => ?_
  refine .bind (mirroring.gatherAll opened.shows inner .empty part.expressions)
    fun reaches same => ?_
  cases same
  exact .pure reaches.shows ⟨rfl, reaches.pairs inner⟩

theorem sectionValues (shows : mirror.Shows one two) (pair : mirror.pairs frame other)
    (sections : List (Section Expr)) :
    Mirrored mirror one two .same (fun deep => (evaluate deep).sectionValues other sections)
      ((evaluate depth).sectionValues frame sections one) := by
  induction sections generalizing mirror one two with
  | nil => exact .pure shows rfl
  | cons part rest ih =>
    refine .bind (mirroring.sectionValue shows pair part)
      fun {_ _ _ found found'} reaches same => ?_
    rcases found with ⟨value, _⟩
    rcases found' with ⟨_, _⟩
    rcases same with ⟨⟨⟩, _⟩
    refine .bind (ih reaches.shows (reaches.pairs pair)) fun further same => ?_
    cases same
    exact .pure further.shows rfl

theorem blockValue (shows : mirror.Shows one two) (pair : mirror.pairs frame other)
    (sections : List (Section Expr)) :
    Mirrored mirror one two .same (fun deep => (evaluate deep).blockValue other sections)
      ((evaluate depth).blockValue frame sections one) := by
  cases sections with
  | nil => exact .pure shows rfl
  | cons front rest =>
    cases rest with
    | nil =>
      exact .bind (mirroring.sectionValue shows pair front) fun reaches same =>
        .pure reaches.shows same.1
    | cons second rest =>
      refine .bind (mirroring.sectionValue shows pair front)
        fun {_ _ _ found found'} reaches same => ?_
      rcases found with ⟨value, _⟩
      rcases found' with ⟨_, _⟩
      rcases same with ⟨⟨⟩, inner⟩
      refine .bind (mirroring.sectionValues reaches.shows inner (second :: rest))
        fun further same => ?_
      cases same
      exact .pure further.shows rfl

theorem items (shows : mirror.Shows one two) (pair : mirror.pairs frame other)
    (expressions : List Expr) :
    Mirrored mirror one two .same (fun deep => (evaluate deep).items other expressions)
      ((evaluate depth).items frame expressions one) := by
  induction expressions generalizing mirror one two with
  | nil => exact .pure shows rfl
  | cons item rest ih =>
    refine .bind (mirroring shows pair item) fun reaches same => ?_
    cases same
    refine .bind (ih reaches.shows (reaches.pairs pair)) fun further same => ?_
    cases same
    exact .pure further.shows rfl

theorem step (shows : mirror.Shows one two) (pair : mirror.pairs frame other) (expression : Expr) :
    Mirrored mirror one two .same (fun deep => (evaluate deep).step expression other)
      ((evaluate depth).step expression frame one) := by
  cases expression with
  | unit => exact .pure shows rfl
  | scalar value => exact .pure shows rfl
  | vector items =>
    refine .bind (mirroring.items shows pair items) fun reaches same => ?_
    cases same
    exact .pure reaches.shows rfl
  | «yield» operand | assignment key operand | «scope» id operand =>
    exact mirroring shows pair operand
  | lift operand =>
    refine .bind (mirroring shows pair operand) fun {_ _ _ value _} reaches same => ?_
    cases same
    cases value <;> exact .pure reaches.shows rfl
  | block sections => exact mirroring.blockValue shows pair sections
  | merge left right mode =>
    refine .bind (mirroring shows pair left) fun reaches same => ?_
    cases same
    refine .bind (mirroring reaches.shows (reaches.pairs pair) right) fun further same => ?_
    cases same
    exact .of_settled (settled_mergeValues _ _ _ _) further.shows
  | application name operands definition =>
    exact mirroring.application shows pair name operands definition
  | function lambda =>
    have missing (depth frame : Nat) (memory : Memory) :
        (evaluate depth).step (.function lambda) frame memory =
          .error (.missingArgument lambda.parameter) memory :=
      Adequate.call_nil lambda.parameter lambda.parameter lambda.body frame rfl
    rw [missing]
    exact .error (.refl shows) (.always fun deep => missing deep other two)
  | access target field =>
    refine .bind (mirroring shows pair target) fun {_ _ _ value _} reaches same => ?_
    cases same
    exact .of_settled (settled_fieldOf value field) reaches.shows
  | pipeline left right => exact .throw _ shows
  | patternMatch subject pattern => exact .throw _ shows

end Mirroring

/-- What an evaluation comes to is found one level deeper by its rule. -/
theorem EndsAs.deepen {expression : Expr} {before : Memory} {result : Machine.End Value}
    (comes : EndsAs (fun deep => (evaluate deep).step expression frame) before result) :
    EndsAs (fun deep => evaluate deep expression frame) before result := by
  rcases comes with ⟨least, comes⟩
  refine ⟨least + 1, fun deep le => ?_⟩
  cases deep with
  | zero => cases le
  | succ deep => exact comes deep (Nat.le_of_succ_le_succ le)

/-- Runs from frames that correspond come to the same, whatever depth the other one takes. -/
theorem mirroring_evaluate (depth : Nat) : Mirroring depth := by
  induction depth with
  | zero => exact fun _ one _ _ _ _ _ _ => .cut ⟨one, rfl⟩
  | succ depth ih =>
    exact fun _ _ _ _ _ shows pair expression =>
      (ih.step shows pair expression).behind (.refl shows) .deepen

theorem Mirror.Shows.evaluatesTo (shows : mirror.Shows one two)
    (pair : mirror.pairs frame other) {expression : Expr} {outcome : Except EvalError Value}
    (evaluated : EvaluatesTo expression frame one outcome) :
    EvaluatesTo expression other two outcome := by
  rcases evaluated with ⟨settled, depth, rfl⟩
  have mirrored := mirroring_evaluate depth shows pair expression
  generalize evaluate depth expression frame one = result at mirrored settled ⊢
  refine ⟨settled, ?_⟩
  cases mirrored with
  | cut cut => exact absurd (cut_iff_outcome.mp cut) settled
  | ok _ same comes =>
    cases same
    rcases comes with ⟨least, comes⟩
    exact ⟨least, (congrArg Machine.End.outcome (comes least (Nat.le_refl _))).trans rfl⟩
  | error _ comes =>
    rcases comes with ⟨least, comes⟩
    exact ⟨least, (congrArg Machine.End.outcome (comes least (Nat.le_refl _))).trans rfl⟩

/-- An expression has the same outcomes in frames that correspond. -/
theorem Mirror.Shows.evaluatesTo_iff (shows : mirror.Shows one two)
    (pair : mirror.pairs frame other) {expression : Expr} {outcome : Except EvalError Value} :
    EvaluatesTo expression frame one outcome ↔ EvaluatesTo expression other two outcome :=
  ⟨shows.evaluatesTo pair, shows.flip.evaluatesTo pair⟩

end Manifest
