import Manifest.Proofs.Progress.Watched
import Manifest.Proofs.Streams

/-!
# Accounts of a parse

Each token that is left pays for so many events.  So the events of a parse so far and
those that its tokens still pay for make a balance, and a procedure is told by how much
it lets the balance fall or rise.  A balance that never rises bounds the history of the
whole parse.  Where the stream has gone back, the history owes the events with which the
token there is read again.
-/

namespace Manifest

open Stepwise

/-! ## Debts -/

/-- What follows where the stream has gone back: a chain is begun, and the token at that
place is read as the start of a term. -/
def Event.rereading (place : Nat) : List Event := [.chain, .link 0, .term, .read place]

/-- The stream does not go back, and no stack has more than one expression. -/
def Event.Plain : Event → Prop
  | .rewind _ => False
  | .link height | .push height => height ≤ 1
  | _ => True

/-- The parser tells this event in its work: one of its procedures is called, or goes
round. -/
def Event.isCall : Event → Bool
  | .push _ | .parameter | .read _ | .rewind _ => false
  | _ => true

/-- The stream is moved, or read where it stays. -/
def Event.isMove : Event → Bool
  | .read _ | .rewind _ => true
  | _ => false

/-- A call, with one expression on a stack at the most. -/
def Event.Calls : Event → Prop
  | .link height => height ≤ 1
  | event => event.isCall = true

/-- An event beside the calls, with one expression on a stack at the most. -/
def Event.Aside : Event → Prop
  | .push height => height ≤ 1
  | .parameter => True
  | _ => False

namespace Event

variable {event : Event}

theorem Calls.isCall (calls : event.Calls) : event.isCall = true := by
  cases event with
  | link => rfl
  | _ => exact calls

theorem Calls.isMove (calls : event.Calls) : event.isMove = false := by
  cases event with
  | read | rewind => cases calls
  | _ => rfl

theorem Calls.plain (calls : event.Calls) : event.Plain := by
  cases event with
  | link => exact calls
  | push | rewind => cases calls
  | _ => trivial

theorem Aside.isCall (aside : event.Aside) : event.isCall = false := by
  cases event with
  | push | parameter => rfl
  | _ => cases aside

theorem Aside.isMove (aside : event.Aside) : event.isMove = false := by
  cases event with
  | push | parameter => rfl
  | _ => cases aside

theorem Aside.plain (aside : event.Aside) : event.Plain := by
  cases event with
  | push => exact aside
  | parameter => trivial
  | _ => cases aside

end Event

/-- Where the stream stands behind a history, the latest event first: each token is read
where the stream stands, the final one again and again, and each time that the stream
goes back, it goes back over one token. -/
inductive Walk (last : Nat) : List Event → Nat → Prop
  | start : Walk last [] 0
  | stay {event : Event} {history : List Event} {place : Nat} : event.isMove = false →
      Walk last history place → Walk last (event :: history) place
  | read {history : List Event} {place : Nat} : Walk last history place →
      Walk last (.read place :: history) (min (place + 1) last)
  | rewind {history : List Event} {place : Nat} : Walk last history (place + 1) →
      Walk last (.rewind place :: history) place

/-- A history, the latest event first, and the events that it owes. -/
inductive Owes : List Event → List Event → Prop
  | start : Owes [] []
  | plain {event : Event} {history : List Event} : event.Plain → Owes history [] →
      Owes (event :: history) []
  | rewind {place : Nat} {history : List Event} : Owes history [] →
      Owes (.rewind place :: history) (Event.rereading place)
  | pay {event : Event} {due history : List Event} : Owes history (event :: due) →
      Owes (event :: history) due

namespace Owes

variable {history due : List Event}

theorem plain_of_due (owes : Owes history due) : ∀ event ∈ due, event.Plain := by
  induction owes with
  | start | plain => exact List.forall_mem_nil _
  | rewind =>
    simp only [Event.rereading, List.forall_mem_cons, Event.Plain, true_and, Nat.zero_le]
    exact List.forall_mem_nil _
  | pay _ ih => exact (List.forall_mem_cons.mp ih).2

/-- Wherever the stream has not gone back, no stack has more than one expression. -/
theorem rewinds_or_plain (owes : Owes history due) :
    ∀ event ∈ history, (∃ place, event = .rewind place) ∨ event.Plain := by
  induction owes with
  | start => exact List.forall_mem_nil _
  | plain plain _ ih => exact List.forall_mem_cons.mpr ⟨.inr plain, ih⟩
  | rewind _ ih => exact List.forall_mem_cons.mpr ⟨.inl ⟨_, rfl⟩, ih⟩
  | pay earlier ih =>
    exact List.forall_mem_cons.mpr
      ⟨.inr (earlier.plain_of_due _ List.mem_cons_self), ih⟩

/-- What is owed by a rewinding has been paid at once, or is due. -/
theorem rereads (owes : Owes history due) {later earlier : List Event} {place : Nat}
    (split : history = later ++ .rewind place :: earlier) :
    Event.rereading place <+: later.reverse ++ due := by
  -- what has been paid in front of the latest event stays paid
  have kept {due later : List Event} (latest : Event)
      (paid : Event.rereading place <+: later.reverse ++ []) :
      Event.rereading place <+: (latest :: later).reverse ++ due := by
    rw [List.append_nil] at paid
    rw [List.reverse_cons, List.append_assoc]
    exact paid.trans (List.prefix_append _ _)
  induction owes generalizing later with
  | start => exact absurd split.symm (List.append_ne_nil_of_right_ne_nil _ (List.cons_ne_nil _ _))
  | plain plain _ ih =>
    cases later with
    | nil =>
      cases split
      exact plain.elim
    | cons latest later =>
      cases split
      exact kept _ (ih rfl)
  | rewind _ ih =>
    cases later with
    | nil =>
      cases split
      exact List.prefix_refl _
    | cons latest later =>
      cases split
      exact kept _ (ih rfl)
  | pay earlier ih =>
    cases later with
    | nil =>
      cases split
      exact (earlier.plain_of_due _ List.mem_cons_self).elim
    | cons latest later =>
      cases split
      rw [List.reverse_cons, List.append_assoc]
      exact ih rfl

/-- Where the stream has gone back, the token is read again at once. -/
theorem rereading {earlier later : List Event} {place : Nat} (owes : Owes history [])
    (split : history.reverse = earlier ++ .rewind place :: later) :
    Event.rereading place <+: later := by
  have split : history = later.reverse ++ .rewind place :: earlier.reverse := by
    rw [← List.reverse_reverse history, split, List.reverse_append, List.reverse_cons,
      List.append_assoc]
    rfl
  have paid := owes.rereads split
  rwa [List.append_nil, List.reverse_reverse] at paid

theorem height_le_one {height : Nat} (owes : Owes history [])
    (member : .link height ∈ history ∨ .push height ∈ history) : height ≤ 1 := by
  have plain {event : Event} (member : event ∈ history)
      (moves : ∀ place, event ≠ .rewind place) : event.Plain :=
    (owes.rewinds_or_plain _ member).resolve_left fun ⟨place, same⟩ => moves place same
  rcases member with member | member
  · exact plain member fun _ => Event.noConfusion
  · exact plain member fun _ => Event.noConfusion

end Owes

/-! ## Failures -/

/-- The failures that a sequence with an end can meet with. -/
def ParseError.Harmless : ParseError → Prop
  | .stackShape count _ => count = 2
  | .backtrack .. | .missingEnd | .tooDeep => False
  | _ => True

theorem ParseError.harmless_unexpected (token : Token) (context : String) :
    (unexpected token context).Harmless := by
  rw [unexpected]
  split <;> trivial

/-! ## Balances -/

namespace Watch

variable {tokens : List Token} {watch front : Watch} {due : List Event} {event : Event}

def place (watch : Watch) : Nat := watch.state.stream.position

/-- How many tokens are left in front of the final one. -/
def left (tokens : List Token) (watch : Watch) : Nat := tokens.length - 1 - watch.place

/-- What has happened and what the tokens that are left pay for. -/
def balance (tokens : List Token) (watch : Watch) : Nat :=
  watch.history.length + 16 * watch.left tokens

/-- A parse that stands within its tokens and may owe some events. -/
structure Fair (tokens : List Token) (due : List Event) (watch : Watch) : Prop where
  sound : watch.state.stream.Sound tokens
  origin : watch.state.stream.origin = 0
  owes : Owes watch.history [] ∨ Owes watch.history due
  walk : Walk (tokens.length - 1) watch.history watch.place
  work : watch.state.work = watch.history.countP Event.isCall

/-! ### Events -/

def noted (watch : Watch) (events : List Event) : Watch :=
  ⟨watch.state, events ++ watch.history⟩

def called (watch : Watch) (event : Event) : Watch :=
  ⟨watch.state.ticked, event :: watch.history⟩

/-- The next token has been read. -/
def advanced (watch : Watch) : Watch :=
  ⟨watch.state.advanced, .read watch.place :: watch.history⟩

/-- The stream has gone back to where it stood in front of a token. -/
def rewound (watch front : Watch) : Watch :=
  ⟨{ watch.state with stream := front.state.stream }, .rewind front.place :: watch.history⟩

def withScopes (watch : Watch) (scopes : Scopes) : Watch :=
  ⟨watch.state.withScopes scopes, watch.history⟩

namespace Fair

theorem weaken (fair : watch.Fair tokens []) (due : List Event) : watch.Fair tokens due :=
  ⟨fair.sound, fair.origin, .inl (fair.owes.elim id id), fair.walk, fair.work⟩

theorem last_eq (fair : watch.Fair tokens due) : watch.state.stream.last = tokens.length - 1 := by
  rw [Stream.last, ← fair.sound.tokens_eq, Array.length_toList]

theorem called (fair : watch.Fair tokens (event :: due)) (calls : event.Calls) :
    (watch.called event).Fair tokens due where
  sound := fair.sound
  origin := fair.origin
  owes := fair.owes.imp (.plain calls.plain) .pay
  walk := .stay calls.isMove fair.walk
  work := by
    rw [Watch.called, List.countP_cons_of_pos calls.isCall]
    exact congrArg (· + 1) fair.work

theorem aside (fair : watch.Fair tokens []) (aside : event.Aside) :
    (watch.noted [event]).Fair tokens [] where
  sound := fair.sound
  origin := fair.origin
  owes := .inl (.plain aside.plain (fair.owes.elim id id))
  walk := .stay aside.isMove fair.walk
  work := by
    have work : (watch.noted [event]).history.countP Event.isCall = _ :=
      List.countP_cons_of_neg (Bool.eq_false_iff.mp aside.isCall)
    exact fair.work.trans work.symm

theorem noted (fair : watch.Fair tokens []) {events : List Event}
    (asides : ∀ event ∈ events, event.Aside) : (watch.noted events).Fair tokens [] := by
  induction events with
  | nil => exact fair
  | cons event events ih =>
    rcases List.forall_mem_cons.mp asides with ⟨first, others⟩
    exact (ih others).aside first

theorem withScopes (fair : watch.Fair tokens due) (scopes : Scopes) :
    (watch.withScopes scopes).Fair tokens due :=
  ⟨fair.sound, fair.origin, fair.owes, fair.walk, fair.work⟩

theorem place_advanced (fair : watch.Fair tokens due) :
    watch.advanced.place = min (watch.place + 1) (tokens.length - 1) := by
  rw [← fair.last_eq]
  exact congrArg Stream.position fair.sound.next_eq

theorem advanced (fair : watch.Fair tokens (.read watch.place :: due)) :
    watch.advanced.Fair tokens due where
  sound := fair.sound.next
  origin := (congrArg Stream.origin fair.sound.next_eq).trans fair.origin
  owes := fair.owes.imp (.plain trivial) .pay
  walk := fair.place_advanced ▸ .read fair.walk
  work := fair.work.trans (List.countP_cons_of_neg Bool.false_ne_true).symm

theorem advance (fair : watch.Fair tokens []) : watch.advanced.Fair tokens [] :=
  (fair.weaken [.read watch.place]).advanced

theorem rewound (fair : watch.Fair tokens []) (before : front.Fair tokens [])
    (behind : watch.place = front.place + 1) :
    (watch.rewound front).Fair tokens (Event.rereading front.place) where
  sound := before.sound
  origin := before.origin
  owes := .inr (.rewind (fair.owes.elim id id))
  walk := .rewind (behind ▸ fair.walk)
  work := fair.work.trans (List.countP_cons_of_neg Bool.false_ne_true).symm

/-- In front of anything but the end of input something is left. -/
theorem left_pos (fair : watch.Fair tokens due)
    (more : watch.state.stream.current.lexeme ≠ .endOfInput) : 0 < watch.left tokens := by
  have inside := fair.sound.lt_last more
  rw [fair.last_eq] at inside
  rw [left, place]
  omega

theorem left_advanced (fair : watch.Fair tokens due) :
    watch.advanced.left tokens = watch.left tokens - 1 := by
  have within := fair.sound.le_last
  rw [fair.last_eq] at within
  rw [left, left, fair.place_advanced, place]
  omega

/-- Behind a token one less is left than in front of it. -/
theorem place_of_left (fair : watch.Fair tokens due)
    (read : watch.left tokens + 1 = front.left tokens) : watch.place = front.place + 1 := by
  have within := fair.sound.le_last
  rw [fair.last_eq] at within
  rw [left, left] at read
  rw [place] at read ⊢
  omega

/-- Reading anything but the end of input is one event, and one token less is left. -/
theorem pays (fair : watch.Fair tokens due)
    (more : watch.state.stream.current.lexeme ≠ .endOfInput) :
    watch.advanced.left tokens + 1 = watch.left tokens ∧
      watch.advanced.balance tokens + 15 = watch.balance tokens := by
  have some := fair.left_pos more
  have moved := fair.left_advanced
  have length : watch.advanced.history.length = watch.history.length + 1 := rfl
  rw [balance, balance, length]
  omega

theorem balance_advanced_le (fair : watch.Fair tokens due) :
    watch.advanced.balance tokens ≤ watch.balance tokens + 1 := by
  have moved := fair.left_advanced
  have length : watch.advanced.history.length = watch.history.length + 1 := rfl
  rw [balance, balance, length]
  omega

end Fair

@[simp] theorem left_called : (watch.called event).left tokens = watch.left tokens := rfl

@[simp] theorem left_noted (events : List Event) :
    (watch.noted events).left tokens = watch.left tokens := rfl

@[simp] theorem left_withScopes (scopes : Scopes) :
    (watch.withScopes scopes).left tokens = watch.left tokens := rfl

@[simp] theorem left_rewound : (watch.rewound front).left tokens = front.left tokens := rfl

@[simp] theorem balance_called :
    (watch.called event).balance tokens = watch.balance tokens + 1 := by
  rw [balance, balance, left_called, called, List.length_cons]
  omega

@[simp] theorem balance_noted (events : List Event) :
    (watch.noted events).balance tokens = watch.balance tokens + events.length := by
  rw [balance, balance, left_noted, noted, List.length_append]
  omega

@[simp] theorem balance_withScopes (scopes : Scopes) :
    (watch.withScopes scopes).balance tokens = watch.balance tokens := rfl

/-- What is known behind the call of a procedure. -/
theorem Fair.opening (fair : watch.Fair tokens (event :: due)) (calls : event.Calls) :
    ∃ middle, watch.called event = middle ∧ middle.Fair tokens due ∧
      middle.left tokens = watch.left tokens ∧
      middle.balance tokens = watch.balance tokens + 1 ∧
      middle.state.stream = watch.state.stream :=
  ⟨_, rfl, fair.called calls, left_called, balance_called, rfl⟩

/-- What is known behind a loop over parameters. -/
theorem Fair.counting (fair : watch.Fair tokens []) (count : Nat) :
    ∃ middle, watch.noted (.replicate count .parameter) = middle ∧ middle.Fair tokens [] ∧
      middle.left tokens = watch.left tokens ∧
      middle.balance tokens = watch.balance tokens + count := by
  refine ⟨_, rfl, fair.noted fun event member => ?_, left_noted _, ?_⟩
  · rw [List.eq_of_mem_replicate member]
    trivial
  · rw [balance_noted, List.length_replicate]

/-- Going back gives back what the tokens in between pay for. -/
theorem balance_rewound : (watch.rewound front).balance tokens + 16 * watch.left tokens =
    watch.balance tokens + 1 + 16 * front.left tokens := by
  rw [balance, balance, left_rewound, rewound, List.length_cons]
  omega

end Watch

/-! ## Steps -/

namespace Watched

variable {α : Type} {watch front : Watch} {tokens : List Token}

theorem call_bind (event : Event) (further : Unit → Watched α) :
    (call event >>= further) watch = further () (watch.called event) := rfl

theorem note_bind (events : List Event) (further : Unit → Watched α) :
    (note events >>= further) watch = further () (watch.noted events) := rfl

theorem next_bind (further : Token → Watched α) :
    (next >>= further) watch = further watch.state.stream.current watch.advanced := rfl

/-- Looking at a token in front of reading it. -/
theorem look_bind (event : Event) (further : Token → Watched α) :
    (call event >>= fun _ => peek 0 >>= further) watch =
      further watch.state.stream.current (watch.called event) := rfl

theorem peek_bind (distance : Int) (further : Token → Watched α) :
    (peek distance >>= further) watch = further (watch.state.stream.peek distance) watch := rfl

theorem openScope_bind (parent : Option Nat) (further : Nat → Watched α) :
    (openScope parent >>= further) watch =
      further watch.state.scopes.size (watch.withScopes (watch.state.scopes.push parent).2) := rfl

theorem bind_bind (scope : Nat) (name : String) (binding : Binding)
    (further : Unit → Watched α) :
    (quiet (Parser.bind scope name binding) >>= further) watch =
      further () (watch.withScopes (watch.state.scopes.bind scope name binding)) := rfl

theorem bindAll_bind (scope : Nat) (names : List String) (further : Unit → Watched α) :
    (quiet (names.forM fun name => Parser.bind scope name .parameter) >>= further) watch =
      further () (watch.withScopes (Grammar.withParameters watch.state.scopes scope names)) := by
  refine bind_of_ok _ ?_
  rw [quiet, Grammar.bindAll_eq]
  rfl

/-- Going back from behind a token to where it was read. -/
theorem stepBack_bind (fair : front.Fair tokens [])
    (more : front.state.stream.current.lexeme ≠ .endOfInput)
    (behind : watch.state.stream = front.state.advanced.stream) (further : Unit → Watched α) :
    (stepBack >>= further) watch = further () (watch.rewound front) := by
  have moved : watch.state.stream =
      { front.state.stream with position := front.state.stream.position + 1 } :=
    behind.trans (fair.sound.next_of_more more)
  have enough : ¬ front.state.stream.position + 1 - front.state.stream.origin < 1 := by
    rw [fair.origin]
    omega
  have back : watch.state.stream.backtrack? 1 = some front.state.stream := by
    rw [moved]
    exact if_neg enough
  have stepped : Parser.stepBack watch.state =
      .ok () { watch.state with stream := front.state.stream } := by
    rw [Parser.stepBack, get_bind, back]
    rfl
  have quietly : quiet Parser.stepBack watch =
      .ok () ⟨{ watch.state with stream := front.state.stream }, watch.history⟩ := by
    rw [quiet, stepped]
  have done : stepBack watch = .ok () (watch.rewound front) := by
    rw [stepBack, bind_of_ok _ quietly]
    rfl
  exact bind_of_ok _ done

end Watched

/-! ## Procedures that keep accounts -/

/-- From a start a run takes so many tokens at least, and it lets the balance rise by a
credit at most, or by a fault if it fails.  The price of what it returns is kept back for
those who go on with it. -/
inductive Earns {α : Type} (tokens : List Token) (start : Watch) (least : Nat) (price : α → Nat)
    (credit fault : Nat) : EStateM.Result ParseError Watch α → Prop
  | ok {value : α} {stop : Watch} : stop.Fair tokens [] →
      stop.left tokens + least ≤ start.left tokens →
      stop.balance tokens + price value ≤ start.balance tokens + credit →
      Earns tokens start least price credit fault (.ok value stop)
  | error {failure : ParseError} {stop : Watch} : stop.Fair tokens [] → failure.Harmless →
      stop.balance tokens ≤ start.balance tokens + fault →
      Earns tokens start least price credit fault (.error failure stop)

namespace Earns

variable {α β : Type} {tokens : List Token} {start middle : Watch} {least least' : Nat}
  {price price' : α → Nat} {credit credit' fault fault' : Nat}

theorem pure {value : α} {stop : Watch} (fair : stop.Fair tokens [])
    (left : stop.left tokens + least ≤ start.left tokens)
    (earned : stop.balance tokens + price value ≤ start.balance tokens + credit) :
    Earns tokens start least price credit fault ((Pure.pure value : Watched α) stop) :=
  .ok fair left earned

theorem throw {failure : ParseError} {stop : Watch} (fair : stop.Fair tokens [])
    (harmless : failure.Harmless)
    (lost : stop.balance tokens ≤ start.balance tokens + fault) :
    Earns tokens start least price credit fault
      ((MonadExcept.throw failure : Watched α) stop) :=
  .error fair harmless lost

/-- The account of a run from another start. -/
theorem since {result : EStateM.Result ParseError Watch α}
    (earns : Earns tokens middle least' price' credit' fault' result)
    (left : middle.left tokens + least ≤ start.left tokens + least')
    (ok : ∀ value, middle.balance tokens + credit' + price value ≤
      start.balance tokens + credit + price' value)
    (error : middle.balance tokens + fault' ≤ start.balance tokens + fault) :
    Earns tokens start least price credit fault result := by
  cases earns with
  | @ok value stop fair further earned =>
    have own := ok value
    exact .ok fair (by omega) (by omega)
  | error fair harmless lost => exact .error fair harmless (by omega)

/-- The account of a run that goes on behind another one. -/
theorem bind {step : Watched α} {next : α → Watched β} {priceβ : β → Nat} {origin : Watch}
    (first : Earns tokens middle least' price' credit' fault' (step origin))
    (second : ∀ value stop, stop.Fair tokens [] →
      stop.left tokens + least' ≤ middle.left tokens →
      stop.balance tokens + price' value ≤ middle.balance tokens + credit' →
      Earns tokens start least priceβ credit fault (next value stop))
    (error : middle.balance tokens + fault' ≤ start.balance tokens + fault) :
    Earns tokens start least priceβ credit fault ((step >>= next) origin) := by
  cases ran : step origin with
  | ok value stop =>
    rw [ran] at first
    cases first with
    | ok fair further earned =>
      rw [bind_of_ok _ ran]
      exact second value stop fair further earned
  | error failure stop =>
    rw [ran] at first
    cases first with
    | error fair harmless lost =>
      rw [bind_of_error _ ran]
      exact .error fair harmless (by omega)

/-- A run that keeps accounts ends without debts, and has gained no more than its credit
or its fault. -/
theorem finish {result : EStateM.Result ParseError Watch α}
    (earns : Earns tokens start least price credit fault result) :
    (Watched.finish result).Fair tokens [] ∧
      (Watched.finish result).balance tokens ≤ start.balance tokens + max credit fault := by
  cases earns with
  | ok fair _ earned => exact ⟨fair, by rw [Watched.finish]; omega⟩
  | error fair _ lost => exact ⟨fair, by rw [Watched.finish]; omega⟩

end Earns
end Manifest
