import Manifest.Token.Stream

/-!
# Streams within their bounds

All streams over one sequence come from the first one, by reading and going back and by
beginning a stream of its own somewhere.  Each of them stays between the place where it
was created and the end of the sequence, whatever is done with the others.  What a
stream takes is what lies between its old and its new place.

Distances and counts are machine words.  An operation for which they are too large
halts before it does anything, so it leaves all streams as they were.
-/

namespace Manifest
namespace Stream

variable {tokens : List Token} {stream other : Stream}

/-! ## Bounds -/

/-- A stream over a sequence that finishes with the end of input, between its origin and
the final token. -/
structure Sound (tokens : List Token) (stream : Stream) : Prop where
  tokens_eq : stream.tokens.toList = tokens
  origin_le : stream.origin ≤ stream.position
  le_last : stream.position ≤ stream.last
  ends : ∃ token, tokens[stream.last]? = some token ∧ token.lexeme = .endOfInput

theorem sound_ofTokens (ends : (ofTokens tokens).endsWithEnd = true) :
    Sound tokens (ofTokens tokens) where
  tokens_eq := rfl
  origin_le := Nat.le_refl 0
  le_last := Nat.zero_le _
  ends := by
    rcases (Option.any_eq_true _ _).mp ends with ⟨token, found, finish⟩
    refine ⟨token, ?_, beq_iff_eq.mp finish⟩
    rwa [Array.back?_eq_getElem?, ofTokens, List.getElem?_toArray] at found

namespace Sound

variable (sound : Sound tokens stream)

include sound

theorem getElem? (index : Nat) : stream.tokens[index]? = tokens[index]? := by
  rw [← sound.tokens_eq, Array.getElem?_toList]

theorem last_lt : stream.last < tokens.length := by
  rcases sound.ends with ⟨token, found, _⟩
  exact (List.getElem?_eq_some_iff.mp found).1

/-- A token is looked at within the bounds. -/
theorem peek_spec (distance : Int) : ∃ index : Nat,
    (index : Int) = min (max (stream.position + distance) stream.origin) stream.last ∧
      tokens[index]? = some (stream.peek distance) := by
  have origin := sound.origin_le
  have last := sound.le_last
  have within := sound.last_lt
  have bounds : (min (max ((stream.position : Int) + distance) stream.origin)
      stream.last).toNat < tokens.length := by
    omega
  refine ⟨_, Int.toNat_of_nonneg (by omega), ?_⟩
  rw [peek, sound.getElem?, List.getElem?_eq_getElem bounds]
  rfl

theorem current_spec : tokens[stream.position]? = some stream.current := by
  have origin := sound.origin_le
  have last := sound.le_last
  rcases sound.peek_spec 0 with ⟨index, same, found⟩
  have here : index = stream.position := by omega
  exact here ▸ found

theorem lt_last (more : stream.current.lexeme ≠ .endOfInput) : stream.position < stream.last := by
  refine Nat.lt_of_le_of_ne sound.le_last fun same => more ?_
  rcases sound.ends with ⟨token, found, finish⟩
  have here := sound.current_spec
  rw [same, found] at here
  cases here
  exact finish

/-- The stream at another place within its bounds. -/
theorem moveTo {position : Nat} (origin : stream.origin ≤ position)
    (last : position ≤ stream.last) : Sound tokens { stream with position } :=
  ⟨sound.tokens_eq, origin, last, sound.ends⟩

theorem next_eq :
    stream.next.2 = { stream with position := min (stream.position + 1) stream.last } := by
  have last := sound.le_last
  rw [Stream.next]
  split
  · rw [Nat.min_eq_left (by omega)]
  · rw [Nat.min_eq_right (by omega), show stream.last = stream.position by omega]

theorem next : Sound tokens stream.next.2 := by
  have origin := sound.origin_le
  have last := sound.le_last
  rw [sound.next_eq]
  exact sound.moveTo (by omega) (by omega)

/-- Reading anything but the final token moves by one. -/
theorem next_of_more (more : stream.current.lexeme ≠ .endOfInput) :
    stream.next.2 = { stream with position := stream.position + 1 } :=
  if_pos (sound.lt_last more)

theorem backtrack?_of_le {count : Nat} (enough : count ≤ stream.position - stream.origin) :
    stream.backtrack? count = some { stream with position := stream.position - count } ∧
      Sound tokens { stream with position := stream.position - count } := by
  have origin := sound.origin_le
  have last := sound.le_last
  exact ⟨if_neg (by omega), sound.moveTo (by omega) (by omega)⟩

theorem range : Sound tokens stream.range :=
  ⟨sound.tokens_eq, Nat.le_refl _, sound.le_last, sound.ends⟩

end Sound

/-! ## Taking tokens -/

/-- A stream takes the tokens between its old and its new place: the longest run of
tokens that are allowed, each at its index in the run, and none that is the end of input. -/
structure Takes (stream : Stream) (allowed : Nat → Token → Prop) (taken : List Token)
    (moved : Stream) : Prop where
  moved_eq : moved = { stream with position := stream.position + taken.length }
  taken_eq : taken = (stream.tokens.toList.drop stream.position).take taken.length
  passes : ∀ index token, taken[index]? = some token →
    token.lexeme ≠ .endOfInput ∧ allowed index token
  longest : ∃ token, stream.tokens[moved.position]? = some token ∧
    (token.lexeme = .endOfInput ∨ ¬ allowed taken.length token)

theorem Sound.takes_nil (sound : Sound tokens stream) {allowed : Nat → Token → Prop}
    (stops : stream.current.lexeme = .endOfInput ∨ ¬ allowed 0 stream.current) :
    Takes stream allowed [] stream :=
  ⟨rfl, rfl, fun _ _ found => (nomatch found),
    stream.current, (sound.getElem? _).trans sound.current_spec, stops⟩

theorem Sound.takes_cons (sound : Sound tokens stream) {allowed : Nat → Token → Prop}
    {taken : List Token} {moved : Stream} (more : stream.current.lexeme ≠ .endOfInput)
    (first : allowed 0 stream.current)
    (behind : Takes stream.next.2 (fun index => allowed (index + 1)) taken moved) :
    Takes stream allowed (stream.current :: taken) moved := by
  have step := sound.next_of_more more
  rw [step] at behind
  have place := behind.moved_eq
  refine ⟨?_, ?_, ?_, ?_⟩
  · rw [place, List.length_cons, Nat.add_assoc, Nat.add_comm 1]
  · have here := sound.current_spec
    rw [← sound.tokens_eq] at here
    rcases List.getElem?_eq_some_iff.mp here with ⟨inside, same⟩
    rw [List.drop_eq_getElem_cons inside, List.length_cons, List.take_succ_cons, same]
    exact congrArg _ behind.taken_eq
  · intro index token found
    cases index with
    | zero =>
      cases found
      exact ⟨more, first⟩
    | succ index => exact behind.passes index token found
  · rcases behind.longest with ⟨token, found, stops⟩
    exact ⟨token, found, stops⟩

/-- A bounded run is the longest one within the bound. -/
theorem Sound.takeWhile (sound : Sound tokens stream) (test : Lexeme → Bool) (bound : Nat) :
    Takes stream (fun index token => index < bound ∧ test token.lexeme = true)
      (Stream.takeWhile test bound stream).1 (Stream.takeWhile test bound stream).2 := by
  induction bound generalizing stream with
  | zero => exact sound.takes_nil (.inr fun within => Nat.not_lt_zero 0 within.1)
  | succ bound ih =>
    rw [Stream.takeWhile]
    split
    · rename_i passes
      rcases (Bool.and_eq_true _ _).mp passes with ⟨more, first⟩
      rw [isAtEnd, Bool.not_eq_true', beq_eq_false_iff_ne] at more
      refine sound.takes_cons more ⟨Nat.succ_pos bound, first⟩ ?_
      simp only [Nat.add_lt_add_iff_right]
      exact ih sound.next
    · rename_i stops
      refine sound.takes_nil (Classical.or_iff_not_imp_left.mpr fun more within => stops ?_)
      rw [isAtEnd, beq_eq_false_iff_ne.mpr more, within.2]
      rfl

theorem Takes.mono {allowed allowed' : Nat → Token → Prop} {taken : List Token} {moved : Stream}
    (takes : Takes stream allowed taken moved)
    (same : ∀ index token, index ≤ taken.length → (allowed index token ↔ allowed' index token)) :
    Takes stream allowed' taken moved where
  moved_eq := takes.moved_eq
  taken_eq := takes.taken_eq
  passes index token found := by
    have inside := (List.getElem?_eq_some_iff.mp found).1
    rw [← same index token (Nat.le_of_lt inside)]
    exact takes.passes index token found
  longest := by
    rcases takes.longest with ⟨token, found, stops⟩
    refine ⟨token, found, ?_⟩
    rwa [← same _ token (Nat.le_refl _)]

theorem Takes.sound {allowed : Nat → Token → Prop} {taken : List Token} {moved : Stream}
    (takes : Takes stream allowed taken moved) (sound : Sound tokens stream) :
    Sound tokens moved := by
  have origin := sound.origin_le
  rcases takes.longest with ⟨token, found, _⟩
  have inside := (Array.getElem?_eq_some_iff.mp found).1
  rw [takes.moved_eq] at inside ⊢
  refine sound.moveTo (by omega) ?_
  rw [last]
  dsimp only at inside
  omega

theorem Sound.consume (sound : Sound tokens stream) (count : Nat) :
    Takes stream (fun index _ => index < count) (stream.consume count).1
      (stream.consume count).2 :=
  (sound.takeWhile (fun _ => true) count).mono fun _ _ _ => and_iff_left rfl

theorem Sound.consumeWhile (sound : Sound tokens stream) (test : Lexeme → Bool) :
    Takes stream (fun _ token => test token.lexeme = true) (stream.consumeWhile test).1
      (stream.consumeWhile test).2 := by
  have takes := sound.takeWhile test stream.tokens.size
  refine takes.mono fun index _ within => and_iff_right (Nat.lt_of_le_of_lt within ?_)
  have last := (takes.sound sound).le_last
  have inside := sound.last_lt
  rw [takes.moved_eq] at last
  rw [← sound.tokens_eq, Array.length_toList] at inside
  change stream.position + _ ≤ stream.last at last
  omega

/-! ## Several streams -/

/-- What can be done with one stream. -/
inductive Operation where
  | next
  | peek (distance : Int64)
  | consume (count : UInt64)
  | consumeWhile (test : Lexeme → Bool)
  | backtrack (count : UInt64)

/-- The stream behind an operation.  Going back too far leaves it where it is, and so
does taking more than there is room for. -/
def Operation.apply (stream : Stream) : Operation → Stream
  | next => stream.next.2
  | peek _ => stream
  | consume count =>
    match Word.consume stream count with
    | .ok (_, moved) => moved
    | .error _ => stream
  | consumeWhile test => (stream.consumeWhile test).2
  | backtrack count => (stream.backtrack? count.toNat).getD stream

/-- Something is done with one of several streams: it is moved, or another stream begins
where it stands. -/
inductive Step where
  | move (place : Nat) (operation : Operation)
  | range (place : Nat)

/-- The streams behind a step, in the order in which they were made. -/
def perform (streams : List Stream) : Step → List Stream
  | .move place operation => streams.modify place (operation.apply ·)
  | .range place => streams ++ (streams[place]?.map Stream.range).toList

/-- A step that does not move the stream at a place. -/
def Step.Spares (place : Nat) : Step → Prop
  | .move other _ => other ≠ place
  | .range _ => True

theorem Word.consume_of_lt {count : UInt64} (fits : count.toNat < Word.room) :
    Word.consume stream count = .ok (stream.consume count.toNat) :=
  if_pos fits

theorem Word.consume_of_le {count : UInt64} (tooMany : Word.room ≤ count.toNat) :
    Word.consume stream count = .error .capacity :=
  if_neg (Nat.not_lt.mpr tooMany)

theorem Operation.apply_consume (stream : Stream) (count : UInt64) :
    (Operation.consume count).apply stream =
      if count.toNat < Word.room then (stream.consume count.toNat).2 else stream := by
  rw [Operation.apply]
  by_cases fits : count.toNat < Word.room
  · rw [Word.consume_of_lt fits, if_pos fits]
  · rw [Word.consume_of_le (Nat.le_of_not_lt fits), if_neg fits]

theorem Sound.apply (sound : Sound tokens stream) (operation : Operation) :
    Sound tokens (operation.apply stream) := by
  cases operation with
  | next => exact sound.next
  | peek distance => exact sound
  | consume count =>
    rw [Operation.apply_consume]
    split
    · exact (sound.consume count.toNat).sound sound
    · exact sound
  | consumeWhile test => exact (sound.consumeWhile test).sound sound
  | backtrack count =>
    by_cases enough : count.toNat ≤ stream.position - stream.origin
    · rcases sound.backtrack?_of_le enough with ⟨moved, within⟩
      rw [Operation.apply, moved]
      exact within
    · rw [Operation.apply, backtrack?, if_pos (Nat.lt_of_not_le enough)]
      exact sound

/-- No operation changes where a stream was created. -/
theorem Sound.origin_apply (sound : Sound tokens stream) (operation : Operation) :
    (operation.apply stream).origin = stream.origin := by
  cases operation with
  | next => rw [Operation.apply, sound.next_eq]
  | peek distance => rfl
  | consume count =>
    rw [Operation.apply_consume]
    split
    · rw [(sound.consume count.toNat).moved_eq]
    · rfl
  | consumeWhile test => rw [Operation.apply, (sound.consumeWhile test).moved_eq]
  | backtrack count =>
    rw [Operation.apply, backtrack?]
    split <;> rfl

/-- What holds of a stream at any time. -/
structure Disciplined (tokens : List Token) (stream : Stream) : Prop extends
    Sound tokens stream where
  /-- No index lies outside the sequence. -/
  peek : ∀ (arithmetic : Arithmetic) (distance : Int64),
    stream.position + distance.toInt < Word.bound →
    ∃ (index : Nat) (token : Token),
      (index : Int) = min (max (stream.position + distance.toInt) stream.origin) stream.last ∧
        tokens[index]? = some token ∧ Word.peek arithmetic stream distance = .ok token
  /-- A distance that is too large halts the program, or leads back to the origin. -/
  peekBeyond : ∀ distance : Int64, Word.bound ≤ stream.position + distance.toInt →
    Word.peek .checked stream distance = .error .overflow ∧
    ∃ (index : Nat) (token : Token), tokens[index]? = some token ∧
      Word.peek .wrapping stream distance = .ok token ∧
      (stream.position < Word.bound → index = stream.origin)
  /-- The final token is read without moving. -/
  next : tokens[stream.position]? = some stream.next.1 ∧
    stream.next.2 = { stream with position := min (stream.position + 1) stream.last }
  consume : ∀ count : UInt64, count.toNat < Word.room → ∃ taken moved,
    Word.consume stream count = .ok (taken, moved) ∧
      Takes stream (fun index _ => index < count.toNat) taken moved
  /-- More than there is room for is not taken at all. -/
  consumeBeyond : ∀ count : UInt64, Word.room ≤ count.toNat →
    Word.consume stream count = .error .capacity ∧
      (Operation.consume count).apply stream = stream
  consumeWhile : ∀ test, Takes stream (fun _ token => test token.lexeme = true)
    (stream.consumeWhile test).1 (stream.consumeWhile test).2
  goesBack : ∀ count, count ≤ stream.position - stream.origin →
    stream.backtrack? count = some { stream with position := stream.position - count }
  staysPut : ∀ count : UInt64, stream.position - stream.origin < count.toNat →
    stream.backtrack? count.toNat = none ∧ (Operation.backtrack count).apply stream = stream

theorem Word.peek_of_lt {distance : Int64} (fits : stream.position + distance.toInt < Word.bound)
    (arithmetic : Arithmetic) :
    Word.peek arithmetic stream distance = .ok (stream.peek distance.toInt) :=
  if_pos fits

/-- A sum that wraps round lies in front of the origin. -/
theorem Sound.peek_wrapping (sound : Sound tokens stream) {distance : Int64}
    (beyond : Word.bound ≤ stream.position + distance.toInt) :
    ∃ (index : Nat) (token : Token), tokens[index]? = some token ∧
      Word.peek .wrapping stream distance = .ok token ∧
      (stream.position < Word.bound → index = stream.origin) := by
  rcases sound.peek_spec (distance.toInt - 2 * Word.bound) with ⟨index, place, found⟩
  refine ⟨index, _, found, if_neg (Int.not_lt.mpr beyond), fun within => ?_⟩
  have origin := sound.origin_le
  have last := sound.le_last
  have least : distance.toInt < Word.bound := distance.toInt_lt
  omega

theorem Sound.disciplined (sound : Sound tokens stream) : Disciplined tokens stream where
  toSound := sound
  peek arithmetic distance fits := by
    rcases sound.peek_spec distance.toInt with ⟨index, place, found⟩
    exact ⟨index, _, place, found, Word.peek_of_lt fits arithmetic⟩
  peekBeyond distance beyond := ⟨if_neg (Int.not_lt.mpr beyond), sound.peek_wrapping beyond⟩
  next := ⟨sound.current_spec, sound.next_eq⟩
  consume count fits := ⟨_, _, Word.consume_of_lt fits, sound.consume count.toNat⟩
  consumeBeyond count tooMany :=
    ⟨Word.consume_of_le tooMany, by
      rw [Operation.apply_consume, if_neg (Nat.not_lt.mpr tooMany)]⟩
  consumeWhile := sound.consumeWhile
  goesBack _ enough := (sound.backtrack?_of_le enough).1
  staysPut count short := by
    have refused : stream.backtrack? count.toNat = none := if_pos short
    exact ⟨refused, by rw [Operation.apply, refused, Option.getD_none]⟩

section Run

variable {streams : List Stream} {place : Nat} {step : Step}

theorem sound_perform (sound : ∀ stream ∈ streams, Sound tokens stream) (step : Step) :
    ∀ stream ∈ perform streams step, Sound tokens stream := by
  intro stream member
  cases step with
  | move place operation =>
    rcases List.mem_iff_getElem?.mp member with ⟨index, found⟩
    rw [perform, List.getElem?_modify] at found
    rcases Option.map_eq_some_iff.mp found with ⟨earlier, stands, same⟩
    have kept := sound earlier (List.mem_of_getElem? stands)
    split at same
    · exact same ▸ kept.apply operation
    · exact same ▸ kept
  | range place =>
    rcases List.mem_append.mp member with earlier | new
    · exact sound stream earlier
    · rcases Option.map_eq_some_iff.mp (Option.mem_toList.mp new) with ⟨source, stands, rfl⟩
      exact (sound source (List.mem_of_getElem? stands)).range

theorem sound_run (sound : ∀ stream ∈ streams, Sound tokens stream) (steps : List Step) :
    ∀ stream ∈ steps.foldl perform streams, Sound tokens stream := by
  induction steps generalizing streams with
  | nil => exact sound
  | cons step steps ih => exact ih (sound_perform sound step)

/-- A stream that is there stays there, with the origin it has. -/
theorem getElem?_perform (sound : ∀ stream ∈ streams, Sound tokens stream)
    (stands : streams[place]? = some stream) (step : Step) :
    ∃ later, (perform streams step)[place]? = some later ∧ later.origin = stream.origin ∧
      (step.Spares place → later = stream) := by
  have inside := (List.getElem?_eq_some_iff.mp stands).1
  cases step with
  | move other operation =>
    rw [perform, List.getElem?_modify, stands]
    by_cases same : other = place
    · exact ⟨operation.apply stream, congrArg some (if_pos same),
        (sound stream (List.mem_of_getElem? stands)).origin_apply operation,
        fun spares => absurd same spares⟩
    · exact ⟨stream, congrArg some (if_neg same), rfl, fun _ => rfl⟩
  | range other =>
    rw [perform, List.getElem?_append_left inside]
    exact ⟨stream, stands, rfl, fun _ => rfl⟩

theorem getElem?_run (sound : ∀ stream ∈ streams, Sound tokens stream)
    (stands : streams[place]? = some stream) (steps : List Step) :
    ∃ later, (steps.foldl perform streams)[place]? = some later ∧
      later.origin = stream.origin ∧ ((∀ step ∈ steps, step.Spares place) → later = stream) := by
  induction steps generalizing streams stream with
  | nil => exact ⟨stream, stands, rfl, fun _ => rfl⟩
  | cons step steps ih =>
    rcases getElem?_perform sound stands step with ⟨middle, found, origin, same⟩
    rcases ih (sound_perform sound step) found with ⟨later, further, kept, still⟩
    refine ⟨later, further, kept.trans origin, fun spares => ?_⟩
    rcases List.forall_mem_cons.mp spares with ⟨first, behind⟩
    exact (still behind).trans (same first)

end Run

/-- Whatever is done with the streams over a sequence that finishes with the end of input,
in whatever order, each keeps within its bounds, takes what lies between its old and its
new place, and goes back no further than to its origin.  A stream that begins where
another one stands has its origin there for good, and the other one is not changed by
what is done with it. -/
theorem stream_discipline (ends : (ofTokens tokens).endsWithEnd = true) (steps : List Step) :
    let streams := steps.foldl perform [ofTokens tokens]
    (∀ stream ∈ streams, Disciplined tokens stream) ∧
      ∀ place stream, streams[place]? = some stream →
        (perform streams (.range place))[streams.length]? =
            some { stream with origin := stream.position } ∧
          ∀ further : List Step, ∃ later, (further.foldl perform streams)[place]? = some later ∧
            later.origin = stream.origin ∧
            ((∀ step ∈ further, step.Spares place) → later = stream) := by
  have first : ∀ stream ∈ [ofTokens tokens], Sound tokens stream :=
    List.forall_mem_singleton.mpr (sound_ofTokens ends)
  have sound := sound_run first steps
  refine ⟨fun stream member => (sound stream member).disciplined, fun place stream stands => ?_⟩
  refine ⟨?_, getElem?_run sound stands⟩
  rw [perform, stands, List.getElem?_append_right (Nat.le_refl _), Nat.sub_self]
  rfl

/-- Of a stream and a range of it, the range reads to the end of input and goes back to
its origin.  The end of input is not taken, and the stream has not moved. -/
theorem stream_discipline_of_range : ∃ tokens : List Token,
    (ofTokens tokens).endsWithEnd = true ∧
    let streams := [Step.move 0 (.consume 1), .range 0, .move 1 (.consumeWhile fun _ => true),
      .move 1 (.backtrack 3), .move 1 (.backtrack 2)].foldl perform [ofTokens tokens]
    (∀ stream ∈ streams, Disciplined tokens stream) ∧
      streams.map (fun stream => (stream.origin, stream.position)) = [(0, 1), (1, 1)] ∧
      streams.map (fun stream => (stream.consume 5).1.map Token.lexeme) =
        [[.pipeline, .lift], [.pipeline, .lift]] := by
  let tokens : List Token :=
    [⟨.indent, 0, 0⟩, ⟨.pipeline, 0, 1⟩, ⟨.lift, 1, 2⟩, ⟨.endOfInput, 2, 2⟩]
  have ends : (ofTokens tokens).endsWithEnd = true := by decide
  exact ⟨tokens, ends, (stream_discipline ends _).1, by decide +kernel, by decide +kernel⟩

end Stream
end Manifest
