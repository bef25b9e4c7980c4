import Manifest.Proofs.Grammar.Completeness
import Manifest.Proofs.Grammar.Soundness
import Manifest.Proofs.Progress.Thrift

/-!
# Parsing gets on

A parse of a token sequence that finishes with the end of input does no more than its
tokens pay for, whatever the tokens are and wherever else the end of input stands among
them.  The stream goes back over single tokens only, and each of them is read again at
once, as the start of a term.  No chain ever holds more than one expression on its stack.
-/

namespace Manifest

variable {tokens : List Token}

/-! ## Terms take tokens -/

theorem Stream.Sound.exists_stands {state : ParserState} (sound : state.stream.Sound tokens)
    (origin : state.stream.origin = 0) : ∃ point, Stands state point := by
  have within := sound.le_last
  have inside := sound.last_lt
  have count : (tokens.map Token.lexeme).length = tokens.length := List.length_map ..
  refine ⟨⟨((tokens.map Token.lexeme).take state.stream.position).reverse,
    (tokens.map Token.lexeme).drop state.stream.position⟩, origin, ?_, ?_, ?_⟩
  · rw [sound.tokens_eq, List.reverse_reverse, List.take_append_drop]
  · rw [List.length_reverse, List.length_take]
    omega
  · rcases sound.ends with ⟨token, found, finish⟩
    have last : tokens.getLast? = some token := by
      rw [List.getLast?_eq_getElem?, ← found, Stream.last, ← sound.tokens_eq, Array.length_toList]
    rw [Point.Ends, List.getLast?_drop, if_neg (by omega), List.getLast?_map, last, Option.map_some,
      finish]

/-- A term that is read has at least one token, to whatever depth it is read. -/
theorem Grammar.lt_position_of_term {state final : ParserState} {point : Point} {depth scope : Nat}
    {result : Expr} (stands : Stands state point)
    (read : Parser.term depth scope state = .ok result final) :
    state.stream.position < final.stream.position := by
  rcases sound depth (.term scope) state point result final stands read with
    ⟨finish, derived, arrived⟩
  have arrived : Stands final finish := arrived
  have less := derived.length_lt trivial
  rcases derived.reaches with ⟨taken, rest, before⟩
  rw [stands.position, arrived.position, before, List.length_append, List.length_reverse]
  rw [rest, List.length_append] at less
  omega

/-! ## Counting markers -/

/-- Count the section markers of a block that begins here, reading so many tokens at the
most.  Markers of nested blocks are told by the depth. -/
def Stream.countMarkers : Nat → Stream → Nat → Nat → Option Nat
  | 0, _, _, _ => none
  | bound + 1, stream, depth, markers =>
      match stream.next.1.lexeme with
      | .endOfInput => some markers
      | .indent => countMarkers bound stream.next.2 (depth + 1) markers
      | .outdent =>
          if depth = 0 then some markers
          else countMarkers bound stream.next.2 (depth - 1) markers
      | .sectionStart =>
          countMarkers bound stream.next.2 depth (if depth = 0 then markers + 1 else markers)
      | _ => countMarkers bound stream.next.2 depth markers

/-- The markers are counted when the end of input has been read. -/
theorem Stream.Sound.countMarkers {stream : Stream} {token : Token} {distance depth markers : Nat}
    (sound : stream.Sound tokens) (ends : tokens[stream.position + distance]? = some token)
    (finish : token.lexeme = .endOfInput) :
    (stream.countMarkers (distance + 1) depth markers).isSome = true := by
  induction distance generalizing stream depth markers with
  | zero =>
    have here := sound.current_spec
    rw [Nat.add_zero, here] at ends
    cases ends
    rw [Stream.countMarkers, show stream.next.1.lexeme = .endOfInput from finish]
    rfl
  | succ distance ih =>
    have further (more : stream.next.1.lexeme ≠ .endOfInput) (depth markers : Nat) :
        (stream.next.2.countMarkers (distance + 1) depth markers).isSome = true := by
      have same : stream.position + 1 + distance = stream.position + (distance + 1) := by omega
      refine ih sound.next ?_
      rw [sound.next_of_more more, ← ends, ← same]
    rw [Stream.countMarkers]
    cases found : stream.next.1.lexeme with
    | endOfInput => rfl
    | outdent =>
      dsimp only
      split
      · rfl
      · exact further (by rw [found]; rintro ⟨⟩) _ _
    | _ => exact further (by rw [found]; rintro ⟨⟩) _ _

/-! ## Whole documents -/

/-- Nothing has happened yet. -/
def Watch.initial (tokens : List Token) : Watch := ⟨⟨.ofTokens tokens, .empty, 0⟩, []⟩

namespace Watched

/-- The parse of a token sequence under watch. -/
def parse (tokens : List Token) : EStateM.Result ParseError Watch Expr :=
  document (Document.depthFor tokens.length) (.initial tokens)

theorem erase_parse (tokens : List Token) : erase (parse tokens) = Document.parse tokens :=
  erases_document (Document.depthFor tokens.length) (.initial tokens)

theorem fair_initial (ends : (Stream.ofTokens tokens).endsWithEnd = true) :
    Watch.Fair tokens [] (.initial tokens) :=
  ⟨Stream.sound_ofTokens ends, rfl, .inl .start, .start, rfl⟩

/-- The tokens of a document pay for its parse. -/
theorem earns_parse (ends : (Stream.ofTokens tokens).endsWithEnd = true) :
    Earns tokens (.initial tokens) 0 (fun _ => 0) 3 9 (parse tokens) := by
  have fair := fair_initial ends
  have opened := fair.withScopes (Scopes.empty.push none).2
  have enough : 6 * (Watch.initial tokens).left tokens + 6 ≤
      Document.depthFor tokens.length := by
    rw [Watch.left, Document.depthFor]
    omega
  have earns := (thrifty tokens _).block 0 .endOfInput opened enough
  have run : parse tokens = (openScope none >>= fun root => do
      return .scope root (.block (← block (Document.depthFor tokens.length) root .endOfInput)) :
      Watched Expr) (.initial tokens) := by
    rw [parse, document, Stepwise.get_bind]
    exact congrFun (if_pos ends) _
  rw [run, openScope_bind]
  refine .bind earns (fun sections stop fair further earned => ?_) (Nat.le_refl _)
  exact .pure fair further earned

end Watched

/-- What is known where a parse has come to.  Its history tells every move of the stream
and all the work of the parser. -/
structure Watch.Accounted (tokens : List Token) (watch : Watch) : Prop where
  walk : Walk (tokens.length - 1) watch.history watch.place
  work : watch.state.work = watch.history.countP Event.isCall
  /-- Each token pays for sixteen events at the most. -/
  length_le : watch.history.length ≤ 16 * tokens.length
  /-- Where the stream has gone back to a place, the token there is read again at once, as
  the start of a term. -/
  rereads : ∀ earlier later place, watch.history.reverse = earlier ++ .rewind place :: later →
    Event.rereading place <+: later
  height_le_one : ∀ height, .link height ∈ watch.history ∨ .push height ∈ watch.history →
    height ≤ 1

namespace Watched

theorem accounted_parse (ends : (Stream.ofTokens tokens).endsWithEnd = true) :
    (finish (parse tokens)).Accounted tokens := by
  have some := (fair_initial ends).sound.last_lt
  rcases (earns_parse ends).finish with ⟨fair, most⟩
  have owes := fair.owes.elim id id
  have none : (Watch.initial tokens).history.length = 0 := rfl
  rw [Watch.balance, Watch.balance, Watch.left, Watch.left, none] at most
  exact ⟨fair.walk, fair.work, by omega, fun _ _ _ => owes.rereading, fun _ => owes.height_le_one⟩

theorem work_le (ends : (Stream.ofTokens tokens).endsWithEnd = true) :
    (finish (parse tokens)).state.work ≤ 16 * tokens.length := by
  have accounted := accounted_parse ends
  rw [accounted.work]
  exact Nat.le_trans List.countP_le_length accounted.length_le

theorem work_le_of_parsed {root : Expr} {state : ParserState}
    (ends : (Stream.ofTokens tokens).endsWithEnd = true)
    (parsed : Document.parse tokens = .ok root state) : state.work ≤ 16 * tokens.length := by
  have most := work_le ends
  rw [← erase_parse] at parsed
  generalize parse tokens = result at most parsed
  cases result with
  | ok =>
    cases parsed
    exact most
  | error => cases parsed

theorem harmless_of_failed {failure : ParseError} {state : ParserState}
    (ends : (Stream.ofTokens tokens).endsWithEnd = true)
    (failed : Document.parse tokens = .error failure state) :
    state.work ≤ 16 * tokens.length ∧ failure.Harmless := by
  have most := work_le ends
  have earns := earns_parse ends
  rw [← erase_parse] at failed
  generalize parse tokens = result at most earns failed
  cases earns with
  | ok => cases failed
  | error _ harmless =>
    cases failed
    exact ⟨most, harmless⟩

end Watched

/-- A parse of tokens that finish with the end of input comes to an end of its own, and
its calls and rounds are no more than sixteen for each token.  It keeps accounts: no chain
ever has more than one expression on its stack, and each token that is given back is read
again as the start of a term.  So a parse never fails in going back, and a stack that is
refused has two expressions.  Terms take a token at least, and a scan that counts markers
is over when it has read the first end of input. -/
theorem parse_progress (ends : (Stream.ofTokens tokens).endsWithEnd = true) :
    (Watched.erase (Watched.parse tokens) = Document.parse tokens ∧
      (Watched.finish (Watched.parse tokens)).Accounted tokens) ∧
    (∀ root state, Document.parse tokens = .ok root state → state.work ≤ 16 * tokens.length) ∧
    (∀ failure state, Document.parse tokens = .error failure state →
      state.work ≤ 16 * tokens.length ∧ failure ≠ .tooDeep ∧
        (∀ requested position, failure ≠ .backtrack requested position) ∧
        ∀ count span, failure = .stackShape count span → count = 2) ∧
    (∀ state : ParserState, state.stream.Sound tokens → state.stream.origin = 0 →
      ∀ depth scope result final, Parser.term depth scope state = .ok result final →
        state.stream.position < final.stream.position) ∧
    ∀ stream : Stream, stream.Sound tokens → ∀ final token, stream.position ≤ final →
      tokens[final]? = some token → token.lexeme = .endOfInput →
        (stream.range.countMarkers (final + 1 - stream.position) 0 0).isSome = true := by
  refine ⟨⟨Watched.erase_parse tokens, Watched.accounted_parse ends⟩,
    fun root state parsed => Watched.work_le_of_parsed ends parsed,
    fun failure state failed => ?_,
    fun state sound origin depth scope result final read => ?_,
    fun stream sound final token within found finish => ?_⟩
  · rcases Watched.harmless_of_failed ends failed with ⟨work, harmless⟩
    refine ⟨work, ?_, fun requested position same => ?_, fun count span same => ?_⟩
    · rintro rfl
      exact harmless
    · subst same
      exact harmless
    · subst same
      exact harmless
  · rcases sound.exists_stands origin with ⟨point, stands⟩
    exact Grammar.lt_position_of_term stands read
  · have there : stream.range.position + (final - stream.position) = final :=
      Nat.add_sub_cancel' within
    rw [Nat.sub_add_comm within]
    exact sound.range.countMarkers (by rw [there]; exact found) finish

/-- The first of two texts in a row is read, given back and read again.  The second one
is refused. -/
theorem parse_progress_of_two_texts : ∃ tokens : List Token,
    tokens.map Token.lexeme = [.text "a", .text "b", .endOfInput] ∧
    (Watched.finish (Watched.parse tokens)).history.reverse = [.block, .sections, .read 0,
      .rewind 0, .chain, .link 0, .term, .read 0, .push 1, .link 1] ∧
    Event.rereading 0 <+: [.chain, .link 0, .term, .read 0, .push 1, .link 1] ∧
    (Watched.finish (Watched.parse tokens)).state.work = 6 ∧
    ∃ span state, Document.parse tokens = .error (.stackShape 2 span) state := by
  let tokens : List Token := [⟨.text "a", ⟨0, 3⟩⟩, ⟨.text "b", ⟨4, 7⟩⟩, ⟨.endOfInput, ⟨7, 7⟩⟩]
  have happened : (Watched.finish (Watched.parse tokens)).history.reverse = [.block, .sections,
      .read 0, .rewind 0, .chain, .link 0, .term, .read 0, .push 1, .link 1] := by
    decide +kernel
  rcases parse_progress (show (Stream.ofTokens tokens).endsWithEnd = true from rfl) with
    ⟨⟨_, accounted⟩, _⟩
  have rereads := accounted.rereads [.block, .sections, .read 0] _ 0 happened
  have work := accounted.work
  rw [← List.countP_reverse, happened] at work
  exact ⟨tokens, rfl, happened, rereads, work, ⟨4, 7⟩, _, rfl⟩

end Manifest
