import Mathlib.Logic.Relation
import Manifest.Proofs.Scan.Order

/-!
# Spans of tokens

The tokens that stand for text lie one behind the other, with one exception: a
run of unrecognized characters that is open when a rule reads a token is closed
behind that token, so it reaches over the text of the token.  No other overlap
comes about.
-/

namespace Manifest

namespace Position

theorem offset_le_afterAll (position : Position) (text : List Char) :
    position.offset ≤ (position.afterAll text).offset := by
  induction text generalizing position with
  | nil => exact Nat.le_refl _
  | cons character text ih =>
    have moved : position.offset ≤ (position.after character).offset := by
      rw [offset_after]
      exact Nat.le_add_right _ _
    exact Nat.le_trans moved (ih _)

theorem offset_lt_after (position : Position) (character : Char) :
    position.offset < (position.after character).offset := by
  rw [offset_after]
  exact Nat.lt_add_of_pos_right character.utf8Size_pos

end Position

namespace Cursor

theorem offset_le_advance (cursor : Cursor) (count : Nat) :
    cursor.offset ≤ (cursor.advance count).offset :=
  Position.offset_le_afterAll _ _

theorem offset_lt_advance {cursor : Cursor} {count : Nat} (inner : cursor.rest ≠ [])
    (long : 1 ≤ count) : cursor.offset < (cursor.advance count).offset := by
  rcases List.exists_cons_of_ne_nil inner with ⟨first, behind, found⟩
  rcases Nat.exists_eq_add_of_le' long with ⟨more, rfl⟩
  have taken : cursor.rest.take (more + 1) = first :: behind.take more := by
    rw [found, List.take_succ_cons]
  rw [offset, offset, advance, taken]
  exact Nat.lt_of_lt_of_le (Position.offset_lt_after _ _) (Position.offset_le_afterAll _ _)

/-- The content of an item begins behind its hyphen. -/
theorem offset_lt_item {cursor : Cursor} (inner : cursor.rest ≠ []) :
    cursor.offset < (cursor.advance 1).skipGap.offset :=
  Nat.lt_of_lt_of_le (offset_lt_advance inner (Nat.le_refl 1)) (offset_le_advance _ _)

theorem offset_le_toContent (cursor : Cursor) : cursor.offset ≤ cursor.toContent.offset := by
  have gap : ∀ cursor : Cursor, cursor.offset ≤ cursor.skipGap.offset := fun cursor =>
    cursor.offset_le_advance _
  fun_induction toContent cursor with
  | case1 cursor rest found ih =>
    exact Nat.le_trans (Nat.le_trans (gap _) (offset_le_advance _ _)) ih
  | case2 cursor rest found ih =>
    refine Nat.le_trans (Nat.le_trans (gap _) ?_) ih
    exact Nat.le_trans (offset_le_advance _ _)
      (Nat.le_trans (offset_le_advance _ _) (offset_le_advance _ _))
  | case3 cursor => exact gap cursor

end Cursor

/-! ## Tokens that stand for text -/

namespace Token

/-- Layout and the end of input stand for no text of their own. -/
def isSolid (token : Token) : Bool :=
  !token.lexeme.isLayout && !(token.lexeme == .endOfInput)

/-- One token ends where the other starts, or in front of it. -/
def Before (earlier later : Token) : Prop :=
  earlier.span.stop ≤ later.span.start

instance : DecidableRel Token.Before := fun earlier later =>
  inferInstanceAs (Decidable (earlier.span.stop ≤ later.span.start))

/-- An unrecognized run reaches over the whole of another token. -/
structure ReachesOver (earlier later : Token) : Prop where
  unknown : ∃ text, earlier.lexeme = .unknown text
  inside : earlier.span.start < later.span.start
  ends : later.span.stop = earlier.span.stop

/-- The text and the range of an unrecognized run. -/
def unrecognized? (token : Token) : Option (String × Span) :=
  match token.lexeme with
  | .unknown text => some (text, token.span)
  | _ => none

end Token

/-- The text and the range that a diagnostic is about. -/
def Diagnostic.subject (diagnostic : Diagnostic) : String × Span :=
  (diagnostic.text, ⟨diagnostic.start.offset, diagnostic.stop.offset⟩)

namespace TokenizedSource

def solid (read : TokenizedSource) : List Token :=
  read.tokens.filter Token.isSolid

end TokenizedSource

/-! ## Readings -/

namespace Scanner

variable {scanner next : Scanner}

/-- A step in front of a character. -/
def Moves (scanner next : Scanner) : Prop :=
  scanner.cursor.rest ≠ [] ∧ scanner.step = .ok next

/-- The states that the reading of a source passes.  An empty source is not read. -/
def Passes (source : String) (scanner : Scanner) : Prop :=
  source.isEmpty = false ∧ ∃ entered,
    (Scanner.ofText (normalize source.toList)).beginLine 0 false = .ok entered ∧
    Relation.ReflTransGen Moves entered scanner

/-- A rule reads a token directly behind unrecognized characters. -/
def Joins (scanner : Scanner) : Prop :=
  scanner.pending.isSome = true ∧
    ∃ next, scanner.Moves next ∧ scanner.content = some next ∧ next.tokens ≠ scanner.tokens

/-! ## What lasts -/

variable {lexeme : Lexeme} {span : Span} {least : Nat} {tokens : List Token}

/-- A property that no reading takes back: it outlasts the end and the
beginning of an open run, a further token, and a move to another place with
other levels. -/
structure Lasting (holds : Scanner → Prop) : Prop where
  flush : ∀ {scanner : Scanner}, holds scanner → holds scanner.flush
  token : ∀ {scanner : Scanner} (token : Token), holds scanner →
    holds { scanner with tokens := token :: scanner.tokens }
  move : ∀ {scanner : Scanner} (cursor : Cursor) (levels : Levels), holds scanner →
    holds { scanner with cursor, levels }
  reject : ∀ {scanner : Scanner} (start : Cursor), holds scanner →
    holds { scanner with pending := some start }

namespace Lasting

variable {holds : Scanner → Prop} (lasting : Lasting holds)

include lasting

theorem emit (known : holds scanner) : holds (scanner.emit lexeme span) :=
  lasting.token _ (lasting.flush known)

theorem skip (known : holds scanner) (count : Nat) : holds (scanner.skip count) :=
  lasting.move _ scanner.levels known

theorem takes (known : holds scanner) (takes : Takes least scanner next) : holds next := by
  cases takes with
  | read count lexeme => exact lasting.emit (lasting.skip known count)
  | reject count => exact lasting.reject _ (lasting.skip known count)

theorem accepts (known : holds scanner) (accepts : Accepts scanner next) : holds next := by
  cases accepts with
  | once takes => exact lasting.takes known takes
  | literal takes =>
    have signed : holds (scanner.read 1 (.assignment true)) := lasting.emit (lasting.skip known 1)
    exact lasting.takes (lasting.move _ _ signed) takes

theorem emitOutdents (known : holds scanner) (count : Nat) :
    holds (Scanner.emitOutdents span count scanner) := by
  induction count generalizing scanner with
  | zero => exact known
  | succ count ih => exact ih (lasting.emit known)

theorem beginLine {lineEnd : Nat} {announce : Bool} (known : holds scanner)
    (begun : scanner.beginLine lineEnd announce = .ok next) : holds next := by
  have moved := fun levels => lasting.move scanner.cursor.toContent levels known
  rw [Scanner.beginLine] at begun
  dsimp only at begun
  split at begun
  · cases begun
    exact lasting.emit (moved _)
  · cases begun
    exact lasting.emitOutdents (moved _) _
  · split at begun
    · cases begun
      exact lasting.emit (moved _)
    · cases begun
      exact moved _
  · cases begun

theorem listItem (known : holds scanner) (read : scanner.listItem = .ok next) : holds next := by
  rw [Scanner.listItem] at read
  dsimp only at read
  split at read
  · cases read
  · split at read
    · cases read
      exact lasting.emit (lasting.move _ _ (lasting.emit known))
    · cases read
      exact lasting.move _ _ (lasting.emit known)

theorem moves (known : holds scanner) (moves : scanner.Moves next) : holds next := by
  rcases List.exists_cons_of_ne_nil moves.1 with ⟨first, behind, found⟩
  rcases step_cases found moves.2 with ⟨_, begun⟩ | ⟨_, within⟩
  · exact lasting.beginLine (lasting.skip (lasting.flush known) 1) begun
  · cases within with
    | gap => exact lasting.skip (lasting.flush known) 1
    | comment => exact lasting.move _ _ (lasting.emit known)
    | item _ read => exact lasting.listItem known read
    | content read => exact lasting.accepts known (content_accepts read)
    | nothing => exact lasting.reject _ (lasting.skip known 1)

theorem passed (known : holds scanner) (passed : Relation.ReflTransGen Moves scanner next) :
    holds next := by
  induction passed with
  | refl => exact known
  | tail _ moves ih => exact lasting.moves ih moves

theorem finish (known : holds scanner) : holds scanner.finish :=
  lasting.emit (lasting.emitOutdents (lasting.flush known) _)

end Lasting

/-! ## Tokens only grow -/

/-- What has been read stays read. -/
theorem lasting_suffix (tokens : List Token) :
    Lasting fun scanner => tokens <:+ scanner.tokens where
  flush earlier := by
    rw [Scanner.flush]
    split
    · exact earlier
    · exact earlier.trans (List.suffix_cons _ _)
  token _ earlier := earlier.trans (List.suffix_cons _ _)
  move _ _ earlier := earlier
  reject _ earlier := earlier

theorem Takes.suffix (takes : Takes least scanner next) (earlier : tokens <:+ scanner.tokens) :
    tokens <:+ next.tokens :=
  (lasting_suffix tokens).takes earlier takes

theorem not_suffix_read (scanner : Scanner) (count : Nat) (lexeme : Lexeme) :
    ¬ (scanner.read count lexeme).tokens <:+ scanner.tokens := by
  intro shorter
  have grown : scanner.tokens <:+ (scanner.skip count).flush.tokens :=
    (lasting_suffix _).flush (List.suffix_refl _)
  have length := Nat.le_trans shorter.length_le grown.length_le
  exact absurd length (Nat.not_succ_le_self _)

/-! ## Runs -/

/-- The end of a reading is the end of every later part of it. -/
theorem run_of_reads {final : Scanner} (passed : Relation.ReflTransGen Moves scanner next)
    (finished : scanner.run = .ok final) : next.run = .ok final := by
  induction passed with
  | refl => exact finished
  | @tail middle next _ reads ih =>
    rw [run, if_neg (by simpa using reads.1), reads.2] at ih
    dsimp only at ih
    split at ih
    · exact ih
    · cases ih

theorem passes_of_run {final : Scanner} (finished : scanner.run = .ok final) :
    Relation.ReflTransGen Moves scanner final ∧ final.cursor.rest = [] := by
  fun_induction run scanner with
  | case1 scanner ended =>
    cases finished
    exact ⟨.refl, List.isEmpty_iff.mp ended⟩
  | case2 => cases finished
  | case3 scanner inner middle stepped _ ih =>
    rcases ih finished with ⟨passed, ended⟩
    exact ⟨.head ⟨fun none => inner (List.isEmpty_iff.mpr none), stepped⟩ passed, ended⟩
  | case4 => cases finished

/-! ## What the tokens so far cover -/

/-- Tokens, newest first, lie one behind the other up to a place, apart from
runs that reach over a token if that is allowed, and every run has its
diagnostic. -/
structure Covers (lenient : Prop) (tokens : List Token) (diagnostics : List Diagnostic)
    (bound : Nat) : Prop where
  apart : (tokens.filter Token.isSolid).Pairwise fun later earlier =>
    earlier.Before later ∨ lenient ∧ earlier.ReachesOver later
  bounded : ∀ token ∈ tokens.filter Token.isSolid, token.span.stop ≤ bound
  diagnosed : diagnostics.map Diagnostic.subject = tokens.filterMap Token.unrecognized?

variable {lenient : Prop} {diagnostics : List Diagnostic} {bound further : Nat}

theorem Covers.weaken (covers : Covers lenient tokens diagnostics bound) (far : bound ≤ further) :
    Covers lenient tokens diagnostics further :=
  ⟨covers.apart, fun token inside => Nat.le_trans (covers.bounded token inside) far,
    covers.diagnosed⟩

theorem isUnrecognized_of_hollow (hollow : Token.isSolid ⟨lexeme, span⟩ = false) :
    Token.unrecognized? ⟨lexeme, span⟩ = none := by
  cases lexeme <;> first | rfl | cases hollow

/-- Layout covers nothing. -/
theorem Covers.cons_hollow (covers : Covers lenient tokens diagnostics bound)
    (hollow : Token.isSolid ⟨lexeme, span⟩ = false) :
    Covers lenient (⟨lexeme, span⟩ :: tokens) diagnostics bound := by
  have same : (⟨lexeme, span⟩ :: tokens).filter Token.isSolid = tokens.filter Token.isSolid :=
    List.filter_cons_of_neg (by rw [hollow]; exact Bool.false_ne_true)
  refine ⟨same ▸ covers.apart, same ▸ covers.bounded, ?_⟩
  rw [List.filterMap_cons_none (isUnrecognized_of_hollow hollow)]
  exact covers.diagnosed

theorem Covers.cons_solid (covers : Covers lenient tokens diagnostics bound)
    (solid : Token.isSolid ⟨lexeme, span⟩ = true) (known : ∀ text, lexeme ≠ .unknown text)
    (follows : bound ≤ span.start) (long : span.start ≤ span.stop) :
    Covers lenient (⟨lexeme, span⟩ :: tokens) diagnostics span.stop := by
  have split : (⟨lexeme, span⟩ :: tokens).filter Token.isSolid =
      ⟨lexeme, span⟩ :: tokens.filter Token.isSolid := List.filter_cons_of_pos solid
  refine ⟨?_, ?_, ?_⟩
  · rw [split]
    refine .cons (fun earlier inside => .inl ?_) covers.apart
    exact Nat.le_trans (covers.bounded earlier inside) follows
  · rw [split]
    refine List.forall_mem_cons.mpr ⟨Nat.le_refl _, fun earlier inside => ?_⟩
    exact Nat.le_trans (covers.bounded earlier inside) (Nat.le_trans follows long)
  · have none : Token.unrecognized? ⟨lexeme, span⟩ = none := by
      cases lexeme <;> first | rfl | exact absurd rfl (known _)
    rw [List.filterMap_cons_none none]
    exact covers.diagnosed

/-- A run is closed. -/
theorem Covers.cons_unknown (covers : Covers lenient tokens diagnostics bound) (text : String)
    {start stop : Position} (follows : bound ≤ start.offset) (long : start.offset ≤ stop.offset) :
    Covers lenient (⟨.unknown text, start.offset, stop.offset⟩ :: tokens)
      (⟨text, start, stop⟩ :: diagnostics) stop.offset := by
  refine ⟨.cons (fun earlier inside => .inl ?_) covers.apart, ?_, ?_⟩
  · exact Nat.le_trans (covers.bounded earlier inside) follows
  · refine List.forall_mem_cons.mpr ⟨Nat.le_refl _, fun earlier inside => ?_⟩
    exact Nat.le_trans (covers.bounded earlier inside) (Nat.le_trans follows long)
  · exact congrArg (_ :: ·) covers.diagnosed

/-- A run is closed behind the token in front of which it should have ended. -/
theorem Covers.cons_overrun (covers : Covers lenient tokens diagnostics bound) (text : String)
    {start stop : Position} (allowed : lenient) (solid : Token.isSolid ⟨lexeme, span⟩ = true)
    (known : ∀ text, lexeme ≠ .unknown text) (follows : bound ≤ start.offset)
    (inside : start.offset < span.start) (long : span.start ≤ stop.offset)
    (ends : span.stop = stop.offset) :
    Covers lenient (⟨lexeme, span⟩ :: ⟨.unknown text, start.offset, stop.offset⟩ :: tokens)
      (⟨text, start, stop⟩ :: diagnostics) stop.offset := by
  have closed := covers.cons_unknown text follows (Nat.le_trans (Nat.le_of_lt inside) long)
  have split : ∀ tokens, (⟨lexeme, span⟩ :: tokens).filter Token.isSolid =
      ⟨lexeme, span⟩ :: tokens.filter Token.isSolid := fun _ => List.filter_cons_of_pos solid
  refine ⟨?_, ?_, ?_⟩
  · rw [split]
    refine .cons ?_ closed.apart
    refine List.forall_mem_cons.mpr
      ⟨.inr ⟨allowed, ⟨_, rfl⟩, inside, ends⟩, fun earlier older => .inl ?_⟩
    have before := Nat.le_trans (covers.bounded earlier older) follows
    exact Nat.le_trans before (Nat.le_of_lt inside)
  · rw [split]
    exact List.forall_mem_cons.mpr ⟨Nat.le_of_eq ends, closed.bounded⟩
  · have none : Token.unrecognized? ⟨lexeme, span⟩ = none := by
      cases lexeme <;> first | rfl | exact absurd rfl (known _)
    rw [List.filterMap_cons_none none]
    exact closed.diagnosed

/-- What has been read is covered up to the open run, or up to the cursor. -/
structure Covered (lenient : Prop) (scanner : Scanner) : Prop where
  covers : Covers lenient scanner.tokens scanner.diagnostics
    (scanner.pending.getD scanner.cursor).offset
  opened : ∀ start, scanner.pending = some start → start.offset < scanner.cursor.offset

theorem Covered.flush (covered : scanner.Covered lenient) :
    Covers lenient scanner.flush.tokens scanner.flush.diagnostics scanner.cursor.offset := by
  have covers := covered.covers
  rw [Scanner.flush]
  split
  · rename_i none
    rw [none] at covers
    exact covers
  · rename_i start some
    rw [some] at covers
    exact covers.cons_unknown _ (Nat.le_refl _) (Nat.le_of_lt (covered.opened start some))

theorem Covered.of_covers (none : scanner.pending = none)
    (covers : Covers lenient scanner.tokens scanner.diagnostics scanner.cursor.offset) :
    scanner.Covered lenient := by
  refine ⟨?_, fun start some => ?_⟩
  · rw [none]
    exact covers
  · rw [none] at some
    cases some

theorem Covered.reject {count : Nat} (covered : scanner.Covered lenient) (long : 0 < count)
    (inner : scanner.cursor.rest ≠ []) : (scanner.reject count).Covered lenient := by
  have moved := Cursor.offset_lt_advance inner long
  refine ⟨covered.covers, ?_⟩
  rintro start equal
  cases equal
  cases pending : scanner.pending with
  | none => exact moved
  | some start => exact Nat.lt_trans (covered.opened start pending) moved

theorem isSolid_of_isAccepted (span : Span) (accepted : lexeme.isAccepted = true) :
    Token.isSolid ⟨lexeme, span⟩ = true ∧ ∀ text, lexeme ≠ .unknown text := by
  cases lexeme <;> first
    | (cases accepted; done)
    | exact ⟨rfl, (by rintro _ ⟨⟩)⟩

/-- An open run is closed behind the token that is read. -/
theorem Covered.read (covered : scanner.Covered lenient) (count : Nat)
    (accepted : lexeme.isAccepted = true) (harmless : scanner.pending = none ∨ lenient) :
    (scanner.read count lexeme).Covered lenient := by
  have long := scanner.cursor.offset_le_advance count
  have covers := covered.covers
  refine .of_covers (scanner.skip count).pending_flush ?_
  rw [Scanner.read, cursor_emit, Scanner.emit]
  generalize taken : (⟨scanner.cursor.offset, (scanner.skip count).cursor.offset⟩ : Span) = span
  rcases isSolid_of_isAccepted span accepted with ⟨solid, known⟩
  subst taken
  cases pending : scanner.pending with
  | none =>
    rw [pending] at covers
    rw [flush_of_none (show (scanner.skip count).pending = none from pending)]
    exact covers.cons_solid solid known (Nat.le_refl _) long
  | some start =>
    have allowed : lenient := harmless.resolve_left fun none => by
      rw [pending] at none
      cases none
    rw [pending] at covers
    rw [Scanner.flush, show (scanner.skip count).pending = some start from pending]
    exact covers.cons_overrun _ allowed solid known (Nat.le_refl _)
      (covered.opened start pending) long rfl

theorem Covered.takes (covered : scanner.Covered lenient) (takes : Takes least scanner next)
    (harmless : scanner.pending = none ∨ next.tokens = scanner.tokens ∨ lenient) :
    next.Covered lenient := by
  cases takes with
  | read count lexeme _ accepted =>
    refine covered.read count accepted (harmless.imp_right fun harmless => ?_)
    refine harmless.resolve_left fun same => ?_
    exact scanner.not_suffix_read count lexeme (same ▸ List.suffix_refl _)
  | reject count long inner => exact covered.reject long inner

theorem Covered.skipGap (covered : scanner.Covered lenient) (none : scanner.pending = none) :
    scanner.skipGap.Covered lenient := by
  have covers := covered.covers
  rw [none] at covers
  exact .of_covers none (covers.weaken (scanner.cursor.offset_le_advance _))

theorem Covered.accepts (covered : scanner.Covered lenient) (accepts : Accepts scanner next)
    (harmless : scanner.pending = none ∨ next.tokens = scanner.tokens ∨ lenient) :
    next.Covered lenient := by
  cases accepts with
  | once takes => exact covered.takes takes harmless
  | literal takes =>
    have closed : (scanner.read 1 (.assignment true)).pending = none :=
      (scanner.skip 1).pending_flush
    have signed : (scanner.read 1 (.assignment true)).Covered lenient := by
      refine covered.read 1 rfl (harmless.imp_right fun harmless => ?_)
      refine harmless.resolve_left fun same => ?_
      exact scanner.not_suffix_read 1 _ (same ▸ takes.suffix (List.suffix_refl _))
    exact (signed.skipGap closed).takes takes (.inl closed)

/-! ## Lines -/

theorem Covers.emit (covers : Covers lenient scanner.tokens scanner.diagnostics bound)
    (closed : scanner.pending = none) (hollow : Token.isSolid ⟨lexeme, span⟩ = false) :
    Covers lenient (scanner.emit lexeme span).tokens (scanner.emit lexeme span).diagnostics
      bound := by
  rw [Scanner.emit, flush_of_none closed]
  exact covers.cons_hollow hollow

theorem Covers.emitOutdents (covers : Covers lenient scanner.tokens scanner.diagnostics bound)
    (span : Span) (closed : scanner.pending = none) (count : Nat) :
    Covers lenient (emitOutdents span count scanner).tokens
      (emitOutdents span count scanner).diagnostics bound ∧
    (emitOutdents span count scanner).pending = none ∧
    (emitOutdents span count scanner).cursor = scanner.cursor := by
  induction count generalizing scanner with
  | zero => exact ⟨covers, closed, rfl⟩
  | succ count ih =>
    have emitted : Covers lenient (scanner.emit .outdent span).tokens
        (scanner.emit .outdent span).diagnostics bound := covers.emit closed rfl
    rcases ih emitted scanner.pending_flush with ⟨outdented, still, same⟩
    exact ⟨outdented, still, same.trans (scanner.cursor_emit _ _)⟩

/-- Only layout is produced between two lines. -/
theorem Covers.beginLine {lineEnd : Nat} {announce : Bool}
    (covers : Covers lenient scanner.tokens scanner.diagnostics scanner.cursor.offset)
    (closed : scanner.pending = none) (begun : scanner.beginLine lineEnd announce = .ok next) :
    next.Covered lenient := by
  have covers := covers.weaken scanner.cursor.offset_le_toContent
  rw [Scanner.beginLine] at begun
  dsimp only at begun
  split at begun
  · cases begun
    refine .of_covers (pending_emit _ _ _) ?_
    rw [cursor_emit]
    refine Covers.emit ?_ closed rfl
    exact covers
  · rename_i count levels _
    cases begun
    have entered : Covers lenient
        { scanner with cursor := scanner.cursor.toContent, levels }.tokens
        { scanner with cursor := scanner.cursor.toContent, levels }.diagnostics
        scanner.cursor.toContent.offset := covers
    rcases entered.emitOutdents ⟨lineEnd, scanner.cursor.toContent.offset⟩ closed count with
      ⟨outdented, still, same⟩
    refine .of_covers still ?_
    rw [same]
    exact outdented
  · split at begun
    · cases begun
      refine .of_covers (pending_emit _ _ _) ?_
      rw [cursor_emit]
      refine Covers.emit ?_ closed rfl
      exact covers
    · cases begun
      refine .of_covers closed ?_
      exact covers
  · cases begun

/-! ## Steps -/

/-- An open run is closed in front of a comment. -/
theorem Covered.comment (covered : scanner.Covered lenient) :
    scanner.comment.Covered lenient := by
  refine .of_covers scanner.pending_flush ?_
  exact covered.flush.cons_solid rfl (by rintro _ ⟨⟩) (Nat.le_refl _)
    (scanner.cursor.offset_le_advance _)

/-- An open run is closed in front of a hyphen. -/
theorem Covered.listItem (covered : scanner.Covered lenient) (inner : scanner.cursor.rest ≠ [])
    (read : scanner.listItem = .ok next) : next.Covered lenient := by
  have moved := Cursor.offset_lt_item inner
  have solid : Token.isSolid
      ⟨.symbol "yield", ⟨scanner.cursor.offset, scanner.cursor.offset + 1⟩⟩ = true := rfl
  have item := covered.flush.cons_solid solid (by rintro _ ⟨⟩) (Nat.le_refl _)
    (Nat.le_succ _)
  rw [Scanner.listItem] at read
  dsimp only at read
  split at read
  · cases read
  · split at read
    · cases read
      refine .of_covers (pending_emit _ _ _) ?_
      rw [cursor_emit]
      refine Covers.emit ?_ scanner.pending_flush rfl
      exact item.weaken moved
    · cases read
      exact .of_covers scanner.pending_flush (item.weaken moved)

/-- A step keeps the tokens apart, unless it joins a token to a run. -/
theorem Covered.reads (covered : scanner.Covered lenient) (reads : scanner.Moves next)
    (harmless : lenient ∨ ¬ scanner.Joins) : next.Covered lenient := by
  rcases List.exists_cons_of_ne_nil reads.1 with ⟨first, behind, found⟩
  have moved := scanner.cursor.offset_le_advance 1
  rcases step_cases found reads.2 with ⟨_, begun⟩ | ⟨_, within⟩
  · have flushed : Covers lenient (scanner.flush.skip 1).tokens (scanner.flush.skip 1).diagnostics
        (scanner.flush.skip 1).cursor.offset := by
      rw [skip, cursor_flush]
      exact covered.flush.weaken moved
    exact flushed.beginLine scanner.pending_flush begun
  · cases within with
    | gap =>
      refine .of_covers scanner.pending_flush ?_
      rw [skip, cursor_flush]
      exact covered.flush.weaken moved
    | comment => exact covered.comment
    | item _ read => exact covered.listItem reads.1 read
    | content read =>
      refine covered.accepts (content_accepts read) ?_
      by_cases closed : scanner.pending = none
      · exact .inl closed
      · refine .inr (harmless.symm.imp_left fun apart => ?_)
        by_contra differ
        exact apart ⟨Option.isSome_iff_ne_none.mpr closed, next, reads, read, differ⟩
    | nothing => exact covered.reject Nat.one_pos reads.1

theorem Covered.passed (covered : scanner.Covered lenient)
    (passed : Relation.ReflTransGen Moves scanner next)
    (harmless : lenient ∨
      ∀ middle, Relation.ReflTransGen Moves scanner middle → ¬ middle.Joins) :
    next.Covered lenient := by
  induction passed with
  | refl => exact covered
  | tail passed reads ih => exact ih.reads reads (harmless.imp_right fun apart => apart _ passed)

theorem Covered.finish (covered : scanner.Covered lenient) :
    Covers lenient scanner.finish.tokens scanner.finish.diagnostics scanner.cursor.offset := by
  have flushed := covered.flush
  rw [Scanner.finish]
  rcases flushed.emitOutdents ⟨scanner.cursor.offset, scanner.cursor.offset⟩
    scanner.pending_flush (scanner.levels.length - 1) with ⟨closed, still, _⟩
  exact closed.emit still rfl

/-! ## Joins overlap -/

/-- A run that is joined to a token reaches over it. -/
theorem Joins.overlap (joins : scanner.Joins) : ∃ next unknown token,
    scanner.Moves next ∧ [token, unknown].Sublist next.tokens ∧ token.isSolid = true ∧
      unknown.isSolid = true ∧ ¬ unknown.Before token := by
  rcases joins with ⟨pending, next, reads, read, differ⟩
  rcases Option.isSome_iff_exists.mp pending with ⟨start, pending⟩
  have overrun : ∀ (count : Nat) (lexeme : Lexeme), 1 ≤ count → lexeme.isAccepted = true →
      ∃ unknown token : Token, [token, unknown].Sublist (scanner.read count lexeme).tokens ∧
        token.isSolid = true ∧ unknown.isSolid = true ∧ ¬ unknown.Before token := by
    intro count lexeme long accepted
    have moved := Cursor.offset_lt_advance reads.1 long
    rw [Scanner.read, Scanner.emit, Scanner.flush,
      show (scanner.skip count).pending = some start from pending]
    refine ⟨_, _, .cons_cons _ (.cons_cons _ (List.nil_sublist _)),
      (isSolid_of_isAccepted _ accepted).1, rfl, Nat.not_le_of_lt moved⟩
  cases content_accepts read with
  | once takes =>
    cases takes with
    | read count lexeme long accepted =>
      rcases overrun count lexeme long accepted with ⟨unknown, token, inside, overlap⟩
      exact ⟨_, unknown, token, reads, inside, overlap⟩
    | reject => exact absurd rfl differ
  | literal takes =>
    rcases overrun 1 (.assignment true) (Nat.le_refl _) rfl with ⟨unknown, token, inside, overlap⟩
    have kept := takes.suffix (List.suffix_refl _)
    exact ⟨next, unknown, token, reads, inside.trans kept.sublist, overlap⟩

/-! ## Whole sources -/

/-- Nothing stands in front of the first line. -/
theorem covered_entered {source : List Char} {entered : Scanner} (lenient : Prop)
    (begun : (ofText source).beginLine 0 false = .ok entered) : entered.Covered lenient :=
  have start : Covers lenient (ofText source).tokens (ofText source).diagnostics
      (ofText source).cursor.offset :=
    ⟨.nil, fun _ inside => absurd inside List.not_mem_nil, rfl⟩
  start.beginLine rfl begun

end Scanner

/-- The diagnostics of a source are about its unrecognized tokens. -/
theorem tokenize_diagnosed {source : String} {read : TokenizedSource}
    (tokenized : tokenize source = .ok read) :
    read.diagnostics.map Diagnostic.subject = read.tokens.filterMap Token.unrecognized? := by
  cases empty : source.isEmpty with
  | true =>
    rw [tokenize, if_pos empty] at tokenized
    cases tokenized
    rfl
  | false =>
    rcases tokenize_eq_ok empty tokenized with ⟨entered, scanner, begun, finished, rfl⟩
    rcases Scanner.passes_of_run finished with ⟨passed, _⟩
    have covered := (Scanner.covered_entered True begun).passed passed (.inl trivial)
    rw [List.map_reverse, List.filterMap_reverse]
    exact congrArg List.reverse covered.finish.diagnosed

/-- The tokens that stand for text lie one behind the other exactly when no
rule reads a token directly behind unrecognized characters.  At any rate a
token overlaps only with such a run in front of it, which reaches over the
whole token, and the diagnostics are about these runs in their order. -/
theorem tokenize_spans {source : String} {read : TokenizedSource}
    (tokenized : tokenize source = .ok read) :
    (read.solid.Pairwise Token.Before ↔
        ∀ scanner, Scanner.Passes source scanner → ¬ scanner.Joins) ∧
      read.solid.Pairwise (fun earlier later =>
        earlier.Before later ∨ earlier.ReachesOver later) ∧
      read.diagnostics.map Diagnostic.subject = read.tokens.filterMap Token.unrecognized? := by
  cases empty : source.isEmpty with
  | true =>
    rw [tokenize, if_pos empty] at tokenized
    cases tokenized
    refine ⟨⟨fun _ scanner passes => ?_, fun _ => .nil⟩, .nil, rfl⟩
    have read := passes.1
    rw [empty] at read
    cases read
  | false =>
    rcases tokenize_eq_ok empty tokenized with ⟨entered, scanner, begun, finished, rfl⟩
    rcases Scanner.passes_of_run finished with ⟨passed, _⟩
    have solid : TokenizedSource.solid ⟨String.ofList (normalize source.toList),
        scanner.finish.tokens.reverse, scanner.finish.diagnostics.reverse⟩ =
        (scanner.finish.tokens.filter Token.isSolid).reverse := List.filter_reverse
    rw [solid]
    have general := fun lenient harmless =>
      ((Scanner.covered_entered lenient begun).passed passed harmless).finish
    refine ⟨⟨fun apart middle passes joins => ?_, fun noJoins => ?_⟩, ?_, ?_⟩
    · rcases passes with ⟨_, again, same, passed⟩
      cases begun.symm.trans same
      rcases joins.overlap with
        ⟨next, unknown, token, reads, inside, solidToken, solidUnknown, overlap⟩
      have left := Scanner.passes_of_run (Scanner.run_of_reads (passed.tail reads) finished)
      have lasting := Scanner.lasting_suffix next.tokens
      have kept := lasting.finish (lasting.passed (List.suffix_refl _) left.1)
      have whole := inside.trans kept.sublist
      have both := whole.filter Token.isSolid
      rw [List.filter_cons_of_pos solidToken, List.filter_cons_of_pos solidUnknown] at both
      rw [List.pairwise_reverse] at apart
      have related := apart.sublist both
      exact overlap (List.rel_of_pairwise_cons related (List.mem_singleton_self _))
    · have strict := general False (.inr fun middle passed =>
        noJoins middle ⟨empty, entered, begun, passed⟩)
      rw [List.pairwise_reverse]
      exact strict.apart.imp fun related => related.resolve_right fun overlap => overlap.1
    · rw [List.pairwise_reverse]
      exact (general True (.inl trivial)).apart.imp fun related => related.imp_right And.right
    · rw [List.map_reverse, List.filterMap_reverse]
      exact congrArg List.reverse (general True (.inl trivial)).diagnosed

/-- A gap closes the run, so the tokens stay apart. -/
theorem tokenize_spans_gap_behind_run :
    ∃ read, tokenize "a := @@ b" = .ok read ∧ read.diagnostics ≠ [] ∧
      read.solid.Pairwise Token.Before ∧
      ∀ scanner, Scanner.Passes "a := @@ b" scanner → ¬ scanner.Joins := by
  have checked : ((tokenize "a := @@ b").toOption.any fun read =>
      decide (read.diagnostics ≠ [] ∧ read.solid.Pairwise Token.Before)) = true := by
    decide +kernel
  rcases any_toOption checked with ⟨read, tokenized, checked⟩
  rcases of_decide_eq_true checked with ⟨noted, apart⟩
  exact ⟨read, tokenized, noted, apart, (tokenize_spans tokenized).1.mp apart⟩

/-- The symbol behind a bad character belongs to two tokens, and the diagnostic
covers it. -/
theorem symbol_inside_unrecognized_run :
    ∃ read, tokenize "@foo" = .ok read ∧
      read.solid = [⟨.unknown "@foo", ⟨0, 4⟩⟩, ⟨.symbol "foo", ⟨1, 4⟩⟩] ∧
      read.diagnostics.map Diagnostic.subject = [("@foo", ⟨0, 4⟩)] ∧
      ¬ read.solid.Pairwise Token.Before := by
  have checked : ((tokenize "@foo").toOption.any fun read => decide (
      read.solid = [⟨.unknown "@foo", ⟨0, 4⟩⟩, ⟨.symbol "foo", ⟨1, 4⟩⟩] ∧
        read.diagnostics.map Diagnostic.subject = [("@foo", ⟨0, 4⟩)] ∧
        ¬ read.solid.Pairwise Token.Before)) = true := by
    decide +kernel
  rcases any_toOption checked with ⟨read, tokenized, checked⟩
  exact ⟨read, tokenized, of_decide_eq_true checked⟩

end Manifest
