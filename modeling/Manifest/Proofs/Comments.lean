import Manifest.Compile
import Manifest.Proofs.Comments.Insertion
import Manifest.Proofs.Comments.Reading
import Manifest.Proofs.Scan.Order

/-!
# Comments in documents

The tokens of a source read as the same document with and without its
comments, unless a comment stands between a lexeme and the deeper line behind
it.  There the comment ends the chain that the deeper line would continue.
-/

namespace Manifest

/-- Every comment in front of a deeper line stands behind a section marker.
The lexeme in front of the others is given. -/
def inertBehind : Lexeme → List Lexeme → Bool
  | _, [] => true
  | previous, lexeme :: rest =>
      (!(lexeme.isComment && rest.head? == some .indent) || previous == .sectionStart) &&
        inertBehind lexeme rest

/-- No comment stands between content and the deeper line behind it. -/
def commentsInert (lexemes : List Lexeme) : Bool :=
  inertBehind (.newline 0) lexemes

/-- Leave the comments out of a token sequence. -/
def commentsRemoved (tokens : List Token) : List Token :=
  tokens.filter fun token => !token.lexeme.isComment

theorem lexemes_commentsRemoved (tokens : List Token) :
    (commentsRemoved tokens).map Token.lexeme = withoutComments (tokens.map Token.lexeme) := by
  rw [commentsRemoved, withoutComments, List.filter_map]
  rfl

theorem withoutComments_append (front behind : List Lexeme) :
    withoutComments (front ++ behind) = withoutComments front ++ withoutComments behind :=
  List.filter_append front behind

/-- The lexemes of a source: each may follow the one in front of it, and the
last is the end of input. -/
structure SourceOrder (lexemes : List Lexeme) : Prop where
  chain : (.newline 0 :: lexemes).IsChain
    fun previous lexeme => Lexeme.mayFollow previous lexeme = true
  ends : lexemes.getLast? = some .endOfInput

namespace SourceOrder

variable {lexemes : List Lexeme}

/-- The end of input stands at the end and nowhere else. -/
theorem split (order : SourceOrder lexemes) :
    ∃ front, lexemes = front ++ [.endOfInput] ∧ .endOfInput ∉ front := by
  rcases List.getLast?_eq_some_iff.mp order.ends with ⟨front, equal⟩
  refine ⟨front, equal, fun inside => ?_⟩
  rcases List.append_of_mem inside with ⟨before, behind, rfl⟩
  have chain := order.chain
  cases behind with
  | nil =>
    rw [equal, List.append_assoc, List.cons_append, List.nil_append, ← List.cons_append,
      List.isChain_append_cons_cons] at chain
    cases chain.2.1
  | cons lexeme behind =>
    rw [equal, List.append_assoc, List.cons_append, List.cons_append, ← List.cons_append,
      List.isChain_append_cons_cons] at chain
    cases chain.2.1

end SourceOrder

theorem tame_of_inertBehind {previous : Lexeme} {lexemes : List Lexeme}
    (chain : (previous :: lexemes).IsChain
      fun previous lexeme => Lexeme.mayFollow previous lexeme = true)
    (ends : lexemes = [] ∨ lexemes.getLast? = some .endOfInput)
    (inert : inertBehind previous lexemes = true) : TameBehind previous lexemes := by
  induction lexemes generalizing previous with
  | nil => trivial
  | cons lexeme rest ih =>
    rw [List.isChain_cons_cons] at chain
    simp only [inertBehind, Bool.and_eq_true, Bool.or_eq_true, Bool.not_eq_true', beq_iff_eq]
      at inert
    refine ⟨fun comment => ?_, ih chain.2 ?_ inert.2⟩
    · cases rest with
      | nil =>
        rcases ends with none | ends
        · cases none
        · cases ends
          cases comment
      | cons following rest =>
        have follows := (List.isChain_cons_cons.mp chain.2).1
        by_cases deeper : following = .indent
        · refine .inr ⟨congrArg some deeper, inert.1.resolve_left fun free => ?_⟩
          rw [comment, deeper] at free
          cases free
        · refine .inl ⟨following, rfl, ?_⟩
          cases lexeme <;> cases comment
          cases following <;> first | rfl | exact absurd rfl deeper | cases follows
    · cases rest with
      | nil => exact .inl rfl
      | cons following rest =>
        refine .inr (ends.resolve_left (by simp) ▸ ?_)
        exact List.getLast?_cons_cons.symm

/-- The end of input is neither a comment nor deeper than one. -/
theorem inertBehind_end (previous : Lexeme) (lexemes : List Lexeme) :
    inertBehind previous (lexemes ++ [Lexeme.endOfInput]) = inertBehind previous lexemes := by
  induction lexemes generalizing previous with
  | nil => rfl
  | cons lexeme rest ih =>
    have shallow : ((rest ++ [Lexeme.endOfInput]).head? == some Lexeme.indent) =
        (rest.head? == some Lexeme.indent) := by
      cases rest <;> rfl
    rw [List.cons_append, inertBehind, inertBehind, ih, shallow]

/-- A comment that is not inert stands between content and a deeper line. -/
theorem exists_of_not_inertBehind {previous : Lexeme} {lexemes : List Lexeme}
    (loud : inertBehind previous lexemes = false) :
    ∃ front lexeme comment rest,
      previous :: lexemes = front ++ lexeme :: comment :: .indent :: rest ∧
        comment.isComment = true ∧ lexeme ≠ .sectionStart := by
  induction lexemes generalizing previous with
  | nil => cases loud
  | cons comment rest ih =>
    cases behind : inertBehind comment rest with
    | false =>
      rcases ih behind with ⟨front, lexeme, found, others, split, known⟩
      exact ⟨previous :: front, lexeme, found, others, congrArg (previous :: ·) split, known⟩
    | true =>
      simp only [inertBehind, behind, Bool.and_true, Bool.or_eq_false_iff, Bool.not_eq_false',
        Bool.and_eq_true, beq_iff_eq, beq_eq_false_iff_ne] at loud
      rcases loud with ⟨⟨comments, deeper⟩, noMarker⟩
      rcases List.head?_eq_some_iff.mp deeper with ⟨others, rfl⟩
      exact ⟨[], previous, comment, others, rfl, comments, noMarker⟩

/-! ## Whole documents -/

namespace Grammar

variable {goal : Goal} {start finish : Point} {scopes after : Scopes} {result : Expr}

/-- The lexemes of a document agree with the marks that they left. -/
theorem Derives.fits_document {lexemes : List Lexeme} {parent : Nat}
    (derived : Derives (.block parent .endOfInput) (.ofLexemes (lexemes ++ [.endOfInput])) scopes
      result finish after) (only : .endOfInput ∉ lexemes) :
    Fits lexemes result.marks .endOfInput := by
  rcases derived.closesDocument trivial with ⟨behind, closes⟩
  have settled : Settled finish := derived.settled id
  rcases derived.leaves settled with ⟨read, marks, split, same, fits⟩
  have split : lexemes ++ [.endOfInput] = read ++ .endOfInput :: behind := closes ▸ split
  have whole : read = lexemes := by
    rcases List.append_eq_append_iff.mp split with ⟨more, rfl, rest⟩ | ⟨more, rfl, rest⟩
    · cases more with
      | nil => exact List.append_nil lexemes
      | cons lexeme more => cases more <;> cases rest
    · cases more with
      | nil => exact (List.append_nil read).symm
      | cons lexeme more =>
        cases rest
        exact absurd (List.mem_append_right read List.mem_cons_self) only
  have next : finish.next = .endOfInput := by
    rw [Point.next, closes]
    rfl
  have same : result.marks = marks := same
  rw [same, ← whole, ← next]
  exact fits

theorem markCount_withoutComments (lexemes : List Lexeme) :
    markCount (withoutComments lexemes) = markCount lexemes := by
  rw [markCount, markCount, withoutComments, List.countP_filter]
  refine List.countP_congr fun lexeme _ => ?_
  cases lexeme <;> simp [Lexeme.isMarked, Lexeme.isComment]

/-- Lexemes with a comment between content and a deeper line cannot leave the
same marks without it. -/
theorem Fits.withoutComments_ne {front rest : List Lexeme} {lexeme comment following : Lexeme}
    {marks : List Bool}
    (fits : Fits (front ++ lexeme :: comment :: .indent :: rest) marks following)
    (content : lexeme.isContent = true) (noMarker : lexeme ≠ .sectionStart)
    (comments : comment.isComment = true) :
    ¬ Fits (withoutComments (front ++ lexeme :: comment :: .indent :: rest)) marks following := by
  intro fitsBare
  have noComment : lexeme.isComment = false := by
    cases lexeme <;> first | rfl | cases content
  rw [withoutComments_append, withoutComments_cons noComment, withoutComments_comment comments,
    withoutComments_cons rfl] at fitsBare
  cases marked : lexeme.isMarked with
  | true =>
    rcases fits.mark marked with ⟨mark, found, fitsMark⟩
    rcases fitsBare.mark marked with ⟨bareMark, foundBare, fitsBareMark⟩
    rw [markCount_withoutComments, found] at foundBare
    cases foundBare
    have rests := fitsMark.1 comments
    have deepens := fitsBareMark.2 rfl
    rw [rests] at deepens
    cases known : lexeme.restMark <;> rw [known] at deepens <;> cases deepens
  | false =>
    have bearsComment := (fits.bears marked).1 comments
    have bearsBlock := (fitsBare.bears marked).2 rfl
    cases lexeme <;> first
      | cases content; done
      | cases bearsBlock; done
      | cases bearsComment; done
      | exact noMarker rfl

theorem reads_withoutComments_iff {lexemes : List Lexeme} {document : Document}
    (tame : (Point.ofLexemes lexemes).Tame) :
    Reads lexemes document ↔ Reads (withoutComments lexemes) document := by
  constructor
  · rintro ⟨block, finish, derived, root⟩
    exact ⟨block, finish.withoutComments, derived.withoutComments tame trivial, root⟩
  · rintro ⟨block, finish, derived, root⟩
    rcases derived.of_withoutComments (.ofLexemes lexemes) rfl tame trivial with
      ⟨stop, _, derived⟩
    exact ⟨block, stop, derived, root⟩

/-- The same document is not read with and without a comment between content
and a deeper line. -/
theorem commentsInert_of_reads {lexemes : List Lexeme} {document : Document}
    (order : SourceOrder lexemes) (with_ : Reads lexemes document)
    (without : Reads (withoutComments lexemes) document) : commentsInert lexemes = true := by
  rcases order.split with ⟨inside, rfl, only⟩
  refine Bool.of_not_eq_false fun loud => ?_
  rw [commentsInert, inertBehind_end] at loud
  rcases exists_of_not_inertBehind loud with
    ⟨front, lexeme, comment, rest, split, comments, noMarker⟩
  have content : lexeme.isContent = true := by
    have chain := order.chain
    rw [← List.cons_append, split, List.append_assoc, List.cons_append, List.cons_append,
      List.isChain_append_cons_cons] at chain
    have follows := chain.2.1
    cases comment <;> cases comments
    cases lexeme <;> first | rfl | cases follows
  cases front with
  | nil =>
    cases split
    cases content
  | cons first front =>
    cases split
    rcases with_ with ⟨block, finish, derived, root⟩
    rcases without with ⟨bareBlock, bareFinish, bareDerived, bareRoot⟩
    rw [root] at bareRoot
    cases bareRoot
    rw [withoutComments_append, withoutComments_cons rfl] at bareDerived
    have onlyBare : .endOfInput ∉ withoutComments (front ++ lexeme :: comment :: .indent :: rest) :=
      fun inside => only (List.mem_of_mem_filter inside)
    exact (derived.fits_document only).withoutComments_ne content noMarker comments
      (bareDerived.fits_document onlyBare)

end Grammar

/-- Two token sequences read as the same document, or both as none. -/
def SameDocument (first second : List Token) : Prop :=
  ∀ document, Document.ofTokens first = .ok document ↔ Document.ofTokens second = .ok document

/-- The tokens of a source are the same document with and without comments
exactly if no comment stands between content and a deeper line, apart from
sources that are no document in either case. -/
theorem same_document_without_comments_iff {source : String} {read : TokenizedSource}
    (tokenized : tokenize source = .ok read) :
    SameDocument read.tokens (commentsRemoved read.tokens) ↔
      commentsInert (read.tokens.map Token.lexeme) = true ∨
        ∀ document, Document.ofTokens read.tokens ≠ .ok document ∧
          Document.ofTokens (commentsRemoved read.tokens) ≠ .ok document := by
  have order : SourceOrder (read.tokens.map Token.lexeme) :=
    ⟨(tokenize_ordered tokenized).1, (tokenize_ordered tokenized).2⟩
  have reads : ∀ document, Document.ofTokens read.tokens = .ok document ↔
      Grammar.Reads (read.tokens.map Token.lexeme) document := by
    intro document
    rw [Grammar.ofTokens_eq_ok_iff, endsWithEnd_eq_true_iff]
    exact and_iff_right order.ends
  have readsBare : ∀ document, Document.ofTokens (commentsRemoved read.tokens) = .ok document ↔
      Grammar.Reads (withoutComments (read.tokens.map Token.lexeme)) document := by
    intro document
    rw [Grammar.ofTokens_eq_ok_iff, endsWithEnd_eq_true_iff, lexemes_commentsRemoved]
    refine and_iff_right ?_
    rcases order.split with ⟨front, equal, _⟩
    rw [equal, withoutComments_append, withoutComments_cons rfl]
    exact List.getLast?_concat
  constructor
  · intro same
    cases inert : commentsInert (read.tokens.map Token.lexeme) with
    | true => exact .inl rfl
    | false =>
      have never : ∀ document, Document.ofTokens read.tokens ≠ .ok document := by
        intro document parsed
        have bare := (readsBare document).mp ((same document).mp parsed)
        rw [Grammar.commentsInert_of_reads order ((reads document).mp parsed) bare] at inert
        cases inert
      exact .inr fun document =>
        ⟨never document, fun parsed => never document ((same document).mpr parsed)⟩
  · rintro (inert | never) document
    · rw [reads, readsBare]
      refine Grammar.reads_withoutComments_iff ?_
      exact tame_of_inertBehind order.chain (.inr order.ends) inert
    · exact iff_of_false (never document).1 (never document).2

/-- A comment behind a value says nothing. -/
theorem same_document_comment_behind_value :
    ∃ read document, tokenize "a: 1 # one\nb: 2\n" = .ok read ∧
      commentsRemoved read.tokens ≠ read.tokens ∧
      Document.ofTokens read.tokens = .ok document ∧
      Document.ofTokens (commentsRemoved read.tokens) = .ok document := by
  have checked : (match tokenize "a: 1 # one\nb: 2\n" with
      | .ok read =>
        commentsInert (read.tokens.map Token.lexeme) &&
          decide (commentsRemoved read.tokens ≠ read.tokens) &&
          (Document.ofTokens read.tokens).toOption.isSome
      | .error _ => false) = true := by
    decide +kernel
  cases tokenized : tokenize "a: 1 # one\nb: 2\n" with
  | error failure =>
    rw [tokenized] at checked
    cases checked
  | ok read =>
    rw [tokenized] at checked
    simp only [Bool.and_eq_true, decide_eq_true_eq] at checked
    rcases checked with ⟨⟨inert, removed⟩, some⟩
    cases parsed : Document.ofTokens read.tokens with
    | error failure =>
      rw [parsed] at some
      cases some
    | ok document =>
      have same := (same_document_without_comments_iff tokenized).mpr (.inl inert)
      exact ⟨read, document, rfl, removed, parsed, (same document).mp parsed⟩

/-- A comment behind a key makes its block another statement. -/
theorem different_document_comment_behind_key :
    ∃ read first second value other, tokenize "a: # note\n  b: 1\n" = .ok read ∧
      Document.ofTokens read.tokens = .ok first ∧
      Document.ofTokens (commentsRemoved read.tokens) = .ok second ∧
      (Program.mk first).evaluate [] = .ok value ∧ (Program.mk second).evaluate [] = .ok other ∧
      value ≠ other := by
  have checked : (match tokenize "a: # note\n  b: 1\n" with
      | .ok read =>
        match Document.ofTokens read.tokens, Document.ofTokens (commentsRemoved read.tokens) with
        | .ok first, .ok second =>
          match (Program.mk first).evaluate [], (Program.mk second).evaluate [] with
          | .ok value, .ok other => decide (value ≠ other)
          | _, _ => false
        | _, _ => false
      | .error _ => false) = true := by
    decide +kernel
  split at checked
  · rename_i read tokenized
    split at checked
    · rename_i first second parsed parsedBare
      split at checked
      · rename_i value other evaluated evaluatedBare
        exact ⟨read, first, second, value, other, tokenized, parsed, parsedBare, evaluated,
          evaluatedBare, of_decide_eq_true checked⟩
      · cases checked
    · cases checked
  · cases checked

end Manifest
