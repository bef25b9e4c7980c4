import Manifest.Proofs.Grammar.Completeness

/-!
# Lexemes without comments

A comment ends its line.  If the next line is not deeper, the grammar sees the
end of the line with the comment or without it.  If the next line is deeper,
it sees the block at once when the comment is left out, so only behind a
section marker, where a block would be a statement of its own in either case,
may such a comment stand.
-/

namespace Manifest

namespace Lexeme

/-- What may follow the last content of a line other than a deeper level. -/
def endsLine : Lexeme → Bool
  | newline _ | outdent | endOfInput => true
  | _ => false

/-- What a chain may have read last. -/
def closesTerm : Lexeme → Bool
  | symbol _ | text _ | number _ | boolean _ | emptyMapping | emptySequence | closeParen | outdent
  | arrow => true
  | _ => false

theorem isComment_of_endsLine {lexeme : Lexeme} (ends : lexeme.endsLine = true) :
    lexeme.isComment = false := by
  cases lexeme <;> first | rfl | cases ends

theorem isComment_of_startsTerm {lexeme : Lexeme} (starts : lexeme.startsTerm = true) :
    lexeme.isComment = false := by
  cases lexeme <;> first | rfl | cases starts

theorem isComment_of_closesTerm {lexeme : Lexeme} (closes : lexeme.closesTerm = true) :
    lexeme.isComment = false := by
  cases lexeme <;> first | rfl | cases closes

end Lexeme

/-- Leave the comments out. -/
def withoutComments (lexemes : List Lexeme) : List Lexeme :=
  lexemes.filter fun lexeme => !lexeme.isComment

theorem withoutComments_cons {lexeme : Lexeme} (content : lexeme.isComment = false)
    (rest : List Lexeme) :
    withoutComments (lexeme :: rest) = lexeme :: withoutComments rest := by
  rw [withoutComments, List.filter_cons_of_pos (by simp [content]), withoutComments]

theorem withoutComments_comment {lexeme : Lexeme} (comment : lexeme.isComment = true)
    (rest : List Lexeme) :
    withoutComments (lexeme :: rest) = withoutComments rest := by
  rw [withoutComments, List.filter_cons_of_neg (by simp [comment]), withoutComments]

/-- The comments of these lexemes end their lines, and a deeper line follows
at most behind a section marker.  The lexeme in front is given. -/
def TameBehind : Lexeme → List Lexeme → Prop
  | _, [] => True
  | previous, lexeme :: rest =>
      (lexeme.isComment = true →
        (∃ following, rest.head? = some following ∧ following.endsLine = true) ∨
          rest.head? = some .indent ∧ previous = .sectionStart) ∧
      TameBehind lexeme rest

namespace Point

def withoutComments (point : Point) : Point :=
  ⟨Manifest.withoutComments point.before, Manifest.withoutComments point.rest⟩

/-- The comments that are still to be read do no harm. -/
def Tame (point : Point) : Prop :=
  TameBehind (point.before.headD (.newline 0)) point.rest

/-- No comment in front of a deeper line stands here. -/
def Calm (point : Point) : Prop :=
  point.next.isComment = true →
    ∃ following, point.rest.tail.head? = some following ∧ following.endsLine = true

theorem Tame.step {before rest : List Lexeme} {lexeme : Lexeme}
    (tame : Tame ⟨before, lexeme :: rest⟩) : Tame ⟨lexeme :: before, rest⟩ :=
  tame.2

theorem Tame.reaches {start finish : Point} (tame : start.Tame)
    (reaches : Grammar.Reaches start finish) : finish.Tame := by
  rcases reaches with ⟨read, rest, before⟩
  induction read generalizing start with
  | nil =>
    rcases start with ⟨front, left⟩
    rcases finish with ⟨_, _⟩
    cases before
    cases rest
    exact tame
  | cons lexeme read ih =>
    rcases start with ⟨front, left⟩
    cases rest
    have behind : Tame ⟨lexeme :: front, read ++ finish.rest⟩ := tame.step
    refine ih behind rfl ?_
    rw [before, List.reverse_cons, List.append_assoc]
    rfl

theorem calm_of_next {point : Point} (content : point.next.isComment = false) : point.Calm := by
  intro comment
  rw [content] at comment
  cases comment

theorem Tame.calm {point : Point} (tame : point.Tame)
    (noMarker : point.before.headD (.newline 0) ≠ .sectionStart) : point.Calm := by
  intro comment
  rcases point with ⟨before, rest⟩
  cases rest with
  | nil => cases comment
  | cons lexeme rest =>
    rcases tame.1 comment with ends | ⟨_, marker⟩
    · exact ends
    · exact absurd marker noMarker

theorem Tame.calm_closesTerm {point : Point} (tame : point.Tame) {latest : Lexeme}
    (read : point.before.head? = some latest) (closes : latest.closesTerm = true) :
    point.Calm := by
  refine tame.calm ?_
  rw [List.headD_eq_head?_getD, read]
  intro same
  cases (same : latest = .sectionStart)
  cases closes

/-- Without comments the same lexeme follows, or both times the end of a line. -/
theorem Calm.next_cases {point : Point} (calm : point.Calm) :
    (point.next.isComment = false ∧ point.withoutComments.next = point.next) ∨
      (point.next.isComment = true ∧ ∃ line rest,
        point.withoutComments = ⟨Manifest.withoutComments point.before, line :: rest⟩ ∧
          line.endsLine = true) := by
  rcases point with ⟨before, rest⟩
  cases rest with
  | nil => exact .inl ⟨rfl, rfl⟩
  | cons lexeme rest =>
    cases comment : lexeme.isComment with
    | false =>
      refine .inl ⟨comment, ?_⟩
      simp only [withoutComments, next, withoutComments_cons comment, List.headD_cons]
    | true =>
      rcases calm comment with ⟨following, found, ends⟩
      rcases List.head?_eq_some_iff.mp found with ⟨behind, equal⟩
      cases (equal : rest = following :: behind)
      refine .inr ⟨comment, following, Manifest.withoutComments behind, ?_, ends⟩
      rw [withoutComments, withoutComments_comment comment,
        withoutComments_cons (Lexeme.isComment_of_endsLine ends)]

/-- A lexeme that ends no line stands here with or without comments. -/
theorem Calm.next_iff {point : Point} (calm : point.Calm) {lexeme : Lexeme}
    (content : lexeme.isComment = false) (inner : lexeme.endsLine = false) :
    point.withoutComments.next = lexeme ↔ point.next = lexeme := by
  rcases calm.next_cases with ⟨_, same⟩ | ⟨comment, line, rest, found, ends⟩
  · rw [same]
  · rw [found, next_cons]
    constructor
    · intro equal
      rw [equal, inner] at ends
      cases ends
    · intro equal
      rw [equal, content] at comment
      cases comment

theorem withoutComments_next {before rest : List Lexeme} {lexeme : Lexeme}
    (content : lexeme.isComment = false) :
    (⟨before, lexeme :: rest⟩ : Point).withoutComments =
      ⟨Manifest.withoutComments before, lexeme :: Manifest.withoutComments rest⟩ := by
  rw [withoutComments, withoutComments_cons content]

theorem withoutComments_read {before rest : List Lexeme} {lexeme : Lexeme}
    (content : lexeme.isComment = false) :
    (⟨lexeme :: before, rest⟩ : Point).withoutComments =
      ⟨lexeme :: Manifest.withoutComments before, Manifest.withoutComments rest⟩ := by
  rw [withoutComments, withoutComments_cons content]

/-- A comment has no place of its own without comments. -/
theorem withoutComments_skip {before rest : List Lexeme} {lexeme : Lexeme}
    (comment : lexeme.isComment = true) :
    (⟨before, lexeme :: rest⟩ : Point).withoutComments =
      (⟨lexeme :: before, rest⟩ : Point).withoutComments := by
  rw [withoutComments, withoutComments, withoutComments_comment comment,
    withoutComments_comment comment]

/-- The lexeme that was read last is something else than a comment. -/
def BehindContent (point : Point) : Prop :=
  ∃ latest, point.before.head? = some latest ∧ latest.isComment = false

theorem BehindContent.previous_withoutComments {point : Point} (behind : point.BehindContent) :
    point.withoutComments.previous = point.previous := by
  rcases behind with ⟨latest, read, content⟩
  rcases point with ⟨before, rest⟩
  rcases List.head?_eq_some_iff.mp read with ⟨earlier, rfl⟩
  rw [withoutComments_read content]
  rfl

end Point

namespace Grammar

variable {goal : Goal} {start finish : Point} {scopes after : Scopes} {result : Expr}

/-- The goals that end with the outdent of a block. -/
def ClosesBlock : Goal → Prop
  | .block _ .outdent | .sections .outdent _ _ _ => True
  | _ => False

/-- The goals below a statement. -/
def InsideStatement : Goal → Prop
  | .block _ _ | .sections _ _ _ _ | .statement _ => False
  | _ => True

theorem Derives.closesBlock (derived : Derives goal start scopes result finish after)
    (closes : ClosesBlock goal) : finish.before.head? = some .outdent := by
  induction derived with
  | @block _ stop _ _ _ _ _ _ ih | @skip stop _ _ _ _ _ _ _ _ _ _ _ _ ih
  | @lead stop _ _ _ _ _ _ _ _ ih | @divide stop _ _ _ _ _ _ _ _ _ _ _ ih
  | @state stop _ _ _ _ _ _ _ _ _ _ _ _ _ _ ih =>
    cases stop with
    | outdent => exact ih trivial
    | endOfInput => exact closes.elim
  | closeBlock => rfl
  | _ => exact closes.elim

theorem Derives.before_ne (derived : Derives goal start scopes result finish after)
    (moves : Moves goal start) : finish.before ≠ start.before := by
  have shorter := derived.length_lt moves
  rcases derived.reaches with ⟨read, rest, before⟩
  intro same
  have none : read.reverse = [] := List.append_left_eq_self.mp (before.symm.trans same)
  rw [List.reverse_eq_nil_iff] at none
  rw [rest, none, List.nil_append] at shorter
  exact Nat.lt_irrefl _ shorter

/-- Below a statement a derivation has read nothing new, or the end of a term. -/
theorem Derives.closesTerm (derived : Derives goal start scopes result finish after)
    (inside : InsideStatement goal) :
    finish.before = start.before ∨
      ∃ latest, finish.before.head? = some latest ∧ latest.closesTerm = true := by
  induction derived with
  | block | skip | lead | divide | state | closeBlock | closeDocument | nested | yielded | assigned
  | plain => exact inside.elim
  | chain _ ih | further _ _ ih | selected _ _ ih | applied _ _ ih | simple _ _ _ ih | body _ ih =>
    exact ih trivial
  | finish | behindBlock | enough | reached => exact .inl rfl
  | operator _ term _ first second =>
    rcases second trivial with same | closes
    · rw [same]
      exact .inr ((first trivial).resolve_left (term.before_ne trivial))
    · exact .inr closes
  | arrow _ _ _ first second =>
    rcases second trivial with same | closes
    · rw [same]
      rcases first trivial with none | closes
      · exact .inr ⟨.arrow, by rw [none]; rfl, rfl⟩
      · exact .inr closes
    · exact .inr closes
  | begin _ term _ first second =>
    rcases second trivial with same | closes
    · rw [same]
      exact .inr ((first trivial).resolve_left (term.before_ne trivial))
    · exact .inr closes
  | @literal _ lexeme _ _ _ _ reads =>
    refine .inr ⟨lexeme, rfl, ?_⟩
    cases lexeme <;> first | rfl | cases reads
  | lifted term ih => exact .inr ((ih trivial).resolve_left (term.before_ne trivial))
  | grouped => exact .inr ⟨_, rfl, rfl⟩
  | inner block => exact .inr ⟨_, block.closesBlock trivial, rfl⟩
  | named _ ih | selectedOperand _ _ ih | field _ ih =>
    rcases ih trivial with same | closes
    · exact .inr ⟨_, by rw [same]; rfl, rfl⟩
    · exact .inr closes
  | more _ _ _ first second =>
    rcases second trivial with same | closes
    · rw [same]
      exact first trivial
    · exact .inr closes
  | bareName => exact .inr ⟨_, rfl, rfl⟩
  | liftedOperand operand ih => exact .inr ((ih trivial).resolve_left (operand.before_ne trivial))

/-- Behind a term no comment stands in front of a deeper line. -/
theorem Derives.calm (derived : Derives goal start scopes result finish after)
    (inside : InsideStatement goal) (tame : start.Tame)
    (noMarker : start.before.headD (.newline 0) ≠ .sectionStart) : finish.Calm := by
  have behind := tame.reaches derived.reaches
  rcases derived.closesTerm inside with same | ⟨latest, read, closes⟩
  · refine behind.calm ?_
    rw [same]
    exact noMarker
  · exact behind.calm_closesTerm read closes

theorem Derives.calm_of_moves (derived : Derives goal start scopes result finish after)
    (inside : InsideStatement goal) (moves : Moves goal start) (tame : start.Tame) :
    finish.Calm := by
  rcases (derived.closesTerm inside).resolve_left (derived.before_ne moves) with
    ⟨latest, read, closes⟩
  exact (tame.reaches derived.reaches).calm_closesTerm read closes

theorem Derives.behindContent (derived : Derives goal start scopes result finish after)
    (inside : InsideStatement goal) (behind : start.BehindContent) : finish.BehindContent := by
  rcases derived.closesTerm inside with same | ⟨latest, read, closes⟩
  · rcases behind with ⟨latest, read, content⟩
    exact ⟨latest, same ▸ read, content⟩
  · exact ⟨latest, read, Lexeme.isComment_of_closesTerm closes⟩

theorem Derives.behindContent_of_moves
    (derived : Derives goal start scopes result finish after)
    (inside : InsideStatement goal) (moves : Moves goal start) : finish.BehindContent := by
  rcases (derived.closesTerm inside).resolve_left (derived.before_ne moves) with
    ⟨latest, read, closes⟩
  exact ⟨latest, read, Lexeme.isComment_of_closesTerm closes⟩

/-- A term begins with a lexeme of its own. -/
theorem Derives.startsTerm {scope : Nat}
    (derived : Derives (.term scope) start scopes result finish after) :
    start.next.startsTerm = true := by
  cases derived with
  | literal reads =>
    rename_i lexeme _ _
    cases lexeme <;> first | rfl | cases reads
  | lifted | grouped | inner | named => rfl

/-! ## Decisions that look ahead -/

/-- A class of lexemes that has neither comments nor ends of lines. -/
theorem Calm.test_eq {point : Point} (calm : point.Calm) (test : Lexeme → Bool)
    (noComment : ∀ lexeme, lexeme.isComment = true → test lexeme = false)
    (noEnd : ∀ lexeme, lexeme.endsLine = true → test lexeme = false) :
    test point.withoutComments.next = test point.next := by
  rcases calm.next_cases with ⟨_, same⟩ | ⟨comment, line, rest, found, ends⟩
  · rw [same]
  · rw [noComment _ comment, found, Point.next_cons, noEnd _ ends]

theorem Calm.startsTerm_eq {point : Point} (calm : point.Calm) :
    point.withoutComments.next.startsTerm = point.next.startsTerm := by
  refine Calm.test_eq calm Lexeme.startsTerm ?_ ?_ <;>
    intro lexeme known <;> cases lexeme <;> first | rfl | cases known

theorem Calm.isAssignment_eq {point : Point} (calm : point.Calm) :
    point.withoutComments.next.isAssignment = point.next.isAssignment := by
  refine Calm.test_eq calm Lexeme.isAssignment ?_ ?_ <;>
    intro lexeme known <;> cases lexeme <;> first | rfl | cases known

theorem takesOperand_withoutComments {point : Point} (tame : point.Tame) (calm : point.Calm) :
    takesOperand point.withoutComments = takesOperand point := by
  rcases calm.next_cases with ⟨content, _⟩ | ⟨comment, line, rest, found, ends⟩
  · rcases point with ⟨before, rest⟩
    cases rest with
    | nil => rfl
    | cons lexeme rest =>
      simp only [Point.next_cons] at content
      rw [Point.withoutComments_next content]
      cases lexeme with
      | symbol name =>
        have calm : (⟨.symbol name :: before, rest⟩ : Point).Calm := tame.step.calm (by simp)
        exact congrArg (!·) (Calm.isAssignment_eq calm)
      | _ => rfl
  · rw [takesOperand, takesOperand, found, Point.next_cons]
    generalize point.next = next at comment
    cases next <;> cases comment
    cases line <;> first | rfl | cases ends

theorem startsChain_symbol (before rest : List Lexeme) (name : String) :
    startsChain ⟨before, .symbol name :: rest⟩ =
      (!(decide (name = "yield") && (rest.headD .endOfInput).startsTerm) &&
        !(rest.headD .endOfInput).isAssignment) := rfl

theorem startsChain_withoutComments {point : Point} (tame : point.Tame) (calm : point.Calm) :
    startsChain point.withoutComments = startsChain point := by
  rcases calm.next_cases with ⟨content, _⟩ | ⟨comment, line, rest, found, ends⟩
  · rcases point with ⟨before, rest⟩
    cases rest with
    | nil => rfl
    | cons lexeme rest =>
      simp only [Point.next_cons] at content
      rw [Point.withoutComments_next content]
      cases lexeme with
      | symbol name =>
        have calm : (⟨.symbol name :: before, rest⟩ : Point).Calm := tame.step.calm (by simp)
        have opens : ((withoutComments rest).headD .endOfInput).startsTerm =
            (rest.headD .endOfInput).startsTerm := Calm.startsTerm_eq calm
        have assigns : ((withoutComments rest).headD .endOfInput).isAssignment =
            (rest.headD .endOfInput).isAssignment := Calm.isAssignment_eq calm
        rw [startsChain_symbol, startsChain_symbol, opens, assigns]
      | _ => rfl
  · rw [startsChain, startsChain, found, Point.next_cons]
    generalize point.next = next at comment
    cases next <;> cases comment
    cases line <;> first | rfl | cases ends

end Grammar

end Manifest
