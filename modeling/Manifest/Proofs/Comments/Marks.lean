import Manifest.Proofs.Comments.Strip

/-!
# Marks of an expression

Some lexemes leave a mark in the expression that is read from them: a symbol
is a yield or it is not, and behind the sign of an assignment or an arrow
there is something or nothing.  In front of a comment the mark is another
than in front of a deeper line.  So the marks of a document betray which of
the two stands behind each of these lexemes.
-/

namespace Manifest

namespace Expr

def isUnit : Expr → Bool
  | unit => true
  | _ => false

mutual
/-- The marks of an expression, in the order of their lexemes.  The definitions
that names carry stand elsewhere. -/
def marks : Expr → List Bool
  | unit | scalar _ => []
  | vector items => marksAll items
  | assignment _ operand => false :: operand.isUnit :: operand.marks
  | application _ operands _ => false :: marksAll operands
  | function lambda => false :: marksBody lambda
  | lift operand => operand.marks
  | merge left right _ | pipeline left right | patternMatch left right =>
      left.marks ++ right.marks
  | yield operand => true :: operand.marks
  | block sections => marksSections sections
  | scope _ operand => operand.isUnit :: operand.marks
  | access target _ => target.marks ++ [false]
termination_by structural expression => expression

def marksAll : List Expr → List Bool
  | [] => []
  | expression :: rest => expression.marks ++ marksAll rest
termination_by structural expressions => expressions

def marksBody : Lambda Expr → List Bool
  | ⟨_, body⟩ => body.marks
termination_by structural lambda => lambda

def marksSections : List (Section Expr) → List Bool
  | [] => []
  | part :: rest => marksSection part ++ marksSections rest
termination_by structural sections => sections

def marksSection : Section Expr → List Bool
  | ⟨_, expressions⟩ => marksAll expressions
termination_by structural part => part
end

theorem marksAll_append (first second : List Expr) :
    marksAll (first ++ second) = marksAll first ++ marksAll second := by
  induction first with
  | nil => rfl
  | cons expression first ih => rw [List.cons_append, marksAll, marksAll, ih, List.append_assoc]

theorem marksSections_append (first second : List (Section Expr)) :
    marksSections (first ++ second) = marksSections first ++ marksSections second := by
  induction first with
  | nil => rfl
  | cons part first ih =>
    rw [List.cons_append, marksSections, marksSections, ih, List.append_assoc]

theorem marksAll_singleton (expression : Expr) : marksAll [expression] = expression.marks := by
  rw [marksAll, marksAll, List.append_nil]

end Expr

namespace Lexeme

/-- The lexemes that leave a mark. -/
def isMarked : Lexeme → Bool
  | symbol _ | assignment _ | arrow => true
  | _ => false

/-- The mark of a lexeme in front of a comment. -/
def restMark : Lexeme → Bool
  | symbol _ => false
  | _ => true

/-- The other lexemes that may stand in front of a comment. -/
def bearsComment : Lexeme → Bool
  | lift | pipeline | hardMerge | softMerge | patternMatch | openParen | accessor | unknown _ =>
      false
  | _ => true

/-- The other lexemes that may stand in front of a deeper line. -/
def bearsBlock : Lexeme → Bool
  | newline _ | comment _ | sectionStart | outdent | indent | openParen | pipeline | hardMerge
  | softMerge | patternMatch | lift => true
  | _ => false

end Lexeme

namespace Grammar

/-- The mark of a lexeme agrees with what follows. -/
def MarkFits (lexeme : Lexeme) (mark : Bool) (following : Lexeme) : Prop :=
  (following.isComment = true → mark = lexeme.restMark) ∧
    (following = .indent → mark = !lexeme.restMark)

/-- A lexeme without a mark agrees with what follows. -/
def Bears (lexeme following : Lexeme) : Prop :=
  (following.isComment = true → lexeme.bearsComment = true) ∧
    (following = .indent → lexeme.bearsBlock = true)

/-- The lexemes that were read agree with the marks that they left.  The lexeme
behind them is given. -/
def Fits : List Lexeme → List Bool → Lexeme → Prop
  | [], marks, _ => marks = []
  | lexeme :: read, marks, following =>
      if lexeme.isMarked then
        ∃ mark others, marks = mark :: others ∧ MarkFits lexeme mark (read.headD following) ∧
          Fits read others following
      else Bears lexeme (read.headD following) ∧ Fits read marks following

theorem fits_marked {lexeme following : Lexeme} {read : List Lexeme} {mark : Bool}
    {marks : List Bool} (marked : lexeme.isMarked = true)
    (fits : MarkFits lexeme mark (read.headD following)) (others : Fits read marks following) :
    Fits (lexeme :: read) (mark :: marks) following := by
  rw [Fits, if_pos marked]
  exact ⟨mark, marks, rfl, fits, others⟩

theorem fits_unmarked {lexeme following : Lexeme} {read : List Lexeme}
    {marks : List Bool} (unmarked : lexeme.isMarked = false)
    (bears : Bears lexeme (read.headD following)) (others : Fits read marks following) :
    Fits (lexeme :: read) marks following := by
  rw [Fits, if_neg (by simp [unmarked])]
  exact ⟨bears, others⟩

theorem fits_append {first second : List Lexeme} {marks others : List Bool} {following : Lexeme}
    (front : Fits first marks (second.headD following)) (behind : Fits second others following) :
    Fits (first ++ second) (marks ++ others) following := by
  induction first generalizing marks with
  | nil =>
    cases front
    exact behind
  | cons lexeme first ih =>
    have next : (first ++ second).headD following = first.headD (second.headD following) := by
      cases first <;> rfl
    rw [Fits] at front
    split at front
    · rename_i marked
      rcases front with ⟨mark, marks, rfl, fits, front⟩
      exact fits_marked marked (next ▸ fits) (ih front)
    · rename_i unmarked
      rcases front with ⟨bears, front⟩
      exact fits_unmarked (Bool.eq_false_iff.mpr unmarked) (next ▸ bears) (ih front)

/-- How many lexemes leave a mark. -/
def markCount (lexemes : List Lexeme) : Nat :=
  lexemes.countP Lexeme.isMarked

/-- The mark of a lexeme stands behind as many others as the lexeme. -/
theorem Fits.mark {front behind : List Lexeme} {lexeme following : Lexeme} {marks : List Bool}
    (fits : Fits (front ++ lexeme :: behind) marks following) (marked : lexeme.isMarked = true) :
    ∃ mark, marks[markCount front]? = some mark ∧
      MarkFits lexeme mark (behind.headD following) := by
  induction front generalizing marks with
  | nil =>
    rw [List.nil_append, Fits, if_pos marked] at fits
    rcases fits with ⟨mark, others, rfl, fits, _⟩
    exact ⟨mark, rfl, fits⟩
  | cons first front ih =>
    rw [List.cons_append, Fits] at fits
    split at fits
    · rename_i firstMarked
      rcases fits with ⟨_, others, rfl, _, fits⟩
      rcases ih fits with ⟨mark, found, fits⟩
      refine ⟨mark, ?_, fits⟩
      rw [markCount, List.countP_cons_of_pos firstMarked]
      exact found
    · rename_i firstUnmarked
      rcases ih fits.2 with ⟨mark, found, fits⟩
      refine ⟨mark, ?_, fits⟩
      rw [markCount, List.countP_cons_of_neg firstUnmarked]
      exact found

theorem Fits.bears {front behind : List Lexeme} {lexeme following : Lexeme} {marks : List Bool}
    (fits : Fits (front ++ lexeme :: behind) marks following)
    (unmarked : lexeme.isMarked = false) :
    Bears lexeme (behind.headD following) := by
  induction front generalizing marks with
  | nil =>
    rw [List.nil_append, Fits, if_neg (by simp [unmarked])] at fits
    exact fits.1
  | cons first front ih =>
    rw [List.cons_append, Fits] at fits
    split at fits
    · rcases fits with ⟨_, _, _, _, fits⟩
      exact ih fits
    · exact ih fits.2

end Grammar
end Manifest
