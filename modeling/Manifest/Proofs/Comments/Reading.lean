import Manifest.Proofs.Comments.Marks

/-!
# The marks that a derivation leaves

The lexemes that a derivation reads agree with the marks of its expression.
The last of them also agrees with the lexeme behind.  A term may be followed
by anything, but a chain goes on behind its terms and stops in front of a
deeper line only when it has just read a block.
-/

namespace Manifest
namespace Grammar

variable {goal : Goal} {start finish : Point} {scopes after : Scopes} {result : Expr}

/-- In front of a deeper line a block has just been read. -/
def Settled (point : Point) : Prop :=
  point.next = .indent → point.previous = .outdent

/-- The goals that may end in front of anything. -/
def EndsTerm : Goal → Prop
  | .term _ | .application _ _ | .operands _ _ _ | .operand _ | .path _ => True
  | _ => False

theorem previous_of_head {point : Point} {latest : Lexeme}
    (read : point.before.head? = some latest) : point.previous = latest := by
  rw [Point.previous, List.headD_eq_head?_getD, read]
  rfl

theorem Derives.settled (derived : Derives goal start scopes result finish after)
    (whole : ¬ EndsTerm goal) : Settled finish := by
  induction derived with
  | block _ ih | skip _ _ ih | lead _ ih | divide _ _ ih | state _ _ _ ih | nested _ ih
  | yielded _ _ ih | assigned _ ih | plain _ _ ih | chain _ ih | operator _ _ _ _ ih
  | arrow _ _ _ _ ih | begin _ _ _ _ ih | further _ _ ih | body _ ih => exact ih id
  | closeBlock => exact fun _ => rfl
  | closeDocument =>
    intro deeper
    cases (deeper : Lexeme.endOfInput = .indent)
  | finish ends =>
    intro deeper
    cases (deeper : _ = Lexeme.indent)
    cases ends
  | behindBlock behind => exact fun _ => behind
  | _ => exact absurd trivial whole

/-- Only a chain without terms may begin in front of a deeper line. -/
theorem Derives.links_next {scope : Nat} {top : Expr} {stack : List Expr}
    (derived : Derives (.links scope (top :: stack)) start scopes result finish after) :
    start.next ≠ .indent := by
  intro deeper
  cases derived with
  | finish ends =>
    cases (deeper : _ = Lexeme.indent)
    cases ends
  | operator joins =>
    cases (deeper : _ = Lexeme.indent)
    cases joins
  | arrow => cases (deeper : Lexeme.arrow = .indent)

theorem Derives.proceed_settled {scope : Nat} {top : Expr} {stack : List Expr}
    (derived : Derives (.proceed scope (top :: stack)) start scopes result finish after) :
    Settled start := by
  cases derived with
  | behindBlock behind => exact fun _ => behind
  | further _ links => exact fun deeper => absurd deeper links.links_next

theorem Derives.operands_settled {name : String} {taken : List Expr} {scope : Nat}
    (derived : Derives (.operands name taken scope) start scopes result finish after)
    (settled : Settled finish) : Settled start := by
  cases derived with
  | more takes =>
    intro deeper
    rw [takesOperand, deeper] at takes
    cases takes
  | enough => exact settled

theorem Derives.path_settled {target : Expr}
    (derived : Derives (.path target) start scopes result finish after)
    (settled : Settled finish) : Settled start := by
  cases derived with
  | field => exact fun deeper => nomatch (deeper : Lexeme.accessor = .indent)
  | reached => exact settled

theorem Derives.application_settled {name : String} {scope : Nat}
    (derived : Derives (.application name scope) start scopes result finish after)
    (settled : Settled finish) : Settled start := by
  cases derived with
  | selected _ path => exact path.path_settled settled
  | applied _ operands => exact operands.operands_settled settled

theorem Derives.operand_startsTerm {scope : Nat}
    (derived : Derives (.operand scope) start scopes result finish after) :
    start.next.startsTerm = true := by
  cases derived with
  | bareName | selectedOperand | liftedOperand => rfl
  | simple _ _ term => exact term.startsTerm

/-! ## The first lexeme of a chain -/

/-- In front of a comment a chain is empty. -/
theorem Derives.chain_comment {scope : Nat}
    (derived : Derives (.chain scope) start scopes result finish after)
    (comment : start.next.isComment = true) : finish = start ∧ result = .unit := by
  cases derived with
  | chain links =>
    cases links with
    | finish _ settled =>
      cases settled
      exact ⟨rfl, rfl⟩
    | arrow named => cases named
    | begin opens => simp [Lexeme.isComment_of_startsTerm opens] at comment

/-- The goals that read the sections of a block. -/
def OfBlock : Goal → Prop
  | .block _ _ | .sections _ _ _ _ => True
  | _ => False

theorem Derives.isUnit_of_block (derived : Derives goal start scopes result finish after)
    (block : OfBlock goal) : result.isUnit = false := by
  induction derived with
  | block _ ih | skip _ _ ih | lead _ ih | divide _ _ ih | state _ _ _ ih => exact ih trivial
  | closeBlock | closeDocument => rfl
  | _ => exact block.elim

/-- In front of a deeper line a chain has something to read. -/
theorem Derives.chain_deeper {scope : Nat}
    (derived : Derives (.chain scope) start scopes result finish after)
    (deeper : start.next = .indent) : result.isUnit = false := by
  cases derived with
  | chain links =>
    cases links with
    | finish ends =>
      cases (deeper : _ = Lexeme.indent)
      cases ends
    | arrow named => cases named
    | begin _ term proceed =>
      have block : ∃ before rest, start = ⟨before, .indent :: rest⟩ := by
        rcases start with ⟨before, rest⟩
        cases rest with
        | nil => cases (deeper : Lexeme.endOfInput = .indent)
        | cons lexeme rest =>
          cases (deeper : lexeme = .indent)
          exact ⟨before, rest, rfl⟩
      rcases block with ⟨before, rest, rfl⟩
      cases term with
      | literal reads => cases reads
      | inner block =>
        have behind := previous_of_head (block.closesBlock trivial)
        cases proceed with
        | behindBlock _ settled =>
          cases settled
          exact block.isUnit_of_block trivial
        | further other => exact absurd behind other

theorem Derives.chain_markFits {scope : Nat} {lexeme : Lexeme}
    (derived : Derives (.chain scope) start scopes result finish after)
    (rests : lexeme.restMark = true) : MarkFits lexeme result.isUnit start.next := by
  constructor
  · intro comment
    rw [(derived.chain_comment comment).2, rests]
    rfl
  · intro deeper
    rw [derived.chain_deeper deeper, rests]
    rfl

/-! ## Marks of the stack -/

theorem marksAll_of_settle {stack : List Expr} (settled : settle stack = some result) :
    result.marks = Expr.marksAll stack.reverse := by
  match stack, settled with
  | [], rfl => rfl
  | [_], rfl => exact (Expr.marksAll_singleton result).symm

theorem marksSections_of_closed {finished parts : List (Section Expr)} {part : Section Expr}
    (ended : closed finished part = some parts) :
    Expr.marksSections parts =
      Expr.marksSections finished ++ Expr.marksAll part.expressions := by
  unfold closed at ended
  split at ended
  · cases ended
    rw [Expr.marksSections_append, Expr.marksSections, Expr.marksSections, List.append_nil]
    cases part
    rfl
  · rename_i filled
    have empty : part.expressions = [] := by simpa using filled
    split at ended
    · rename_i first
      cases ended
      rw [List.isEmpty_iff.mp first, empty]
      rfl
    · cases ended

theorem marks_combine (operator : Lexeme) (left right : Expr) :
    (Parser.combine operator left right).marks = left.marks ++ right.marks := by
  cases operator <;> rfl

theorem marks_curried (names : List String) (body : Expr) :
    (curried names body).marks = names.map (fun _ => false) ++ body.marks := by
  induction names with
  | nil => rfl
  | cons name names ih => exact congrArg (false :: ·) ih

theorem marks_of_bareName {expression : Expr} {name : String}
    (named : Parser.bareName? expression = some name) : expression.marks = [false] := by
  unfold Parser.bareName? at named
  split at named
  · rfl
  · cases named

theorem marksAll_of_bareNames {expressions : List Expr} {names : List String}
    (named : expressions.mapM Parser.bareName? = some names) :
    Expr.marksAll expressions = names.map fun _ => false := by
  induction expressions generalizing names with
  | nil =>
    cases named
    rfl
  | cons expression expressions ih =>
    simp only [List.mapM_cons, Option.bind_eq_bind, Option.bind_eq_some_iff] at named
    rcases named with ⟨name, first, others, behind, equal⟩
    cases equal
    rw [Expr.marksAll, marks_of_bareName first, ih behind]
    rfl

theorem marks_of_parameterNames {expression : Expr} {names : List String}
    (named : Parser.parameterNames? expression = some names) :
    expression.marks = names.map fun _ => false := by
  unfold Parser.parameterNames? at named
  split at named
  · rcases Option.map_eq_some_iff.mp named with ⟨others, operands, rfl⟩
    exact congrArg (false :: ·) (marksAll_of_bareNames operands)
  · cases named

theorem marksAll_of_parameterNames {expressions : List Expr} {groups : List (List String)}
    (named : expressions.mapM Parser.parameterNames? = some groups) :
    Expr.marksAll expressions = groups.flatten.map fun _ => false := by
  induction expressions generalizing groups with
  | nil =>
    cases named
    rfl
  | cons expression expressions ih =>
    simp only [List.mapM_cons, Option.bind_eq_bind, Option.bind_eq_some_iff] at named
    rcases named with ⟨group, first, others, behind, equal⟩
    cases equal
    rw [Expr.marksAll, marks_of_parameterNames first, ih behind, List.flatten_cons,
      List.map_append]

/-- Names that stand for parameters leave the marks of names. -/
theorem marksAll_of_parameters {stack : List Expr} {names : List String}
    (named : parameters stack = some names) :
    Expr.marksAll stack.reverse = names.map fun _ => false := by
  unfold parameters at named
  split at named
  · rename_i groups read
    split at named
    · cases named
    · cases named
      exact marksAll_of_parameterNames read
  · cases named

/-! ## The marks of a derivation -/

/-- The marks of what a goal has read in front of its start. -/
def Goal.marks : Goal → List Bool
  | .sections _ finished part _ =>
      Expr.marksSections finished ++ Expr.marksAll part.expressions
  | .links _ stack | .proceed _ stack => Expr.marksAll stack.reverse
  | .application _ _ => [false]
  | .operands _ taken _ => false :: Expr.marksAll taken
  | .path target => target.marks
  | .function _ parameters => parameters.map fun _ => false
  | _ => []

/-- The lexeme in front whose mark has to wait for what is behind it. -/
def Goal.opening : Goal → List Lexeme
  | .function _ _ => [.arrow]
  | _ => []

/-- From one point to another, lexemes were read that agree with the marks
that a result adds to those before. -/
def Leaves (opening : List Lexeme) (own : List Bool) (start : Point) (result : Expr)
    (finish : Point) : Prop :=
  ∃ read marks, start.rest = read ++ finish.rest ∧ result.marks = own ++ marks ∧
    Fits (opening ++ read) marks finish.next

namespace Leaves

variable {opening : List Lexeme} {own : List Bool} {before rest : List Lexeme} {lexeme : Lexeme}

theorem headD_eq_next {read : List Lexeme} (split : start.rest = read ++ finish.rest) :
    read.headD finish.next = start.next := by
  rw [Point.next, Point.next, split]
  cases read <;> rfl

theorem nothing (same : result.marks = own) : Leaves [] own start result start :=
  ⟨[], [], rfl, same.trans (List.append_nil own).symm, rfl⟩

theorem unmarked (plain : lexeme.isMarked = false)
    (bears : Bears lexeme (⟨lexeme :: before, rest⟩ : Point).next)
    (behind : Leaves [] own ⟨lexeme :: before, rest⟩ result finish) :
    Leaves [] own ⟨before, lexeme :: rest⟩ result finish := by
  rcases behind with ⟨read, marks, split, same, fits⟩
  refine ⟨lexeme :: read, marks, congrArg (lexeme :: ·) split, same, ?_⟩
  exact fits_unmarked plain (headD_eq_next split ▸ bears) fits

theorem marked {mark : Bool} (marked : lexeme.isMarked = true)
    (fits : MarkFits lexeme mark (⟨lexeme :: before, rest⟩ : Point).next)
    (behind : Leaves [] (own ++ [mark]) ⟨lexeme :: before, rest⟩ result finish) :
    Leaves [] own ⟨before, lexeme :: rest⟩ result finish := by
  rcases behind with ⟨read, marks, split, same, others⟩
  refine ⟨lexeme :: read, mark :: marks, congrArg (lexeme :: ·) split, ?_, ?_⟩
  · rw [same, List.append_assoc]
    rfl
  · exact fits_marked marked (headD_eq_next split ▸ fits) others

theorem append {others : List Bool} {first : Expr} {middle : Point}
    (front : Leaves opening others start first middle)
    (behind : Leaves [] (own ++ first.marks) middle result finish) :
    Leaves opening (own ++ others) start result finish := by
  rcases front with ⟨read, marks, split, same, fits⟩
  rcases behind with ⟨readBehind, marksBehind, splitBehind, sameBehind, fitsBehind⟩
  refine ⟨read ++ readBehind, marks ++ marksBehind, ?_, ?_, ?_⟩
  · rw [split, splitBehind, List.append_assoc]
  · rw [sameBehind, same]
    simp only [List.append_assoc]
  · rw [← List.append_assoc]
    exact fits_append (headD_eq_next splitBehind ▸ fits) fitsBehind

theorem followed {first : Expr} {middle : Point}
    (front : Leaves opening [] start first middle)
    (behind : Leaves [] (own ++ first.marks) middle result finish) :
    Leaves opening own start result finish :=
  List.append_nil own ▸ front.append behind

/-- One more lexeme without a mark of its own. -/
theorem closed (plain : lexeme.isMarked = false)
    (bears : Bears lexeme (⟨lexeme :: before, rest⟩ : Point).next)
    (front : Leaves opening own start result ⟨before, lexeme :: rest⟩) :
    Leaves opening own start result ⟨lexeme :: before, rest⟩ := by
  rcases front with ⟨read, marks, split, same, fits⟩
  refine ⟨read ++ [lexeme], marks, ?_, same, ?_⟩
  · rw [split, List.append_assoc]
    rfl
  · rw [← List.append_assoc, ← List.append_nil marks]
    exact fits_append fits (fits_unmarked plain bears rfl)

end Leaves

/-- In front of a deeper line nothing but a block can have been read last. -/
theorem Settled.next_ne {before rest : List Lexeme} {latest : Lexeme}
    (settled : Settled ⟨latest :: before, rest⟩) (other : latest ≠ .outdent) :
    (⟨latest :: before, rest⟩ : Point).next ≠ .indent :=
  fun deeper => other (settled deeper)

theorem bears_startsTerm {lexeme following : Lexeme} (opens : following.startsTerm = true)
    (bears : lexeme.bearsBlock = true) : Bears lexeme following := by
  refine ⟨fun comment => ?_, fun _ => bears⟩
  rw [Lexeme.isComment_of_startsTerm opens] at comment
  cases comment

theorem bears_anything {lexeme : Lexeme} (comment : lexeme.bearsComment = true)
    (block : lexeme.bearsBlock = true) (following : Lexeme) : Bears lexeme following :=
  ⟨fun _ => comment, fun _ => block⟩

theorem markFits_name (name : String) {following : Lexeme} (shallow : following ≠ .indent) :
    MarkFits (.symbol name) false following :=
  ⟨fun _ => rfl, fun deeper => absurd deeper shallow⟩

theorem Derives.leaves (derived : Derives goal start scopes result finish after)
    (settled : Settled finish) : Leaves goal.opening goal.marks start result finish := by
  induction derived with
  | block _ ih | plain _ _ ih | chain _ ih | further _ _ ih | simple _ _ _ ih
  | selected _ _ ih | applied _ _ ih => exact ih settled
  | @skip _ _ _ _ lexeme _ _ _ _ _ _ blank _ ih =>
    have plain : lexeme.isMarked = false := by
      cases lexeme <;> first | rfl | cases blank
    refine .unmarked plain (bears_anything ?_ ?_ _) (ih settled) <;>
      cases lexeme <;> first | rfl | cases blank
  | lead _ ih => exact .unmarked rfl (bears_anything rfl rfl _) (ih settled)
  | @divide _ finished part _ _ _ _ _ _ _ _ _ ih =>
    have behind := ih settled
    rw [Goal.marks, Expr.marksSections_append, Expr.marksAll, List.append_nil] at behind
    cases part
    rw [Expr.marksSections, Expr.marksSections, List.append_nil] at behind
    exact .unmarked rfl (bears_anything rfl rfl _) behind
  | @state _ finished part _ expression _ _ _ _ _ _ _ statement _ first second =>
    have behind := second settled
    rw [Goal.marks, grown, Expr.marksAll_append, Expr.marksAll_singleton,
      ← List.append_assoc] at behind
    exact (first (statement.settled id)).followed behind
  | closeBlock ended =>
    exact .unmarked rfl (bears_anything rfl rfl _) (.nothing (marksSections_of_closed ended))
  | closeDocument ended => exact .nothing (marksSections_of_closed ended)
  | nested _ ih => exact .unmarked rfl (bears_anything rfl rfl _) (ih settled)
  | @yielded _ lexeme _ _ _ _ _ _ opens _ ih =>
    rcases ih settled with ⟨read, marks, split, same, fits⟩
    have yields : MarkFits (.symbol "yield") true lexeme := by
      refine ⟨fun comment => ?_, fun _ => rfl⟩
      rw [Lexeme.isComment_of_startsTerm opens] at comment
      cases comment
    exact .marked rfl yields ⟨read, marks, split, congrArg (true :: ·) same, fits⟩
  | assigned chain ih =>
    rcases ih settled with ⟨read, marks, split, same, fits⟩
    refine .marked rfl (markFits_name _ (by simp)) (.marked rfl (chain.chain_markFits rfl) ?_)
    exact ⟨read, marks, split, congrArg (false :: _ :: ·) same, fits⟩
  | finish _ whole | behindBlock _ whole => exact .nothing (marksAll_of_settle whole)
  | @operator _ stack lexeme left right _ _ _ _ _ _ _ _ joins term proceed first second =>
    have plain : lexeme.isMarked = false := by
      cases lexeme <;> first | rfl | cases joins
    have bears : lexeme.bearsBlock = true := by
      cases lexeme <;> first | rfl | cases joins
    have behind := second settled
    rw [Goal.marks, List.reverse_cons, Expr.marksAll_append, Expr.marksAll_singleton,
      marks_combine, ← List.append_assoc, ← Expr.marksAll_singleton left,
      ← Expr.marksAll_append, ← List.reverse_cons] at behind
    exact .unmarked plain (bears_startsTerm term.startsTerm bears)
      ((first proceed.proceed_settled).followed behind)
  | @arrow _ stack names function _ _ _ _ _ _ _ _ named _ proceed first second =>
    have behind := second settled
    rw [Goal.marks, List.reverse_singleton, Expr.marksAll_singleton] at behind
    have whole : Leaves [.arrow] ([] ++ names.map fun _ => false) _ _ _ :=
      (first proceed.proceed_settled).append behind
    rcases whole with ⟨read, marks, split, same, fits⟩
    refine ⟨.arrow :: read, marks, congrArg (.arrow :: ·) split, ?_, fits⟩
    rw [same, Goal.marks, marksAll_of_parameters named, List.nil_append]
  | @begin _ expression _ _ _ _ _ _ _ opens _ proceed first second =>
    have behind := second settled
    rw [Goal.marks, List.reverse_singleton, Expr.marksAll_singleton] at behind
    exact (first proceed.proceed_settled).followed behind
  | @literal _ lexeme _ _ _ _ reads =>
    have plain : lexeme.isMarked = false := by
      cases lexeme <;> first | rfl | cases reads
    have shallow : lexeme ≠ .outdent := by
      intro equal
      cases equal
      cases reads
    refine .unmarked plain ⟨fun _ => ?_, fun deeper => absurd deeper (settled.next_ne shallow)⟩
      (.nothing ?_) <;> cases lexeme <;> cases reads <;> rfl
  | lifted term ih => exact .unmarked rfl (bears_startsTerm term.startsTerm rfl) (ih settled)
  | grouped chain ih =>
    have closing : Bears .closeParen _ :=
      ⟨fun _ => rfl, fun deeper => absurd deeper (settled.next_ne (by simp))⟩
    have inside := (ih (chain.settled id)).closed rfl closing
    refine .unmarked rfl ⟨fun comment => ?_, fun _ => rfl⟩ inside
    rw [← (chain.chain_comment comment).1] at comment
    cases comment
  | inner _ ih => exact .unmarked rfl (bears_anything rfl rfl _) (ih settled)
  | named application ih =>
    have shallow := (application.application_settled settled).next_ne (by simp)
    exact .marked rfl (markFits_name _ shallow) (ih settled)
  | @more _ name taken expression _ _ _ _ _ _ _ _ _ operands first second =>
    have behind := second settled
    rw [Goal.marks, Expr.marksAll_append, Expr.marksAll_singleton, ← List.cons_append] at behind
    exact (first (operands.operands_settled settled)).followed behind
  | enough => exact .nothing rfl
  | bareName =>
    exact .marked rfl (markFits_name _ (settled.next_ne (by simp))) (.nothing rfl)
  | selectedOperand selects _ ih =>
    exact .marked rfl (markFits_name _ (by rw [selects]; simp)) (ih settled)
  | liftedOperand operand ih =>
    exact .unmarked rfl (bears_startsTerm operand.operand_startsTerm rfl) (ih settled)
  | field path ih =>
    have shallow := (path.path_settled settled).next_ne (by simp)
    refine .unmarked rfl ⟨by rintro ⟨⟩, by rintro ⟨⟩⟩ ?_
    exact .marked rfl (markFits_name _ shallow) (ih settled)
  | reached => exact .nothing rfl
  | @body _ names body _ _ _ _ chain ih =>
    rcases ih settled with ⟨read, marks, split, same, fits⟩
    refine ⟨read, body.isUnit :: marks, split, ?_, ?_⟩
    · rw [marks_curried, Expr.marks, same]
      rfl
    · exact fits_marked rfl (Leaves.headD_eq_next split ▸ chain.chain_markFits rfl) fits

end Grammar
end Manifest
