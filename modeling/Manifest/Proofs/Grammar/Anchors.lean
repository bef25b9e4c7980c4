import Manifest.Proofs.Evaluation.Names
import Manifest.Proofs.Grammar.Scopes

/-!
# Where definitions come from

A name carries the function that it stands for in the surrounding text.  So
where it carries one, the text around it binds the name: an assignment of a
section around it, or a parameter of a function around it.
-/

namespace Manifest

mutual
/-- Every name that carries a definition is known, or is bound on the way to it. -/
def Expr.Anchored (known : List String) : Expr → Prop
  | .unit | .scalar _ => True
  | .vector items => AnchoredAll known items
  | .application name operands definition =>
      (definition.isSome = true → name ∈ known) ∧ AnchoredAll known operands
  | .function lambda => lambda.Anchored known
  | .lift operand | .yield operand | .assignment _ operand | .scope _ operand
  | .access operand _ => operand.Anchored known
  | .merge left right _ | .pipeline left right | .patternMatch left right =>
      left.Anchored known ∧ right.Anchored known
  | .block sections => AnchoredBlock known sections
termination_by structural expression => expression

def AnchoredAll (known : List String) : List Expr → Prop
  | [] => True
  | expression :: rest => expression.Anchored known ∧ AnchoredAll known rest
termination_by structural expressions => expressions

def Lambda.Anchored (known : List String) : Lambda Expr → Prop
  | ⟨parameter, body⟩ => body.Anchored (parameter :: known)
termination_by structural lambda => lambda

/-- Later sections see the names of the first one. -/
def AnchoredBlock (known : List String) : List (Section Expr) → Prop
  | [] => True
  | front :: rest =>
      front.Anchored known ∧ AnchoredSections (Section.assigned front.expressions ++ known) rest
termination_by structural sections => sections

def AnchoredSections (known : List String) : List (Section Expr) → Prop
  | [] => True
  | part :: rest => part.Anchored known ∧ AnchoredSections known rest
termination_by structural sections => sections

def Section.Anchored (known : List String) : Section Expr → Prop
  | ⟨_, expressions⟩ => AnchoredAll (Section.assigned expressions ++ known) expressions
termination_by structural part => part
end

variable {known more : List String}

/-! ## Knowing more -/

theorem append_subset_append (names : List String) (subset : known ⊆ more) :
    names ++ known ⊆ names ++ more :=
  List.append_subset.mpr
    ⟨List.subset_append_left _ _, List.subset_append_of_subset_right _ subset⟩

mutual
theorem Expr.Anchored.mono : (expression : Expr) → ∀ {known more : List String}, known ⊆ more →
    expression.Anchored known → expression.Anchored more
  | .unit, _, _, _, _ | .scalar _, _, _, _, _ => trivial
  | .vector items, _, _, subset, anchored => AnchoredAll.mono items subset anchored
  | .application _ operands _, _, _, subset, anchored =>
      ⟨fun some => subset (anchored.1 some), AnchoredAll.mono operands subset anchored.2⟩
  | .function lambda, _, _, subset, anchored => Lambda.Anchored.mono lambda subset anchored
  | .lift operand, _, _, subset, anchored | .yield operand, _, _, subset, anchored
  | .assignment _ operand, _, _, subset, anchored | .scope _ operand, _, _, subset, anchored
  | .access operand _, _, _, subset, anchored => Expr.Anchored.mono operand subset anchored
  | .merge left right _, _, _, subset, anchored | .pipeline left right, _, _, subset, anchored
  | .patternMatch left right, _, _, subset, anchored =>
      ⟨Expr.Anchored.mono left subset anchored.1, Expr.Anchored.mono right subset anchored.2⟩
  | .block sections, _, _, subset, anchored => AnchoredBlock.mono sections subset anchored
termination_by structural expression => expression

theorem AnchoredAll.mono : (expressions : List Expr) → ∀ {known more : List String},
    known ⊆ more → AnchoredAll known expressions → AnchoredAll more expressions
  | [], _, _, _, _ => trivial
  | expression :: rest, _, _, subset, anchored =>
      ⟨Expr.Anchored.mono expression subset anchored.1, AnchoredAll.mono rest subset anchored.2⟩
termination_by structural expressions => expressions

theorem Lambda.Anchored.mono : (lambda : Lambda Expr) → ∀ {known more : List String},
    known ⊆ more → lambda.Anchored known → lambda.Anchored more
  | ⟨parameter, body⟩, _, _, subset, anchored =>
      Expr.Anchored.mono body (List.cons_subset_cons parameter subset) anchored
termination_by structural lambda => lambda

theorem AnchoredBlock.mono : (sections : List (Section Expr)) → ∀ {known more : List String},
    known ⊆ more → AnchoredBlock known sections → AnchoredBlock more sections
  | [], _, _, _, _ => trivial
  | front :: rest, _, _, subset, anchored =>
      ⟨Section.Anchored.mono front subset anchored.1,
        AnchoredSections.mono rest (append_subset_append _ subset) anchored.2⟩
termination_by structural sections => sections

theorem AnchoredSections.mono : (sections : List (Section Expr)) → ∀ {known more : List String},
    known ⊆ more → AnchoredSections known sections → AnchoredSections more sections
  | [], _, _, _, _ => trivial
  | part :: rest, _, _, subset, anchored =>
      ⟨Section.Anchored.mono part subset anchored.1, AnchoredSections.mono rest subset anchored.2⟩
termination_by structural sections => sections

theorem Section.Anchored.mono : (part : Section Expr) → ∀ {known more : List String},
    known ⊆ more → part.Anchored known → part.Anchored more
  | ⟨_, expressions⟩, _, _, subset, anchored =>
      AnchoredAll.mono expressions (append_subset_append _ subset) anchored
termination_by structural part => part
end

theorem anchoredAll_iff {expressions : List Expr} :
    AnchoredAll known expressions ↔ ∀ expression ∈ expressions, expression.Anchored known := by
  induction expressions with
  | nil => exact ⟨fun _ _ none => absurd none List.not_mem_nil, fun _ => trivial⟩
  | cons expression rest ih =>
    rw [List.forall_mem_cons, ← ih]
    exact Iff.rfl

theorem anchoredSections_append {first : List (Section Expr)} {part : Section Expr}
    (anchored : AnchoredSections known first) (last : part.Anchored known) :
    AnchoredSections known (first ++ [part]) := by
  induction first with
  | nil => exact ⟨last, trivial⟩
  | cons other first ih => exact ⟨anchored.1, ih anchored.2⟩

theorem Section.assigned_append (first second : List Expr) :
    Section.assigned (first ++ second) = Section.assigned first ++ Section.assigned second := by
  induction first with
  | nil => rfl
  | cons expression first ih =>
    cases expression with
    | assignment key operand => exact congrArg (key :: ·) ih
    | _ => exact ih

namespace Grammar

variable {goal : Goal} {start finish : Point} {scopes after : Scopes} {result : Expr}

/-! ## Scopes that are known -/

/-- Every name that a scope shows is known. -/
def Shows (scopes : Scopes) (scope : Nat) (known : List String) : Prop :=
  ∀ name binding, scopes.lookup scope name = some binding → name ∈ known

namespace Shows

variable {scope : Nat}

theorem mono (shows : Shows scopes scope known) (subset : known ⊆ more) :
    Shows scopes scope more :=
  fun name binding found => subset (shows name binding found)

theorem definition (shows : Shows scopes scope known) {name : String}
    (some : (definition scopes scope name).isSome = true) : name ∈ known := by
  rw [Grammar.definition] at some
  split at some
  · rename_i found
    exact shows name _ found
  · cases some

theorem of_retains (shows : Shows scopes scope known) {written : Option Nat}
    (retains : Retains written scopes after) (inside : scope < scopes.size)
    (other : ∀ id ≤ scope, written ≠ some id) : Shows after scope known := by
  intro name binding found
  rw [Scopes.lookup_congr fun id le => retains.get?_eq id (by omega) (other id le)] at found
  exact shows name binding found

theorem kept (shows : Shows scopes scope known) (retains : Retains none scopes after)
    (inside : scope < scopes.size) : Shows after scope known :=
  shows.of_retains retains inside (by rintro _ _ ⟨⟩)

theorem push (shows : Shows scopes scope known) (inside : scope < scopes.size) :
    Shows (scopes.push (some scope)).2 scopes.size known := by
  intro name binding found
  rw [Scopes.lookup_push inside] at found
  exact shows name binding found

theorem bind (shows : Shows scopes scope known) (inside : scope < scopes.size) (name : String)
    (binding : Binding) : Shows (scopes.bind scope name binding) scope (name :: known) := by
  intro wanted held found
  rw [Scopes.lookup_bind inside] at found
  by_cases same : name = wanted
  · exact same ▸ List.mem_cons_self
  · rw [if_neg same] at found
    exact List.mem_cons_of_mem _ (shows wanted held found)

theorem withParameters (shows : Shows scopes scope known) (inside : scope < scopes.size)
    (names : List String) :
    Shows (withParameters scopes scope names) scope (names.reverse ++ known) := by
  induction names generalizing scopes known with
  | nil => exact shows
  | cons name names ih =>
    have bound := ih (shows.bind inside name .parameter) (by rw [Scopes.size_bind]; exact inside)
    rw [List.reverse_cons, List.append_assoc]
    exact bound

end Shows

/-! ## Sections -/

/-- What is known around the open section of a block. -/
def around (known : List String) : List (Section Expr) → List String
  | [] => known
  | front :: _ => Section.assigned front.expressions ++ known

/-- What has been read of a block. -/
structure Gathered (known : List String) (finished : List (Section Expr)) (part : Section Expr)
    (scopes : Scopes) : Prop where
  inside : part.scope < scopes.size
  shows : Shows scopes part.scope (Section.assigned part.expressions ++ around known finished)
  anchored : AnchoredAll (Section.assigned part.expressions ++ around known finished)
    part.expressions
  behind : AnchoredBlock known finished
  first : ∀ first later, finished = first :: later →
    Shows scopes first.scope (Section.assigned first.expressions ++ known) ∧
      first.scope < part.scope

namespace Gathered

variable {finished : List (Section Expr)} {part : Section Expr}

theorem anchoredBlock (gathered : Gathered known finished part scopes) :
    AnchoredBlock known (finished ++ [part]) := by
  have last : part.Anchored (around known finished) := by
    cases part
    exact gathered.anchored
  cases finished with
  | nil => exact ⟨last, trivial⟩
  | cons first later =>
    exact ⟨gathered.behind.1, anchoredSections_append gathered.behind.2 last⟩

theorem closed {parts : List (Section Expr)} (gathered : Gathered known finished part scopes)
    (ended : closed finished part = some parts) : AnchoredBlock known parts := by
  rw [Grammar.closed] at ended
  split at ended
  · cases ended
    exact gathered.anchoredBlock
  · split at ended
    · cases ended
      exact trivial
    · cases ended

/-- A further section begins. -/
theorem divide (gathered : Gathered known finished part scopes) :
    Gathered known (finished ++ [part]) ⟨scopes.size, []⟩
      (scopes.push (some (Grammar.front finished part))).2 := by
  have size : (scopes.push (some (Grammar.front finished part))).2.size = scopes.size + 1 :=
    Scopes.size_push _
  have kept : Retains none scopes (scopes.push (some (Grammar.front finished part))).2 :=
    Retains.push _ _ (.refl _ _)
  have inside := gathered.inside
  refine ⟨by rw [size]; exact Nat.lt_succ_self _, ?_, trivial, gathered.anchoredBlock, ?_⟩
  · cases finished with
    | nil => exact gathered.shows.push inside
    | cons first later =>
      rcases gathered.first first later rfl with ⟨shows, older⟩
      exact shows.push (by omega)
  · intro first later same
    cases finished with
    | nil =>
      cases same
      exact ⟨gathered.shows.kept kept inside, inside⟩
    | cons other further =>
      cases same
      rcases gathered.first _ _ rfl with ⟨shows, older⟩
      exact ⟨shows.kept kept (by omega), Nat.lt_trans older inside⟩

/-- A further expression of the section. -/
theorem grow {expression : Expr} (gathered : Gathered known finished part scopes)
    (retains : Retains (some part.scope) scopes after)
    (anchored : expression.Anchored
      (Section.assigned part.expressions ++ around known finished))
    (shows : Shows after part.scope (Section.assigned [expression] ++
      (Section.assigned part.expressions ++ around known finished))) :
    Gathered known finished (grown part expression) after := by
  have inside := gathered.inside
  have names : Section.assigned (part.expressions ++ [expression]) =
      Section.assigned part.expressions ++ Section.assigned [expression] :=
    Section.assigned_append _ _
  have subset : Section.assigned part.expressions ++ around known finished ⊆
      Section.assigned (part.expressions ++ [expression]) ++ around known finished := by
    rw [names]
    intro name found
    simp only [List.mem_append] at found ⊢
    exact found.imp_left .inl
  refine ⟨Nat.lt_of_lt_of_le inside retains.size_le, ?_, ?_, gathered.behind, ?_⟩
  · refine shows.mono fun name found => ?_
    simp only [grown, names, List.mem_append] at found ⊢
    rcases found with new | old | outer
    · exact .inl (.inr new)
    · exact .inl (.inl old)
    · exact .inr outer
  · refine anchoredAll_iff.mpr fun other member => ?_
    rcases List.mem_append.mp member with old | new
    · exact Expr.Anchored.mono _ subset (anchoredAll_iff.mp gathered.anchored other old)
    · rw [List.mem_singleton.mp new]
      exact Expr.Anchored.mono _ subset anchored
  · intro first later same
    rcases gathered.first first later same with ⟨front, older⟩
    refine ⟨front.of_retains retains (by omega) fun id le same => ?_, older⟩
    cases same
    omega

end Gathered

/-! ## Derivations -/

/-- What is read at a goal is anchored wherever all names of its scope are known. -/
def Goal.Anchors : Goal → Scopes → Expr → Scopes → Prop
  | .block scope _, scopes, result, _ | .chain scope, scopes, result, _
  | .term scope, scopes, result, _ | .application _ scope, scopes, result, _
  | .operand scope, scopes, result, _ | .function scope _, scopes, result, _ =>
      ∀ known, scope < scopes.size → Shows scopes scope known → result.Anchored known
  | .sections _ finished part _, scopes, result, _ =>
      ∀ known, Gathered known finished part scopes → result.Anchored known
  | .statement scope, scopes, result, after =>
      ∀ known, scope < scopes.size → Shows scopes scope known →
        result.Anchored known ∧ Shows after scope (Section.assigned [result] ++ known)
  | .links scope given, scopes, result, _ | .proceed scope given, scopes, result, _
  | .operands _ given scope, scopes, result, _ =>
      ∀ known, scope < scopes.size → Shows scopes scope known →
        (∀ expression ∈ given, expression.Anchored known) → result.Anchored known
  | .path target, _, result, _ => ∀ known, target.Anchored known → result.Anchored known

/-- A statement that is an expression by itself. -/
theorem Goal.Anchors.statement {scope : Nat} (retains : Retains none scopes after)
    (anchored : ∀ known, scope < scopes.size → Shows scopes scope known →
      result.Anchored known) :
    (Goal.statement scope).Anchors scopes result after := by
  intro known inside shows
  refine ⟨anchored known inside shows, (shows.kept retains inside).mono ?_⟩
  exact List.subset_append_right _ _

theorem anchored_settle {stack : List Expr}
    (given : ∀ expression ∈ stack, expression.Anchored known)
    (settled : settle stack = some result) : result.Anchored known := by
  cases stack with
  | nil =>
    cases settled
    exact trivial
  | cons expression stack =>
    cases stack with
    | nil =>
      cases settled
      exact given result (List.mem_singleton.mpr rfl)
    | cons second stack => cases settled

theorem anchored_combine {left right : Expr} (lexeme : Lexeme) (first : left.Anchored known)
    (second : right.Anchored known) : (Parser.combine lexeme left right).Anchored known := by
  cases lexeme <;> exact ⟨first, second⟩

theorem anchored_curried {names : List String} {body : Expr}
    (anchored : body.Anchored (names.reverse ++ known)) : (curried names body).Anchored known := by
  induction names generalizing known with
  | nil => exact anchored
  | cons name names ih =>
    rw [List.reverse_cons, List.append_assoc] at anchored
    exact ih anchored

theorem anchored_literal {lexeme : Lexeme} (reads : lexeme.literal? = some result) :
    result.Anchored known := by
  cases lexeme <;> cases reads <;> trivial

theorem anchored_application {scope : Nat} (shows : Shows scopes scope known) (name : String)
    {operands : List Expr} (given : ∀ operand ∈ operands, operand.Anchored known) :
    (Expr.application name operands (definition scopes scope name)).Anchored known :=
  ⟨shows.definition, anchoredAll_iff.mpr given⟩

theorem anchored_reference (name : String) : (Expr.reference name).Anchored known :=
  ⟨(by rintro ⟨⟩), trivial⟩

theorem Derives.anchors (derived : Derives goal start scopes result finish after) :
    goal.Anchors scopes result after := by
  induction derived with
  | @block parent _ _ _ _ scopes _ _ ih =>
    intro known inside shows
    have size : (scopes.push (some parent)).2.size = scopes.size + 1 := Scopes.size_push _
    refine ih known ⟨?_, shows.push inside, trivial, trivial, (by rintro _ _ ⟨⟩)⟩
    rw [size]
    exact Nat.lt_succ_self _
  | skip _ _ ih | lead _ ih => exact ih
  | divide _ _ ih => exact fun known gathered => ih known gathered.divide
  | state first _ ihFirst ihSecond =>
    intro known gathered
    rcases ihFirst _ gathered.inside gathered.shows with ⟨anchored, shows⟩
    exact ihSecond known (gathered.grow first.retains_scopes anchored shows)
  | closeBlock ended | closeDocument ended => exact fun known gathered => gathered.closed ended
  | nested inner ih | plain _ inner ih | yielded _ inner ih =>
    exact .statement inner.retains_scopes ih
  | assigned inner ih =>
    intro known inside shows
    refine ⟨ih known inside shows, ?_⟩
    have retains := inner.retains_scopes
    exact (shows.kept retains inside).bind (Nat.lt_of_lt_of_le inside retains.size_le) _ _
  | chain _ ih =>
    exact fun known inside shows => ih known inside shows (by rintro _ ⟨⟩)
  | finish _ settled | behindBlock _ settled =>
    exact fun known _ _ given => anchored_settle given settled
  | operator _ first _ ihFirst ihSecond =>
    intro known inside shows given
    have retains := first.retains_scopes
    rcases List.forall_mem_cons.mp given with ⟨left, others⟩
    refine ihSecond known (Nat.lt_of_lt_of_le inside retains.size_le) (shows.kept retains inside)
      (List.forall_mem_cons.mpr ⟨?_, others⟩)
    exact anchored_combine _ left (ihFirst known inside shows)
  | arrow _ first _ ihFirst ihSecond | begin _ first _ ihFirst ihSecond =>
    intro known inside shows _
    have retains := first.retains_scopes
    refine ihSecond known (Nat.lt_of_lt_of_le inside retains.size_le) (shows.kept retains inside)
      fun expression member => ?_
    rw [List.mem_singleton.mp member]
    exact ihFirst known inside shows
  | further _ _ ih | inner _ ih | grouped _ ih | named _ ih | simple _ _ _ ih => exact ih
  | literal reads => exact fun known _ _ => anchored_literal reads
  | lifted _ ih | liftedOperand _ ih => exact ih
  | selected _ _ ih | selectedOperand _ _ ih =>
    exact fun known _ _ => ih known (anchored_reference _)
  | applied _ _ ih =>
    exact fun known inside shows => ih known inside shows (by rintro _ ⟨⟩)
  | more _ first _ ihFirst ihSecond =>
    intro known inside shows given
    have retains := first.retains_scopes
    refine ihSecond known (Nat.lt_of_lt_of_le inside retains.size_le) (shows.kept retains inside)
      fun expression member => ?_
    rcases List.mem_append.mp member with old | new
    · exact given expression old
    · rw [List.mem_singleton.mp new]
      exact ihFirst known inside shows
  | enough => exact fun known _ shows given => anchored_application shows _ given
  | bareName =>
    exact fun known _ shows => anchored_application shows _ (by rintro _ ⟨⟩)
  | field _ ih => exact ih
  | reached => exact fun known given => given
  | @body scope names _ _ _ scopes _ _ ih =>
    intro known inside shows
    have size : (scopes.push (some scope)).2.size = scopes.size + 1 := Scopes.size_push _
    have within : scopes.size < (scopes.push (some scope)).2.size := by omega
    refine anchored_curried (ih _ ?_ ((shows.push inside).withParameters within names))
    exact Nat.lt_of_lt_of_le within (Retains.withParameters _ _ _).size_le

end Grammar

/-- Whatever a document carries is anchored. -/
theorem Document.anchored {tokens : List Token} {document : Document}
    (parsed : Document.ofTokens tokens = .ok document) : document.root.Anchored [] := by
  rcases (Grammar.ofTokens_eq_ok_iff.mp parsed).2 with ⟨block, finish, derived, root⟩
  rw [root]
  refine derived.anchors [] (by decide) fun name binding found => ?_
  have nothing : (Scopes.empty.push none).2.lookup 0 name = none := by
    rw [Scopes.lookup]
    rfl
  cases nothing.symm.trans found

end Manifest
