import Manifest.Proofs.Grammar.Closure
import Manifest.Proofs.Grammar.Scopes

/-!
# The numbers of scopes

Sections and function bodies have scopes of their own, and every scope is opened
where its section or its body begins.  So in the order of the text their numbers
grow, and no two of them are the same.  The definition that a name carries is a
copy of a function that stands elsewhere, and is left out here.
-/

namespace Manifest

mutual
/-- The scopes of an expression, in the order of the text. -/
def Expr.scopeIds : Expr → List Nat
  | .unit | .scalar _ => []
  | .vector items => scopeIdsOfAll items
  | .assignment _ operand | .lift operand | .yield operand | .access operand _ =>
      operand.scopeIds
  | .application _ operands _ => scopeIdsOfAll operands
  | .function lambda => lambda.scopeIds
  | .merge left right _ | .pipeline left right | .patternMatch left right =>
      left.scopeIds ++ right.scopeIds
  | .block sections => scopeIdsOfSections sections
  | .scope id operand => id :: operand.scopeIds
termination_by structural expression => expression

def scopeIdsOfAll : List Expr → List Nat
  | [] => []
  | expression :: rest => expression.scopeIds ++ scopeIdsOfAll rest
termination_by structural expressions => expressions

def Lambda.scopeIds : Lambda Expr → List Nat
  | ⟨_, body⟩ => body.scopeIds
termination_by structural lambda => lambda

def scopeIdsOfSections : List (Section Expr) → List Nat
  | [] => []
  | part :: rest => part.scopeIds ++ scopeIdsOfSections rest
termination_by structural sections => sections

def Section.scopeIds : Section Expr → List Nat
  | ⟨id, expressions⟩ => id :: scopeIdsOfAll expressions
termination_by structural part => part
end

theorem scopeIdsOfAll_append (first second : List Expr) :
    scopeIdsOfAll (first ++ second) = scopeIdsOfAll first ++ scopeIdsOfAll second := by
  induction first with
  | nil => rfl
  | cons expression first ih =>
    rw [List.cons_append, scopeIdsOfAll, ih, scopeIdsOfAll, List.append_assoc]

theorem scopeIdsOfSections_append (first second : List (Section Expr)) :
    scopeIdsOfSections (first ++ second) =
      scopeIdsOfSections first ++ scopeIdsOfSections second := by
  induction first with
  | nil => rfl
  | cons part first ih =>
    rw [List.cons_append, scopeIdsOfSections, ih, scopeIdsOfSections, List.append_assoc]

theorem scopeIdsOfAll_singleton (expression : Expr) :
    scopeIdsOfAll [expression] = expression.scopeIds :=
  List.append_nil _

/-! ## Ascending numbers -/

/-- Growing numbers between two bounds, the second one excluded. -/
structure Ascending (low high : Nat) (ids : List Nat) : Prop where
  grows : ids.Pairwise (· < ·)
  within : ∀ id ∈ ids, low ≤ id ∧ id < high

namespace Ascending

variable {low middle high : Nat} {first second ids : List Nat}

theorem nil (low high : Nat) : Ascending low high [] :=
  ⟨.nil, fun _ none => nomatch none⟩

theorem weaken {lower higher : Nat} (ascending : Ascending low high ids) (below : lower ≤ low)
    (above : high ≤ higher) : Ascending lower higher ids :=
  ⟨ascending.grows, fun id inside => by
    have bounds := ascending.within id inside
    omega⟩

theorem append (front : Ascending low middle first) (behind : Ascending middle high second)
    (lower : low ≤ middle) (upper : middle ≤ high) : Ascending low high (first ++ second) := by
  refine ⟨List.pairwise_append.mpr ⟨front.grows, behind.grows, fun id inside other after => ?_⟩, ?_⟩
  · exact Nat.lt_of_lt_of_le (front.within id inside).2 (behind.within other after).1
  · refine List.forall_mem_append.mpr ⟨fun id inside => ?_, fun id inside => ?_⟩
    · exact ⟨(front.within id inside).1, Nat.lt_of_lt_of_le (front.within id inside).2 upper⟩
    · exact ⟨Nat.le_trans lower (behind.within id inside).1, (behind.within id inside).2⟩

theorem singleton (id : Nat) : Ascending id (id + 1) [id] :=
  ⟨List.pairwise_singleton _ _, List.forall_mem_singleton.mpr ⟨Nat.le_refl _, Nat.lt_succ_self _⟩⟩

theorem nodup (ascending : Ascending low high ids) : ids.Nodup :=
  ascending.grows.imp Nat.ne_of_lt

end Ascending

namespace Grammar

variable {goal : Goal} {start finish : Point} {scopes after : Scopes} {result : Expr}

/-- The scopes of what a goal goes on from, in the order of the text.  The latest
expression of a chain lies on top of its stack. -/
def Goal.scopeIds : Goal → List Nat
  | .sections _ finished part _ => scopeIdsOfSections (finished ++ [part])
  | .links _ stack | .proceed _ stack => scopeIdsOfAll stack.reverse
  | .operands _ taken _ => scopeIdsOfAll taken
  | .path target => target.scopeIds
  | _ => []

theorem scopeIds_settle {stack : List Expr} (settled : settle stack = some result) :
    result.scopeIds = scopeIdsOfAll stack.reverse := by
  cases stack with
  | nil =>
    cases settled
    rfl
  | cons expression stack =>
    cases stack with
    | nil =>
      cases settled
      exact (scopeIdsOfAll_singleton _).symm
    | cons second stack => cases settled

theorem scopeIds_combine (lexeme : Lexeme) (left right : Expr) :
    (Parser.combine lexeme left right).scopeIds = left.scopeIds ++ right.scopeIds := by
  cases lexeme <;> rfl

theorem scopeIds_curried (names : List String) (body : Expr) :
    (curried names body).scopeIds = body.scopeIds := by
  induction names with
  | nil => rfl
  | cons name names ih => exact ih

theorem scopeIds_literal {lexeme : Lexeme} (reads : lexeme.literal? = some result) :
    result.scopeIds = [] := by
  cases lexeme <;> cases reads <;> rfl

/-- A section grows by the scopes of its new expression. -/
theorem scopeIds_grown (finished : List (Section Expr)) (part : Section Expr) (expression : Expr) :
    scopeIdsOfSections (finished ++ [grown part expression]) =
      scopeIdsOfSections (finished ++ [part]) ++ expression.scopeIds := by
  rcases part with ⟨id, expressions⟩
  simp only [grown, scopeIdsOfSections_append, scopeIdsOfSections, Section.scopeIds,
    scopeIdsOfAll_append, scopeIdsOfAll_singleton, List.append_nil, List.append_assoc,
    List.cons_append]

theorem Derives.size_le (derived : Derives goal start scopes result finish after) :
    scopes.size ≤ after.size :=
  derived.retains_scopes.size_le

/-- The scopes of what is read follow those of what the goal goes on from, and they
are the ones opened on the way. -/
theorem Derives.numbers (derived : Derives goal start scopes result finish after) {low : Nat}
    (below : low ≤ scopes.size) (given : Ascending low scopes.size goal.scopeIds) :
    Ascending low after.size result.scopeIds := by
  induction derived generalizing low with
  | @block parent _ _ _ _ scopes after _ ih =>
    have size : (scopes.push (some parent)).2.size = scopes.size + 1 := Scopes.size_push _
    refine ih (by omega) ?_
    rw [size]
    exact (Ascending.singleton scopes.size).weaken below (Nat.le_refl _)
  | skip _ _ ih | lead _ ih => exact ih below given
  | @divide _ finished part _ _ _ _ _ scopes _ _ _ ih =>
    have size : (scopes.push (some (front finished part))).2.size = scopes.size + 1 :=
      Scopes.size_push _
    refine ih (by omega) ?_
    rw [size, Goal.scopeIds, scopeIdsOfSections_append]
    exact given.append (.singleton scopes.size) below (Nat.le_succ _)
  | @state _ finished part _ expression _ _ _ _ scopes _ _ first _ ihFirst ihSecond =>
    have grew := first.size_le
    refine ihSecond (Nat.le_trans below grew) ?_
    rw [Goal.scopeIds, scopeIds_grown]
    exact given.append (ihFirst (Nat.le_refl _) (.nil _ _)) below grew
  | closeBlock ended | closeDocument ended =>
    rw [closed] at ended
    split at ended
    · cases ended
      exact given
    · split at ended
      · cases ended
        exact .nil _ _
      · cases ended
  | nested _ ih | yielded _ _ ih | assigned _ ih | plain _ _ ih | inner _ ih | grouped _ ih
  | named _ ih | lifted _ ih | liftedOperand _ ih | simple _ _ _ ih =>
    simpa only [Expr.scopeIds, Scopes.size_bind] using ih below (.nil _ _)
  | chain _ ih | applied _ _ ih | selected _ _ ih | selectedOperand _ _ ih =>
    exact ih below (.nil _ _)
  | finish _ settled | behindBlock _ settled =>
    rw [scopeIds_settle settled]
    exact given
  | @operator _ stack lexeme left right _ _ _ _ _ _ _ _ _ first _ ihFirst ihSecond =>
    have grew := first.size_le
    refine ihSecond (Nat.le_trans below grew) ?_
    have split : Goal.scopeIds (.links 0 (left :: stack)) =
        scopeIdsOfAll stack.reverse ++ left.scopeIds := by
      rw [Goal.scopeIds, List.reverse_cons, scopeIdsOfAll_append, scopeIdsOfAll_singleton]
    have joined := given.append (ihFirst (Nat.le_refl _) (.nil _ _)) below grew
    rw [Goal.scopeIds, List.reverse_cons, scopeIdsOfAll_append, scopeIdsOfAll_singleton,
      scopeIds_combine, ← List.append_assoc]
    exact split ▸ joined
  | arrow _ first _ ihFirst ihSecond | begin _ first _ ihFirst ihSecond =>
    have grew := first.size_le
    refine ihSecond (Nat.le_trans below grew) ?_
    rw [Goal.scopeIds, List.reverse_singleton, scopeIdsOfAll_singleton]
    exact (ihFirst (Nat.le_refl _) (.nil _ _)).weaken below (Nat.le_refl _)
  | further _ _ ih | field _ ih => exact ih below given
  | literal reads =>
    rw [scopeIds_literal reads]
    exact .nil _ _
  | more _ first _ ihFirst ihSecond =>
    have grew := first.size_le
    refine ihSecond (Nat.le_trans below grew) ?_
    rw [Goal.scopeIds, scopeIdsOfAll_append, scopeIdsOfAll_singleton]
    exact given.append (ihFirst (Nat.le_refl _) (.nil _ _)) below grew
  | enough | reached => exact given
  | bareName => exact .nil _ _
  | @body scope names body _ _ scopes after inner ih =>
    have opened := (Retains.withParameters (scopes.push (some scope)).2 scopes.size names).size_le
    have size : (scopes.push (some scope)).2.size = scopes.size + 1 := Scopes.size_push _
    have grew := inner.size_le
    have own := Ascending.singleton scopes.size
    have within : Ascending (scopes.size + 1) after.size body.scopeIds :=
      (ih (Nat.le_refl _) (.nil _ _)).weaken (by omega) (Nat.le_refl _)
    rw [scopeIds_curried]
    exact (own.append within (Nat.le_succ _) (by omega)).weaken below (Nat.le_refl _)

end Grammar
end Manifest
