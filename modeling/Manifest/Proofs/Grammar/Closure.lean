import Manifest.Proofs.Grammar.Completeness
import Manifest.Proofs.Parts

/-!
# Properties of whatever is read

A property of expressions that every form of expression passes on from its
parts holds of whatever the grammar derives.  It has to hold of the
expressions in the scopes too, since a name carries the function that it
stands for.
-/

namespace Manifest
namespace Grammar

open Manifest.Parser

/-- A property that the forms of expressions in a document pass on, functions
left out.  Sections are never empty there. -/
structure Builds (P : Expr → Prop) : Prop where
  unit : P .unit
  literal : ∀ {lexeme : Lexeme} {result : Expr}, lexeme.literal? = some result → P result
  assignment : ∀ {key : String} {operand : Expr}, P operand → P (.assignment key operand)
  application : ∀ {name : String} {operands : List Expr} {definition : Option (Lambda Expr)},
    (∀ operand ∈ operands, P operand) →
    (∀ lambda, definition = some lambda → P (.function lambda)) →
    P (.application name operands definition)
  lift : ∀ {operand : Expr}, P operand → P (.lift operand)
  combine : ∀ {lexeme : Lexeme} {left right : Expr}, P left → P right →
    P (Parser.combine lexeme left right)
  yield : ∀ {operand : Expr}, P operand → P (.yield operand)
  block : ∀ {sections : List (Section Expr)},
    (∀ part ∈ sections, part.expressions ≠ [] ∧ ∀ expression ∈ part.expressions, P expression) →
    P (.block sections)
  scope : ∀ {id : Nat} {operand : Expr}, P operand → P (.scope id operand)
  access : ∀ {target : Expr} {field : String}, P target → P (.access target field)

/-- A property that functions pass on from their bodies. -/
def Curries (P : Expr → Prop) : Prop :=
  ∀ (parameter : String) (body : Expr), P body → P (.function ⟨parameter, body⟩)

/-- A property that all forms of expressions in a document pass on. -/
structure Closed (P : Expr → Prop) : Prop extends Builds P where
  function : Curries P

/-- A property of single expressions is passed on by way of all parts, if only
literals, names and blocks have to earn it. -/
theorem builds_every {P : Expr → Prop}
    (literal : ∀ {lexeme : Lexeme} {result : Expr}, lexeme.literal? = some result → P result)
    (block : ∀ {sections : List (Section Expr)},
      (∀ part ∈ sections, part.expressions ≠ []) → P (.block sections))
    (application : ∀ {name : String} {operands : List Expr} {definition : Option (Lambda Expr)},
      (∀ lambda, definition = some lambda → P (.function lambda)) →
      P (.application name operands definition))
    (other : ∀ expression : Expr, (∀ value, expression ≠ .scalar value) →
      (∀ sections, expression ≠ .block sections) →
      (∀ name operands definition, expression ≠ .application name operands definition) →
      (∀ lambda, expression ≠ .function lambda) → P expression) :
    Builds (Expr.Every P) where
  unit := Expr.every_iff.mpr ⟨other _ (by simp) (by simp) (by simp) (by simp),
    by simp [Expr.children]⟩
  literal reads := by
    refine Expr.every_iff.mpr ⟨literal reads, ?_⟩
    rename_i lexeme result
    cases lexeme <;> cases reads <;> simp [Expr.children]
  assignment good := Expr.every_iff.mpr
    ⟨other _ (by simp) (by simp) (by simp) (by simp), by simpa [Expr.children] using good⟩
  application goods function := by
    refine Expr.every_iff.mpr ⟨application fun lambda found => (function lambda found).own, ?_⟩
    intro child member
    rcases List.mem_append.mp member with operand | body
    · exact goods child operand
    · rcases Option.map_eq_some_iff.mp (Option.mem_toList.mp body) with ⟨lambda, found, rfl⟩
      exact (function lambda found).child (List.mem_singleton.mpr rfl)
  lift good := Expr.every_iff.mpr
    ⟨other _ (by simp) (by simp) (by simp) (by simp), by simpa [Expr.children] using good⟩
  combine first second := by
    rename_i lexeme left right
    cases lexeme <;>
      exact Expr.every_iff.mpr
        ⟨other _ (by simp [combine]) (by simp [combine]) (by simp [combine]) (by simp [combine]),
          by simpa [combine, Expr.children] using ⟨first, second⟩⟩
  yield good := Expr.every_iff.mpr
    ⟨other _ (by simp) (by simp) (by simp) (by simp), by simpa [Expr.children] using good⟩
  block goods := by
    refine Expr.every_iff.mpr ⟨block fun part member => (goods part member).1, ?_⟩
    intro child member
    rcases List.mem_flatMap.mp member with ⟨part, found, inside⟩
    exact (goods part found).2 child inside
  scope good := Expr.every_iff.mpr
    ⟨other _ (by simp) (by simp) (by simp) (by simp), by simpa [Expr.children] using good⟩
  access good := Expr.every_iff.mpr
    ⟨other _ (by simp) (by simp) (by simp) (by simp), by simpa [Expr.children] using good⟩

/-- Functions pass such a property on as well, if they do not have to earn it. -/
theorem closed_every {P : Expr → Prop}
    (literal : ∀ {lexeme : Lexeme} {result : Expr}, lexeme.literal? = some result → P result)
    (block : ∀ {sections : List (Section Expr)},
      (∀ part ∈ sections, part.expressions ≠ []) → P (.block sections))
    (other : ∀ expression : Expr, (∀ value, expression ≠ .scalar value) →
      (∀ sections, expression ≠ .block sections) → P expression) :
    Closed (Expr.Every P) where
  toBuilds := builds_every literal block (fun _ => other _ (by simp) (by simp))
    fun expression scalar block _ _ => other expression scalar block
  function _ _ good := Expr.every_iff.mpr
    ⟨other _ (by simp) (by simp), by simpa [Expr.children] using good⟩

/-- Every expression that a name stands for in some scope. -/
def Holds (P : Expr → Prop) (scopes : Scopes) : Prop :=
  ∀ record ∈ scopes.records, ∀ name operand,
    (name, Binding.expression operand) ∈ record.symbols → P operand

namespace Holds

variable {P : Expr → Prop} {scopes : Scopes}

theorem empty : Holds P .empty := by
  intro record member
  simp [Scopes.empty] at member

theorem push (holds : Holds P scopes) (parent : Option Nat) : Holds P (scopes.push parent).2 := by
  intro record member name operand entered
  rcases Array.mem_push.mp member with known | rfl
  · exact holds record known name operand entered
  · cases entered

theorem bind (holds : Holds P scopes) (id : Nat) (name : String) {binding : Binding}
    (good : ∀ operand, binding = .expression operand → P operand) :
    Holds P (scopes.bind id name binding) := by
  intro record member other operand entered
  rcases Array.mem_iff_getElem.mp member with ⟨index, inside, rfl⟩
  simp only [Scopes.bind, Array.size_modify] at inside
  simp only [Scopes.bind, Array.getElem_modify] at entered
  split at entered
  · rcases List.mem_append.mp entered with known | new
    · exact holds _ (Array.getElem_mem inside) other operand known
    · rw [List.mem_singleton] at new
      exact good operand (Prod.mk.inj new).2.symm
  · exact holds _ (Array.getElem_mem inside) other operand entered

theorem withParameters (holds : Holds P scopes) (scope : Nat) (names : List String) :
    Holds P (withParameters scopes scope names) := by
  induction names generalizing scopes with
  | nil => exact holds
  | cons name names ih =>
    refine ih (holds.bind scope name ?_)
    intro operand equal
    cases equal

/-- What is found in a scope was entered into some scope. -/
theorem lookup (holds : Holds P scopes) {scope : Nat} {name : String} {operand : Expr}
    (found : scopes.lookup scope name = some (.expression operand)) : P operand := by
  induction scope using Nat.strongRecOn with
  | ind scope outwards =>
    rw [Scopes.lookup] at found
    cases here : scopes.get? scope with
    | none =>
      rw [here] at found
      cases found
    | some record =>
      have member : record ∈ scopes.records := Array.mem_of_getElem? here
      rw [here] at found
      cases latest : record.latest? name with
      | some binding =>
        simp only [latest] at found
        cases found
        rcases Option.map_eq_some_iff.mp latest with ⟨entry, matched, same⟩
        have entered := List.mem_reverse.mp (List.mem_of_find?_eq_some matched)
        rcases entry with ⟨other, binding⟩
        cases same
        exact holds record member other operand entered
      | none =>
        simp only [latest] at found
        cases parent : record.parent with
        | none =>
          rw [parent] at found
          cases found
        | some outer =>
          simp only [parent] at found
          split at found
          · rename_i older
            exact outwards outer older found
          · cases found

theorem definition (holds : Holds P scopes) {scope : Nat} {name : String} {lambda : Lambda Expr}
    (found : definition scopes scope name = some lambda) : P (.function lambda) := by
  rw [Grammar.definition] at found
  split at found
  · rename_i lookup
    cases found
    exact holds.lookup lookup
  · cases found

end Holds

/-- The expressions that a goal goes on from. -/
def Goal.Given (P : Expr → Prop) : Goal → Prop
  | .sections _ finished part _ =>
      (∀ earlier ∈ finished, earlier.expressions ≠ [] ∧ ∀ expression ∈ earlier.expressions,
        P expression) ∧
      ∀ expression ∈ part.expressions, P expression
  | .links _ stack | .proceed _ stack => ∀ expression ∈ stack, P expression
  | .operands _ taken _ => ∀ expression ∈ taken, P expression
  | .path target => P target
  | _ => True

theorem Curries.curried {P : Expr → Prop} (function : Curries P) (names : List String)
    {body : Expr} (good : P body) : P (curried names body) := by
  induction names with
  | nil => exact good
  | cons name names ih => exact function name _ ih

theorem Builds.settle {P : Expr → Prop} (passes : Builds P) {stack : List Expr} {result : Expr}
    (given : ∀ expression ∈ stack, P expression) (settled : settle stack = some result) :
    P result := by
  cases stack with
  | nil =>
    cases settled
    exact passes.unit
  | cons expression stack =>
    cases stack with
    | nil =>
      cases settled
      exact given result (List.mem_singleton.mpr rfl)
    | cons second stack => cases settled

theorem mem_closed {finished parts : List (Section Expr)} {part : Section Expr}
    (ended : closed finished part = some parts) {closing : Section Expr}
    (member : closing ∈ parts) :
    closing ∈ finished ∨ (closing = part ∧ part.expressions ≠ []) := by
  rw [closed] at ended
  split at ended
  · rename_i filled
    cases ended
    rcases List.mem_append.mp member with known | new
    · exact .inl known
    · refine .inr ⟨List.mem_singleton.mp new, ?_⟩
      simpa using filled
  · split at ended
    · cases ended
      cases member
    · cases ended

/-- A function is read, or an arrow is left to be read. -/
def Goal.Arrowed (start : Point) : Goal → Prop
  | .function _ _ => True
  | _ => .arrow ∈ start.rest

theorem Reaches.mem {start finish : Point} (reaches : Reaches start finish) {lexeme : Lexeme}
    (left : lexeme ∈ finish.rest) : lexeme ∈ start.rest := by
  rcases reaches with ⟨read, rest, _⟩
  rw [rest]
  exact List.mem_append_right read left

/-- What the grammar derives has every property that is passed on, by functions
only where there may be one. -/
theorem Derives.builds {P : Expr → Prop} (passes : Builds P) {goal : Goal} {start finish : Point}
    {scopes after : Scopes} {result : Expr}
    (derived : Derives goal start scopes result finish after)
    (curries : goal.Arrowed start → Curries P) (given : goal.Given P) (holds : Holds P scopes) :
    P result ∧ Holds P after := by
  induction derived with
  | block _ ih => exact ih curries ⟨by simp, by simp⟩ (holds.push _)
  | skip _ _ ih | lead _ ih =>
    exact ih (fun left => curries (List.mem_cons_of_mem _ left)) given holds
  | @divide _ finished part _ _ _ _ _ _ _ filled _ ih =>
    refine ih (fun left => curries (List.mem_cons_of_mem _ left)) ⟨?_, by simp⟩ (holds.push _)
    intro earlier member
    rcases List.mem_append.mp member with known | new
    · exact given.1 earlier known
    · rw [List.mem_singleton.mp new]
      exact ⟨filled, given.2⟩
  | state front _ first second =>
    rcases first curries trivial holds with ⟨good, held⟩
    refine second (fun left => curries (front.reaches.mem left)) ⟨given.1, ?_⟩ held
    intro expression member
    rcases List.mem_append.mp member with known | new
    · exact given.2 expression known
    · exact List.mem_singleton.mp new ▸ good
  | closeBlock ended | closeDocument ended =>
    refine ⟨passes.block ?_, holds⟩
    intro closing member
    rcases mem_closed ended member with known | ⟨rfl, filled⟩
    · exact given.1 closing known
    · exact ⟨filled, given.2⟩
  | nested _ ih | inner _ ih | named _ ih =>
    exact ih (fun left => curries (List.mem_cons_of_mem _ left)) trivial holds
  | plain _ _ ih => exact ih curries trivial holds
  | yielded _ _ ih =>
    rcases ih (fun left => curries (List.mem_cons_of_mem _ left)) trivial holds with ⟨good, held⟩
    exact ⟨passes.yield good, held⟩
  | assigned _ ih =>
    rcases ih (fun left => curries (List.mem_cons_of_mem _ (List.mem_cons_of_mem _ left))) trivial
      holds with ⟨good, held⟩
    refine ⟨passes.assignment good, held.bind _ _ ?_⟩
    intro operand same
    cases same
    exact good
  | chain _ ih => exact ih curries (by simp [Goal.Given]) holds
  | finish _ settled | behindBlock _ settled => exact ⟨passes.settle given settled, holds⟩
  | @operator _ stack lexeme left right _ _ _ _ _ _ _ _ _ front _ first second =>
    rcases first (fun left => curries (List.mem_cons_of_mem _ left)) trivial holds with
      ⟨good, held⟩
    refine second (fun left => curries (front.reaches.step.mem left)) ?_ held
    intro expression member
    rcases List.mem_cons.mp member with rfl | known
    · exact passes.combine (given left (List.mem_cons_self ..)) good
    · exact given expression (List.mem_cons_of_mem _ known)
  | arrow _ _ _ first second =>
    have curries := curries List.mem_cons_self
    rcases first (fun _ => curries) trivial holds with ⟨good, held⟩
    refine second (fun _ => curries) ?_ held
    intro expression member
    exact List.mem_singleton.mp member ▸ good
  | begin _ front _ first second =>
    rcases first curries trivial holds with ⟨good, held⟩
    refine second (fun left => curries (front.reaches.mem left)) ?_ held
    intro expression member
    exact List.mem_singleton.mp member ▸ good
  | further _ _ ih => exact ih curries given holds
  | literal reads => exact ⟨passes.literal reads, holds⟩
  | lifted _ ih | liftedOperand _ ih =>
    rcases ih (fun left => curries (List.mem_cons_of_mem _ left)) trivial holds with ⟨good, held⟩
    exact ⟨passes.lift good, held⟩
  | grouped _ ih => exact ih (fun left => curries (List.mem_cons_of_mem _ left)) trivial holds
  | selected _ _ ih =>
    refine ih curries (passes.application (by simp) ?_) holds
    intro lambda same
    cases same
  | selectedOperand _ _ ih =>
    refine ih (fun left => curries (List.mem_cons_of_mem _ left))
      (passes.application (by simp) ?_) holds
    intro lambda same
    cases same
  | applied _ _ ih => exact ih curries (by simp [Goal.Given]) holds
  | more _ front _ first second =>
    rcases first curries trivial holds with ⟨good, held⟩
    refine second (fun left => curries (front.reaches.mem left)) ?_ held
    intro expression member
    rcases List.mem_append.mp member with known | new
    · exact given expression known
    · exact List.mem_singleton.mp new ▸ good
  | enough => exact ⟨passes.application given fun _ found => holds.definition found, holds⟩
  | bareName => exact ⟨passes.application (by simp) fun _ found => holds.definition found, holds⟩
  | simple _ _ _ ih => exact ih curries trivial holds
  | field _ ih =>
    exact ih (fun left => curries (List.mem_cons_of_mem _ (List.mem_cons_of_mem _ left)))
      (passes.access given) holds
  | reached => exact ⟨given, holds⟩
  | body _ ih =>
    have curries := curries trivial
    rcases ih (fun _ => curries) trivial ((holds.push _).withParameters _ _) with ⟨good, held⟩
    exact ⟨curries.curried _ (passes.scope good), held⟩

end Grammar

namespace Document

variable {P : Expr → Prop} {tokens : List Token} {document : Document}

/-- The expression of a document has every property that is passed on, by
functions only if the document has an arrow. -/
theorem builds (passes : Grammar.Builds P)
    (curries : (∃ token ∈ tokens, token.lexeme = .arrow) → Grammar.Curries P)
    (parsed : Document.ofTokens tokens = .ok document) : P document.root := by
  rcases (Grammar.ofTokens_eq_ok_iff.mp parsed).2 with ⟨block, finish, derived, root⟩
  rw [root]
  refine passes.scope (derived.builds passes (fun arrow => curries ?_) trivial
    (Grammar.Holds.empty.push none)).1
  rcases List.mem_map.mp arrow with ⟨token, inside, lexeme⟩
  exact ⟨token, inside, lexeme⟩

theorem closed (passes : Grammar.Closed P) (parsed : Document.ofTokens tokens = .ok document) :
    P document.root :=
  builds passes.toBuilds (fun _ => passes.function) parsed

end Document
end Manifest
