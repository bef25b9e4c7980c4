import Manifest.Proofs.Grammar.Completeness

/-!
# Scopes on the way

Reading opens scopes and enters names into the scope that is open.  What a name
stands for depends on its scope and those around it, and a scope that is left
alone keeps what it shows.
-/

namespace Manifest

namespace Scopes

variable {scopes other : Scopes} {scope : Nat} {name : String} {binding : Binding}

/-- What a name stands for depends on the scope and those around it. -/
theorem lookup_congr (same : ∀ id ≤ scope, other.get? id = scopes.get? id) :
    other.lookup scope name = scopes.lookup scope name := by
  induction scope using Nat.strongRecOn with
  | ind scope ih =>
    rw [lookup, lookup, same scope (Nat.le_refl scope)]
    cases scopes.get? scope with
    | none => rfl
    | some record =>
      dsimp only
      cases record.latest? name with
      | some binding => rfl
      | none =>
        cases record.parent with
        | none => rfl
        | some parent =>
          dsimp only
          split
          · rename_i older
            exact ih parent older fun id le => same id (by omega)
          · rfl

theorem get?_push_of_lt (parent : Option Nat) (inside : scope < scopes.size) :
    (scopes.push parent).2.get? scope = scopes.get? scope := by
  rw [push, get?, get?, Array.getElem?_push, if_neg (by rw [size] at inside; omega)]

theorem size_push (parent : Option Nat) : (scopes.push parent).2.size = scopes.size + 1 :=
  Array.size_push _

/-- A new scope shows what the scope around it shows. -/
theorem lookup_push (inside : scope < scopes.size) :
    (scopes.push (some scope)).2.lookup scopes.size name = scopes.lookup scope name := by
  have opened : (scopes.push (some scope)).2.get? scopes.size = some ⟨some scope, []⟩ := by
    rw [push, get?, Array.getElem?_push]
    exact if_pos rfl
  rw [lookup, opened]
  dsimp only [ScopeRecord.latest?, List.reverse_nil, List.find?_nil, Option.map_none]
  rw [if_pos inside]
  exact lookup_congr fun id le => get?_push_of_lt _ (by omega)

theorem get?_bind_of_ne {id : Nat} (different : id ≠ scope) :
    (scopes.bind id name binding).get? scope = scopes.get? scope := by
  rw [bind, get?, get?, Array.getElem?_modify, if_neg different]

theorem size_bind (scopes : Scopes) (id : Nat) (name : String) (binding : Binding) :
    (scopes.bind id name binding).size = scopes.size :=
  Array.size_modify

theorem lookup_bind {wanted : String} (inside : scope < scopes.size) :
    (scopes.bind scope name binding).lookup scope wanted =
      if name = wanted then some binding else scopes.lookup scope wanted := by
  obtain ⟨record, found⟩ : ∃ record, scopes.records[scope]? = some record :=
    ⟨_, Array.getElem?_eq_getElem inside⟩
  have changed : (scopes.bind scope name binding).get? scope =
      some { record with symbols := record.symbols ++ [(name, binding)] } := by
    rw [bind, get?, Array.getElem?_modify, if_pos rfl, found]
    rfl
  have stands : scopes.get? scope = some record := found
  rw [lookup, changed]
  dsimp only [ScopeRecord.latest?]
  rw [List.reverse_append, List.reverse_singleton, List.singleton_append, List.find?_cons]
  by_cases same : name = wanted
  · rw [if_pos same, beq_iff_eq.mpr same]
    rfl
  · rw [if_neg same, beq_eq_false_iff_ne.mpr same, lookup, stands]
    dsimp only [ScopeRecord.latest?]
    cases List.find? (fun entry => entry.1 == wanted) record.symbols.reverse with
    | some entry => rfl
    | none =>
      dsimp only [Option.map_none]
      cases record.parent with
      | none => rfl
      | some parent =>
        dsimp only
        split
        · rename_i older
          exact lookup_congr fun id le => get?_bind_of_ne (by omega)
        · rfl

end Scopes

namespace Grammar

variable {goal : Goal} {start finish : Point} {scopes after : Scopes} {result : Expr}

/-! ## Scopes that a goal leaves alone -/

/-- The scope into which a goal enters names. -/
def Goal.written : Goal → Option Nat
  | .sections _ _ part _ => some part.scope
  | .statement scope => some scope
  | _ => none

/-- Scopes that are open stay as they are, except for the one. -/
structure Retains (written : Option Nat) (scopes after : Scopes) : Prop where
  size_le : scopes.size ≤ after.size
  get?_eq : ∀ id < scopes.size, written ≠ some id → after.get? id = scopes.get? id

namespace Retains

variable {written : Option Nat} {between : Scopes}

theorem refl (written : Option Nat) (scopes : Scopes) : Retains written scopes scopes :=
  ⟨Nat.le_refl _, fun _ _ _ => rfl⟩

theorem trans (first : Retains written scopes between) (second : Retains written between after) :
    Retains written scopes after := by
  refine ⟨Nat.le_trans first.size_le second.size_le, fun id inside other => ?_⟩
  rw [second.get?_eq id (Nat.lt_of_lt_of_le inside first.size_le) other,
    first.get?_eq id inside other]

theorem weaken (written : Option Nat) (retains : Retains none scopes after) :
    Retains written scopes after :=
  ⟨retains.size_le, fun id inside _ => retains.get?_eq id inside (by rintro ⟨⟩)⟩

/-- What is entered into a new scope is entered into no open one. -/
theorem push (written : Option Nat) (parent : Option Nat)
    (retains : Retains (some scopes.size) (scopes.push parent).2 after) :
    Retains written scopes after := by
  have size : (scopes.push parent).2.size = scopes.size + 1 := Scopes.size_push parent
  refine ⟨by have := retains.size_le; omega, fun id inside _ => ?_⟩
  rw [retains.get?_eq id (by omega) (by simp; omega), Scopes.get?_push_of_lt parent inside]

theorem bind (scopes : Scopes) (scope : Nat) (name : String) (binding : Binding) :
    Retains (some scope) scopes (scopes.bind scope name binding) := by
  refine ⟨Nat.le_of_eq (Scopes.size_bind scopes scope name binding).symm, fun id _ other => ?_⟩
  exact Scopes.get?_bind_of_ne fun same => other (congrArg some same)

theorem withParameters (scopes : Scopes) (scope : Nat) (names : List String) :
    Retains (some scope) scopes (withParameters scopes scope names) := by
  induction names generalizing scopes with
  | nil => exact .refl _ _
  | cons name names ih => exact (bind scopes scope name .parameter).trans (ih _)

end Retains

theorem Derives.retains_scopes (derived : Derives goal start scopes result finish after) :
    Retains goal.written scopes after := by
  induction derived with
  | block _ ih => exact ih.push _ _
  | skip _ _ ih | lead _ ih => exact ih
  | divide _ _ ih => exact ih.push _ _
  | state _ _ first second => exact first.trans second
  | closeBlock | closeDocument | finish | behindBlock | literal | enough | bareName | reached =>
    exact .refl _ _
  | nested _ ih | yielded _ _ ih | plain _ _ ih => exact ih.weaken _
  | assigned _ ih => exact (ih.weaken _).trans (.bind _ _ _ _)
  | operator _ _ _ first second | arrow _ _ _ first second | begin _ _ _ first second
  | more _ _ _ first second => exact first.trans second
  | body _ ih => exact ((Retains.withParameters _ _ _).trans (ih.weaken _)).push _ _
  | _ => assumption

end Grammar
end Manifest
