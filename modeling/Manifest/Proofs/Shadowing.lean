import Manifest.Proofs.Grammar.Records

/-!
# Shadowed names

Scopes are opened one after the other, each inside one that is open already, and names
are entered into them in any order.  So the way outwards from a scope leads to ever
older scopes and ends.  A name stands for its latest entry in the first scope on this
way that has one, and a further entry is seen only from where no nearer scope has the
name.
-/

namespace Manifest

/-! ## Entries of one scope -/

namespace ScopeRecord

variable {record : ScopeRecord} {name : String} {binding : Binding}

/-- An entry of the name stands behind all others of that name. -/
def Ends (record : ScopeRecord) (name : String) (binding : Binding) : Prop :=
  ∃ earlier later, record.symbols = earlier ++ (name, binding) :: later ∧
    ∀ entry ∈ later, entry.1 ≠ name

theorem latest?_eq_some_iff : record.latest? name = some binding ↔ record.Ends name binding := by
  rw [latest?, Option.map_eq_some_iff]
  constructor
  · rintro ⟨⟨other, held⟩, found, rfl⟩
    rcases List.find?_eq_some_iff_append.mp found with ⟨named, later, earlier, split, others⟩
    cases beq_iff_eq.mp named
    refine ⟨earlier.reverse, later.reverse, ?_, fun entry member => ?_⟩
    · have turned := congrArg List.reverse split
      rwa [List.reverse_reverse, List.reverse_append, List.reverse_cons,
      List.append_assoc] at turned
    · simpa using others entry (List.mem_reverse.mp member)
  · rintro ⟨earlier, later, split, others⟩
    refine ⟨(name, binding), List.find?_eq_some_iff_append.mpr
      ⟨beq_self_eq_true name, later.reverse, earlier.reverse, ?_, fun entry member => ?_⟩, rfl⟩
    · rw [split, List.reverse_append, List.reverse_cons, List.append_assoc]
      rfl
    · simpa using others entry (List.mem_reverse.mp member)

theorem latest?_eq_none_iff :
    record.latest? name = none ↔ ∀ entry ∈ record.symbols, entry.1 ≠ name := by
  rw [latest?, Option.map_eq_none_iff, List.find?_eq_none]
  simp

end ScopeRecord

namespace Scopes

variable {scopes : Scopes} {ids chain : List Nat} {id scope target : Nat} {name wanted : String}
  {binding : Binding}

/-! ## Building scopes -/

/-- Scopes that come about by opening scopes and entering names, with the numbers that
have been returned for them.  Only such numbers are used. -/
inductive Built : List Nat → Scopes → Prop
  | empty : Built [] .empty
  | push {ids : List Nat} {scopes : Scopes} {around : Option Nat} : Built ids scopes →
      (∀ outer ∈ around, outer ∈ ids) →
      Built (ids ++ [(scopes.push around).1]) (scopes.push around).2
  | bind {ids : List Nat} {scopes : Scopes} {scope : Nat} (name : String) (binding : Binding) :
      Built ids scopes → scope ∈ ids → Built ids (scopes.bind scope name binding)

theorem Built.mem_iff (built : Built ids scopes) : id ∈ ids ↔ id < scopes.size := by
  induction built with
  | empty => exact iff_of_false List.not_mem_nil (Nat.not_lt_zero id)
  | @push ids scopes around built known ih =>
    rw [size_push, List.mem_append, List.mem_singleton, ih]
    exact Nat.lt_succ_iff_lt_or_eq.symm
  | bind name binding built known ih => rwa [size_bind]

/-- Every scope is younger than the one around it, which is one of them. -/
theorem Built.older (built : Built ids scopes) : scopes.Older := by
  induction built with
  | empty => rintro id record parent ⟨⟩
  | push built known ih =>
    exact Older.push_of ih fun outer around => built.mem_iff.mp (known outer around)
  | bind name binding built known ih => exact Older.bind ih _ name binding

/-! ## The way outwards -/

/-- The scopes outwards from a scope, up to one that has none around it. -/
inductive Chain (scopes : Scopes) : Nat → List Nat → Prop
  | outermost {id : Nat} {record : ScopeRecord} : scopes.get? id = some record →
      record.parent = none → Chain scopes id [id]
  | inside {id parent : Nat} {record : ScopeRecord} {chain : List Nat} :
      scopes.get? id = some record → record.parent = some parent → Chain scopes parent chain →
      Chain scopes id (id :: chain)

theorem Older.exists_chain (older : scopes.Older) (within : id < scopes.size) :
    ∃ chain, scopes.Chain id chain := by
  induction id using Nat.strongRecOn with
  | ind id ih =>
    have found : scopes.get? id = some scopes.records[id] := Array.getElem?_eq_getElem within
    cases around : scopes.records[id].parent with
    | none => exact ⟨[id], .outermost found around⟩
    | some parent =>
      have younger := older id _ parent found around
      rcases ih parent younger (Nat.lt_trans younger within) with ⟨chain, outwards⟩
      exact ⟨id :: chain, .inside found around outwards⟩

/-- Entering a name leaves the ways outwards as they are. -/
theorem Chain.bind (outwards : scopes.Chain id chain) (scope : Nat) (name : String)
    (binding : Binding) : (scopes.bind scope name binding).Chain id chain := by
  have kept {id : Nat} {record : ScopeRecord} (found : scopes.get? id = some record) :
      ∃ after, (scopes.bind scope name binding).get? id = some after ∧
        after.parent = record.parent := by
    by_cases same : scope = id
    · subst same
      exact ⟨_, get?_bind_self found name binding, rfl⟩
    · exact ⟨record, (get?_bind_of_ne same).trans found, rfl⟩
  induction outwards with
  | outermost found around =>
    rcases kept found with ⟨after, stands, same⟩
    exact .outermost stands (same.trans around)
  | inside found around outwards ih =>
    rcases kept found with ⟨after, stands, same⟩
    exact .inside stands (same.trans around) ih

/-! ## Entries along the way -/

/-- No entry of a scope has the name. -/
def Lacks (scopes : Scopes) (name : String) (id : Nat) : Prop :=
  ∀ record, scopes.get? id = some record → ∀ entry ∈ record.symbols, entry.1 ≠ name

/-- The latest entry of the name in a scope. -/
def Shows (scopes : Scopes) (name : String) (id : Nat) (binding : Binding) : Prop :=
  ∃ record, scopes.get? id = some record ∧ record.Ends name binding

/-- A scope on the way outwards, where none before it has the name. -/
inductive Uncovered (scopes : Scopes) (name : String) (scope : Nat) : List Nat → Prop
  | here {far : List Nat} : Uncovered scopes name scope (scope :: far)
  | behind {near : Nat} {far : List Nat} : scopes.Lacks name near →
      Uncovered scopes name scope far → Uncovered scopes name scope (near :: far)

/-- The latest entry of a name in a scope, if it has one. -/
def latest? (scopes : Scopes) (name : String) (id : Nat) : Option Binding :=
  (scopes.get? id).bind fun record => record.latest? name

theorem latest?_eq_some_iff :
    scopes.latest? name id = some binding ↔ scopes.Shows name id binding := by
  rw [latest?, Option.bind_eq_some_iff]
  exact exists_congr fun record => and_congr_right fun _ => ScopeRecord.latest?_eq_some_iff

theorem latest?_eq_none_iff : scopes.latest? name id = none ↔ scopes.Lacks name id := by
  rw [latest?, Option.bind_eq_none_iff]
  exact forall_congr' fun record => imp_congr_right fun _ => ScopeRecord.latest?_eq_none_iff

/-- What a scope has for a name when a name has been entered somewhere. -/
theorem latest?_bind (within : scope < scopes.size) (name wanted : String) (binding : Binding)
    (id : Nat) : (scopes.bind scope name binding).latest? wanted id =
      if id = scope ∧ wanted = name then some binding else scopes.latest? wanted id := by
  by_cases here : id = scope
  · subst here
    have found : scopes.get? id = some scopes.records[id] := Array.getElem?_eq_getElem within
    rw [latest?, latest?, get?_bind_self found, found]
    dsimp only [Option.bind_some, ScopeRecord.latest?]
    rw [List.reverse_append, List.reverse_singleton, List.singleton_append, List.find?_cons]
    by_cases same : wanted = name
    · rw [if_pos ⟨rfl, same⟩, beq_iff_eq.mpr same.symm]
      rfl
    · rw [if_neg fun both => same both.2, beq_eq_false_iff_ne.mpr (Ne.symm same)]
  · rw [if_neg fun both => here both.1, latest?, latest?, get?_bind_of_ne (Ne.symm here)]

/-! ## Looking up -/

/-- The loop of a look-up follows the way outwards. -/
theorem lookup_eq_findSome? (older : scopes.Older) (outwards : scopes.Chain id chain)
    (name : String) : scopes.lookup id name = chain.findSome? (scopes.latest? name) := by
  induction outwards with
  | @outermost id record found around =>
    rw [lookup, found, List.findSome?_cons, latest?, found]
    dsimp only [Option.bind_some]
    cases record.latest? name with
    | some binding => rfl
    | none => rw [around]; rfl
  | @inside id parent record chain found around outwards ih =>
    rw [lookup, found, List.findSome?_cons, latest?, found]
    dsimp only [Option.bind_some]
    cases record.latest? name with
    | some binding => rfl
    | none =>
      rw [around]
      dsimp only
      rw [if_pos (older id record parent found around), ih]

theorem findSome?_latest_eq_some_iff : chain.findSome? (scopes.latest? name) = some binding ↔
    ∃ scope, scopes.Uncovered name scope chain ∧ scopes.Shows name scope binding := by
  induction chain with
  | nil =>
    refine iff_of_false (fun found => nomatch found) ?_
    rintro ⟨scope, uncovered, _⟩
    cases uncovered
  | cons id chain ih =>
    rw [List.findSome?_cons]
    cases own : scopes.latest? name id with
    | some held =>
      have shown := latest?_eq_some_iff.mp own
      constructor
      · intro same
        cases same
        exact ⟨id, .here, shown⟩
      · rintro ⟨scope, uncovered, shows⟩
        cases uncovered with
        | here => exact own.symm.trans (latest?_eq_some_iff.mpr shows)
        | behind lacks _ => cases own.symm.trans (latest?_eq_none_iff.mpr lacks)
    | none =>
      dsimp only
      rw [ih]
      refine exists_congr fun scope => and_congr_left fun shows => ⟨fun uncovered => ?_, ?_⟩
      · exact .behind (latest?_eq_none_iff.mp own) uncovered
      · intro uncovered
        cases uncovered with
        | here => cases own.symm.trans (latest?_eq_some_iff.mpr shows)
        | behind _ uncovered => exact uncovered

theorem findSome?_latest_eq_none_iff : chain.findSome? (scopes.latest? name) = none ↔
    ∀ scope ∈ chain, scopes.Lacks name scope := by
  rw [List.findSome?_eq_none_iff]
  exact forall₂_congr fun scope _ => latest?_eq_none_iff

/-- A further entry is found where its scope is uncovered. -/
theorem findSome?_bind_of_uncovered (within : scope < scopes.size)
    (uncovered : scopes.Uncovered name scope chain) :
    chain.findSome? ((scopes.bind scope name binding).latest? name) = some binding := by
  induction uncovered with
  | here => rw [List.findSome?_cons, latest?_bind within, if_pos ⟨rfl, rfl⟩]
  | @behind near far lacks _ ih =>
    rw [List.findSome?_cons, latest?_bind within, latest?_eq_none_iff.mpr lacks]
    split
    · rename_i own
      split at own
      · exact own.symm
      · cases own
    · exact ih

/-- Elsewhere a further entry makes no difference. -/
theorem findSome?_bind_of_covered (within : scope < scopes.size)
    (covered : ¬ (wanted = name ∧ scopes.Uncovered wanted scope chain)) :
    chain.findSome? ((scopes.bind scope name binding).latest? wanted) =
      chain.findSome? (scopes.latest? wanted) := by
  induction chain with
  | nil => rfl
  | cons id chain ih =>
    have elsewhere : ¬ (id = scope ∧ wanted = name) := by
      rintro ⟨rfl, named⟩
      exact covered ⟨named, .here⟩
    rw [List.findSome?_cons, List.findSome?_cons, latest?_bind within, if_neg elsewhere]
    cases own : scopes.latest? wanted id with
    | some held => rfl
    | none =>
      refine ih ?_
      rintro ⟨named, uncovered⟩
      exact covered ⟨named, .behind (latest?_eq_none_iff.mp own) uncovered⟩

/-- However scopes have been built, the way outwards from each of them ends, and what a
name stands for there is its latest entry in the nearest scope on the way that has it.
A further entry is what the name stands for wherever no nearer scope has the name, and
changes nothing else. -/
theorem lookup_nearest_latest (built : Built ids scopes) (opened : target ∈ ids)
    (wanted : String) :
    ∃ chain, scopes.Chain target chain ∧
      (∀ binding, scopes.lookup target wanted = some binding ↔
        ∃ scope, scopes.Uncovered wanted scope chain ∧ scopes.Shows wanted scope binding) ∧
      (scopes.lookup target wanted = none ↔ ∀ scope ∈ chain, scopes.Lacks wanted scope) ∧
      ∀ scope ∈ ids, ∀ name binding, let after := scopes.bind scope name binding
        (wanted = name → scopes.Uncovered wanted scope chain →
          after.lookup target wanted = some binding) ∧
        (after.lookup target wanted ≠ scopes.lookup target wanted →
          wanted = name ∧ scopes.Uncovered wanted scope chain) := by
  rcases built.older.exists_chain (built.mem_iff.mp opened) with ⟨chain, outwards⟩
  have same := lookup_eq_findSome? built.older outwards wanted
  refine ⟨chain, outwards, fun binding => ?_, ?_, fun scope known name binding => ?_⟩
  · rw [same, findSome?_latest_eq_some_iff]
  · rw [same, findSome?_latest_eq_none_iff]
  · have within := built.mem_iff.mp known
    have later := lookup_eq_findSome? (built.older.bind scope name binding)
      (outwards.bind scope name binding) wanted
    dsimp only
    rw [same, later]
    constructor
    · rintro rfl uncovered
      exact findSome?_bind_of_uncovered within uncovered
    · exact fun differs => Classical.byContradiction fun covered =>
        differs (findSome?_bind_of_covered within covered)

/-- Two scopes stand inside one that has the name twice, and one of them has the name as
well.  From the other one the later of the two entries is seen, whatever is entered into
its neighbour. -/
theorem lookup_nearest_latest_neighbours : ∃ scopes, Built [0, 1, 2] scopes ∧
    scopes.lookup 2 "x" = some (.expression (.scalar .unit)) ∧
    (∃ chain scope, scopes.Chain 2 chain ∧ scopes.Uncovered "x" scope chain ∧
      scopes.Shows "x" scope (.expression (.scalar .unit))) ∧
    scopes.lookup 1 "x" = some .parameter ∧
    ∀ binding, (scopes.bind 1 "x" binding).lookup 2 "x" = scopes.lookup 2 "x" := by
  let scopes : Scopes := ⟨#[⟨none, [("x", .expression .unit), ("x", .expression (.scalar .unit))]⟩,
    ⟨some 0, [("x", .parameter)]⟩, ⟨some 0, []⟩]⟩
  have opened : Built [0, 1, 2] (((Scopes.empty.push none).2.push (some 0)).2.push (some 0)).2 := by
    refine .push (.push (.push .empty ?_) ?_) ?_
    · exact fun outer none => nomatch none
    · exact fun outer same => Option.mem_some.mp same ▸ List.mem_cons_self ..
    · exact fun outer same => Option.mem_some.mp same ▸ List.mem_cons_self ..
  have built : Built [0, 1, 2] scopes :=
    ((opened.bind "x" (.expression .unit) (by decide : 0 ∈ [0, 1, 2])).bind "x"
      (.expression (.scalar .unit)) (by decide : 0 ∈ [0, 1, 2])).bind "x" .parameter
      (by decide : 1 ∈ [0, 1, 2])
  have seen : scopes.lookup 2 "x" = some (.expression (.scalar .unit)) := by
    simp [lookup, get?, scopes, ScopeRecord.latest?]
  have own : scopes.lookup 1 "x" = some .parameter := by
    simp [lookup, get?, scopes, ScopeRecord.latest?]
  rcases lookup_nearest_latest built (by decide : 2 ∈ [0, 1, 2]) "x" with
    ⟨chain, outwards, found, _, entered⟩
  rcases (found _).mp seen with ⟨scope, uncovered, shows⟩
  refine ⟨scopes, built, seen, ⟨chain, scope, outwards, uncovered, shows⟩, own, fun binding => ?_⟩
  refine Classical.byContradiction fun differs => ?_
  have beside := ((entered 1 (by decide) "x" binding).2 differs).2
  -- the neighbour is not on the way outwards, which leads from 2 to 0
  have way : chain = [2, 0] := by
    cases outwards with
    | outermost stands around =>
      cases stands
      cases around
    | inside stands around outwards =>
      cases stands
      cases around
      cases outwards with
      | outermost => rfl
      | inside stands around =>
        cases stands
        cases around
  subst way
  rcases beside with _ | ⟨_, _ | ⟨_, none⟩⟩
  cases none

end Scopes
end Manifest
