import Mathlib.Data.List.Perm.Basic
import Manifest.Proofs.Conformance

/-!
# Atoms of a schema

Unions may hold unions.  Taken apart to the end, a schema leaves its atoms, none of which is
a union.  Assignability goes down a union on the left for every member and down a union on
the right for some member, and so it sees nothing of two schemas but their atoms.

Between atoms it is a matter of form, where a resource passes for a mapping, and where
everything passes for anything.  Only the way from a mapping to a resource asks for more than
the form, and there transitivity ends.
-/

namespace Manifest
namespace Schema

variable {schema source target goal atom other : Schema} {members : List Schema}

mutual
/-- The schema itself if it is no union, and otherwise the atoms of its members. -/
def atoms : Schema → List Schema
  | union members => atomsOfAll members
  | other => [other]
termination_by structural schema => schema

def atomsOfAll : List Schema → List Schema
  | [] => []
  | member :: rest => member.atoms ++ atomsOfAll rest
termination_by structural members => members
end

theorem atomsOfAll_eq_flatMap (members : List Schema) :
    atomsOfAll members = members.flatMap atoms := by
  induction members with
  | nil => rfl
  | cons member rest ih => rw [atomsOfAll, ih, List.flatMap_cons]

@[simp]
theorem atoms_union (members : List Schema) : (union members).atoms = members.flatMap atoms :=
  atomsOfAll_eq_flatMap members

mutual
theorem isUnion_of_mem_atoms : ∀ {schema atom : Schema}, atom ∈ schema.atoms →
    atom.isUnion = false
  | .union _, _, inside => isUnion_of_mem_atomsOfAll inside
  | .unit, _, inside | .text _, _, inside | .number _ _, _, inside | .boolean, _, inside
  | .struct _, _, inside | .vector _, _, inside | .any, _, inside | .unresolved, _, inside
  | .resource, _, inside => by
    rw [List.mem_singleton.mp inside]
    rfl

theorem isUnion_of_mem_atomsOfAll : ∀ {schemas : List Schema} {atom : Schema},
    atom ∈ atomsOfAll schemas → atom.isUnion = false
  | _ :: _, _, inside => (List.mem_append.mp inside).elim isUnion_of_mem_atoms
      isUnion_of_mem_atomsOfAll
end

/-! ## Assignability between atoms -/

mutual
/-- Of a union on the left every atom has to fit. -/
theorem assignableTo_iff_fits : ∀ (source : Schema) {target : Schema},
    source.assignableTo target = true ↔ ∀ atom ∈ source.atoms, atom.fits target = true
  | .union members, _ => allAssignableTo_iff_fits members
  | .unit, _ | .text _, _ | .number _ _, _ | .boolean, _ | .struct _, _ | .vector _, _
  | .any, _ | .unresolved, _ | .resource, _ => by simp [assignableTo, atoms]

theorem allAssignableTo_iff_fits : ∀ (sources : List Schema) {target : Schema},
    allAssignableTo sources target = true ↔ ∀ atom ∈ atomsOfAll sources, atom.fits target = true
  | [], _ => by simp [allAssignableTo, atomsOfAll]
  | source :: rest, _ => by
    rw [allAssignableTo, Bool.and_eq_true, assignableTo_iff_fits source,
      allAssignableTo_iff_fits rest, atomsOfAll, List.forall_mem_append]
end

mutual
/-- Of a union on the right some atom has to be fitted. -/
theorem fits_iff : ∀ (target : Schema) {source : Schema},
    source.fits target = true ↔ ∃ atom ∈ target.atoms, source.fits atom = true
  | .union members, _ => fitsSome_iff members
  | .unit, _ | .text _, _ | .number _ _, _ | .boolean, _ | .struct _, _ | .vector _, _
  | .any, _ | .unresolved, _ | .resource, _ => by simp [atoms]

theorem fitsSome_iff : ∀ (targets : List Schema) {source : Schema},
    source.fitsSome targets = true ↔ ∃ atom ∈ atomsOfAll targets, source.fits atom = true
  | [], _ => by simp [fitsSome, atomsOfAll]
  | target :: rest, _ => by
    rw [fitsSome, Bool.or_eq_true, fits_iff target, fitsSome_iff rest, atomsOfAll]
    simp only [List.mem_append, or_and_right, exists_or]
end

theorem assignableTo_of_not_isUnion (simple : source.isUnion = false) :
    source.assignableTo target = source.fits target := by
  cases source <;> first | rfl | cases simple

/-- One schema is assignable to another exactly if each of its atoms is to an atom of the
other. -/
theorem assignableTo_iff : source.assignableTo target = true ↔
    ∀ atom ∈ source.atoms, ∃ other ∈ target.atoms, atom.assignableTo other = true := by
  rw [assignableTo_iff_fits]
  refine forall₂_congr fun atom inside => ?_
  simp only [assignableTo_of_not_isUnion (isUnion_of_mem_atoms inside)]
  exact fits_iff target

/-- Fewer atoms on the left and more on the right keep assignability. -/
theorem assignableTo_mono (fewer : other.atoms ⊆ source.atoms) (more : target.atoms ⊆ goal.atoms)
    (assignable : source.assignableTo target = true) : other.assignableTo goal = true := by
  rw [assignableTo_iff] at assignable ⊢
  intro atom inside
  rcases assignable atom (fewer inside) with ⟨fitted, among, fits⟩
  exact ⟨fitted, more among, fits⟩

/-! ## Unions with the same atoms -/

/-- Assignability does not tell two schemas apart, on neither side. -/
def Interchangeable (schema other : Schema) : Prop :=
  ∀ third, schema.assignableTo third = other.assignableTo third ∧
    third.assignableTo schema = third.assignableTo other

theorem interchangeable_of_atoms (same : ∀ atom, atom ∈ schema.atoms ↔ atom ∈ other.atoms) :
    Interchangeable schema other := by
  have forth : schema.atoms ⊆ other.atoms := fun atom inside => (same atom).mp inside
  have back : other.atoms ⊆ schema.atoms := fun atom inside => (same atom).mpr inside
  intro third
  have kept : third.atoms ⊆ third.atoms := List.Subset.refl _
  constructor
  · exact Bool.eq_iff_iff.mpr ⟨assignableTo_mono back kept, assignableTo_mono forth kept⟩
  · exact Bool.eq_iff_iff.mpr ⟨assignableTo_mono kept forth, assignableTo_mono kept back⟩

theorem interchangeable_nested (before inner behind : List Schema) :
    Interchangeable (union (before ++ union inner :: behind))
      (union (before ++ inner ++ behind)) :=
  interchangeable_of_atoms fun atom => by simp

theorem interchangeable_of_perm {others : List Schema} (ordered : members.Perm others) :
    Interchangeable (union members) (union others) :=
  interchangeable_of_atoms fun atom => by simp [ordered.mem_iff]

theorem interchangeable_repeated (inside : schema ∈ members) :
    Interchangeable (union (schema :: members)) (union members) :=
  interchangeable_of_atoms fun atom => by
    rw [atoms_union, atoms_union, List.flatMap_cons, List.mem_append, or_iff_right_iff_imp]
    exact fun held => List.mem_flatMap.mpr ⟨schema, inside, held⟩

/-! ## Form -/

/-- The form that decides about atoms: a resource is a mapping. -/
def form : Schema → String
  | resource => "struct"
  | other => other.tag

/-- What fits a form has it.  The forms are few, so all pairs of them are compared. -/
theorem form_eq_of_fitsForm (fits : source.fitsForm target = true) :
    source.form = target.form := by
  cases target <;> cases source <;> simp_all [fitsForm, form, tag]

/-- No more than the form is asked for, unless the target is a resource. -/
theorem fitsForm_of_form_eq (plain : target ≠ resource) (same : source.form = target.form) :
    source.fitsForm target = true := by
  cases target <;> cases source <;> simp_all [fitsForm, form, tag]

theorem fits_iff_of_not_isUnion (simple : target.isUnion = false) :
    source.fits target = true ↔ target = any ∨ source.fitsForm target = true := by
  cases target with
  | union members => cases simple
  | any => simp [fits]
  | _ => simp [fits]

theorem fits_refl (simple : schema.isUnion = false) : schema.fits schema = true := by
  refine (fits_iff_of_not_isUnion simple).mpr (.inr ?_)
  cases schema <;> simp [fitsForm]

/-- Between atoms a way that does not end at a resource can be cut short. -/
theorem fits_trans (middle : target.isUnion = false) (last : goal.isUnion = false)
    (plain : goal ≠ resource) (fits : source.fits target = true)
    (further : target.fits goal = true) : source.fits goal = true := by
  rw [fits_iff_of_not_isUnion last] at further ⊢
  rw [fits_iff_of_not_isUnion middle] at fits
  rcases further with top | further
  · exact .inl top
  · have reached : target.form = goal.form := form_eq_of_fitsForm further
    rcases fits with rfl | fits
    · -- what is not known fits only where nothing is asked
      cases goal <;> simp_all [form, tag]
    · exact .inr (fitsForm_of_form_eq plain ((form_eq_of_fitsForm fits).trans reached))

/-! ## All schemas -/

theorem assignableTo_refl (schema : Schema) : schema.assignableTo schema = true := by
  refine assignableTo_iff.mpr fun atom inside => ⟨atom, inside, ?_⟩
  have simple := isUnion_of_mem_atoms inside
  rw [assignableTo_of_not_isUnion simple]
  exact fits_refl simple

theorem assignableTo_trans (plain : resource ∉ goal.atoms)
    (assignable : source.assignableTo target = true)
    (further : target.assignableTo goal = true) : source.assignableTo goal = true := by
  rw [assignableTo_iff] at assignable further ⊢
  intro atom inside
  rcases assignable atom inside with ⟨between, held, first⟩
  rcases further between held with ⟨last, among, second⟩
  have middle := isUnion_of_mem_atoms held
  refine ⟨last, among, ?_⟩
  rw [assignableTo_of_not_isUnion (isUnion_of_mem_atoms inside)] at first ⊢
  rw [assignableTo_of_not_isUnion middle] at second
  exact fits_trans middle (isUnion_of_mem_atoms among) (fun same => plain (same ▸ among)) first
    second

/-- Assignability is a matter of the atoms: every atom on the left has to be assignable to
some atom on the right.  So it makes no difference how the members of unions are nested, in
which order they stand and how often they are there.  Every schema is assignable to itself,
and assignability is transitive unless the last of the three schemas has a resource among
its atoms. -/
theorem assignability_of_atoms :
    (∀ source target : Schema, source.assignableTo target = true ↔
      ∀ atom ∈ source.atoms, ∃ other ∈ target.atoms, atom.assignableTo other = true) ∧
    (∀ schema other : Schema, (∀ atom, atom ∈ schema.atoms ↔ atom ∈ other.atoms) →
      Interchangeable schema other) ∧
    (∀ before inner behind, Interchangeable (union (before ++ union inner :: behind))
      (union (before ++ inner ++ behind))) ∧
    (∀ members others : List Schema, members.Perm others →
      Interchangeable (union members) (union others)) ∧
    (∀ schema members, schema ∈ members →
      Interchangeable (union (schema :: members)) (union members)) ∧
    (∀ schema : Schema, schema.assignableTo schema = true) ∧
    ∀ source target goal : Schema, resource ∉ goal.atoms → source.assignableTo target = true →
      target.assignableTo goal = true → source.assignableTo goal = true :=
  ⟨fun _ _ => assignableTo_iff, fun _ _ => interchangeable_of_atoms, interchangeable_nested,
    fun _ _ => interchangeable_of_perm, fun _ _ => interchangeable_repeated, assignableTo_refl,
    fun _ _ _ => assignableTo_trans⟩

/-- Through a union that is nested in another, and with members nested, turned and repeated. -/
theorem assignability_of_atoms_nested :
    let port := union [.number none none, .text none]
    let loose := union [.unit, .union [.text none, .union [.number none none]]]
    resource ∉ loose.atoms ∧ (text (some "[a-z]")).assignableTo port = true ∧
      port.assignableTo loose = true ∧ (text (some "[a-z]")).assignableTo loose = true ∧
      Interchangeable (union [.text none, port]) port ∧
      Interchangeable port (union [.text none, .number none none]) ∧
      Interchangeable (union [.unit, port, .unit]) (union [port, .unit]) := by
  intro port loose
  have plain : resource ∉ loose.atoms := by simp [loose, atoms, atomsOfAll]
  have first : (text (some "[a-z]")).assignableTo port = true := by decide
  have second : port.assignableTo loose = true := by decide
  rcases assignability_of_atoms with ⟨_, same, _, turned, repeated, _, through⟩
  refine ⟨plain, first, second, through _ port loose plain first second, ?_, ?_, ?_⟩
  · refine same _ _ fun atom => ?_
    simp +contextual [port, atoms, atomsOfAll, or_comm]
  · exact turned _ _ (.swap _ _ _)
  · exact repeated .unit [port, .unit] (.tail _ (.head _))

/-- A mapping passes for any other, so also for one that passes for a resource. -/
example :
    let version := struct [("apiVersion", [.text none]), ("kind", [.text none])]
    (struct []).assignableTo version = true ∧ version.assignableTo .resource = true ∧
      (struct []).assignableTo .resource = false := by
  decide

end Schema
end Manifest
