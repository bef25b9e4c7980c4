/-!
# Sets of characters

A set is kept as its turns: the ascending codes at which membership changes.
The codes from the first turn up to the second belong to the set, those from
the second up to the third do not, and so on.  Two sets are merged turn by
turn, whichever operation joins them.
-/

namespace Manifest
namespace Text

structure CharSet where
  turns : List Nat
  ascending : turns.Pairwise (· < ·) := by simp

namespace CharSet

/-! ## Turns -/

/-- Whether an odd number of turns lies at or before a code. -/
def isInside : List Nat → Nat → Bool
  | [], _ => false
  | turn :: later, code => if code < turn then false else !isInside later code

/-- Keep a turn only if something changes there. -/
def turnIf (changes : Bool) (turn : Nat) (later : List Nat) : List Nat :=
  if changes then turn :: later else later

/-- Merge the turns of two sets.  The flags say whether the codes just before
belong to the one and to the other. -/
def mergeTurns (joined : Bool → Bool → Bool) (left right : Bool) :
    List Nat → List Nat → List Nat
  | [], [] => []
  | x :: xs, [] =>
      turnIf (joined left right != joined (!left) right) x (mergeTurns joined (!left) right xs [])
  | [], y :: ys =>
      turnIf (joined left right != joined left (!right)) y (mergeTurns joined left (!right) [] ys)
  | x :: xs, y :: ys =>
      if x < y then
        turnIf (joined left right != joined (!left) right) x
          (mergeTurns joined (!left) right xs (y :: ys))
      else if y < x then
        turnIf (joined left right != joined left (!right)) y
          (mergeTurns joined left (!right) (x :: xs) ys)
      else
        turnIf (joined left right != joined (!left) (!right)) x
          (mergeTurns joined (!left) (!right) xs ys)
termination_by xs ys => xs.length + ys.length

theorem mem_turnIf {changes : Bool} {turn : Nat} {later : List Nat} {found : Nat}
    (member : found ∈ turnIf changes turn later) : found = turn ∨ found ∈ later := by
  unfold turnIf at member
  split at member
  · simpa using member
  · exact Or.inr member

theorem mem_mergeTurns {joined : Bool → Bool → Bool} {left right : Bool} {xs ys : List Nat}
    {found : Nat} (member : found ∈ mergeTurns joined left right xs ys) :
    found ∈ xs ∨ found ∈ ys := by
  fun_induction mergeTurns joined left right xs ys <;>
    first
      | simp at member
      | (rcases mem_turnIf member with rfl | inner
         · simp
         · grind)

theorem turnIf_ascending {changes : Bool} {turn : Nat} {later : List Nat}
    (behind : ∀ found ∈ later, turn < found) (ascending : later.Pairwise (· < ·)) :
    (turnIf changes turn later).Pairwise (· < ·) := by
  unfold turnIf
  split
  · exact List.pairwise_cons.mpr ⟨behind, ascending⟩
  · exact ascending

theorem lt_of_mem_mergeTurns {joined : Bool → Bool → Bool} {left right : Bool} {xs ys : List Nat}
    {bound : Nat} (behindXs : ∀ turn ∈ xs, bound < turn) (behindYs : ∀ turn ∈ ys, bound < turn) :
    ∀ found ∈ mergeTurns joined left right xs ys, bound < found :=
  fun found member => (mem_mergeTurns member).elim (behindXs found) (behindYs found)

/-- What lies before the first of some ascending turns lies before all of them. -/
theorem lt_of_lt_head {bound first : Nat} {later : List Nat} (less : bound < first)
    (behind : ∀ turn ∈ later, first < turn) : ∀ turn ∈ first :: later, bound < turn :=
  List.forall_mem_cons.mpr ⟨less, fun turn member => Nat.lt_trans less (behind turn member)⟩

theorem mergeTurns_ascending (joined : Bool → Bool → Bool) (left right : Bool) {xs ys : List Nat}
    (xsAscending : xs.Pairwise (· < ·)) (ysAscending : ys.Pairwise (· < ·)) :
    (mergeTurns joined left right xs ys).Pairwise (· < ·) := by
  fun_induction mergeTurns joined left right xs ys with
  | case1 => exact List.Pairwise.nil
  | case2 left right x xs inner =>
      have ⟨behind, rest⟩ := List.pairwise_cons.mp xsAscending
      exact turnIf_ascending (lt_of_mem_mergeTurns behind (by simp)) (inner rest ysAscending)
  | case3 left right y ys inner =>
      have ⟨behind, rest⟩ := List.pairwise_cons.mp ysAscending
      exact turnIf_ascending (lt_of_mem_mergeTurns (by simp) behind) (inner xsAscending rest)
  | case4 left right x xs y ys less inner =>
      have ⟨behindX, restX⟩ := List.pairwise_cons.mp xsAscending
      have ⟨behindY, _⟩ := List.pairwise_cons.mp ysAscending
      exact turnIf_ascending (lt_of_mem_mergeTurns behindX (lt_of_lt_head less behindY))
        (inner restX ysAscending)
  | case5 left right x xs y ys _ less inner =>
      have ⟨behindX, _⟩ := List.pairwise_cons.mp xsAscending
      have ⟨behindY, restY⟩ := List.pairwise_cons.mp ysAscending
      exact turnIf_ascending (lt_of_mem_mergeTurns (lt_of_lt_head less behindX) behindY)
        (inner xsAscending restY)
  | case6 left right x xs y ys notLess notGreater inner =>
      have ⟨behindX, restX⟩ := List.pairwise_cons.mp xsAscending
      have ⟨behindY, restY⟩ := List.pairwise_cons.mp ysAscending
      obtain rfl : x = y := by omega
      exact turnIf_ascending (lt_of_mem_mergeTurns behindX behindY) (inner restX restY)

/-! ## Sets -/

/-- Whether a character belongs to a set. -/
def contains (set : CharSet) (character : Char) : Bool :=
  isInside set.turns character.toNat

/-- Join two sets by an operation on membership. -/
def merge (joined : Bool → Bool → Bool) (left right : CharSet) : CharSet where
  turns := mergeTurns joined false false left.turns right.turns
  ascending := mergeTurns_ascending joined false false left.ascending right.ascending

def empty : CharSet := ⟨[], .nil⟩

def all : CharSet := ⟨[0], List.pairwise_singleton _ 0⟩

/-- The characters between two codes, which belong to the set. -/
def range (low high : Nat) : CharSet where
  turns := if low ≤ high then [low, high + 1] else []
  ascending := by
    split
    · exact List.pairwise_pair.mpr (by omega)
    · exact .nil

/-- The characters of several ranges, each given by its first and its last code. -/
def ofRanges (ranges : List (Nat × Nat)) : CharSet :=
  ranges.foldr (fun (low, high) later => merge or (range low high) later) empty

def single (character : Char) : CharSet :=
  range character.toNat character.toNat

def union (left right : CharSet) : CharSet := merge or left right

def inter (left right : CharSet) : CharSet := merge and left right

def diff (left right : CharSet) : CharSet := merge (fun first second => first && !second) left right

/-- The characters that belong to exactly one of two sets. -/
def symmDiff (left right : CharSet) : CharSet := merge xor left right

/-- The characters that do not belong to a set. -/
def complement (set : CharSet) : CharSet := all.diff set

/-! ## Ranges -/

/-- The greatest code of a character. -/
def lastCode : Nat := 0x10FFFF

/-- Pair the turns.  The last range may be open. -/
def rangesOf : List Nat → List (Nat × Nat)
  | [] => []
  | [low] => [(low, lastCode)]
  | low :: next :: later => (low, next - 1) :: rangesOf later

/-- The ranges of a set: ascending, and with a gap between each two. -/
def ranges (set : CharSet) : List (Nat × Nat) :=
  (rangesOf set.turns).filter fun (low, _) => low ≤ lastCode

end CharSet
end Text
end Manifest
