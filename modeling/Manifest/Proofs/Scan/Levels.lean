import Mathlib.Data.List.TakeWhile
import Manifest.Token.Layout

/-!
# Nested levels

Open levels lie one inside the other, and the outermost is zero.  A line opens
a level, stays at the innermost one, closes some levels down to one that is
open, or lies between two of them.  In the first three cases the levels stay
nested.
-/

namespace Manifest
namespace Levels

variable {levels : Levels} {level : Nat}

/-- Every level lies deeper than those around it, and the outermost is zero. -/
structure Nested (levels : Levels) : Prop where
  deeper : levels.Pairwise (· > ·)
  outermost : levels.getLast? = some 0

theorem nested_outermost : Nested [0] :=
  ⟨List.pairwise_singleton _ _, rfl⟩

theorem Nested.exists_cons (nested : levels.Nested) : ∃ top outer, levels = top :: outer := by
  cases levels with
  | nil => cases nested.outermost
  | cons top outer => exact ⟨top, outer, rfl⟩

theorem Nested.ne_nil (nested : levels.Nested) : levels ≠ [] := by
  rintro rfl
  cases nested.outermost

theorem Nested.le_current (nested : levels.Nested) : ∀ found ∈ levels, found ≤ levels.current := by
  rcases nested.exists_cons with ⟨top, outer, rfl⟩
  refine List.forall_mem_cons.mpr ⟨Nat.le_refl top, fun found inside => ?_⟩
  exact Nat.le_of_lt (List.rel_of_pairwise_cons nested.deeper inside)

theorem Nested.cons (nested : levels.Nested) (deeper : levels.current < level) :
    Nested (level :: levels) := by
  refine ⟨.cons (fun found inside => ?_) nested.deeper, ?_⟩
  · exact Nat.lt_of_le_of_lt (nested.le_current found inside) deeper
  · rcases nested.exists_cons with ⟨top, outer, rfl⟩
    rw [List.getLast?_cons_cons]
    exact nested.outermost

/-- What is left when the innermost level is closed. -/
theorem Nested.of_cons (nested : Nested (level :: levels)) (some : levels ≠ []) :
    levels.Nested := by
  rcases List.exists_cons_of_ne_nil some with ⟨top, outer, rfl⟩
  refine ⟨nested.deeper.of_cons, ?_⟩
  rw [← nested.outermost, List.getLast?_cons_cons]

/-- The outermost level is never closed. -/
theorem Nested.dropWhile (nested : levels.Nested) (level : Nat) :
    Nested (levels.dropWhile (level < ·)) := by
  induction levels with
  | nil => cases nested.outermost
  | cons top outer ih =>
    by_cases deeper : level < top
    · rw [List.dropWhile_cons_of_pos (by simpa using deeper)]
      refine ih (nested.of_cons ?_)
      rintro rfl
      cases nested.outermost
      exact absurd deeper (Nat.not_lt_zero level)
    · rw [List.dropWhile_cons_of_neg (by simpa using deeper)]
      exact nested

theorem closeTo_eq (levels : Levels) (level : Nat) :
    closeTo level levels = ((levels.takeWhile (level < ·)).length,
      levels.dropWhile (level < ·)) := by
  induction levels with
  | nil => rfl
  | cons top outer ih =>
    by_cases deeper : level < top
    · rw [closeTo, if_pos deeper, ih, List.takeWhile_cons_of_pos (by simpa using deeper),
        List.dropWhile_cons_of_pos (by simpa using deeper), List.length_cons]
    · rw [closeTo, if_neg deeper, List.takeWhile_cons_of_neg (by simpa using deeper),
        List.dropWhile_cons_of_neg (by simpa using deeper), List.length_nil]

/-- What a line at a level does to nested levels. -/
inductive Leads (levels : Levels) (level : Nat) : Move → Prop
  | deeper : levels.current < level → Nested (level :: levels) →
      Leads levels level (.deeper (level :: levels))
  | level : levels.current = level → Leads levels level .level
  | outward {inner outer : Levels} : levels = inner ++ outer →
      (∀ found ∈ inner, level < found) → outer.Nested → outer.current = level →
      Leads levels level (.outward inner.length outer)
  | misfit : level < levels.current → level ∉ levels → Leads levels level .misfit

theorem Nested.leads (nested : levels.Nested) (level : Nat) :
    Leads levels level (levels.move level) := by
  rw [move]
  by_cases deeper : levels.current < level
  · rw [if_pos deeper]
    exact .deeper deeper (nested.cons deeper)
  rw [if_neg deeper]
  by_cases outer : level < levels.current
  · rw [if_pos outer, closeTo_eq]
    have whole := @List.takeWhile_append_dropWhile _ (level < ·) levels
    have closed : ∀ found ∈ levels.takeWhile (level < ·), level < found :=
      fun found inside => by simpa using List.mem_takeWhile_imp inside
    have left := nested.dropWhile level
    have stops := List.head?_dropWhile_not (level < ·) levels
    generalize levels.takeWhile (level < ·) = inner at *
    generalize levels.dropWhile (level < ·) = around at *
    rcases left.exists_cons with ⟨top, outermost, rfl⟩
    have reached : top ≤ level := Nat.le_of_not_lt (of_decide_eq_false stops)
    dsimp only
    by_cases between : current (top :: outermost) < level
    · rw [if_pos between]
      refine .misfit outer fun inside => ?_
      rw [← whole] at inside
      rcases List.mem_append.mp inside with inside | inside
      · exact Nat.lt_irrefl level (closed level inside)
      · exact Nat.not_le_of_lt between (left.le_current level inside)
    · rw [if_neg between]
      have same := Nat.le_antisymm reached (Nat.le_of_not_lt between)
      exact .outward whole.symm closed left same
  · rw [if_neg outer]
    exact .level (Nat.le_antisymm (Nat.le_of_not_lt outer) (Nat.le_of_not_lt deeper))

/-- The end of the source stands at an open level. -/
theorem Nested.zero_mem (nested : levels.Nested) : 0 ∈ levels :=
  List.mem_of_getLast? nested.outermost

end Levels
end Manifest
