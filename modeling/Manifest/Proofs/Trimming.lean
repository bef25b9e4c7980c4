import Manifest.Text.Blank
import Mathlib.Data.List.TakeWhile

/-!
# Trimmed texts

Trimming takes away the blanks at the ends of a text, all of them and nothing else.
What is left neither begins nor ends with a blank.
-/

namespace Manifest
namespace Text

/-- A text stands between blanks in another one, and has no blanks at its own ends. -/
structure Trims (whole inside : List Char) : Prop where
  between : ∃ front behind, whole = front ++ inside ++ behind ∧
    (∀ blank ∈ front, isBlank blank = true) ∧ ∀ blank ∈ behind, isBlank blank = true
  begins : ∀ first, inside.head? = some first → isBlank first = false
  ends : ∀ last, inside.getLast? = some last → isBlank last = false

/-- Blanks are trimmed in front of a text. -/
theorem exists_trimStart (text : List Char) :
    ∃ blanks, text = blanks ++ trimStart text ∧ ∀ blank ∈ blanks, isBlank blank = true :=
  ⟨text.takeWhile isBlank, List.takeWhile_append_dropWhile.symm,
    fun _ inside => List.mem_takeWhile_imp inside⟩

/-- Blanks are trimmed behind a text. -/
theorem exists_trimEnd (text : List Char) :
    ∃ blanks, text = trimEnd text ++ blanks ∧ ∀ blank ∈ blanks, isBlank blank = true := by
  rcases exists_trimStart text.reverse with ⟨blanks, split, all⟩
  refine ⟨blanks.reverse, ?_, fun blank inside => all blank (List.mem_reverse.mp inside)⟩
  rw [trimEnd, ← List.reverse_append, ← trimStart, ← split, List.reverse_reverse]

theorem isPrefix_trimEnd (text : List Char) : trimEnd text <+: text := by
  rcases exists_trimEnd text with ⟨blanks, split, _⟩
  exact ⟨blanks, split.symm⟩

theorem isBlank_head_trimStart {text : List Char} {first : Char}
    (begins : (trimStart text).head? = some first) : isBlank first = false := by
  have other := List.head?_dropWhile_not isBlank text
  rw [← trimStart, begins] at other
  exact other

theorem isBlank_last_trimEnd {text : List Char} {last : Char}
    (ends : (trimEnd text).getLast? = some last) : isBlank last = false := by
  rw [trimEnd, List.getLast?_reverse] at ends
  exact isBlank_head_trimStart ends

theorem trims_trim (text : List Char) : Trims text (trim text) where
  between := by
    rcases exists_trimStart text with ⟨front, split, before⟩
    rcases exists_trimEnd (trimStart text) with ⟨behind, rest, after⟩
    refine ⟨front, behind, ?_, before, after⟩
    rw [List.append_assoc, trim, ← rest, ← split]
  begins := by
    intro first begins
    rcases isPrefix_trimEnd (trimStart text) with ⟨behind, split⟩
    have whole : (trimStart text).head? = some first := by
      rw [← split, List.head?_append, ← trim, begins]
      rfl
    exact isBlank_head_trimStart whole
  ends := fun _ ends => isBlank_last_trimEnd ends

end Text
end Manifest
