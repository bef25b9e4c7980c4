import Manifest.CommandLine.Run

/-!
# How written values end

A run prints a value without the blanks at the end of its text.  Nothing is lost
by that where the text ends with a character that is no blank.  In JSON every
text does: it ends with a quote, a bracket, a letter or a digit.
-/

namespace Manifest

/-- The last character of a text is no blank. -/
def Solid (text : String) : Prop :=
  ∃ last, text.toList.getLast? = some last ∧ Text.isBlank last = false

variable {text : String}

namespace Solid

theorem behind (front : String) (solid : Solid text) : Solid (front ++ text) := by
  rcases solid with ⟨last, ends, noBlank⟩
  refine ⟨last, ?_, noBlank⟩
  rw [String.toList_append, List.getLast?_append, ends]
  rfl

theorem of_last {front : List Char} {last : Char} (noBlank : Text.isBlank last = false) :
    Solid (String.ofList (front ++ [last])) :=
  ⟨last, by rw [String.toList_ofList, List.getLast?_concat], noBlank⟩

end Solid

/-! ## Numbers -/

theorem isBlank_of_isDigit {character : Char} (digit : character.isDigit = true) :
    Text.isBlank character = false := by
  simp only [Char.isDigit, Bool.and_eq_true, decide_eq_true_eq] at digit
  have low : 48 ≤ character.toNat := digit.1
  have high : character.toNat ≤ 57 := digit.2
  simp only [Text.isBlank, Text.blankRanges, List.any_cons, List.any_nil, Bool.or_eq_false_iff,
    Bool.and_eq_false_iff, decide_eq_false_iff_not, and_true]
  omega

/-- Texts whose last character is a digit. -/
theorem solid_of_digit {characters : List Char} {last : Char}
    (ends : characters.getLast? = some last) (digit : last.isDigit = true) :
    Solid (String.ofList characters) :=
  ⟨last, by rw [String.toList_ofList, ends], isBlank_of_isDigit digit⟩

theorem exists_last_digit (number : Nat) :
    ∃ last, (toString number).toList.getLast? = some last ∧ last.isDigit = true := by
  rw [Nat.toString_eq_ofList_toDigits, String.toList_ofList]
  cases ends : (Nat.toDigits 10 number).getLast? with
  | none => exact absurd (List.getLast?_eq_none_iff.mp ends) Nat.toDigits_ne_nil
  | some last =>
    exact ⟨last, rfl, Nat.isDigit_of_mem_toDigits (by decide) (by decide)
      (List.mem_of_getLast? ends)⟩

theorem solid_toString (number : Nat) : Solid (toString number) := by
  rcases exists_last_digit number with ⟨last, ends, digit⟩
  exact ⟨last, ends, isBlank_of_isDigit digit⟩

namespace Decimal

theorem solid_positionalText (keepsPoint : Bool) (decimal : Decimal) :
    Solid (decimal.positionalText keepsPoint) := by
  rcases exists_last_digit decimal.digits with ⟨last, ends, digit⟩
  change decimal.figures.getLast? = some last at ends
  rw [positionalText]
  split
  · cases keepsPoint with
    | true => exact Solid.behind _ ⟨'0', rfl, by decide⟩
    | false =>
      rw [if_neg Bool.false_ne_true, String.append_empty]
      cases zeros : (List.replicate decimal.power.toNat '0').getLast? with
      | none =>
        refine @solid_of_digit _ last ?_ digit
        rw [List.getLast?_append, zeros, ends]
        rfl
      | some zero =>
        refine @solid_of_digit _ zero ?_ ?_
        · rw [List.getLast?_append, zeros]
          rfl
        · rw [(List.mem_replicate.mp (List.mem_of_getLast? zeros)).2]
          decide
  · split
    · rename_i negative inside
      refine @solid_of_digit _ last ?_ digit
      rw [List.getLast?_append, List.getLast?_cons, List.getLast?_drop, if_neg (by omega), ends]
      rfl
    · refine @solid_of_digit _ last ?_ digit
      rw [List.getLast?_append, ends]
      rfl

theorem solid_scientificText (exponentSign : String) (decimal : Decimal) :
    Solid (decimal.scientificText exponentSign) :=
  (solid_toString _).behind _

end Decimal

theorem Number.solid_spell {spelling : Spelling} (infinity : Solid spelling.infinity)
    (number : Number) : Solid (number.spell spelling) := by
  rw [spell]
  refine Solid.behind _ ?_
  split
  · dsimp only
    split
    · exact Decimal.solid_positionalText _ _
    · exact Decimal.solid_scientificText _ _
  · exact infinity

theorem Json.solid_numeral {spelling : Spelling} (infinity : Solid spelling.infinity)
    (number : Number) : Solid (numeral spelling number) := by
  rw [numeral]
  split
  · exact (solid_toString _).behind _
  · exact number.solid_spell infinity

/-! ## JSON -/

namespace Json

theorem solid_numberText (number : Number) : Solid (numberText number) := by
  rw [numberText]
  split
  · exact solid_numeral ⟨'l', rfl, by decide⟩ number
  · exact ⟨'l', rfl, by decide⟩

theorem solid_quote (content : String) : Solid (quote content) := by
  rw [quote]
  exact @Solid.of_last ('"' :: content.toList.flatMap escape) '"' (by decide)

/-- Every text of a value ends with a character that is no blank. -/
theorem solid_indented (depth : Nat) (value : Value) : Solid (indented depth value) := by
  fun_cases indented depth value with
  | case1 => exact ⟨']', rfl, by decide⟩
  | case2 items _ => exact Solid.behind _ ⟨']', rfl, by decide⟩
  | case3 => exact ⟨'\x7d', rfl, by decide⟩
  | case4 fields _ => exact Solid.behind _ ⟨'\x7d', rfl, by decide⟩
  | case5 => exact ⟨'l', rfl, by decide⟩
  | case6 content => exact solid_quote content
  | case7 number => exact solid_numberText number
  | case8 => exact ⟨'e', rfl, by decide⟩
  | case9 => exact ⟨'e', rfl, by decide⟩

end Json

/-! ## Printing -/

namespace Text

theorem trimEnd_concat_of_isBlank {front : List Char} {last : Char} (blank : isBlank last = true) :
    trimEnd (front ++ [last]) = trimEnd front := by
  rw [trimEnd, trimEnd, List.reverse_append, List.reverse_singleton, List.singleton_append,
    List.dropWhile_cons_of_pos blank]

/-- A text is what is left of it if there is no blank at its end. -/
theorem trimEnd_eq_self_iff {text : List Char} :
    trimEnd text = text ↔ ∀ last, text.getLast? = some last → isBlank last = false := by
  rw [trimEnd, List.reverse_eq_iff, List.getLast?_eq_head?_reverse]
  cases text.reverse with
  | nil => simp
  | cons last front =>
    rw [List.head?_cons]
    cases blank : isBlank last with
    | true =>
      rw [List.dropWhile_cons_of_pos blank]
      constructor
      · intro same
        have shorter := (List.dropWhile_sublist isBlank (l := front)).length_le
        rw [same, List.length_cons] at shorter
        omega
      · intro solid
        rw [solid last rfl] at blank
        cases blank
    | false =>
      rw [List.dropWhile_cons_of_neg (by rw [blank]; exact Bool.false_ne_true)]
      refine ⟨fun _ _ same => ?_, fun _ => rfl⟩
      cases same
      exact blank

end Text

namespace CommandLine

/-- A text is printed as it is if it ends with a line feed behind a character
that is no blank, or consists of the line feed. -/
theorem printed_eq_self_iff :
    printed text = text ↔ ∃ front : String, text = front ++ "\n" ∧
      ∀ last, front.toList.getLast? = some last → Text.isBlank last = false := by
  constructor
  · intro same
    refine ⟨String.ofList (Text.trimEnd text.toList), same.symm, ?_⟩
    rw [String.toList_ofList]
    refine Text.trimEnd_eq_self_iff.mp ?_
    have once := congrArg (fun text => Text.trimEnd text.toList) same
    rw [printed, String.toList_append, String.toList_ofList] at once
    exact (Text.trimEnd_concat_of_isBlank (by decide)).symm.trans once
  · rintro ⟨front, rfl, solid⟩
    rw [printed, String.toList_append, show "\n".toList = ['\n'] from rfl,
      Text.trimEnd_concat_of_isBlank (by decide), Text.trimEnd_eq_self_iff.mpr solid,
      String.ofList_toList]

/-- A line feed is printed behind a text that ends with no blank. -/
theorem printed_of_solid (solid : Solid text) : printed text = text ++ "\n" := by
  rcases solid with ⟨last, ends, noBlank⟩
  have kept : Text.trimEnd text.toList = text.toList := by
    refine Text.trimEnd_eq_self_iff.mpr fun other same => ?_
    cases ends.symm.trans same
    exact noBlank
  rw [printed, kept, String.ofList_toList]

end CommandLine
end Manifest
