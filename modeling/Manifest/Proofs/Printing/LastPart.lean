import Manifest.Proofs.Printing.Ends

/-!
# What stands last in YAML

The text of a value ends with the text of its last part, which is a scalar or an
empty container.  Only two ways to write a string show its own end: a plain
string, and a block.  There the blanks at the end of the string are blanks at
the end of the text, and printing takes them away.
-/

namespace Manifest

mutual
/-- The part of a value that is written last. -/
def Value.lastPart : Value → Value
  | .sequence items => lastItem items
  | .mapping fields => lastField fields
  | other => other

def lastItem : List Value → Value
  | [] => .sequence []
  | [item] => item.lastPart
  | _ :: rest => lastItem rest

def lastField : List (String × Value) → Value
  | [] => .mapping []
  | [(_, value)] => value.lastPart
  | _ :: rest => lastField rest
end

/-- A text without the line feed that it may end with. -/
def Text.withoutFeed (text : List Char) : List Char :=
  if text.getLast? = some '\n' then text.dropLast else text

namespace Yaml

/-- The text of a part that is written last. -/
def partText (place : Place) (indent : Nat) : Value → String
  | .unit => "null"
  | .boolean truth => if truth then "true" else "false"
  | .number number => numberText number
  | .text content => textIn false place indent content
  | .sequence _ => "[]"
  | .mapping _ => "\x7b\x7d"

/-- Whether a string that is written last ends with blanks that printing takes
away.  A line feed at the very end of a block comes back. -/
def losesBlanks (content : String) : Bool :=
  match styleOf false content.toList with
  | .plain | .block => (Text.withoutFeed content.toList).getLast?.all Text.isBlank
  | .single | .double => false

mutual
/-- The text of a value ends with the text of its last part. -/
theorem write_ends (written : String) (indent : Nat) (place : Place) : (value : Value) →
    ∃ front where_ column, write written indent place value =
      front ++ partText where_ column value.lastPart
  | .unit => ⟨written ++ gap place, place, indent, rfl⟩
  | .boolean _ => ⟨written ++ gap place, place, indent, rfl⟩
  | .number _ => ⟨written ++ gap place, place, indent, rfl⟩
  | .text _ => ⟨written ++ gap place, place, indent, rfl⟩
  | .sequence [] => ⟨written ++ gap place, place, indent, rfl⟩
  | .mapping [] => ⟨written ++ gap place, place, indent, rfl⟩
  | .sequence (item :: rest) => writeItems_ends _ _ (item :: rest) (List.cons_ne_nil item rest)
  | .mapping (field :: rest) => writeFields_ends _ _ (field :: rest) (List.cons_ne_nil field rest)

theorem writeItems_ends (written : String) (column : Nat) : (items : List Value) → items ≠ [] →
    ∃ front where_ indent, writeItems written column items =
      front ++ partText where_ indent (lastItem items)
  | [item], _ => write_ends _ column .item item
  | _ :: next :: rest, _ => writeItems_ends _ column (next :: rest) (List.cons_ne_nil next rest)

theorem writeFields_ends (written : String) (column : Nat) :
    (fields : List (String × Value)) → fields ≠ [] →
    ∃ front where_ indent, writeFields written column fields =
      front ++ partText where_ indent (lastField fields)
  | [(_, value)], _ => write_ends _ column _ value
  | _ :: next :: rest, _ => writeFields_ends _ column (next :: rest) (List.cons_ne_nil next rest)
end

/-! ## The end of a string -/

variable {content written front : String} {last : Char}

theorem isBlank_of_isBreak (breaks : isBreak last = true) : Text.isBlank last = true := by
  simp only [isBreak, Bool.or_eq_true, beq_iff_eq] at breaks
  rcases breaks with (((rfl | rfl) | rfl) | rfl) | rfl <;> decide

theorem getLast?_indentLines (indent : Nat) (atStart : Bool) (text : List Char) :
    (indentLines indent atStart text).getLast? = text.getLast? := by
  induction text generalizing atStart with
  | nil => rfl
  | cons character rest ih =>
    rw [indentLines]
    split
    · rw [List.getLast?_cons, List.getLast?_cons, ih]
    · rw [List.getLast?_append, List.getLast?_cons, List.getLast?_cons, ih]
      rfl

/-- A string that is shown with its own end. -/
theorem getLast?_textIn (place : Place) (indent : Nat)
    (shown : styleOf false content.toList = .plain ∨ styleOf false content.toList = .block)
    (ends : content.toList.getLast? = some last) :
    (textIn false place indent content).toList.getLast? = some last := by
  rw [textIn, String.toList_ofList]
  rcases shown with plain | block
  · rw [plain]
    exact ends
  · rw [block, writeText, List.getLast?_append, List.getLast?_cons, getLast?_indentLines, ends]
    rfl

/-- A string between quotes. -/
theorem solid_textIn (place : Place) (indent : Nat)
    (quoted : styleOf false content.toList = .single ∨ styleOf false content.toList = .double) :
    Solid (textIn false place indent content) := by
  rw [textIn]
  rcases quoted with single | double
  · rw [single, writeText]
    exact .of_last (by decide)
  · rw [double, writeText]
    exact @Solid.of_last ('"' :: content.toList.flatMap escape) '"' (by decide)

theorem getLast?_ne_none (shown : styleOf false content.toList = .plain ∨
    styleOf false content.toList = .block) : content.toList.getLast? ≠ none := by
  intro empty
  rw [List.getLast?_eq_none_iff.mp empty] at shown
  exact absurd shown (by decide)

/-! ## The end of a text -/

theorem back_of_last (ends : written.toList.getLast? = some last) : written.back = last := by
  rw [String.back_eq, String.back?_eq, ends, Option.getD_some]

theorem startLine_of_last (ends : written.toList.getLast? = some last)
    (noBreak : isBreak last = false) : startLine written 0 = written ++ "\n" := by
  have nonempty : written.isEmpty = false := by
    rw [String.isEmpty_eq_false_iff]
    rintro rfl
    cases ends
  rw [startLine, back_of_last ends, noBreak, nonempty]
  exact String.append_empty

theorem startLine_of_break (ends : written.toList.getLast? = some last)
    (breaks : isBreak last = true) : startLine written 0 = written := by
  rw [startLine, back_of_last ends, breaks, Bool.or_true]
  exact String.append_empty

end Yaml

namespace CommandLine

theorem printed_concat_iff {front : String} :
    printed (front ++ "\n") = front ++ "\n" ↔
      ∀ last, front.toList.getLast? = some last → Text.isBlank last = false := by
  rw [printed_eq_self_iff]
  constructor
  · rintro ⟨other, same, solid⟩
    cases String.append_left_inj "\n" |>.mp same
    exact solid
  · exact fun solid => ⟨front, rfl, solid⟩

end CommandLine

namespace Yaml

open CommandLine (printed printed_concat_iff printed_eq_self_iff printed_of_solid)

theorem losesBlanks_of_shown (shown : styleOf false content.toList = .plain ∨
    styleOf false content.toList = .block) :
    losesBlanks content = (Text.withoutFeed content.toList).getLast?.all Text.isBlank := by
  rw [losesBlanks]
  rcases shown with style | style <;> rw [style]

theorem losesBlanks_of_quoted (quoted : styleOf false content.toList = .single ∨
    styleOf false content.toList = .double) : losesBlanks content = false := by
  rw [losesBlanks]
  rcases quoted with style | style <;> rw [style]

/-- A string that holds a line feed is not shown plainly. -/
theorem styleOf_of_feed {text : List Char} (feed : '\n' ∈ text) : styleOf false text ≠ .plain := by
  rw [styleOf, if_pos (List.contains_iff_mem.mpr feed)]
  split <;> simp

theorem indentLines_append (indent : Nat) (atStart : Bool) (text : List Char) :
    indentLines indent atStart (text ++ ['\n']) = indentLines indent atStart text ++ ['\n'] := by
  induction text generalizing atStart with
  | nil => rfl
  | cons character rest ih =>
    rw [List.cons_append, indentLines, indentLines]
    split
    · rw [ih, List.cons_append]
    · rw [ih, List.append_assoc, List.cons_append]

/-- The block of a string that ends with a line feed ends with that line feed,
and in front of it stands what ends the string otherwise. -/
theorem textIn_concat_feed (place : Place) (indent : Nat) {text : List Char}
    (block : styleOf false (text ++ ['\n']) = .block) :
    ∃ shown : String, textIn false place indent (String.ofList (text ++ ['\n'])) = shown ++ "\n" ∧
      shown.toList.getLast? = some (text.getLast?.getD '\n') := by
  refine ⟨String.ofList ('|' :: blockHints (text ++ ['\n']) ++
    '\n' :: indentLines (textColumn place indent) true text), ?_, ?_⟩
  · rw [textIn, String.toList_ofList, block, writeText, indentLines_append, ← List.cons_append,
      ← List.append_assoc, String.ofList_append]
  · rw [String.toList_ofList, List.getLast?_append, List.getLast?_cons, getLast?_indentLines]
    rfl

/-- Printing keeps the text whose end is a string that is shown as it is just if
no blanks of the string are lost. -/
theorem printed_shown_iff (place : Place) (indent : Nat)
    (shown : styleOf false content.toList = .plain ∨ styleOf false content.toList = .block) :
    printed (startLine (front ++ textIn false place indent content) 0) =
        startLine (front ++ textIn false place indent content) 0 ↔
      losesBlanks content = false := by
  rw [losesBlanks_of_shown shown]
  obtain ⟨last, ends⟩ := Option.ne_none_iff_exists'.mp (getLast?_ne_none shown)
  have behind : (front ++ textIn false place indent content).toList.getLast? = some last := by
    rw [String.toList_append, List.getLast?_append, getLast?_textIn place indent shown ends]
    rfl
  cases breaks : isBreak last with
  | false =>
    have kept : Text.withoutFeed content.toList = content.toList := by
      rw [Text.withoutFeed, ends, if_neg]
      rintro ⟨⟩
      cases breaks
    rw [startLine_of_last behind breaks, printed_concat_iff, behind, kept, ends]
    exact ⟨fun solid => solid last rfl, fun noBlank _ same => Option.some.inj same ▸ noBlank⟩
  | true =>
    rw [startLine_of_break behind breaks]
    by_cases feed : last = '\n'
    · subst feed
      obtain ⟨text, whole⟩ := List.getLast?_eq_some_iff.mp ends
      have same : content = String.ofList (text ++ ['\n']) := by rw [← whole, String.ofList_toList]
      have block : styleOf false (text ++ ['\n']) = .block := by
        rw [whole] at shown
        exact shown.resolve_left (styleOf_of_feed (by simp))
      obtain ⟨lines, parts, last⟩ := textIn_concat_feed place indent block
      have kept : Text.withoutFeed content.toList = text := by
        rw [Text.withoutFeed, ends, if_pos rfl, whole, List.dropLast_concat]
      rw [kept, same, parts, ← String.append_assoc, printed_concat_iff, String.toList_append,
        List.getLast?_append, last, Option.some_or]
      have blank : Text.isBlank '\n' = true := by decide
      cases text.getLast? <;> simp [blank]
    · have lost : (Text.withoutFeed content.toList).getLast?.all Text.isBlank = true := by
        rw [Text.withoutFeed, ends, if_neg (feed ∘ Option.some.inj), ends]
        exact isBlank_of_isBreak breaks
      rw [lost, printed_eq_self_iff]
      refine ⟨?_, fun other => (nomatch other)⟩
      rintro ⟨other, whole, _⟩
      rw [whole, String.toList_append, List.getLast?_append] at behind
      exact absurd (Option.some.inj behind).symm feed

theorem solid_partText (place : Place) (indent : Nat) {part : Value}
    (quoted : ∀ content, part = .text content →
      styleOf false content.toList = .single ∨ styleOf false content.toList = .double) :
    Solid (partText place indent part) := by
  fun_cases partText place indent part with
  | case1 => exact ⟨'l', rfl, by decide⟩
  | case2 => exact ⟨'e', rfl, by decide⟩
  | case3 => exact ⟨'e', rfl, by decide⟩
  | case4 number => exact Json.solid_numeral ⟨'f', rfl, by decide⟩ number
  | case5 content => exact solid_textIn place indent (quoted content rfl)
  | case6 items => exact ⟨']', rfl, by decide⟩
  | case7 fields => exact ⟨'\x7d', rfl, by decide⟩

/-- The YAML text of a value is printed as it is just if its last part is no
string that loses blanks. -/
theorem printed_render_iff (value : Value) : printed (render value) = render value ↔
    ∀ content, value.lastPart = .text content → losesBlanks content = false := by
  obtain ⟨front, place, indent, ends⟩ := write_ends "" 0 .root value
  rw [render, ends]
  have whole : (∀ content, value.lastPart = .text content →
      styleOf false content.toList = .single ∨ styleOf false content.toList = .double) →
      printed (startLine (front ++ partText place indent value.lastPart) 0) =
        startLine (front ++ partText place indent value.lastPart) 0 := by
    intro quoted
    have solid := (solid_partText place indent quoted).behind front
    obtain ⟨last, behind, noBlank⟩ := solid
    rw [startLine_of_last behind (Bool.eq_false_iff.mpr fun breaks =>
      Bool.false_ne_true (noBlank.symm.trans (isBlank_of_isBreak breaks))), printed_concat_iff]
    exact fun _ same => Option.some.inj (behind.symm.trans same) ▸ noBlank
  cases part : value.lastPart with
  | text content =>
    rw [part] at whole
    by_cases quoted : styleOf false content.toList = .single ∨
        styleOf false content.toList = .double
    · refine iff_of_true (whole fun _ same => Value.text.inj same ▸ quoted) fun _ same => ?_
      exact losesBlanks_of_quoted (Value.text.inj same ▸ quoted)
    · have shown : styleOf false content.toList = .plain ∨
          styleOf false content.toList = .block := by
        cases style : styleOf false content.toList <;> simp_all
      rw [partText, printed_shown_iff place indent shown]
      exact ⟨fun kept _ same => Value.text.inj same ▸ kept, fun kept => kept content rfl⟩
  | unit | boolean _ | number _ | sequence _ | mapping _ =>
    rw [part] at whole
    exact iff_of_true (whole fun _ same => (nomatch same)) fun _ same => (nomatch same)

end Yaml
end Manifest
