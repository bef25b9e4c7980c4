import Manifest.Proofs.Scan.Lines
import Manifest.Proofs.Scan.Misfits

/-!
# The margin of a line

A gap behind the content of a line says nothing.  The rules find the end of
what they read in different ways, by the next character, by the end of the
line or by trimming, but none of them can tell a gap in front of the line end
from the line end itself.
-/

namespace Manifest

namespace Text

variable {below line gap margin : List Char} {test : Char → Bool}

/-- A gap up to the end of a line, in front of what stands below. -/
def Margin (below margin : List Char) : Prop :=
  ∃ gap : List Char, gap.all isGap = true ∧ margin = gap ++ '\n' :: below

/-- The characters that a margin can begin with. -/
def edges : List Char := [' ', '\t', '\n']

/-- What is checked of every edge holds of an edge. -/
theorem forall_edges {holds : Char → Prop} [DecidablePred holds]
    (checked : edges.all (fun edge => decide (holds edge)) = true) : ∀ edge ∈ edges, holds edge :=
  fun edge known => of_decide_eq_true (List.all_eq_true.mp checked edge known)

theorem mem_edges_of_isGap {character : Char} (gap : isGap character = true) :
    character ∈ edges := by
  simp only [isGap, Bool.or_eq_true, beq_iff_eq] at gap
  rcases gap with rfl | rfl <;> decide

theorem margin_newline (below : List Char) : Margin below ('\n' :: below) :=
  ⟨[], rfl, rfl⟩

theorem newline_notMem_of_gap (all : gap.all isGap = true) : '\n' ∉ gap := by
  intro inside
  cases List.all_eq_true.mp all _ inside

namespace Margin

theorem head (stands : Margin below margin) : ∃ first more, margin = first :: more ∧
    first ∈ edges := by
  rcases stands with ⟨gap, all, rfl⟩
  cases gap with
  | nil => exact ⟨'\n', below, rfl, by decide⟩
  | cons first gap =>
    rw [List.all_cons, Bool.and_eq_true] at all
    exact ⟨first, gap ++ '\n' :: below, rfl, mem_edges_of_isGap all.1⟩

/-- The line in front of a margin. -/
theorem line_append (stands : Margin below margin) (inner : '\n' ∉ line) :
    ∃ gap : List Char, gap.all isGap = true ∧ Text.line (line ++ margin) = line ++ gap := by
  rcases stands with ⟨gap, all, rfl⟩
  refine ⟨gap, all, ?_⟩
  rw [← List.append_assoc]
  refine Text.line_append (fun inside => ?_) below
  exact (List.mem_append.mp inside).elim inner (newline_notMem_of_gap all)

/-! ## What reads up to a margin -/

/-- A run of characters ends in front of a margin. -/
theorem takeWhile_append (stands : Margin below margin) (stops : ∀ edge ∈ edges, test edge = false)
    (line : List Char) : (line ++ margin).takeWhile test = line.takeWhile test ∧
      (line ++ margin).dropWhile test = line.dropWhile test ++ margin := by
  rcases stands.head with ⟨edge, more, rfl, known⟩
  induction line with
  | nil =>
    have stop := Bool.eq_false_iff.mp (stops edge known)
    exact ⟨List.takeWhile_cons_of_neg stop, List.dropWhile_cons_of_neg stop⟩
  | cons first line ih =>
    rw [List.cons_append]
    cases passes : test first with
    | true =>
      rw [List.takeWhile_cons_of_pos passes, List.takeWhile_cons_of_pos passes,
        List.dropWhile_cons_of_pos passes, List.dropWhile_cons_of_pos passes, ih.1]
      exact ⟨rfl, ih.2⟩
    | false =>
      have fails := Bool.eq_false_iff.mp passes
      rw [List.takeWhile_cons_of_neg fails, List.takeWhile_cons_of_neg fails,
        List.dropWhile_cons_of_neg fails, List.dropWhile_cons_of_neg fails]
      exact ⟨rfl, rfl⟩

/-- A text without gaps and line ends begins a line or does not, whatever its margin. -/
theorem isPrefixOf_append (stands : Margin below margin) {text : List Char}
    (apart : ∀ edge ∈ edges, edge ∉ text) (line : List Char) :
    text.isPrefixOf (line ++ margin) = text.isPrefixOf line := by
  induction text generalizing line with
  | nil => rfl
  | cons first text ih =>
    cases line with
    | nil =>
      rcases stands.head with ⟨edge, more, rfl, known⟩
      have other : (first == edge) = false :=
        beq_eq_false_iff_ne.mpr fun same => apart edge known (same ▸ List.mem_cons_self)
      rw [List.nil_append, List.isPrefixOf_cons_cons, other, Bool.false_and]
      rfl
    | cons character line =>
      rw [List.cons_append, List.isPrefixOf_cons_cons, List.isPrefixOf_cons_cons,
        ih (fun edge known inside => apart edge known (List.mem_cons_of_mem _ inside))]

theorem symbolText_append (stands : Margin below margin) (line : List Char) :
    symbolText (line ++ margin) = symbolText line := by
  rcases stands.head with ⟨edge, more, rfl, known⟩
  have foreign : ∀ edge ∈ edges, isSymbolChar edge = false ∧ edge ≠ '>' := forall_edges (by decide)
  rcases foreign edge known with ⟨ends, noArrow⟩
  fun_induction symbolText line with
  | case1 =>
    unfold symbolText
    split
    · rfl
    · rfl
    · rename_i character rest _ found
      cases found
      exact if_neg (by rw [ends]; exact Bool.false_ne_true)
  | case2 rest => rfl
  | case3 character rest notArrow inner ih =>
    rw [List.cons_append, symbolText.eq_3, if_pos inner, ih]
    intro behind hyphen arrow
    cases rest with
    | nil => exact noArrow (List.cons.inj arrow).1
    | cons next rest =>
      exact notArrow rest hyphen (congrArg (· :: rest) (List.cons.inj arrow).1)
  | case4 character rest notArrow outer =>
    rw [List.cons_append]
    unfold symbolText
    split
    · rfl
    · rfl
    · rename_i found
      cases found
      exact if_neg outer

/-- A test of the next character, if there is one, that every edge passes. -/
theorem head?_all (stands : Margin below margin) (passes : ∀ edge ∈ edges, test edge = true)
    (line : List Char) : (line ++ margin).head?.all test = line.head?.all test := by
  rcases stands.head with ⟨edge, more, rfl, known⟩
  cases line with
  | nil => exact passes edge known
  | cons first line => rfl

theorem head?_any (stands : Margin below margin) (fails : ∀ edge ∈ edges, test edge = false)
    (line : List Char) : (line ++ margin).head?.any test = line.head?.any test := by
  rcases stands.head with ⟨edge, more, rfl, known⟩
  cases line with
  | nil => exact fails edge known
  | cons first line => rfl

end Margin

/-! ## What is trimmed -/

theorem trimEnd_append_gap (text : List Char) (all : gap.all isGap = true) :
    trimEnd (text ++ gap) = trimEnd text := by
  have blank : ∀ character ∈ gap.reverse, isBlank character = true := fun character inside =>
    isBlank_of_isGap (List.all_eq_true.mp all _ (List.mem_reverse.mp inside))
  rw [trimEnd, List.reverse_append, List.dropWhile_append_of_pos blank, trimEnd]

theorem trimStart_gap (all : gap.all isGap = true) : trimStart gap = [] :=
  List.dropWhile_eq_nil_iff.mpr fun _ inside =>
    isBlank_of_isGap (List.all_eq_true.mp all _ inside)

theorem trimStart_append_gap (text : List Char) (all : gap.all isGap = true) :
    trimStart (text ++ gap) = if trimStart text = [] then [] else trimStart text ++ gap := by
  rw [trimStart, List.dropWhile_append, ← trimStart]
  by_cases blank : trimStart text = []
  · rw [if_pos blank, if_pos (List.isEmpty_iff.mpr blank)]
    exact trimStart_gap all
  · rw [if_neg blank, if_neg fun empty => blank (List.isEmpty_iff.mp empty)]

theorem head?_trimStart_append_gap (text : List Char) (all : gap.all isGap = true) :
    (trimStart (text ++ gap)).head? = (trimStart text).head? := by
  rw [trimStart_append_gap text all]
  split
  · rename_i blank
    rw [blank]
  · rename_i some
    exact List.head?_append_of_ne_nil _ some

theorem trim_append_gap (text : List Char) (all : gap.all isGap = true) :
    trim (text ++ gap) = trim text := by
  rw [trim, trimStart_append_gap text all, trim]
  split
  · rename_i blank
    rw [blank]
  · exact trimEnd_append_gap _ all

/-- The text up to a comment, without what is blank in front of the comment. -/
theorem trimEnd_uncommented (text : List Char) (all : gap.all isGap = true) :
    trimEnd ((text ++ gap).takeWhile (· ≠ '#')) = trimEnd (text.takeWhile (· ≠ '#')) := by
  have plain : ∀ character ∈ gap, decide (character ≠ '#') = true := by
    rintro character inside
    refine decide_eq_true ?_
    rintro rfl
    cases List.all_eq_true.mp all _ inside
  rw [List.takeWhile_append]
  split
  · rename_i whole
    have same : text.takeWhile (· ≠ '#') = text :=
      (List.takeWhile_prefix _).eq_of_length whole
    rw [List.takeWhile_eq_self_iff.mpr plain, same]
    exact trimEnd_append_gap text all
  · rfl

end Text

/-! ## Numerals -/

namespace Scalar

/-- Digits with a point and more digits, behind a sign. -/
def splitUnsigned (sign unsigned : List Char) : Option (List Char × List Char) :=
  let whole := unsigned.takeWhile Text.isDigit
  let rest := unsigned.dropWhile Text.isDigit
  if whole.isEmpty then none
  else
    match rest with
    | '.' :: behind =>
        let fraction := behind.takeWhile Text.isDigit
        if fraction.isEmpty then some (sign ++ whole, rest)
        else some (sign ++ whole ++ '.' :: fraction, behind.dropWhile Text.isDigit)
    | _ => some (sign ++ whole, rest)

theorem splitNumeral_hyphen (unsigned : List Char) :
    splitNumeral ('-' :: unsigned) = splitUnsigned ['-'] unsigned := rfl

theorem splitNumeral_unsigned {text : List Char} (other : text.head? ≠ some '-') :
    splitNumeral text = splitUnsigned [] text := by
  have noHyphen : ∀ rest, text ≠ '-' :: rest := fun rest same => other (same ▸ rfl)
  rw [splitNumeral.eq_def]
  split
  rename_i sign unsigned found
  split at found
  · exact absurd rfl (noHyphen _)
  · cases found
    rfl

variable {below margin : List Char}

theorem splitUnsigned_append (stands : Text.Margin below margin) (sign line : List Char) :
    splitUnsigned sign (line ++ margin) =
      (splitUnsigned sign line).map fun (numeral, behind) => (numeral, behind ++ margin) := by
  have noDigit : ∀ edge ∈ Text.edges, Text.isDigit edge = false := Text.forall_edges (by decide)
  have run := stands.takeWhile_append noDigit
  rw [splitUnsigned, splitUnsigned]
  dsimp only
  rw [(run line).1, (run line).2]
  split
  · rfl
  · generalize line.dropWhile Text.isDigit = behind
    rcases behind with _ | ⟨first, behind⟩
    · rcases stands.head with ⟨edge, more, rfl, known⟩
      have noPoint : ∀ edge ∈ Text.edges, edge ≠ '.' := Text.forall_edges (by decide)
      rw [List.nil_append]
      split
      · rename_i found
        exact absurd (List.cons.inj found).1 (noPoint edge known)
      · rfl
    · by_cases point : first = '.'
      · subst point
        rw [List.cons_append]
        split
        · rename_i found
          cases found
          rw [(run behind).1, (run behind).2]
          split <;> rfl
        · rename_i noPoint
          exact absurd rfl (noPoint _)
      · rw [List.cons_append]
        split
        · rename_i found
          exact absurd (List.cons.inj found).1 point
        · split
          · rename_i found
            exact absurd (List.cons.inj found).1 point
          · rfl

/-- A numeral ends in front of a margin. -/
theorem splitNumeral_append (stands : Text.Margin below margin) (line : List Char) :
    splitNumeral (line ++ margin) =
      (splitNumeral line).map fun (numeral, behind) => (numeral, behind ++ margin) := by
  by_cases hyphen : line.head? = some '-'
  · rcases List.head?_eq_some_iff.mp hyphen with ⟨unsigned, rfl⟩
    rw [List.cons_append, splitNumeral_hyphen, splitNumeral_hyphen]
    exact splitUnsigned_append stands _ unsigned
  · have other : (line ++ margin).head? ≠ some '-' := by
      cases line with
      | nil =>
        rcases stands.head with ⟨edge, more, rfl, known⟩
        rintro same
        cases same
        revert known
        decide
      | cons first line => exact hyphen
    rw [splitNumeral_unsigned hyphen, splitNumeral_unsigned other]
    exact splitUnsigned_append stands _ line

end Scalar

/-! ## Quotes -/

variable {gap : List Char}

/-- No string is closed in a gap. -/
theorem readQuoted_gap {quote : Char} (isQuote : quote ∉ Text.edges)
    (all : gap.all Text.isGap = true) : readQuoted quote gap = none := by
  induction gap with
  | nil => rfl
  | cons first gap ih =>
    rw [List.all_cons, Bool.and_eq_true] at all
    have edge := Text.mem_edges_of_isGap all.1
    have other : first ≠ quote := fun same => isQuote (same ▸ edge)
    have plain : ¬ (decide (first = '\\') && decide (quote = '"')) = true := by
      have noEscape : ∀ edge ∈ Text.edges, edge ≠ '\\' := Text.forall_edges (by decide)
      simp [noEscape first edge]
    rw [readQuoted.eq_def]
    dsimp only
    rw [if_neg other, if_neg plain, ih all.2]
    rfl

/-- The string that is closed on a line is the same with a gap behind it, and
what is not closed stays open. -/
theorem readQuoted_append_gap {quote : Char} (isQuote : quote ∉ Text.edges)
    (all : gap.all Text.isGap = true) (line : List Char) :
    readQuoted quote (line ++ gap) =
      (readQuoted quote line).map fun read => (read.1, read.2 ++ gap) := by
  induction line using readQuoted.induct quote with
  | case1 => exact readQuoted_gap isQuote all
  | case2 =>
    rw [List.singleton_append, readQuoted.eq_def, readQuoted.eq_def]
    dsimp only
    rw [if_pos rfl, if_pos rfl]
    cases gap with
    | nil => rfl
    | cons first gap =>
      rw [List.all_cons, Bool.and_eq_true] at all
      have edge := Text.mem_edges_of_isGap all.1
      have noQuote : ∀ edge ∈ Text.edges, edge ≠ '\'' := Text.forall_edges (by decide)
      dsimp only
      rw [if_neg (by simp [noQuote first edge])]
      rfl
  | case3 next behind doubled ih =>
    rw [List.cons_append, List.cons_append, readQuoted, if_pos rfl, if_pos doubled, ih, readQuoted,
      if_pos rfl, if_pos doubled]
    cases readQuoted quote behind <;> rfl
  | case4 next behind single =>
    rw [List.cons_append, List.cons_append, readQuoted, if_pos rfl, if_neg single, readQuoted,
      if_pos rfl, if_neg single]
    rfl
  | case5 character other escape =>
    rw [List.singleton_append, readQuoted, if_neg other, if_pos escape]
    cases gap with
    | nil => rw [readQuoted, if_neg other, if_pos escape]; rfl
    | cons first gap =>
      rw [List.all_cons, Bool.and_eq_true] at all
      rw [readQuoted, if_neg other, if_pos escape, readQuoted_gap isQuote all.2]
      rfl
  | case6 character other escape escaped behind ih =>
    rw [List.cons_append, List.cons_append, readQuoted, if_neg other, if_pos escape, ih, readQuoted,
      if_neg other, if_pos escape]
    cases readQuoted quote behind <;> rfl
  | case7 character rest other plain ih =>
    rw [List.cons_append, readQuoted.eq_def, readQuoted.eq_def]
    dsimp only
    rw [if_neg other, if_neg plain, if_neg other, if_neg plain, ih]
    cases readQuoted quote rest <;> rfl

/-- A gap holds no assignment. -/
theorem holdsAssignment_gap (all : gap.all Text.isGap = true) (quote : Option Char) :
    holdsAssignment quote gap = false := by
  induction gap generalizing quote with
  | nil => cases quote <;> rfl
  | cons first gap ih =>
    rw [List.all_cons, Bool.and_eq_true] at all
    have edge := Text.mem_edges_of_isGap all.1
    have plain : ∀ edge ∈ Text.edges,
        edge ≠ '"' ∧ edge ≠ '\'' ∧ edge ≠ '#' ∧ edge ≠ ':' := Text.forall_edges (by decide)
    rcases plain first edge with ⟨noDouble, noQuote, noComment, noColon⟩
    cases quote with
    | some quote => exact ih all.2 _
    | none =>
      rw [holdsAssignment, if_neg (by simp [noDouble, noQuote]), if_neg noComment,
        if_neg (by simp [noColon])]
      exact ih all.2 none

theorem holdsAssignment_append_gap (all : gap.all Text.isGap = true) (quote : Option Char)
    (line : List Char) : holdsAssignment quote (line ++ gap) = holdsAssignment quote line := by
  induction line generalizing quote with
  | nil => rw [List.nil_append, holdsAssignment_gap all]; cases quote <;> rfl
  | cons first line ih =>
    cases quote with
    | some quote => exact ih _
    | none =>
      -- a sign at the end of the line has a gap behind it, or nothing
      have next : (line ++ gap).head?.all (fun next => Text.isGap next || next == '=') =
          line.head?.all (fun next => Text.isGap next || next == '=') := by
        cases line with
        | cons next line => rfl
        | nil =>
          cases gap with
          | nil => rfl
          | cons edge gap =>
            rw [List.all_cons, Bool.and_eq_true] at all
            exact Bool.or_eq_true_iff.mpr (.inl all.1)
      rw [List.cons_append, holdsAssignment, holdsAssignment, next, ih, ih]

end Manifest
