import Mathlib.Data.List.Chain
import Mathlib.Data.List.Forall2
import Manifest.Proofs.Grammar.Blocks

/-!
# Section markers

The sections of a block are counted by the markers that stand directly in it.
While a block is read its markers are tallied against the sections that they have
ended, and nothing inside an expression is a marker.
-/

namespace Manifest

/-- What stands between the expressions of a block. -/
def Lexeme.isSeparator : Lexeme → Bool
  | newline _ | comment _ | sectionStart => true
  | _ => false

/-- What stands directly in a block and is no line break. -/
def essential (text : List Lexeme) : List Lexeme :=
  (direct 0 text).filter fun lexeme => !lexeme.isLineBreak

/-- A marker in front of everything else opens the first section. -/
def leadingMarkers (lexemes : List Lexeme) : Nat :=
  if lexemes.head? = some .sectionStart then 1 else 0

/-- Nothing, or a marker and nothing else. -/
def IsBare (lexemes : List Lexeme) : Prop :=
  lexemes = [] ∨ lexemes = [.sectionStart]

instance (lexemes : List Lexeme) : Decidable (IsBare lexemes) :=
  inferInstanceAs (Decidable (_ ∨ _))

/-- How many sections the markers of a block make. -/
def sectionCount (lexemes : List Lexeme) : Nat :=
  if IsBare lexemes then 0 else lexemes.count .sectionStart - leadingMarkers lexemes + 1

/-- Two lexemes are not both markers. -/
def Apart (first second : Lexeme) : Prop :=
  ¬(first = .sectionStart ∧ second = .sectionStart)

instance : DecidableRel Apart := fun _ _ => inferInstanceAs (Decidable (¬_))

/-- Markers stand alone, and none is the last of a block with something else. -/
def Arranged (lexemes : List Lexeme) : Prop :=
  IsBare lexemes ∨ lexemes.IsChain Apart ∧ lexemes.getLast? ≠ some .sectionStart

instance (lexemes : List Lexeme) : Decidable (Arranged lexemes) :=
  inferInstanceAs (Decidable (_ ∨ _))

/-- A block is divided by its markers. -/
structure Divided (lexemes : List Lexeme) (sections : List (Section Expr)) : Prop where
  filled : ∀ part ∈ sections, part.expressions ≠ []
  counted : sections.length = sectionCount lexemes
  arranged : Arranged lexemes

/-- The sections of a block are those that its text is divided into. -/
def Counted (text : List Lexeme) (sections : List (Section Expr)) : Prop :=
  Divided (essential text) sections

theorem Nested.essential_append {front : List Lexeme} (nested : Nested front)
    (rest : List Lexeme) : essential (front ++ rest) = essential front ++ essential rest := by
  rw [essential, nested.direct_append, List.filter_append]
  rfl

/-- The lexemes that close a block.  The end of input is left to be read. -/
def BlockEnd.lexemes : BlockEnd → List Lexeme
  | .outdent => [.outdent]
  | .endOfInput => []

namespace Grammar

/-! ## The tally of an open block -/

/-- The sections of an open block so far, after some lexemes directly in it. -/
structure Tallied (lexemes : List Lexeme) (finished : List (Section Expr)) (part : Section Expr)
    (leading : Bool) : Prop where
  chain : lexemes.IsChain Apart
  fresh : leading = true → lexemes = []
  empty : part.expressions = [] ↔ lexemes = [] ∨ lexemes.getLast? = some .sectionStart
  count : finished.length + leadingMarkers lexemes = lexemes.count .sectionStart
  filled : ∀ earlier ∈ finished, earlier.expressions ≠ []

namespace Tallied

variable {lexemes items : List Lexeme} {finished parts : List (Section Expr)}
  {part : Section Expr} {leading : Bool}

theorem start (scope : Nat) : Tallied [] [] ⟨scope, []⟩ true where
  chain := .nil
  fresh _ := rfl
  empty := ⟨fun _ => .inl rfl, fun _ => rfl⟩
  count := rfl
  filled _ none := nomatch none

theorem lead {scope : Nat} (tallied : Tallied lexemes [] ⟨scope, []⟩ true) :
    Tallied (lexemes ++ [.sectionStart]) [] ⟨scope, []⟩ false := by
  rw [tallied.fresh rfl]
  exact ⟨.singleton _, by simp, ⟨fun _ => .inr rfl, fun _ => rfl⟩, rfl, by simp⟩

theorem leadingMarkers_append (filled : lexemes ≠ []) (items : List Lexeme) :
    leadingMarkers (lexemes ++ items) = leadingMarkers lexemes := by
  rw [leadingMarkers, List.head?_append_of_ne_nil _ filled]
  rfl

theorem divide (tallied : Tallied lexemes finished part leading) (filled : part.expressions ≠ [])
    (scope : Nat) :
    Tallied (lexemes ++ [.sectionStart]) (finished ++ [part]) ⟨scope, []⟩ false := by
  have behind : ¬(lexemes = [] ∨ lexemes.getLast? = some .sectionStart) :=
    fun none => filled (tallied.empty.mpr none)
  rcases not_or.mp behind with ⟨some, unmarked⟩
  refine ⟨?_, by simp, ⟨fun _ => .inr List.getLast?_concat, fun _ => rfl⟩, ?_, ?_⟩
  · refine List.isChain_append.mpr ⟨tallied.chain, .singleton _, ?_⟩
    rintro last found _ _ ⟨rfl, _⟩
    exact unmarked found
  · have count := tallied.count
    rw [leadingMarkers_append some, List.count_append, List.length_append,
      List.count_singleton_self, List.length_singleton]
    omega
  · exact List.forall_mem_append.mpr ⟨tallied.filled, List.forall_mem_singleton.mpr filled⟩

/-- An expression adds lexemes that are no markers. -/
theorem state (tallied : Tallied lexemes finished part leading) (some : items ≠ [])
    (unmarked : .sectionStart ∉ items) (expression : Expr) :
    Tallied (lexemes ++ items) finished (grown part expression) false := by
  have last : (lexemes ++ items).getLast? ≠ .some .sectionStart := by
    rw [List.getLast?_append_of_ne_nil _ some]
    exact fun found => unmarked (List.mem_of_getLast? found)
  have first : items.head? ≠ .some .sectionStart :=
    fun found => unmarked (List.mem_of_mem_head? found)
  refine ⟨?_, by simp, ⟨fun none => ?_, fun either => ?_⟩, ?_, tallied.filled⟩
  · refine List.isChain_append.mpr ⟨tallied.chain, ?_, ?_⟩
    · refine (List.pairwise_of_forall_mem_list fun one inside other _ => ?_).isChain
      rintro ⟨rfl, _⟩
      exact unmarked inside
    · rintro _ _ other found ⟨_, rfl⟩
      exact first found
  · exact absurd none (by simp [grown])
  · rcases either with none | marked
    · exact absurd (List.append_eq_nil_iff.mp none).2 some
    · exact absurd marked last
  · have count := tallied.count
    rw [List.count_append, List.count_eq_zero.mpr unmarked]
    cases lexemes with
    | nil =>
      have none : leadingMarkers items = 0 := if_neg first
      rw [List.nil_append, none]
      exact count
    | cons lexeme lexemes =>
      rw [leadingMarkers_append (List.cons_ne_nil _ _)]
      exact count

/-- Behind a marker that is the only one stands nothing else, if it is the last. -/
theorem isBare_of_last (tallied : Tallied lexemes [] part leading)
    (last : lexemes = [] ∨ lexemes.getLast? = some .sectionStart) : IsBare lexemes := by
  have count := tallied.count
  rcases last with none | marked
  · exact .inl none
  · cases lexemes with
    | nil => cases marked
    | cons first rest =>
      refine .inr ?_
      have inside : .sectionStart ∈ first :: rest := List.mem_of_getLast? marked
      have some := List.count_pos_iff.mpr inside
      have opens : first = .sectionStart := by
        by_contra other
        have none : leadingMarkers (first :: rest) = 0 :=
          if_neg fun same => other (Option.some.inj same)
        rw [none, List.length_nil] at count
        omega
      rw [opens, List.count_cons_self] at count
      have none : rest.count .sectionStart = 0 := by
        have one : leadingMarkers (.sectionStart :: rest) = 1 := if_pos rfl
        rw [one, List.length_nil] at count
        omega
      rw [opens]
      cases rest with
      | nil => rfl
      | cons second rest =>
        rw [List.getLast?_cons_cons] at marked
        exact absurd (List.mem_of_getLast? marked) (List.count_eq_zero.mp none)

theorem divided (tallied : Tallied lexemes finished part leading)
    (ended : closed finished part = some parts) : Divided lexemes parts := by
  rw [closed] at ended
  split at ended
  · rename_i some
    cases ended
    have filled : part.expressions ≠ [] := by simpa using some
    have behind : ¬(lexemes = [] ∨ lexemes.getLast? = .some .sectionStart) :=
      fun none => filled (tallied.empty.mpr none)
    rcases not_or.mp behind with ⟨some, unmarked⟩
    have more : ¬IsBare lexemes := by
      rintro (rfl | rfl)
      · exact some rfl
      · exact unmarked rfl
    have count := tallied.count
    refine ⟨?_, ?_, .inr ⟨tallied.chain, unmarked⟩⟩
    · exact List.forall_mem_append.mpr ⟨tallied.filled, List.forall_mem_singleton.mpr filled⟩
    · rw [sectionCount, if_neg more, List.length_append, List.length_singleton]
      omega
  · rename_i none
    split at ended
    · rename_i first
      cases ended
      cases List.isEmpty_iff.mp first
      have bare := tallied.isBare_of_last (tallied.empty.mp (by simpa using none))
      exact ⟨by simp, (if_pos bare).symm, .inl bare⟩
    · cases ended

end Tallied

/-! ## What expressions are read from -/

/-- Lexemes inside an expression, and the blocks that they add to some earlier ones. -/
structure Phrased (read : List Lexeme) (earlier all : List (List (Section Expr))) : Prop where
  readable : Readable read
  inline : ∀ lexeme ∈ direct 0 read, lexeme.isSeparator = false
  added : ∃ later, all = earlier ++ later ∧ List.Forall₂ Counted (blockTexts read) later

namespace Phrased

variable {lexeme : Lexeme} {front read inside : List Lexeme}
  {earlier between all : List (List (Section Expr))} {sections : List (Section Expr)}

theorem none (earlier : List (List (Section Expr))) : Phrased [] earlier earlier :=
  ⟨.nil, fun _ inside => (nomatch inside), [], (List.append_nil _).symm, .nil⟩

theorem single (noBracket : lexeme.isBracket = false) (known : lexeme.isReadable = true)
    (inline : lexeme.isSeparator = false) (earlier : List (List (Section Expr))) :
    Phrased [lexeme] earlier earlier := by
  refine ⟨.plain noBracket known, ?_, [], (List.append_nil _).symm, ?_⟩
  · rw [direct_plain noBracket]
    exact List.forall_mem_singleton.mpr inline
  · rw [blockTexts_plain noBracket]
    exact .nil

theorem append (first : Phrased front earlier between) (second : Phrased read between all) :
    Phrased (front ++ read) earlier all := by
  rcases first.added with ⟨one, rfl, countedOne⟩
  rcases second.added with ⟨two, rfl, countedTwo⟩
  refine ⟨first.readable.append second.readable, ?_, one ++ two, List.append_assoc _ _ _, ?_⟩
  · rw [first.readable.nested.direct_append]
    exact List.forall_mem_append.mpr ⟨first.inline, second.inline⟩
  · rw [first.readable.nested.blockTexts_append]
    exact List.rel_append countedOne countedTwo

/-- What is read stands behind other blocks as well. -/
theorem behind (phrased : Phrased read [] all) (earlier : List (List (Section Expr))) :
    Phrased read earlier (earlier ++ all) := by
  rcases phrased.added with ⟨later, same, counted⟩
  exact ⟨phrased.readable, phrased.inline, later, congrArg (earlier ++ ·) same, counted⟩

theorem cons (noBracket : lexeme.isBracket = false) (known : lexeme.isReadable = true)
    (inline : lexeme.isSeparator = false) (phrased : Phrased read earlier all) :
    Phrased (lexeme :: read) earlier all :=
  (single noBracket known inline earlier).append phrased

/-- A nested block with its brackets. -/
theorem level (readable : Readable inside)
    (counted : List.Forall₂ Counted (inside :: blockTexts inside) all) :
    Phrased (.indent :: (inside ++ [.outdent])) [] all := by
  refine ⟨readable.level, ?_, all, rfl, ?_⟩
  · rw [readable.nested.direct_level]
    exact List.forall_mem_singleton.mpr rfl
  · rw [readable.nested.blockTexts_level]
    exact (List.append_nil (blockTexts inside)).symm ▸ counted

theorem group (phrased : Phrased inside earlier all) :
    Phrased (.openParen :: (inside ++ [.closeParen])) earlier all := by
  rcases phrased.added with ⟨later, rfl, counted⟩
  have same : direct 0 (.openParen :: (inside ++ [.closeParen])) =
      .openParen :: (direct 0 inside ++ [.closeParen]) :=
    congrArg (Lexeme.openParen :: ·) (phrased.readable.nested.direct_append _)
  have texts : blockTexts (.openParen :: (inside ++ [.closeParen])) = blockTexts inside :=
    (phrased.readable.nested.blockTexts_append _).trans (List.append_nil _)
  refine ⟨phrased.readable.group, ?_, later, rfl, texts ▸ counted⟩
  rw [same]
  refine List.forall_mem_cons.mpr ⟨rfl, List.forall_mem_append.mpr ⟨phrased.inline, ?_⟩⟩
  exact List.forall_mem_singleton.mpr rfl

/-- Nothing inside an expression separates it, so all of it is essential. -/
theorem essential_eq (phrased : Phrased read earlier all) : essential read = direct 0 read := by
  refine List.filter_eq_self.mpr fun lexeme inside => ?_
  have inline := phrased.inline lexeme inside
  cases lexeme <;> first | rfl | cases inline

theorem unmarked (phrased : Phrased read earlier all) : .sectionStart ∉ essential read := by
  rw [phrased.essential_eq]
  exact fun inside => nomatch phrased.inline _ inside

theorem essential_ne_nil (phrased : Phrased read earlier all) (some : read ≠ []) :
    essential read ≠ [] := by
  rw [phrased.essential_eq]
  exact phrased.readable.nested.direct_ne_nil some

end Phrased

/-! ## What goals are read from -/

variable {goal : Goal} {start finish : Point} {scopes after : Scopes} {result : Expr}

/-- What a goal is read from.  A block is counted by its text, and whatever an open
block has been read from before is to be counted with it. -/
def Goal.Tells (goal : Goal) (read : List Lexeme) (result : Expr) : Prop :=
  match goal with
  | .block _ stop => ∃ inside, read = inside ++ stop.lexemes ∧ Readable inside ∧
      List.Forall₂ Counted (inside :: blockTexts inside) result.blocks
  | .sections stop finished part leading => ∃ inside parts, read = inside ++ stop.lexemes ∧
      Readable inside ∧ result = .block parts ∧
      (∃ later, blocksOfSections parts = blocksOfSections (finished ++ [part]) ++ later ∧
        List.Forall₂ Counted (blockTexts inside) later) ∧
      ∀ lexemes, Tallied lexemes finished part leading →
        Divided (lexemes ++ essential inside) parts
  | _ => Phrased read goal.blocks result.blocks

/-- Something is read in an open block in front of what closes it. -/
theorem Goal.Tells.behind {stop : BlockEnd} {finished later : List (Section Expr)}
    {part next : Section Expr} {leading still : Bool} {front read : List Lexeme}
    {added : List (List (Section Expr))}
    (tells : Goal.Tells (.sections stop later next still) read result) (readable : Readable front)
    (counted : List.Forall₂ Counted (blockTexts front) added)
    (grew : blocksOfSections (later ++ [next]) = blocksOfSections (finished ++ [part]) ++ added)
    (tallies : ∀ lexemes, Tallied lexemes finished part leading →
      Tallied (lexemes ++ essential front) later next still) :
    Goal.Tells (.sections stop finished part leading) (front ++ read) result := by
  rcases tells with ⟨inside, parts, rfl, known, same, ⟨others, blocks, countedOthers⟩, divides⟩
  refine ⟨front ++ inside, parts, (List.append_assoc _ _ _).symm, readable.append known, same,
    ⟨added ++ others, ?_, ?_⟩, fun lexemes tallied => ?_⟩
  · rw [blocks, grew, List.append_assoc]
  · rw [readable.nested.blockTexts_append]
    exact List.rel_append counted countedOthers
  · rw [readable.nested.essential_append, ← List.append_assoc]
    exact divides _ (tallies lexemes tallied)

/-- A single lexeme between the expressions of a block. -/
theorem Goal.Tells.separator {stop : BlockEnd} {finished later : List (Section Expr)}
    {part next : Section Expr} {leading still : Bool} {lexeme : Lexeme} {read : List Lexeme}
    (tells : Goal.Tells (.sections stop later next still) read result)
    (separates : lexeme.isSeparator = true)
    (grew : blocksOfSections (later ++ [next]) = blocksOfSections (finished ++ [part]))
    (tallies : ∀ lexemes, Tallied lexemes finished part leading →
      Tallied (lexemes ++ essential [lexeme]) later next still) :
    Goal.Tells (.sections stop finished part leading) (lexeme :: read) result := by
  have noBracket : lexeme.isBracket = false := by
    cases lexeme <;> first | rfl | cases separates
  have known : lexeme.isReadable = true := by
    cases lexeme <;> first | rfl | cases separates
  have counted : List.Forall₂ Counted (blockTexts [lexeme]) [] := by
    rw [blockTexts_plain noBracket]
    exact .nil
  refine tells.behind (.plain noBracket known) counted ?_ tallies
  rw [grew, List.append_nil]

/-- An expression is read between two points, and its blocks stand behind others. -/
def Spans (start finish : Point) (earlier all : List (List (Section Expr))) : Prop :=
  ∃ read, start.rest = read ++ finish.rest ∧ Phrased read earlier all

namespace Spans

variable {middle : Point} {before rest : List Lexeme} {lexeme : Lexeme}
  {earlier between all : List (List (Section Expr))}

theorem refl (start : Point) (earlier : List (List (Section Expr))) :
    Spans start start earlier earlier :=
  ⟨[], rfl, .none _⟩

theorem of_blocks (spans : Spans start finish earlier between) (same : all = between) :
    Spans start finish earlier all :=
  same ▸ spans

theorem trans (first : Spans start middle earlier between)
    (second : Spans middle finish between all) : Spans start finish earlier all := by
  rcases first with ⟨front, frontRest, phrased⟩
  rcases second with ⟨read, readRest, others⟩
  refine ⟨front ++ read, ?_, phrased.append others⟩
  rw [frontRest, readRest, List.append_assoc]

theorem behind (spans : Spans start finish [] all) (earlier : List (List (Section Expr))) :
    Spans start finish earlier (earlier ++ all) := by
  rcases spans with ⟨read, split, phrased⟩
  exact ⟨read, split, phrased.behind earlier⟩

theorem step (spans : Spans ⟨lexeme :: before, rest⟩ finish earlier all)
    (noBracket : lexeme.isBracket = false) (known : lexeme.isReadable = true)
    (inline : lexeme.isSeparator = false) : Spans ⟨before, lexeme :: rest⟩ finish earlier all := by
  rcases spans with ⟨read, split, phrased⟩
  exact ⟨lexeme :: read, congrArg (lexeme :: ·) split, phrased.cons noBracket known inline⟩

/-- A nested block, with the opening of its level. -/
theorem level {parent : Nat} (tells : ∃ read, rest = read ++ finish.rest ∧
    Goal.Tells (.block parent .outdent) read result) :
    Spans ⟨before, .indent :: rest⟩ finish [] result.blocks := by
  rcases tells with ⟨_, split, inside, rfl, readable, counted⟩
  exact ⟨_, congrArg (Lexeme.indent :: ·) split, .level readable counted⟩

end Spans

theorem Derives.tells (derived : Derives goal start scopes result finish after) :
    ∃ read, start.rest = read ++ finish.rest ∧ goal.Tells read result := by
  induction derived with
  | block _ ih =>
    rcases ih with ⟨read, split, inside, parts, closes, readable, rfl, blocks, divides⟩
    rcases blocks with ⟨later, same, counted⟩
    refine ⟨read, split, inside, closes, readable, .cons (divides [] (.start _)) ?_⟩
    rw [same]
    exact counted
  | @skip _ _ _ _ lexeme _ _ _ _ _ _ blank _ ih =>
    rcases ih with ⟨read, split, tells⟩
    have separates : lexeme.isSeparator = true := by
      cases lexeme <;> first | rfl | cases blank
    refine ⟨lexeme :: read, congrArg (lexeme :: ·) split, tells.separator separates rfl ?_⟩
    have nothing : essential [lexeme] = [] := by
      cases lexeme <;> first | rfl | cases blank
    intro lexemes tallied
    rw [nothing, List.append_nil]
    exact tallied
  | lead _ ih =>
    rcases ih with ⟨read, split, tells⟩
    exact ⟨_ :: read, congrArg (_ :: ·) split, tells.separator rfl rfl fun _ => Tallied.lead⟩
  | divide filled _ ih =>
    rcases ih with ⟨read, split, tells⟩
    refine ⟨_ :: read, congrArg (_ :: ·) split, tells.separator rfl ?_ fun _ tallied =>
      tallied.divide filled _⟩
    rw [blocksOfSections_append]
    exact List.append_nil _
  | @state _ finished part _ expression _ start middle finish _ _ _ inner _ first second =>
    rcases first with ⟨front, frontRest, phrased⟩
    rcases second with ⟨read, readRest, tells⟩
    have phrased : Phrased front [] expression.blocks := phrased
    have moved := inner.length_lt trivial
    have some : front ≠ [] := by
      rintro rfl
      rw [frontRest, List.nil_append] at moved
      exact Nat.lt_irrefl _ moved
    rcases phrased.added with ⟨added, same, counted⟩
    refine ⟨front ++ read, ?_, tells.behind phrased.readable counted ?_ fun lexemes tallied =>
      tallied.state (phrased.essential_ne_nil some) phrased.unmarked expression⟩
    · rw [frontRest, readRest, List.append_assoc]
    · rw [blocks_grown, same]
      rfl
  | closeBlock ended =>
    refine ⟨[.outdent], rfl, [], _, rfl, .nil, rfl, ⟨[], ?_, .nil⟩, fun lexemes tallied => ?_⟩
    · rw [blocks_closed ended, List.append_nil]
    · exact (List.append_nil lexemes).symm ▸ tallied.divided ended
  | closeDocument ended =>
    refine ⟨[], rfl, [], _, rfl, .nil, rfl, ⟨[], ?_, .nil⟩, fun lexemes tallied => ?_⟩
    · rw [blocks_closed ended, List.append_nil]
    · exact (List.append_nil lexemes).symm ▸ tallied.divided ended
  | nested _ ih | inner _ ih => exact Spans.level ih
  | yielded _ _ ih | lifted _ ih | named _ ih | selectedOperand _ _ ih | liftedOperand _ ih =>
    exact Spans.step ih rfl rfl rfl
  | assigned _ ih => exact (Spans.step (Spans.step ih rfl rfl rfl) rfl rfl rfl)
  | field _ ih => exact (Spans.step (Spans.step ih rfl rfl rfl) rfl rfl rfl)
  | plain _ _ ih | chain _ ih | further _ _ ih | selected _ _ ih | applied _ _ ih
  | simple _ _ _ ih => exact ih
  | @body _ names body _ _ scopes _ _ ih =>
    have same := blocks_curried names (.scope scopes.size body)
    exact Spans.of_blocks ih same
  | finish _ settled | behindBlock _ settled =>
    exact Spans.of_blocks (.refl _ _) (blocks_settle settled)
  | enough | reached => exact Spans.refl _ _
  | @operator scope stack lexeme left right result _ _ _ _ _ _ _ joins _ _ first second =>
    have second : Spans _ _ (blocksOfAll (Parser.combine lexeme left right :: stack).reverse)
      result.blocks := second
    rw [blocks_stack_cons, blocks_combine, ← List.append_assoc, ← blocks_stack_cons] at second
    refine Spans.step ((Spans.behind first _).trans second) ?_ ?_ ?_
    · cases lexeme <;> first | rfl | cases joins
    · cases lexeme <;> first | rfl | cases joins
    · cases lexeme <;> first | rfl | cases joins
  | @arrow scope stack names function result _ _ _ _ _ _ _ named _ _ first second =>
    have second : Spans _ _ (blocksOfAll [function]) result.blocks := second
    rw [blocksOfAll_singleton] at second
    have spans : Spans _ _ [] result.blocks := (Spans.trans first second).step rfl rfl rfl
    rw [← blocks_parameters named] at spans
    exact spans
  | @begin scope expression result _ _ _ _ _ _ _ _ _ first second =>
    have second : Spans _ _ (blocksOfAll [expression]) result.blocks := second
    rw [blocksOfAll_singleton] at second
    exact Spans.trans first second
  | @more scope name taken expression result _ _ _ _ _ _ _ _ _ first second =>
    have second : Spans _ _ (blocksOfAll (taken ++ [expression])) result.blocks := second
    rw [blocksOfAll_append, blocksOfAll_singleton] at second
    exact (Spans.behind first _).trans second
  | @literal _ lexeme _ _ _ _ reads =>
    refine Spans.of_blocks (Spans.step (.refl _ _) ?_ ?_ ?_) (blocks_literal reads)
    · cases lexeme <;> first | rfl | cases reads
    · cases lexeme <;> first | rfl | cases reads
    · cases lexeme <;> first | rfl | cases reads
  | grouped _ ih =>
    rcases ih with ⟨inside, split, phrased⟩
    have phrased : Phrased inside [] _ := phrased
    refine ⟨_, ?_, phrased.group⟩
    rw [List.cons_append, List.append_assoc]
    exact congrArg (Lexeme.openParen :: ·) split
  | bareName => exact ⟨[.symbol _], rfl, .single rfl rfl rfl _⟩

end Grammar
end Manifest
