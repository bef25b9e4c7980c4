import Manifest.Proofs.Grammar.Completeness

/-!
# Nested lexemes

Every rule of the grammar that passes a bracket passes its counterpart too, and
no rule passes an unrecognized run or the end of input.  A derivation of a
nested block begins behind the opening of its level, so it is the one kind of
derivation that leaves a bracket over, and that one is the last it reads.
-/

namespace Manifest

namespace Lexeme

/-- What opens or closes a level or a group. -/
def isBracket : Lexeme → Bool
  | indent | outdent | openParen | closeParen => true
  | _ => false

/-- What a document may consist of. -/
def isReadable : Lexeme → Bool
  | unknown _ | endOfInput => false
  | _ => true

end Lexeme

/-- Levels and groups are nested in each other, and all of them are closed. -/
inductive Nested : List Lexeme → Prop
  | nil : Nested []
  | plain {lexeme : Lexeme} {behind : List Lexeme} :
      lexeme.isBracket = false → Nested behind → Nested (lexeme :: behind)
  | level {inside behind : List Lexeme} :
      Nested inside → Nested behind → Nested (.indent :: (inside ++ .outdent :: behind))
  | group {inside behind : List Lexeme} :
      Nested inside → Nested behind → Nested (.openParen :: (inside ++ .closeParen :: behind))

theorem Nested.append {front behind : List Lexeme} (first : Nested front) (second : Nested behind) :
    Nested (front ++ behind) := by
  induction first with
  | nil => exact second
  | plain known _ ih => exact .plain known ih
  | level inside _ _ ih =>
    rw [List.cons_append, List.append_assoc]
    exact .level inside ih
  | group inside _ _ ih =>
    rw [List.cons_append, List.append_assoc]
    exact .group inside ih

/-- Nested lexemes that a document may consist of. -/
structure Readable (lexemes : List Lexeme) : Prop where
  nested : Nested lexemes
  known : ∀ lexeme ∈ lexemes, lexeme.isReadable = true

namespace Readable

variable {lexeme : Lexeme} {front inside behind : List Lexeme}

theorem nil : Readable [] := ⟨.nil, fun _ none => nomatch none⟩

theorem plain (noBracket : lexeme.isBracket = false) (known : lexeme.isReadable = true) :
    Readable [lexeme] :=
  ⟨.plain noBracket .nil, List.forall_mem_singleton.mpr known⟩

theorem append (first : Readable front) (second : Readable behind) : Readable (front ++ behind) :=
  ⟨first.nested.append second.nested, List.forall_mem_append.mpr ⟨first.known, second.known⟩⟩

theorem level (readable : Readable inside) : Readable (.indent :: (inside ++ [.outdent])) := by
  refine ⟨.level readable.nested .nil, List.forall_mem_cons.mpr ⟨rfl, ?_⟩⟩
  exact List.forall_mem_append.mpr ⟨readable.known, List.forall_mem_singleton.mpr rfl⟩

theorem group (readable : Readable inside) :
    Readable (.openParen :: (inside ++ [.closeParen])) := by
  refine ⟨.group readable.nested .nil, List.forall_mem_cons.mpr ⟨rfl, ?_⟩⟩
  exact List.forall_mem_append.mpr ⟨readable.known, List.forall_mem_singleton.mpr rfl⟩

end Readable

namespace Grammar

/-- What a goal may read: nested lexemes, and behind those of a nested block
the end of its level. -/
def MayRead : Goal → List Lexeme → Prop
  | .block _ .outdent, read | .sections .outdent _ _ _, read =>
      ∃ inside, read = inside ++ [.outdent] ∧ Readable inside
  | _, read => Readable read

/-- Nested lexemes in front of what a goal reads belong to it. -/
theorem MayRead.behind {goal : Goal} {front read : List Lexeme} (first : Readable front)
    (second : MayRead goal read) : MayRead goal (front ++ read) := by
  have inner : ∀ {read}, (∃ inside, read = inside ++ [Lexeme.outdent] ∧ Readable inside) →
      ∃ inside, front ++ read = inside ++ [Lexeme.outdent] ∧ Readable inside := by
    rintro _ ⟨inside, rfl, readable⟩
    exact ⟨front ++ inside, (List.append_assoc _ _ _).symm, first.append readable⟩
  cases goal with
  | block parent stop =>
    cases stop with
    | outdent => exact inner second
    | endOfInput => exact first.append second
  | sections stop finished part leading =>
    cases stop with
    | outdent => exact inner second
    | endOfInput => exact first.append second
  | _ => exact first.append second

variable {goal : Goal} {start finish : Point} {scopes after : Scopes} {result : Expr}

/-- What a goal reads between two points. -/
def ReadsNested (goal : Goal) (start finish : Point) : Prop :=
  ∃ read, start.rest = read ++ finish.rest ∧ MayRead goal read

namespace ReadsNested

variable {before rest : List Lexeme} {lexeme : Lexeme} {middle : Point} {part : Goal}

/-- Nothing is read, by a goal that is not a nested block. -/
theorem none (empty : MayRead goal []) : ReadsNested goal start start := ⟨[], rfl, empty⟩

/-- One goal is read as another. -/
theorem imp {other : Goal} (reads : ReadsNested other start finish)
    (same : ∀ {read}, MayRead other read → MayRead goal read) : ReadsNested goal start finish := by
  rcases reads with ⟨read, split, may⟩
  exact ⟨read, split, same may⟩

/-- A lexeme is read in front of what another goal reads. -/
theorem step {other : Goal} (noBracket : lexeme.isBracket = false)
    (known : lexeme.isReadable = true)
    (reads : ReadsNested other ⟨lexeme :: before, rest⟩ finish)
    (same : ∀ {read}, MayRead other read → MayRead goal read) :
    ReadsNested goal ⟨before, lexeme :: rest⟩ finish := by
  rcases reads with ⟨read, split, may⟩
  have split : rest = read ++ finish.rest := split
  exact ⟨lexeme :: read, congrArg (lexeme :: ·) split,
    MayRead.behind (.plain noBracket known) (same may)⟩

/-- A part is read in front of what another goal reads. -/
theorem trans {other : Goal} (first : ReadsNested part start middle)
    (nested : ∀ {read}, MayRead part read → Readable read)
    (second : ReadsNested other middle finish)
    (same : ∀ {read}, MayRead other read → MayRead goal read) : ReadsNested goal start finish := by
  rcases first with ⟨front, frontRest, readable⟩
  rcases second with ⟨behind, behindRest, may⟩
  refine ⟨front ++ behind, ?_, MayRead.behind (nested readable) (same may)⟩
  rw [frontRest, behindRest, List.append_assoc]

/-- A nested block, with the opening of its level. -/
theorem level {parent : Nat}
    (reads : ReadsNested (.block parent .outdent) ⟨.indent :: before, rest⟩ finish) :
    ∃ read, .indent :: rest = read ++ finish.rest ∧ Readable read := by
  rcases reads with ⟨_, split, inside, rfl, readable⟩
  have split : rest = inside ++ [.outdent] ++ finish.rest := split
  exact ⟨_, congrArg (Lexeme.indent :: ·) split, readable.level⟩

end ReadsNested

theorem Derives.readsNested (derived : Derives goal start scopes result finish after) :
    ReadsNested goal start finish := by
  induction derived with
  | @block _ stop _ _ _ _ _ _ ih => cases stop <;> exact ih.imp id
  | @skip stop _ _ _ lexeme _ _ _ _ _ _ blank _ ih =>
    refine ih.step ?_ ?_ (fun may => by cases stop <;> exact may)
    · cases lexeme <;> first | rfl | cases blank
    · cases lexeme <;> first | rfl | cases blank
  | @lead stop _ _ _ _ _ _ _ _ ih | @divide stop _ _ _ _ _ _ _ _ _ _ _ ih =>
    exact ih.step rfl rfl fun may => by cases stop <;> exact may
  | @state stop _ _ _ _ _ _ _ _ _ _ _ _ _ first second =>
    exact first.trans id second fun may => by cases stop <;> exact may
  | closeBlock => exact ⟨[.outdent], rfl, [], rfl, .nil⟩
  | closeDocument => exact .none .nil
  | nested _ ih | inner _ ih => exact ih.level
  | yielded _ _ ih | lifted _ ih | named _ ih | selectedOperand _ _ ih | liftedOperand _ ih =>
    exact ih.step rfl rfl id
  | @assigned scope =>
    rename_i ih
    have signed : ReadsNested (.statement scope) _ _ := ih.step rfl rfl id
    exact signed.step rfl rfl id
  | @field target =>
    rename_i ih
    have named : ReadsNested (.path target) _ _ := ih.step rfl rfl id
    exact named.step rfl rfl id
  | plain _ _ ih | chain _ ih | further _ _ ih | selected _ _ ih | applied _ _ ih
  | simple _ _ _ ih | body _ ih => exact ih.imp id
  | finish | behindBlock | enough | reached => exact .none .nil
  | @operator scope _ lexeme _ _ _ _ _ _ _ _ _ _ joins _ _ first second =>
    have behind : ReadsNested (.chain scope) _ _ := first.trans id second id
    refine behind.step ?_ ?_ id
    · cases lexeme <;> first | rfl | cases joins
    · cases lexeme <;> first | rfl | cases joins
  | @arrow scope =>
    rename_i first second
    have behind : ReadsNested (.chain scope) _ _ := first.trans id second id
    exact behind.step rfl rfl id
  | begin _ _ _ first second | more _ _ _ first second => exact first.trans id second id
  | @literal _ lexeme _ _ _ _ reads =>
    refine ⟨[lexeme], rfl, .plain ?_ ?_⟩
    · cases lexeme <;> first | rfl | cases reads
    · cases lexeme <;> first | rfl | cases reads
  | grouped _ ih =>
    rcases ih with ⟨inside, split, readable⟩
    have group : Readable (.openParen :: (inside ++ [.closeParen])) := Readable.group readable
    refine ⟨_, ?_, group⟩
    rw [List.cons_append, List.append_assoc]
    exact congrArg (Lexeme.openParen :: ·) split
  | bareName => exact ⟨[.symbol _], rfl, .plain rfl rfl⟩

end Grammar
end Manifest
