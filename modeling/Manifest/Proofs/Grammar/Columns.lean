import Manifest.Proofs.Grammar.Completeness

/-!
# Columns in the grammar

A line break tells its column, and no rule of the grammar asks for it.  So lexemes
that differ in these columns alone are read as the same expressions, with the same
scopes.
-/

namespace Manifest

namespace Lexeme

/-- Move line breaks to other columns. -/
def reindent (move : Nat → Nat) : Lexeme → Lexeme
  | newline column => newline (move column)
  | lexeme => lexeme

variable {move back : Nat → Nat}

@[simp] theorem isLineBreak_reindent (lexeme : Lexeme) :
    (lexeme.reindent move).isLineBreak = lexeme.isLineBreak := by
  cases lexeme <;> rfl

@[simp] theorem startsTerm_reindent (lexeme : Lexeme) :
    (lexeme.reindent move).startsTerm = lexeme.startsTerm := by
  cases lexeme <;> rfl

@[simp] theorem endsChain_reindent (lexeme : Lexeme) :
    (lexeme.reindent move).endsChain = lexeme.endsChain := by
  cases lexeme <;> rfl

@[simp] theorem isAssignment_reindent (lexeme : Lexeme) :
    (lexeme.reindent move).isAssignment = lexeme.isAssignment := by
  cases lexeme <;> rfl

def isNewline : Lexeme → Bool
  | newline _ => true
  | _ => false

/-- Only line breaks have a column. -/
theorem reindent_eq_self {lexeme : Lexeme} (inline : lexeme.isNewline = false) :
    lexeme.reindent move = lexeme := by
  cases lexeme <;> first | rfl | cases inline

/-- No lexeme becomes a line break, and none ceases to be one. -/
theorem reindent_eq_iff {lexeme other : Lexeme} (inline : other.isNewline = false) :
    lexeme.reindent move = other ↔ lexeme = other := by
  cases lexeme with
  | newline column =>
    refine iff_of_false ?_ ?_
    all_goals
      rintro rfl
      cases inline
  | _ => exact Iff.rfl

theorem reindent_reindent (back_move : ∀ column, back (move column) = column) (lexeme : Lexeme) :
    (lexeme.reindent move).reindent back = lexeme := by
  cases lexeme with
  | newline column => exact congrArg newline (back_move column)
  | _ => rfl

end Lexeme

namespace Point

/-- A point between line breaks in other columns. -/
def reindent (move : Nat → Nat) (point : Point) : Point :=
  ⟨point.before.map (Lexeme.reindent move), point.rest.map (Lexeme.reindent move)⟩

variable {move : Nat → Nat} (point : Point)

theorem headD_map (lexemes : List Lexeme) (move : Nat → Nat) (lexeme : Lexeme) :
    (lexemes.map (Lexeme.reindent move)).headD (lexeme.reindent move) =
      (lexemes.headD lexeme).reindent move := by
  cases lexemes <;> rfl

@[simp] theorem next_reindent : (point.reindent move).next = point.next.reindent move :=
  headD_map point.rest move .endOfInput

@[simp] theorem second_reindent : (point.reindent move).second = point.second.reindent move := by
  rw [second, reindent, ← List.map_tail]
  exact headD_map point.rest.tail move .endOfInput

@[simp] theorem previous_reindent :
    (point.reindent move).previous = point.previous.reindent move := by
  rw [previous, next_reindent]
  exact headD_map point.before move point.next

end Point

namespace Grammar

variable {goal : Goal} {start finish : Point} {scopes after : Scopes} {result : Expr}

theorem takesOperand_reindent (move : Nat → Nat) (point : Point) :
    takesOperand (point.reindent move) = takesOperand point := by
  rw [takesOperand, takesOperand, Point.next_reindent, Point.second_reindent,
    Lexeme.isAssignment_reindent]
  cases point.next <;> rfl

theorem startsChain_reindent (move : Nat → Nat) (point : Point) :
    startsChain (point.reindent move) = startsChain point := by
  rw [startsChain, startsChain, Point.next_reindent, Point.second_reindent,
    Lexeme.isAssignment_reindent, Lexeme.startsTerm_reindent]
  cases point.next <;> rfl

theorem next_reindent_of_eq {lexeme : Lexeme} {point : Point} (move : Nat → Nat)
    (inline : lexeme.isNewline = false) (found : point.next = lexeme) :
    (point.reindent move).next = lexeme := by
  rw [Point.next_reindent, found, Lexeme.reindent_eq_self inline]

/-- Another lexeme than some that is no line break stays another one. -/
theorem next_ne_reindent {lexeme : Lexeme} {point : Point} (move : Nat → Nat)
    (inline : lexeme.isNewline = false) (other : point.next ≠ lexeme) :
    (point.reindent move).next ≠ lexeme := by
  rw [Point.next_reindent, ne_eq, Lexeme.reindent_eq_iff inline]
  exact other

/-- No rule asks for the column of a line break. -/
theorem Derives.reindent (derived : Derives goal start scopes result finish after)
    (move : Nat → Nat) :
    Derives goal (start.reindent move) scopes result (finish.reindent move) after := by
  induction derived with
  | block _ ih => exact .block ih
  | skip blank _ ih => exact .skip ((Lexeme.isLineBreak_reindent _).trans blank) ih
  | lead _ ih => exact .lead ih
  | divide filled _ ih => exact .divide filled ih
  | state _ _ first second => exact .state first second
  | closeBlock ended => exact .closeBlock ended
  | closeDocument ended => exact .closeDocument ended
  | nested _ ih => exact .nested ih
  | yielded starts _ ih => exact .yielded ((Lexeme.startsTerm_reindent _).trans starts) ih
  | assigned _ ih => exact .assigned ih
  | plain starts _ ih => exact .plain ((startsChain_reindent move _).trans starts) ih
  | chain _ ih => exact .chain ih
  | finish ends settled => exact .finish ((Lexeme.endsChain_reindent _).trans ends) settled
  | @operator _ _ lexeme _ _ _ _ _ _ _ _ _ _ joins _ _ first second =>
    have same : lexeme.reindent move = lexeme := by
      cases lexeme <;> first | rfl | cases joins
    rw [Point.reindent, List.map_cons, same] at first
    rw [Point.reindent, List.map_cons, same]
    exact .operator joins first second
  | arrow named _ _ first second => exact .arrow named first second
  | begin starts _ _ first second =>
    refine .begin ?_ first second
    rw [Point.next_reindent, Lexeme.startsTerm_reindent]
    exact starts
  | behindBlock behind settled =>
    refine .behindBlock ?_ settled
    rw [Point.previous_reindent, behind]
    rfl
  | further behind _ ih =>
    refine .further ?_ ih
    rw [Point.previous_reindent, ne_eq, Lexeme.reindent_eq_iff rfl]
    exact behind
  | @literal _ lexeme _ _ _ _ reads =>
    have same : lexeme.reindent move = lexeme := by
      cases lexeme <;> first | rfl | cases reads
    exact .literal ((congrArg Lexeme.literal? same).trans reads)
  | lifted _ ih => exact .lifted ih
  | grouped _ ih => exact .grouped ih
  | inner _ ih => exact .inner ih
  | named _ ih => exact .named ih
  | selected accessor _ ih => exact .selected (next_reindent_of_eq move rfl accessor) ih
  | applied other _ ih => exact .applied (next_ne_reindent move rfl other) ih
  | more takes _ _ first second =>
    exact .more ((takesOperand_reindent move _).trans takes) first second
  | enough none => exact .enough ((takesOperand_reindent move _).trans none)
  | bareName other => exact .bareName (next_ne_reindent move rfl other)
  | selectedOperand accessor _ ih =>
    exact .selectedOperand (next_reindent_of_eq move rfl accessor) ih
  | liftedOperand _ ih => exact .liftedOperand ih
  | simple noName noLift _ ih =>
    exact .simple (fun name => next_ne_reindent move rfl (noName name))
      (next_ne_reindent move rfl noLift) ih
  | field _ ih => exact .field ih
  | reached other => exact .reached (next_ne_reindent move rfl other)
  | body _ ih => exact .body ih

end Grammar

/-- Tokens in other columns are parsed as the same document. -/
theorem ofTokens_reindent {tokens others : List Token} {document : Document} {move : Nat → Nat}
    (same : others.map Token.lexeme = (tokens.map Token.lexeme).map (Lexeme.reindent move))
    (parsed : Document.ofTokens tokens = .ok document) :
    Document.ofTokens others = .ok document := by
  rcases Grammar.ofTokens_eq_ok_iff.mp parsed with ⟨ends, block, finish, derived, root⟩
  refine Grammar.ofTokens_eq_ok_iff.mpr ⟨?_, block, finish.reindent move, ?_, root⟩
  · rw [endsWithEnd_eq_true_iff] at ends ⊢
    rw [same, List.getLast?_map, ends]
    rfl
  · rw [same]
    exact derived.reindent move

end Manifest
