import Manifest.Json.Reader
import Manifest.Proofs.Inference.Schemas
import Manifest.Proofs.Json.Tokens

/-!
# Putting a value together again

The tokens of a value, taken one after the other, deliver the value to whatever
is open in front of them.  The value is only refused if it is nested too deeply,
counted from what is open already.
-/

namespace Manifest

mutual
/-- How many sequences and mappings contain each other inside a value. -/
def Value.depth : Value → Nat
  | .sequence items => itemsDepth items + 1
  | .mapping fields => fieldsDepth fields + 1
  | _ => 0

def itemsDepth : List Value → Nat
  | [] => 0
  | item :: rest => max item.depth (itemsDepth rest)

def fieldsDepth : List (String × Value) → Nat
  | [] => 0
  | (_, value) :: rest => max value.depth (fieldsDepth rest)
end

/-- A key behind all others is entered last. -/
theorem Fields.insert_of_greatest {α : Type} {fields : Fields α} {key : String} {value : α}
    (greatest : ∀ field ∈ fields, field.1 < key) :
    Fields.insert fields key value = fields ++ [(key, value)] := by
  induction fields with
  | nil => rfl
  | cons field rest ih =>
    rcases List.forall_mem_cons.mp greatest with ⟨before, further⟩
    rw [insert, if_neg (String.lt_asymm before), if_neg (fun same => ?_), ih further,
      List.cons_append]
    exact String.lt_irrefl key (same ▸ before)

namespace Json
namespace Assembly

variable {limit : Nat} {stack outer : List Container}

theorem run_append (assembly : Assembly) (front behind : List Token) :
    run limit assembly (front ++ behind) =
      (run limit assembly front).bind fun next => run limit next behind := by
  induction front generalizing assembly with
  | nil => rfl
  | cons token rest ih =>
    rw [List.cons_append, run, run, Option.bind_assoc]
    exact congrArg _ (funext fun next => ih next)

theorem run_singleton (assembly : Assembly) (token : Token) :
    run limit assembly [token] = step limit assembly token := by
  rw [run]
  cases step limit assembly token <;> rfl

/-- The first item of a sequence is a value like the others. -/
theorem run_firstItem {items : List Value} (some : items ≠ []) (behind : List Token) :
    run limit ⟨stack, .firstItem⟩ (itemTokens items ++ behind) =
      run limit ⟨stack, .value⟩ (itemTokens items ++ behind) := by
  cases items with
  | nil => exact absurd rfl some
  | cons item rest => cases rest <;> cases item <;> rfl

/-- The first key of a mapping is a key like the others. -/
theorem run_firstKey {fields : List (String × Value)} (some : fields ≠ []) (done : Fields Value)
    (behind : List Token) :
    run limit ⟨.fields done :: outer, .firstKey⟩ (fieldTokens fields ++ behind) =
      run limit ⟨.fields done :: outer, .key⟩ (fieldTokens fields ++ behind) := by
  cases fields with
  | nil => exact absurd rfl some
  | cons field rest => cases rest <;> rfl

theorem run_openSequence (room : stack.length + 1 < limit) (tokens : List Token) :
    run limit ⟨stack, .value⟩ (.openSequence :: tokens) =
      run limit ⟨.items [] :: stack, .firstItem⟩ tokens := by
  have opened : step limit ⟨stack, .value⟩ .openSequence =
      some ⟨.items [] :: stack, .firstItem⟩ := if_pos room
  rw [run, opened, Option.bind_some]

theorem run_openMapping (room : stack.length + 1 < limit) (tokens : List Token) :
    run limit ⟨stack, .value⟩ (.openMapping :: tokens) =
      run limit ⟨.fields [] :: stack, .firstKey⟩ tokens := by
  have opened : step limit ⟨stack, .value⟩ .openMapping =
      some ⟨.fields [] :: stack, .firstKey⟩ := if_pos room
  rw [run, opened, Option.bind_some]

/-- A key and its colon. -/
theorem run_key (done : Fields Value) (key : String) (tokens : List Token) :
    run limit ⟨.fields done :: outer, .key⟩ (.text key.toList :: .colon :: tokens) =
      run limit ⟨.field done key :: outer, .value⟩ tokens :=
  congrArg (fun key => run limit ⟨.field done key :: outer, .value⟩ tokens) String.ofList_toList

mutual
/-- The tokens of a value deliver it. -/
theorem run_tokensOf : ∀ {value : Value} {stack : List Container}, value.Canonical →
    stack.length + value.depth < limit →
    run limit ⟨stack, .value⟩ (tokensOf value) = deliver value stack
  | .unit, _, _, _ | .number _, _, _, _ | .boolean _, _, _, _ => run_singleton _ _
  | .text content, stack, _, _ => by
    rw [tokensOf, run_singleton]
    exact congrArg (fun text => deliver (.text text) stack) String.ofList_toList
  | .sequence items, stack, canonical, fits => by
    rw [Value.depth, ← Nat.add_assoc, Nat.add_right_comm] at fits
    rw [tokensOf, run_openSequence (Nat.lt_of_le_of_lt (Nat.le_add_right _ _) fits)]
    cases items with
    | nil => exact run_singleton _ _
    | cons item rest =>
      have some := List.cons_ne_nil item rest
      rw [run_firstItem some, run_append, run_itemTokens some canonical [] fits, Option.bind_some,
        run_singleton, List.append_nil]
      exact congrArg (fun items => deliver (.sequence items) stack) (List.reverse_reverse _)
  | .mapping fields, stack, ⟨ordered, canonical⟩, fits => by
    rw [Value.depth, ← Nat.add_assoc, Nat.add_right_comm] at fits
    rw [tokensOf, run_openMapping (Nat.lt_of_le_of_lt (Nat.le_add_right _ _) fits)]
    cases fields with
    | nil => exact run_singleton _ _
    | cons field rest =>
      have some := List.cons_ne_nil field rest
      rw [run_firstKey some, run_append, run_fieldTokens some canonical [] ordered fits,
        Option.bind_some, run_singleton]
      rfl

/-- The tokens of items add the items to the sequence that is open. -/
theorem run_itemTokens : ∀ {items : List Value} {outer : List Container}, items ≠ [] →
    AllCanonical items → (done : List Value) → outer.length + 1 + itemsDepth items < limit →
    run limit ⟨.items done :: outer, .value⟩ (itemTokens items) =
      some ⟨.items (items.reverse ++ done) :: outer, .more⟩
  | [item], outer, _, ⟨canonical, _⟩, done, fits => by
    have room : (Container.items done :: outer).length + item.depth < limit :=
      Nat.lt_of_le_of_lt (Nat.add_le_add_left (Nat.le_max_left _ _) _) fits
    exact run_tokensOf canonical room
  | item :: next :: rest, outer, _, ⟨canonical, further⟩, done, fits => by
    have room : (Container.items done :: outer).length + item.depth < limit :=
      Nat.lt_of_le_of_lt (Nat.add_le_add_left (Nat.le_max_left _ _) _) fits
    have behind : outer.length + 1 + itemsDepth (next :: rest) < limit :=
      Nat.lt_of_le_of_lt (Nat.add_le_add_left (Nat.le_max_right _ _) _) fits
    have items := run_itemTokens (List.cons_ne_nil next rest) further (item :: done) behind
    rw [itemTokens, run_append, run_tokensOf canonical room]
    · rw [List.reverse_cons, List.append_assoc]
      exact items
    · exact List.cons_ne_nil next rest

/-- The tokens of fields add the fields to the mapping that is open. -/
theorem run_fieldTokens : ∀ {fields : List (String × Value)} {outer : List Container}, fields ≠ [] →
    FieldsCanonical fields → (done : Fields Value) → Fields.Ordered (done ++ fields) →
    outer.length + 1 + fieldsDepth fields < limit →
    run limit ⟨.fields done :: outer, .key⟩ (fieldTokens fields) =
      some ⟨.fields (done ++ fields) :: outer, .more⟩
  | [(key, value)], outer, _, ⟨canonical, _⟩, done, ordered, fits => by
    have room : (Container.field done key :: outer).length + value.depth < limit :=
      Nat.lt_of_le_of_lt (Nat.add_le_add_left (Nat.le_max_left _ _) _) fits
    rw [fieldTokens, run_key, run_tokensOf canonical room, deliver,
      Fields.insert_of_greatest fun field inside => ?_]
    exact (List.pairwise_append.mp ordered).2.2 field inside _ List.mem_cons_self
  | (key, value) :: next :: rest, outer, _, ⟨canonical, further⟩, done, ordered, fits => by
    have room : (Container.field done key :: outer).length + value.depth < limit :=
      Nat.lt_of_le_of_lt (Nat.add_le_add_left (Nat.le_max_left _ _) _) fits
    have behind : outer.length + 1 + fieldsDepth (next :: rest) < limit :=
      Nat.lt_of_le_of_lt (Nat.add_le_add_left (Nat.le_max_right _ _) _) fits
    have entered : Fields.insert done key value = done ++ [(key, value)] :=
      Fields.insert_of_greatest fun field inside =>
        (List.pairwise_append.mp ordered).2.2 field inside _ List.mem_cons_self
    have same : done ++ (key, value) :: next :: rest = done ++ [(key, value)] ++ next :: rest := by
      rw [List.append_assoc, List.singleton_append]
    rw [same] at ordered ⊢
    have fields := run_fieldTokens (List.cons_ne_nil next rest) further (done ++ [(key, value)])
      ordered behind
    rw [fieldTokens, run_key, run_append, run_tokensOf canonical room, deliver, entered]
    · exact fields
    · exact List.cons_ne_nil next rest
end

/-- A value that is not nested too deeply is made of its tokens. -/
theorem value?_tokensOf {value : Value} (canonical : value.Canonical)
    (fits : value.depth < limit) : value? limit (tokensOf value) = some value := by
  rw [value?, run_tokensOf canonical ((Nat.zero_add _).symm ▸ fits)]
  rfl

end Assembly
end Json
end Manifest
