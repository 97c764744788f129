import CosmicSwingset.Chain.Keeper

/-!
# Amino encoding of the keeper's values

`MustMarshalBinaryBare` writes a struct as its fields that are not zero, each with a key byte and
its contents. `Storage` and `Keys` are not registered with the codec and have a single field with
the key byte `0x0A`: a string, absent when it is empty, and a list of strings, one field an element.
-/

set_option autoImplicit false
set_option relaxedAutoImplicit false

namespace CosmicSwingset.Chain

open Foundation

/-- Field number 1, length-prefixed contents. -/
def fieldKey : Byte := 10

def aminoFields (fields : List Bytes) : Bytes :=
  fields.flatMap fun field ↦ fieldKey :: lengthPrefixed field

/-- Reads at most `fuel` fields, which must be all of the input. -/
def readFields : ℕ → Bytes → Option (List Bytes)
  | _, [] => some []
  | 0, _ :: _ => none
  | fuel + 1, key :: input =>
    if key = fieldKey then
      match readLengthPrefixed input with
      | none => none
      | some (field, rest) => (readFields fuel rest).map (field :: ·)
    else none

theorem readFields_aminoFields {fuel : ℕ} {fields : List Bytes} (hfuel : fields.length ≤ fuel) :
    readFields fuel (aminoFields fields) = some fields := by
  induction fields generalizing fuel with
  | nil => cases fuel <;> rfl
  | cons field fields ih =>
    obtain ⟨fuel, rfl⟩ := Nat.exists_eq_succ_of_ne_zero (Nat.ne_of_gt
      (lt_of_lt_of_le (Nat.succ_pos fields.length) hfuel))
    have hrest := ih (Nat.le_of_succ_le_succ hfuel)
    rw [aminoFields] at hrest
    simp only [aminoFields, List.flatMap_cons, List.cons_append, readFields, if_true,
      readLengthPrefixed_append, hrest, Option.map_some]

theorem length_le_aminoFields (fields : List Bytes) :
    fields.length ≤ (aminoFields fields).length := by
  induction fields with
  | nil => exact le_rfl
  | cons field fields ih =>
    simp only [aminoFields, List.flatMap_cons, List.length_append, List.length_cons] at ih ⊢
    omega

theorem readFields_length (fields : List Bytes) :
    readFields (aminoFields fields).length (aminoFields fields) = some fields :=
  readFields_aminoFields (length_le_aminoFields fields)

/-- Amino at `types.Storage`. -/
def aminoStorage : Codec Storage where
  marshal := fun storage ↦ aminoFields (if storage.value = [] then [] else [storage.value])
  unmarshal := fun bz ↦ match readFields bz.length bz with
    | some [] => some ⟨[]⟩
    | some [value] => some ⟨value⟩
    | _ => none
  unmarshal_marshal := by
    rintro ⟨value⟩
    rw [readFields_length]
    by_cases hvalue : value = [] <;> simp [hvalue]

/-- Amino at `types.Keys`. -/
def aminoKeys : Codec Keys where
  marshal := fun keys ↦ aminoFields keys.keys
  unmarshal := fun bz ↦ (readFields bz.length bz).map Keys.mk
  unmarshal_marshal := fun keys ↦ by rw [readFields_length, Option.map_some]

/-- The keeper of the application. -/
def aminoKeeper : Keeper := ⟨aminoStorage, aminoKeys⟩

end CosmicSwingset.Chain
