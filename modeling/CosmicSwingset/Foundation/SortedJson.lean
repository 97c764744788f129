import CosmicSwingset.Foundation.Json
import Mathlib.Data.List.Lex
import Mathlib.Data.List.Sort
import Mathlib.Data.List.TakeWhile

/-!
# JSON with sorted keys and natural numbers

`stringifySorted` writes a value with the members of every object in the order of their keys, which
is that of their UTF-16 code units. The numbers are natural numbers in decimal digits without
leading zeros; a text with any other number is not read.
-/

set_option autoImplicit false
set_option relaxedAutoImplicit false

namespace CosmicSwingset.Foundation

universe u

/-! ### Natural numbers -/

/-- The digits at the beginning of the input, if they are the numeral of a natural number. -/
def readNat (input : List Char) : Option (ℕ × List Char) :=
  let digits := input.takeWhile Char.isDigit
  if digits = [] ∨ digits.head? = some '0' ∧ 1 < digits.length then none
  else some (Nat.ofDigitChars 10 digits 0, input.dropWhile Char.isDigit)

theorem head_toDigits {n : ℕ} (h : 0 < n) : (Nat.toDigits 10 n).head? ≠ some '0' := by
  induction n using Nat.strong_induction_on with
  | _ n ih =>
    by_cases hsmall : n < 10
    · rw [Nat.toDigits_of_lt_base hsmall, List.head?_cons]
      intro hzero
      rw [Option.some.injEq, Nat.digitChar_eq_zero] at hzero
      omega
    · rw [Nat.toDigits_of_base_le (by omega) (by omega), List.head?_append_of_ne_nil _
        Nat.toDigits_ne_nil]
      exact ih (n / 10) (by omega) (by omega)

/-- What may follow the digits of a number. -/
def EndsDigits (rest : List Char) : Prop := ∀ c ∈ rest.head?, c.isDigit = false

theorem Ends.digits {rest : List Char} (h : Ends rest) : EndsDigits rest := by
  intro c hc
  rcases h c hc with rfl | rfl | rfl <;> decide

theorem takeWhile_digits {digits rest : List Char} (hdigits : ∀ c ∈ digits, c.isDigit)
    (hrest : EndsDigits rest) :
    (digits ++ rest).takeWhile Char.isDigit = digits ∧
      (digits ++ rest).dropWhile Char.isDigit = rest := by
  have hstop : rest.takeWhile Char.isDigit = [] ∧ rest.dropWhile Char.isDigit = rest := by
    cases rest with
    | nil => exact ⟨rfl, rfl⟩
    | cons c rest =>
      rw [List.takeWhile_cons, List.dropWhile_cons, hrest c rfl]
      exact ⟨rfl, rfl⟩
  rw [List.takeWhile_append_of_pos hdigits, List.dropWhile_append_of_pos hdigits, hstop.1, hstop.2,
    List.append_nil]
  exact ⟨rfl, rfl⟩

theorem isDigit_of_mem_toDigits {n : ℕ} {c : Char} (hc : c ∈ Nat.toDigits 10 n) : c.isDigit :=
  Nat.isDigit_of_mem_toDigits (by omega) le_rfl hc

theorem readNat_toDigits (n : ℕ) {rest : List Char} (hrest : EndsDigits rest) :
    readNat (Nat.toDigits 10 n ++ rest) = some (n, rest) := by
  obtain ⟨htake, hdrop⟩ := takeWhile_digits (fun c hc ↦ isDigit_of_mem_toDigits hc) hrest
  rw [readNat, htake, hdrop, if_neg, Nat.ofDigitChars_toDigits (by omega) le_rfl]
  rintro (hnil | ⟨hzero, hlong⟩)
  · exact Nat.toDigits_ne_nil hnil
  · by_cases hpos : 0 < n
    · exact head_toDigits hpos hzero
    · obtain rfl : n = 0 := by omega
      simp at hlong

theorem toDigits_starts (n : ℕ) : ∃ c digits, Nat.toDigits 10 n = c :: digits ∧ c.isDigit := by
  obtain ⟨c, digits, hdigits⟩ :=
    List.exists_cons_of_ne_nil (Nat.toDigits_ne_nil (n := n) (b := 10))
  have hc : c ∈ Nat.toDigits 10 n := hdigits ▸ List.mem_cons_self
  exact ⟨c, digits, hdigits, isDigit_of_mem_toDigits hc⟩

/-- Natural numbers in decimal digits. -/
def Numerals.nat : Numerals ℕ where
  write := Nat.toDigits 10
  read := readNat
  starts := fun n ↦ by
    obtain ⟨c, digits, hdigits, hc⟩ := toDigits_starts n
    exact ⟨c, digits, hdigits, Or.inl hc⟩
  read_write := fun n _ hrest ↦ readNat_toDigits n hrest.digits

/-! ### Sorted keys -/

namespace Json

variable {ν : Type u}

/-- The order of `Array.prototype.sort` on strings. -/
def keyLe (a b : String × Json ν) : Bool := utf16 a.1.toList ≤ utf16 b.1.toList

mutual

/-- The value with the members of every object in the order of their keys. -/
def sortKeys : Json ν → Json ν
  | .arr vs => .arr (sortKeysElements vs)
  | .obj ms => .obj ((sortKeysMembers ms).insertionSort (keyLe · ·))
  | v => v

def sortKeysElements : List (Json ν) → List (Json ν)
  | [] => []
  | v :: vs => sortKeys v :: sortKeysElements vs

def sortKeysMembers : List (String × Json ν) → List (String × Json ν)
  | [] => []
  | (key, v) :: ms => (key, sortKeys v) :: sortKeysMembers ms

end

/-- The text of a value with sorted keys. -/
def stringifySorted (numerals : Numerals ν) (v : Json ν) : String :=
  String.ofList (render numerals (sortKeys v))

/-- `JSON.parse`. -/
def parseString (numerals : Numerals ν) (text : String) : Option (Json ν) :=
  parse numerals text.toList

/-- A value is what was parsed if it has the same text; texts, other than values, can be
compared. -/
theorem parseString_of_render {numerals : Numerals ν} {text : String} {v : Json ν}
    (h : (parseString numerals text).map (render numerals) = some (render numerals v)) :
    parseString numerals text = some v := by
  obtain ⟨w, hparse, hrender⟩ := Option.map_eq_some_iff.mp h
  rw [hparse, render_injective numerals hrender]

theorem parseString_stringifySorted (numerals : Numerals ν) (v : Json ν) :
    parseString numerals (stringifySorted numerals v) = some (sortKeys v) := by
  rw [parseString, stringifySorted, String.toList_ofList, parse_render]

theorem sortKeysElements_eq_map (vs : List (Json ν)) : sortKeysElements vs = vs.map sortKeys := by
  induction vs with
  | nil => rfl
  | cons v vs ih => rw [sortKeysElements, ih, List.map_cons]

theorem sortKeysMembers_eq_map (ms : List (String × Json ν)) :
    sortKeysMembers ms = ms.map fun m ↦ (m.1, sortKeys m.2) := by
  induction ms with
  | nil => rfl
  | cons m ms ih =>
    obtain ⟨key, v⟩ := m
    rw [sortKeysMembers, ih, List.map_cons]

/-! ### Sorting again -/

theorem keyLe_total (a b : String × Json ν) : keyLe a b = true ∨ keyLe b a = true := by
  simpa [keyLe] using le_total (utf16 a.1.toList) (utf16 b.1.toList)

theorem keyLe_trans {a b c : String × Json ν} (hab : keyLe a b = true) (hbc : keyLe b c = true) :
    keyLe a c = true := by
  simp only [keyLe, decide_eq_true_eq] at hab hbc ⊢
  exact hab.trans hbc

theorem insertionSort_keyLe_idempotent (ms : List (String × Json ν)) :
    (ms.insertionSort (keyLe · ·)).insertionSort (keyLe · ·) = ms.insertionSort (keyLe · ·) := by
  have htotal : Std.Total fun a b : String × Json ν ↦ keyLe a b = true := ⟨keyLe_total⟩
  have htrans : IsTrans (String × Json ν) fun a b ↦ keyLe a b = true := ⟨fun _ _ _ ↦ keyLe_trans⟩
  exact List.Pairwise.insertionSort_eq (List.pairwise_insertionSort _ ms)

/-- The order of the members depends on their keys only. -/
theorem sortKeysMembers_insertionSort (ms : List (String × Json ν)) :
    sortKeysMembers (ms.insertionSort (keyLe · ·)) =
      (sortKeysMembers ms).insertionSort (keyLe · ·) := by
  rw [sortKeysMembers_eq_map, sortKeysMembers_eq_map]
  exact List.map_insertionSort _ _ _ _ fun a _ b _ ↦ Iff.rfl

mutual

theorem sortKeys_sortKeys : ∀ v : Json ν, sortKeys (sortKeys v) = sortKeys v
  | .null | .bool _ | .num _ | .str _ => rfl
  | .arr vs => by rw [sortKeys, sortKeys, sortKeysElements_sortKeysElements vs]
  | .obj ms => by
    rw [sortKeys, sortKeys, sortKeysMembers_insertionSort, sortKeysMembers_sortKeysMembers ms,
      insertionSort_keyLe_idempotent]

theorem sortKeysElements_sortKeysElements :
    ∀ vs : List (Json ν), sortKeysElements (sortKeysElements vs) = sortKeysElements vs
  | [] => rfl
  | v :: vs => by
    rw [sortKeysElements, sortKeysElements, sortKeys_sortKeys v,
      sortKeysElements_sortKeysElements vs]

theorem sortKeysMembers_sortKeysMembers :
    ∀ ms : List (String × Json ν), sortKeysMembers (sortKeysMembers ms) = sortKeysMembers ms
  | [] => rfl
  | (key, v) :: ms => by
    rw [sortKeysMembers, sortKeysMembers, sortKeys_sortKeys v, sortKeysMembers_sortKeysMembers ms]

end

end Json

end CosmicSwingset.Foundation
