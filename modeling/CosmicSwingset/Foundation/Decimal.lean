import CosmicSwingset.Foundation.SortedJson
import Mathlib.Algebra.Order.Field.Rat
import Mathlib.Tactic.NormNum

/-!
# Decimal numbers of JSON texts

The numbers of the JSON grammar with their exact values: a `Decimal` is an integer times a power of
ten. The reader takes every number of the grammar, with its sign, fraction and exponent; the writer
puts an integer in digits, as encoders do, and any other number with an exponent.
-/

set_option autoImplicit false
set_option relaxedAutoImplicit false

namespace CosmicSwingset.Foundation

/-- The number `mantissa * 10 ^ exponent`. -/
structure Decimal where
  mantissa : ℤ
  exponent : ℤ
  deriving DecidableEq

namespace Decimal

def value (d : Decimal) : ℚ := d.mantissa * 10 ^ d.exponent

def ofInt (n : ℤ) : Decimal := ⟨n, 0⟩

@[simp] theorem value_ofInt (n : ℤ) : (ofInt n).value = n := by
  simp [value, ofInt]

/-- The least magnitude that rounds to an infinity: half-way from the greatest `float64` to
`2 ^ 1024`. -/
def float64Limit : ℕ := 2 ^ 1024 - 2 ^ 970

/-- The number rounds to a finite `float64`. -/
def inFloat64 (d : Decimal) : Bool := |d.value| < float64Limit

/-- An integer of 64 bits is in range. -/
theorem inFloat64_ofInt {n : ℤ} (h : n.natAbs < 2 ^ 64) : (ofInt n).inFloat64 = true := by
  have hlimit : 2 ^ 64 ≤ float64Limit := by decide +kernel
  have habs : |(ofInt n).value| = (n.natAbs : ℚ) := by
    rw [value_ofInt, Nat.cast_natAbs, Int.cast_abs]
  rw [inFloat64, decide_eq_true_eq, habs]
  exact_mod_cast h.trans_le hlimit

/-! ### Writing -/

def writeInt : ℤ → List Char
  | .ofNat n => Nat.toDigits 10 n
  | .negSucc n => '-' :: Nat.toDigits 10 (n + 1)

def write (d : Decimal) : List Char :=
  writeInt d.mantissa ++ if d.exponent = 0 then [] else 'e' :: writeInt d.exponent

/-! ### Reading -/

/-- One digit or more. -/
def readDigits (input : List Char) : Option (List Char × List Char) :=
  let digits := input.takeWhile Char.isDigit
  if digits = [] then none else some (digits, input.dropWhile Char.isDigit)

/-- The digits of an optional fraction. -/
def readFraction (input : List Char) : Option (List Char × List Char) :=
  if input.head? = some '.' then readDigits input.tail else some ([], input)

/-- The digits of an exponent after its letter and with its sign. -/
def readSigned (input : List Char) : Option (ℤ × List Char) :=
  if input.head? = some '-' then
    (readDigits input.tail).map fun p ↦ (-Nat.ofDigitChars 10 p.1 0, p.2)
  else
    (readDigits (if input.head? = some '+' then input.tail else input)).map fun p ↦
      (Nat.ofDigitChars 10 p.1 0, p.2)

/-- The value of an optional exponent. -/
def readExponent (input : List Char) : Option (ℤ × List Char) :=
  if input.head? = some 'e' ∨ input.head? = some 'E' then readSigned input.tail
  else some (0, input)

/-- A number without a sign. -/
def readUnsigned (input : List Char) : Option (Decimal × List Char) := do
  let (whole, rest) ← readNat input
  let (fraction, rest) ← readFraction rest
  let (exponent, rest) ← readExponent rest
  return (⟨whole * 10 ^ fraction.length + Nat.ofDigitChars 10 fraction 0,
    exponent - fraction.length⟩, rest)

def read (input : List Char) : Option (Decimal × List Char) :=
  if input.head? = some '-' then
    (readUnsigned input.tail).map fun p ↦ (⟨-p.1.mantissa, p.1.exponent⟩, p.2)
  else readUnsigned input

/-! ### Reading back -/

theorem writeInt_starts (n : ℤ) :
    ∃ c digits, writeInt n = c :: digits ∧ (c.isDigit ∨ c = '-') := by
  cases n with
  | ofNat n =>
    obtain ⟨c, digits, hdigits, hc⟩ := toDigits_starts n
    exact ⟨c, digits, hdigits, Or.inl hc⟩
  | negSucc n => exact ⟨'-', Nat.toDigits 10 (n + 1), rfl, Or.inr rfl⟩

theorem readDigits_toDigits (n : ℕ) {rest : List Char} (hrest : EndsDigits rest) :
    readDigits (Nat.toDigits 10 n ++ rest) = some (Nat.toDigits 10 n, rest) := by
  obtain ⟨htake, hdrop⟩ := takeWhile_digits (fun c hc ↦ isDigit_of_mem_toDigits hc) hrest
  rw [readDigits, htake, hdrop, if_neg Nat.toDigits_ne_nil]

/-- A character that is no digit does not begin a number's digits. -/
theorem head?_toDigits_ne (n : ℕ) {c : Char} (hc : c.isDigit = false) (rest : List Char) :
    (Nat.toDigits 10 n ++ rest).head? ≠ some c := by
  obtain ⟨d, digits, hdigits, hd⟩ := toDigits_starts n
  rw [hdigits, List.cons_append, List.head?_cons]
  intro heq
  rw [Option.some.inj heq, hc] at hd
  exact Bool.false_ne_true hd

theorem readSigned_writeInt (n : ℤ) {rest : List Char} (hrest : EndsDigits rest) :
    readSigned (writeInt n ++ rest) = some (n, rest) := by
  cases n with
  | ofNat n =>
    have hminus := head?_toDigits_ne n (c := '-') (by decide) rest
    have hplus := head?_toDigits_ne n (c := '+') (by decide) rest
    rw [readSigned, writeInt, if_neg hminus, if_neg hplus, readDigits_toDigits n hrest,
      Option.map_some, Nat.ofDigitChars_toDigits (by omega) le_rfl]
    rfl
  | negSucc n =>
    rw [readSigned, writeInt, List.cons_append, List.head?_cons, if_pos rfl, List.tail_cons,
      readDigits_toDigits (n + 1) hrest, Option.map_some,
      Nat.ofDigitChars_toDigits (by omega) le_rfl]
    rfl

/-- What follows the whole part of a written number. -/
def exponentText (exponent : ℤ) : List Char :=
  if exponent = 0 then [] else 'e' :: writeInt exponent

theorem head?_exponentText (exponent : ℤ) {rest : List Char} (hrest : Ends rest) :
    ∀ c ∈ (exponentText exponent ++ rest).head?,
      c.isDigit = false ∧ c ≠ '.' ∧ (exponent = 0 → c ≠ 'e' ∧ c ≠ 'E') := by
  intro c hc
  by_cases hzero : exponent = 0
  · rw [exponentText, if_pos hzero, List.nil_append] at hc
    rcases hrest c hc with rfl | rfl | rfl <;> simp
  · rw [exponentText, if_neg hzero, List.cons_append, List.head?_cons, Option.mem_some_iff] at hc
    subst hc
    simp [hzero]

theorem readExponent_exponentText (exponent : ℤ) {rest : List Char} (hrest : Ends rest) :
    readExponent (exponentText exponent ++ rest) = some (exponent, rest) := by
  by_cases hzero : exponent = 0
  · have hhead := head?_exponentText exponent hrest
    rw [readExponent, if_neg, exponentText, if_pos hzero, List.nil_append, hzero]
    rintro (hc | hc)
    · exact ((hhead _ hc).2.2 hzero).1 rfl
    · exact ((hhead _ hc).2.2 hzero).2 rfl
  · have hletter : ('e' :: (writeInt exponent ++ rest)).head? = some 'e' := rfl
    rw [exponentText, if_neg hzero, List.cons_append, readExponent, if_pos (Or.inl hletter),
      List.tail_cons, readSigned_writeInt exponent hrest.digits]

theorem readUnsigned_toDigits (n : ℕ) (exponent : ℤ) {rest : List Char} (hrest : Ends rest) :
    readUnsigned (Nat.toDigits 10 n ++ (exponentText exponent ++ rest)) =
      some (⟨n, exponent⟩, rest) := by
  have hhead := head?_exponentText exponent hrest
  have hfraction : readFraction (exponentText exponent ++ rest) =
      some ([], exponentText exponent ++ rest) :=
    if_neg fun hc ↦ (hhead _ hc).2.1 rfl
  rw [readUnsigned, readNat_toDigits n fun c hc ↦ (hhead c hc).1]
  simp only [Option.bind_eq_bind, Option.bind_some, hfraction,
    readExponent_exponentText exponent hrest]
  simp

theorem read_write (d : Decimal) {rest : List Char} (hrest : Ends rest) :
    read (d.write ++ rest) = some (d, rest) := by
  obtain ⟨mantissa, exponent⟩ := d
  change read (writeInt mantissa ++ exponentText exponent ++ rest) = _
  rw [List.append_assoc]
  cases mantissa with
  | ofNat n =>
    have hminus := head?_toDigits_ne n (c := '-') (by decide) (exponentText exponent ++ rest)
    rw [read, writeInt, if_neg hminus, readUnsigned_toDigits n exponent hrest]
    rfl
  | negSucc n =>
    rw [read, writeInt, List.cons_append, List.head?_cons, if_pos rfl, List.tail_cons,
      readUnsigned_toDigits (n + 1) exponent hrest, Option.map_some]
    rfl

theorem write_ofInt_natCast (n : ℕ) : (ofInt n).write = Nat.toDigits 10 n := by
  change writeInt n ++ (if (0 : ℤ) = 0 then [] else _) = _
  rw [if_pos rfl, List.append_nil]
  rfl

theorem printed_writeInt (n : ℤ) : Json.Printed (writeInt n) := by
  have hdigits : ∀ m : ℕ, Json.Printed (Nat.toDigits 10 m) := by
    intro m c hc
    have hdigit := isDigit_of_mem_toDigits hc
    rw [Char.isDigit_iff_toNat] at hdigit
    change 48 ≤ c.toNat ∧ c.toNat ≤ 57 at hdigit
    omega
  cases n with
  | ofNat n => exact hdigits n
  | negSucc n => exact Json.printed_cons.mpr ⟨by decide, hdigits (n + 1)⟩

theorem printed_write (d : Decimal) : Json.Printed d.write := by
  rw [write, Json.printed_append]
  refine ⟨printed_writeInt d.mantissa, ?_⟩
  split_ifs
  · exact Json.printed_nil
  · exact Json.printed_cons.mpr ⟨by decide, printed_writeInt d.exponent⟩

end Decimal

/-- The numbers of the JSON grammar. -/
def Numerals.decimal : Numerals Decimal where
  write := Decimal.write
  read := Decimal.read
  starts := fun d ↦ by
    obtain ⟨c, digits, hdigits, hc⟩ := Decimal.writeInt_starts d.mantissa
    exact ⟨c, _, by rw [Decimal.write, hdigits, List.cons_append], hc⟩
  read_write := fun d _ hrest ↦ d.read_write hrest

example : Decimal.read "-12.50e3]".toList = some (⟨-1250, 1⟩, [']']) := by decide

end CosmicSwingset.Foundation
