import CosmicSwingset.Foundation.Utf8

/-!
# UTF-16 code units

JavaScript strings are sequences of 16-bit code units: a character is one unit, or a high surrogate
and a low one. `ofUtf16` reads units as text and replaces a surrogate that is not part of a pair; on
the units of a text it gives the text back (`ofUtf16_utf16`).
-/

set_option autoImplicit false
set_option relaxedAutoImplicit false

namespace CosmicSwingset.Foundation

def isHighSurrogate (unit : ℕ) : Bool := 0xD800 ≤ unit && unit ≤ 0xDBFF

def isLowSurrogate (unit : ℕ) : Bool := 0xDC00 ≤ unit && unit ≤ 0xDFFF

/-- The code units of a character. -/
def charUnits (c : Char) : List ℕ :=
  if c.toNat < 0x10000 then [c.toNat]
  else [0xD800 + (c.toNat - 0x10000) / 1024, 0xDC00 + (c.toNat - 0x10000) % 1024]

/-- The code units of a text. -/
def utf16 (chars : List Char) : List ℕ := chars.flatMap charUnits

/-- The text of a sequence of code units after a high surrogate that waits for a low one. -/
def ofUtf16From : Option ℕ → List ℕ → List Char
  | none, [] => []
  | some high, [] => [runeChar high]
  | none, unit :: rest =>
    if isHighSurrogate unit then ofUtf16From (some unit) rest
    else runeChar unit :: ofUtf16From none rest
  | some high, unit :: rest =>
    if isLowSurrogate unit then
      runeChar (0x10000 + (high - 0xD800) * 1024 + (unit - 0xDC00)) :: ofUtf16From none rest
    else if isHighSurrogate unit then runeChar high :: ofUtf16From (some unit) rest
    else runeChar high :: runeChar unit :: ofUtf16From none rest

/-- The text of a sequence of code units. -/
def ofUtf16 (units : List ℕ) : List Char := ofUtf16From none units

theorem ofUtf16From_charUnits (c : Char) (rest : List ℕ) :
    ofUtf16From none (charUnits c ++ rest) = c :: ofUtf16From none rest := by
  have hvalid : c.toNat.isValidChar := c.valid
  unfold Nat.isValidChar at hvalid
  by_cases hsmall : c.toNat < 0x10000
  · have hunit : isHighSurrogate c.toNat = false := by
      simp only [isHighSurrogate, Bool.and_eq_false_iff, decide_eq_false_iff_not]
      omega
    rw [charUnits, if_pos hsmall, List.singleton_append, ofUtf16From, hunit,
      if_neg Bool.false_ne_true, runeChar_toNat]
  · have hhigh : isHighSurrogate (0xD800 + (c.toNat - 0x10000) / 1024) = true := by
      simp only [isHighSurrogate, Bool.and_eq_true, decide_eq_true_eq]
      omega
    have hlow : isLowSurrogate (0xDC00 + (c.toNat - 0x10000) % 1024) = true := by
      simp only [isLowSurrogate, Bool.and_eq_true, decide_eq_true_eq]
      omega
    have hsum : 0x10000 + (0xD800 + (c.toNat - 0x10000) / 1024 - 0xD800) * 1024 +
        (0xDC00 + (c.toNat - 0x10000) % 1024 - 0xDC00) = c.toNat := by omega
    rw [charUnits, if_neg hsmall, List.cons_append, List.singleton_append, ofUtf16From,
      if_pos hhigh, ofUtf16From, if_pos hlow, hsum, runeChar_toNat]

/-- A text is read back from its code units. -/
theorem ofUtf16_utf16 (chars : List Char) : ofUtf16 (utf16 chars) = chars := by
  induction chars with
  | nil => rfl
  | cons c chars ih =>
    rw [utf16, List.flatMap_cons, ofUtf16, ofUtf16From_charUnits]
    exact congrArg (c :: ·) ih

end CosmicSwingset.Foundation
