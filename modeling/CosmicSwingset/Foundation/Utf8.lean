import CosmicSwingset.Foundation.Codec
import Mathlib.Data.List.TakeWhile

/-!
# Decoding UTF-8 with replacement

A sequence of bytes read as text the way encoders of JSON do it: a sequence of one to four bytes
that is valid UTF-8 is its character, and a byte that begins no such sequence is replaced by
`U+FFFD`. The decoder advances by the size of each character it reads, so it is a structural
recursion over the bytes that carries the number of bytes still to skip.

Replacement loses information, but not on ASCII: bytes that decode to the text of an ASCII sequence
are that sequence (`decode_eq_iff_of_isAscii`).
-/

set_option autoImplicit false
set_option relaxedAutoImplicit false

namespace CosmicSwingset.Foundation

/-- The character that stands for a byte that is not UTF-8. -/
def replacement : Char := Char.ofNat 0xFFFD

/-- The character with the given code point, if there is one. -/
def runeChar (rune : ℕ) : Char :=
  if rune.isValidChar then Char.ofNat rune else replacement

/-- A byte from 0x80 to 0xBF. -/
def isTail (b : Byte) : Bool := 0x80 ≤ b.val && b.val ≤ 0xBF

/-- The first character of a sequence of bytes and the number of bytes it takes. Past the end a byte
reads as 0, which is no tail. -/
def decodeRune (b₀ : Byte) (rest : Bytes) : Char × ℕ :=
  let b₁ := rest.getD 0 0
  let b₂ := rest.getD 1 0
  let b₃ := rest.getD 2 0
  if b₀.val < 0x80 then (runeChar b₀.val, 1)
  else if 0xC2 ≤ b₀.val && b₀.val ≤ 0xDF && isTail b₁ then
    (runeChar (b₀.val % 32 * 64 + b₁.val % 64), 2)
  -- after 0xE0 no overlong form, after 0xED no surrogate
  else if 0xE0 ≤ b₀.val && b₀.val ≤ 0xEF && isTail b₁ && isTail b₂ &&
      (b₀.val != 0xE0 || 0xA0 ≤ b₁.val) && (b₀.val != 0xED || b₁.val ≤ 0x9F) then
    (runeChar (b₀.val % 16 * 4096 + b₁.val % 64 * 64 + b₂.val % 64), 3)
  else if 0xF0 ≤ b₀.val && b₀.val ≤ 0xF4 && isTail b₁ && isTail b₂ && isTail b₃ &&
      (b₀.val != 0xF0 || 0x90 ≤ b₁.val) && (b₀.val != 0xF4 || b₁.val ≤ 0x8F) then
    (runeChar (b₀.val % 8 * 262144 + b₁.val % 64 * 4096 + b₂.val % 64 * 64 + b₃.val % 64), 4)
  else (replacement, 1)

/-- The text of a sequence of bytes of which the first `skip` are already read. -/
def decodeFrom : ℕ → Bytes → List Char
  | _, [] => []
  | skip + 1, _ :: rest => decodeFrom skip rest
  | 0, b :: rest => (decodeRune b rest).1 :: decodeFrom ((decodeRune b rest).2 - 1) rest

/-- The text of a sequence of bytes. -/
def decode (s : Bytes) : String := String.ofList (decodeFrom 0 s)

/-- All bytes are ASCII. -/
def IsAscii (s : Bytes) : Prop := ∀ b ∈ s, b.val < 0x80

instance (s : Bytes) : Decidable (IsAscii s) :=
  inferInstanceAs (Decidable (∀ b ∈ s, b.val < 0x80))

theorem toNat_runeChar {rune : ℕ} (hvalid : rune.isValidChar) :
    (runeChar rune).toNat = rune := by
  rw [runeChar, if_pos hvalid]
  unfold Char.ofNat
  rw [dif_pos hvalid]
  rfl

theorem le_toNat_runeChar {rune : ℕ} (h : 0x80 ≤ rune) : 0x80 ≤ (runeChar rune).toNat := by
  by_cases hvalid : rune.isValidChar
  · rw [toNat_runeChar hvalid]
    exact h
  · rw [runeChar, if_neg hvalid]
    decide

theorem decodeRune_of_ascii {b : Byte} (hb : b.val < 0x80) (rest : Bytes) :
    decodeRune b rest = (runeChar b.val, 1) := by
  simp only [decodeRune, if_pos hb]

/-- A character below 0x80 is read from a byte below 0x80. -/
theorem lt_of_toNat_decodeRune_lt {b : Byte} (rest : Bytes)
    (h : (decodeRune b rest).1.toNat < 0x80) : b.val < 0x80 := by
  by_contra hb
  refine absurd h (not_lt.mpr ?_)
  simp only [decodeRune, if_neg hb]
  split_ifs with h₂ h₃ h₄
  · simp only [isTail, Bool.and_eq_true, decide_eq_true_eq] at h₂
    exact le_toNat_runeChar (by omega)
  · simp only [isTail, Bool.and_eq_true, Bool.or_eq_true, bne_iff_ne, decide_eq_true_eq] at h₃
    exact le_toNat_runeChar (by omega)
  · simp only [isTail, Bool.and_eq_true, Bool.or_eq_true, bne_iff_ne, decide_eq_true_eq] at h₄
    exact le_toNat_runeChar (by omega)
  · decide

theorem decodeFrom_injective_of_isAscii {s t : Bytes} (hs : IsAscii s)
    (h : decodeFrom 0 t = decodeFrom 0 s) : t = s := by
  induction s generalizing t with
  | nil =>
    cases t with
    | nil => rfl
    | cons b t => simp [decodeFrom] at h
  | cons a s ih =>
    have ha : a.val < 0x80 := hs a List.mem_cons_self
    have hvalid : a.val.isValidChar := Or.inl (by omega)
    rw [decodeFrom, decodeRune_of_ascii ha] at h
    cases t with
    | nil => simp [decodeFrom] at h
    | cons b t =>
      rw [decodeFrom, List.cons.injEq] at h
      have hb : b.val < 0x80 := lt_of_toNat_decodeRune_lt t (by
        rw [h.1, toNat_runeChar hvalid]
        exact ha)
      rw [decodeRune_of_ascii hb] at h
      have hrune : runeChar b.val = runeChar a.val := h.1
      have hval : b.val = a.val := by
        rw [← toNat_runeChar hvalid, ← hrune, toNat_runeChar (Or.inl (by omega))]
      rw [Fin.ext hval, ih (fun c hc ↦ hs c (List.mem_cons_of_mem a hc)) h.2]

/-- Bytes that decode to the text of an ASCII sequence are that sequence. -/
theorem decode_eq_iff_of_isAscii {s t : Bytes} (hs : IsAscii s) : decode t = decode s ↔ t = s := by
  constructor
  · intro h
    exact decodeFrom_injective_of_isAscii hs (String.ofList_injective h)
  · exact fun h ↦ congrArg decode h

/-! ### Encoding -/

/-- The bytes of a character. -/
def encodeChar (c : Char) : Bytes :=
  let v := c.toNat
  if v < 0x80 then [Fin.ofNat 256 v]
  else if v < 0x800 then [Fin.ofNat 256 (v / 64 + 0xC0), Fin.ofNat 256 (v % 64 + 0x80)]
  else if v < 0x10000 then
    [Fin.ofNat 256 (v / 4096 + 0xE0), Fin.ofNat 256 (v / 64 % 64 + 0x80),
      Fin.ofNat 256 (v % 64 + 0x80)]
  else
    [Fin.ofNat 256 (v / 262144 + 0xF0), Fin.ofNat 256 (v / 4096 % 64 + 0x80),
      Fin.ofNat 256 (v / 64 % 64 + 0x80), Fin.ofNat 256 (v % 64 + 0x80)]

/-- The bytes of a text. -/
def encode (s : String) : Bytes := s.toList.flatMap encodeChar

theorem runeChar_toNat (c : Char) : runeChar c.toNat = c := by
  rw [runeChar, if_pos (show c.toNat.isValidChar from c.valid), Char.ofNat_toNat]

/-- The first character of the bytes of a text, and how many of them are its own. -/
theorem decodeRune_encodeChar (c : Char) (rest : Bytes) :
    ∃ b tail, encodeChar c ++ rest = b :: (tail ++ rest) ∧ encodeChar c = b :: tail ∧
      decodeRune b (tail ++ rest) = (c, tail.length + 1) := by
  have hvalid : c.toNat.isValidChar := c.valid
  have hchar := runeChar_toNat c
  unfold Nat.isValidChar at hvalid
  unfold encodeChar
  generalize c.toNat = v at hvalid hchar
  dsimp only
  split_ifs with h₁ h₂ h₃
  · refine ⟨_, [], rfl, rfl, ?_⟩
    have hval : (Fin.ofNat 256 v).val = v := Nat.mod_eq_of_lt (by omega)
    rw [decodeRune_of_ascii (by omega), hval, hchar]
    rfl
  · refine ⟨_, [_], rfl, rfl, ?_⟩
    have hval₀ : (Fin.ofNat 256 (v / 64 + 0xC0)).val = v / 64 + 0xC0 :=
      Nat.mod_eq_of_lt (by omega)
    have hval₁ : (Fin.ofNat 256 (v % 64 + 0x80)).val = v % 64 + 0x80 := Nat.mod_eq_of_lt (by omega)
    have hsum : (v / 64 + 0xC0) % 32 * 64 + (v % 64 + 0x80) % 64 = v := by omega
    simp only [decodeRune, isTail, List.singleton_append, List.getD_cons_zero, hval₀, hval₁, hsum,
      hchar]
    rw [if_neg (by omega), if_pos (by simp only [Bool.and_eq_true, decide_eq_true_eq]; omega)]
    rfl
  · refine ⟨_, [_, _], rfl, rfl, ?_⟩
    have hval₀ : (Fin.ofNat 256 (v / 4096 + 0xE0)).val = v / 4096 + 0xE0 :=
      Nat.mod_eq_of_lt (by omega)
    have hval₁ : (Fin.ofNat 256 (v / 64 % 64 + 0x80)).val = v / 64 % 64 + 0x80 :=
      Nat.mod_eq_of_lt (by omega)
    have hval₂ : (Fin.ofNat 256 (v % 64 + 0x80)).val = v % 64 + 0x80 := Nat.mod_eq_of_lt (by omega)
    have hsum : (v / 4096 + 0xE0) % 16 * 4096 + (v / 64 % 64 + 0x80) % 64 * 64 +
        (v % 64 + 0x80) % 64 = v := by omega
    simp only [decodeRune, isTail, List.cons_append, List.nil_append, List.getD_cons_zero,
      List.getD_cons_succ, hval₀, hval₁, hval₂, hsum, hchar]
    rw [if_neg (by omega), if_neg (by simp only [Bool.and_eq_true, decide_eq_true_eq]; omega),
      if_pos (by
        simp only [Bool.and_eq_true, Bool.or_eq_true, bne_iff_ne, decide_eq_true_eq]
        omega)]
    rfl
  · refine ⟨_, [_, _, _], rfl, rfl, ?_⟩
    have hval₀ : (Fin.ofNat 256 (v / 262144 + 0xF0)).val = v / 262144 + 0xF0 :=
      Nat.mod_eq_of_lt (by omega)
    have hval₁ : (Fin.ofNat 256 (v / 4096 % 64 + 0x80)).val = v / 4096 % 64 + 0x80 :=
      Nat.mod_eq_of_lt (by omega)
    have hval₂ : (Fin.ofNat 256 (v / 64 % 64 + 0x80)).val = v / 64 % 64 + 0x80 :=
      Nat.mod_eq_of_lt (by omega)
    have hval₃ : (Fin.ofNat 256 (v % 64 + 0x80)).val = v % 64 + 0x80 := Nat.mod_eq_of_lt (by omega)
    have hsum : (v / 262144 + 0xF0) % 8 * 262144 + (v / 4096 % 64 + 0x80) % 64 * 4096 +
        (v / 64 % 64 + 0x80) % 64 * 64 + (v % 64 + 0x80) % 64 = v := by omega
    simp only [decodeRune, isTail, List.cons_append, List.nil_append, List.getD_cons_zero,
      List.getD_cons_succ, hval₀, hval₁, hval₂, hval₃, hsum, hchar]
    rw [if_neg (by omega), if_neg (by simp only [Bool.and_eq_true, decide_eq_true_eq]; omega),
      if_neg (by
        simp only [Bool.and_eq_true, Bool.or_eq_true, bne_iff_ne, decide_eq_true_eq]
        omega),
      if_pos (by
        simp only [Bool.and_eq_true, Bool.or_eq_true, bne_iff_ne, decide_eq_true_eq]
        omega)]
    rfl

/-- The bytes still to skip are not read. -/
theorem decodeFrom_length_append (skipped rest : Bytes) :
    decodeFrom skipped.length (skipped ++ rest) = decodeFrom 0 rest := by
  induction skipped with
  | nil => rfl
  | cons b skipped ih => exact ih

theorem decodeFrom_encodeChar (c : Char) (rest : Bytes) :
    decodeFrom 0 (encodeChar c ++ rest) = c :: decodeFrom 0 rest := by
  obtain ⟨b, tail, hbytes, -, hrune⟩ := decodeRune_encodeChar c rest
  rw [hbytes, decodeFrom, hrune]
  change c :: decodeFrom tail.length (tail ++ rest) = _
  rw [decodeFrom_length_append]

/-- A text is read back from its bytes. -/
theorem decode_encode (s : String) : decode (encode s) = s := by
  have hchars : ∀ chars : List Char, decodeFrom 0 (chars.flatMap encodeChar) = chars := by
    intro chars
    induction chars with
    | nil => rfl
    | cons c chars ih => rw [List.flatMap_cons, decodeFrom_encodeChar, ih]
  rw [decode, encode, hchars, String.ofList_toList]

theorem encode_append (s t : String) : encode (s ++ t) = encode s ++ encode t := by
  rw [encode, String.toList_append, List.flatMap_append, encode, encode]

theorem encode_injective : Function.Injective encode :=
  Function.LeftInverse.injective decode_encode

theorem encodeChar_ne_nil (c : Char) : encodeChar c ≠ [] := by
  obtain ⟨b, tail, -, hbytes, -⟩ := decodeRune_encodeChar c []
  rw [hbytes]
  exact List.cons_ne_nil b tail

theorem length_le_flatMap {α β : Type*} {f : α → List β} (hf : ∀ a, f a ≠ []) (l : List α) :
    l.length ≤ (l.flatMap f).length := by
  induction l with
  | nil => exact Nat.zero_le _
  | cons a l ih =>
    have hhead : 0 < (f a).length := List.length_pos_iff.mpr (hf a)
    rw [List.flatMap_cons, List.length_append, List.length_cons]
    omega

theorem length_le_encode (s : String) : s.toList.length ≤ (encode s).length :=
  length_le_flatMap encodeChar_ne_nil s.toList

@[simp] theorem encode_eq_nil_iff {s : String} : encode s = [] ↔ s = "" := by
  rw [encode, List.flatMap_eq_nil_iff]
  constructor
  · intro h
    apply String.toList_eq_nil_iff.mp
    apply List.eq_nil_iff_forall_not_mem.mpr
    exact fun c hc ↦ encodeChar_ne_nil c (h c hc)
  · rintro rfl c hc
    cases hc

theorem encodeChar_eq_utf8EncodeChar (c : Char) :
    encodeChar c = (String.utf8EncodeChar c).map UInt8.toFin := by
  have hvalid : c.toNat.isValidChar := c.valid
  have htoNat : c.val.toNat = c.toNat := rfl
  unfold Nat.isValidChar at hvalid
  unfold encodeChar String.utf8EncodeChar
  rw [htoNat]
  generalize c.toNat = v at hvalid
  dsimp only
  by_cases h₁ : v < 0x80
  · rw [if_pos h₁, if_pos (show v ≤ 0x7f by omega)]
    rfl
  · rw [if_neg h₁, if_neg (show ¬ v ≤ 0x7f by omega)]
    by_cases h₂ : v < 0x800
    · rw [if_pos h₂, if_pos (show v ≤ 0x7ff by omega), show v / 64 % 0x20 = v / 64 by omega]
      rfl
    · rw [if_neg h₂, if_neg (show ¬ v ≤ 0x7ff by omega)]
      by_cases h₃ : v < 0x10000
      · rw [if_pos h₃, if_pos (show v ≤ 0xffff by omega), show v / 4096 % 0x10 = v / 4096 by omega]
        rfl
      · rw [if_neg h₃, if_neg (show ¬ v ≤ 0xffff by omega),
          show v / 262144 % 0x08 = v / 262144 by omega]
        rfl

/-- These are the bytes that the runtime's own strings have. -/
theorem encode_eq_toUTF8 (s : String) : encode s = s.toUTF8.data.toList.map UInt8.toFin := by
  have hbytes : s.toUTF8.data.toList = s.toList.flatMap String.utf8EncodeChar := by
    rw [String.toUTF8_eq_toByteArray, ← String.utf8Encode_toList, List.utf8Encode,
      List.toList_data_toByteArray]
  rw [hbytes, encode, List.map_flatMap]
  exact congrArg (List.flatMap · s.toList) (funext encodeChar_eq_utf8EncodeChar)

/-- An ASCII byte is only part of its own character. -/
theorem toNat_of_mem_encodeChar {b : Byte} (hb : b.val < 0x80) {c : Char} (h : b ∈ encodeChar c) :
    c.toNat = b.val := by
  have hvalid : c.toNat.isValidChar := c.valid
  unfold Nat.isValidChar at hvalid
  have hbyte : ∀ n, b = Fin.ofNat 256 n → b.val = n % 256 := fun n hn ↦ congrArg Fin.val hn
  unfold encodeChar at h
  dsimp only at h
  split_ifs at h
  all_goals
    simp only [List.mem_cons, List.not_mem_nil, or_false] at h
  · have hn := hbyte _ h
    omega
  · rcases h with h | h
    all_goals
      have hn := hbyte _ h
      omega
  · rcases h with h | h | h
    all_goals
      have hn := hbyte _ h
      omega
  · rcases h with h | h | h | h
    all_goals
      have hn := hbyte _ h
      omega

theorem not_mem_encode {b : Byte} (hb : b.val < 0x80) {s : String}
    (h : ∀ c ∈ s.toList, c.toNat ≠ b.val) : b ∉ encode s := by
  rw [encode, List.mem_flatMap]
  rintro ⟨c, hc, hmem⟩
  exact h c hc (toNat_of_mem_encodeChar hb hmem)

/-- A C string ends at its first NUL. -/
def cString (bytes : Bytes) : Bytes := bytes.takeWhile fun b ↦ b ≠ 0

theorem cString_of_not_mem {bytes : Bytes} (h : (0 : Byte) ∉ bytes) : cString bytes = bytes := by
  apply List.takeWhile_eq_self_iff.mpr
  intro b hb
  simpa using ne_of_mem_of_not_mem hb h

end CosmicSwingset.Foundation
