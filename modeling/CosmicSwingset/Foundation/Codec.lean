import Mathlib.Data.Fin.Basic
import Mathlib.Data.List.Basic
import Mathlib.Order.Fin.Basic

/-!
# Byte codecs

A `Codec` is an encoder with a decoder that gives back what was encoded. `uvarint` is the base-128
number format of Go's `encoding/binary` and of Protocol Buffers: seven bits a byte, the least
significant first, with the top bit set on every byte but the last. `lengthPrefixed` puts the
length of a block of bytes before it. Their readers return what they did not consume, so that
`readUvarint_uvarint` and `readLengthPrefixed_append` compose.
-/

set_option autoImplicit false
set_option relaxedAutoImplicit false

namespace CosmicSwingset.Foundation

abbrev Byte := Fin 256

instance Byte.instNeZero : @NeZero ℕ Zero.ofOfNat0 256 := ⟨Nat.succ_ne_zero 255⟩

abbrev Bytes := List Byte

/-- An encoding of values as bytes that loses nothing. -/
structure Codec (α : Type*) where
  marshal : α → Bytes
  unmarshal : Bytes → Option α
  unmarshal_marshal : ∀ a, unmarshal (marshal a) = some a

/-- The digits of `n`, for `n` below `fuel`. -/
def uvarintDigits : ℕ → ℕ → Bytes
  | 0, _ => []
  | fuel + 1, n =>
    if n < 128 then [Fin.ofNat 256 n]
    else Fin.ofNat 256 (n % 128 + 128) :: uvarintDigits fuel (n / 128)

def uvarint (n : ℕ) : Bytes := uvarintDigits (n + 1) n

def readUvarint : Bytes → Option (ℕ × Bytes)
  | [] => none
  | b :: rest =>
    if b.val < 128 then some (b.val, rest)
    else (readUvarint rest).map fun (n, rest) ↦ (b.val - 128 + 128 * n, rest)

theorem readUvarint_uvarintDigits {fuel n : ℕ} (hn : n < fuel) (rest : Bytes) :
    readUvarint (uvarintDigits fuel n ++ rest) = some (n, rest) := by
  induction fuel generalizing n with
  | zero => exact absurd hn (Nat.not_lt_zero n)
  | succ fuel ih =>
    by_cases hsmall : n < 128
    · have hval : (Fin.ofNat 256 n).val = n := by
        simp only [Fin.ofNat]
        omega
      simp only [uvarintDigits, if_pos hsmall, List.singleton_append, readUvarint, hval]
    · have hval : (Fin.ofNat 256 (n % 128 + 128)).val = n % 128 + 128 := by
        simp only [Fin.ofNat]
        omega
      have hlarge : ¬ n % 128 + 128 < 128 := by omega
      have hrec : n / 128 < fuel := by omega
      simp only [uvarintDigits, if_neg hsmall, List.cons_append, readUvarint, hval, if_neg hlarge,
        ih hrec, Option.map_some]
      congr 2
      omega

theorem readUvarint_uvarint (n : ℕ) (rest : Bytes) :
    readUvarint (uvarint n ++ rest) = some (n, rest) :=
  readUvarint_uvarintDigits (Nat.lt_succ_self n) rest

def lengthPrefixed (block : Bytes) : Bytes :=
  uvarint block.length ++ block

def readLengthPrefixed (input : Bytes) : Option (Bytes × Bytes) :=
  match readUvarint input with
  | none => none
  | some (n, rest) => if n ≤ rest.length then some (rest.take n, rest.drop n) else none

theorem readLengthPrefixed_append (block rest : Bytes) :
    readLengthPrefixed (lengthPrefixed block ++ rest) = some (block, rest) := by
  rw [readLengthPrefixed, lengthPrefixed, List.append_assoc, readUvarint_uvarint]
  simp

end CosmicSwingset.Foundation
