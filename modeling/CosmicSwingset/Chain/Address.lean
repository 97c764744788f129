import CosmicSwingset.Chain.Keeper
import CosmicSwingset.Foundation.Utf8

/-!
# The text of an account's address

The SDK's `AccAddress.String()` is a parameter of the model: a text for each address, of which the
code relies on nothing but that it is ASCII. `cosmosAddress` is the one of the chain, bech32 with
the prefix `cosmos`.
-/

set_option autoImplicit false
set_option relaxedAutoImplicit false

namespace CosmicSwingset.Chain

open Foundation

theorem go_eq_encode (literal : String) : go literal = encode literal :=
  (encode_eq_toUTF8 literal).symm

/-- `sdk.AccAddress`: the bytes of an account's address. -/
abbrev AccAddress := Bytes

/-- `AccAddress.String()`. -/
structure AddressText where
  string : AccAddress → GoString
  ascii : ∀ account, IsAscii (string account)

/-! ### Bech32 -/

/-- The value of a number's digits in base 2, the first the highest. -/
def ofBits (bits : List Bool) : ℕ := bits.foldl (fun n bit ↦ 2 * n + bit.toNat) 0

/-- Groups of five bits, the last filled up with zeros. -/
def fiveBits : List Bool → List ℕ
  | a :: b :: c :: d :: e :: rest => ofBits [a, b, c, d, e] :: fiveBits rest
  | [] => []
  | bits => [ofBits (bits ++ List.replicate (5 - bits.length) false)]

def byteBits (b : Byte) : List Bool := (List.range 8).map fun i ↦ b.val.testBit (7 - i)

/-- The bech32 checksum polynomial. -/
def polymod (values : List ℕ) : ℕ :=
  values.foldl (fun chk value ↦
    let generators := [0x3b6a57b2, 0x26508e6d, 0x1ea119fa, 0x3d4233dd, 0x2a1462b3]
    generators.zipIdx.foldl
      (fun next g ↦ if (chk >>> 25).testBit g.2 then next ^^^ g.1 else next)
      ((chk &&& 0x1ffffff) <<< 5 ^^^ value)) 1

def bech32Char (value : ℕ) : Byte := (go "qpzry9x8gf2tvdw0s3jn54khce6mua7l").getD value 0

/-- The bech32 text of some bytes. -/
def bech32 (hrp : GoString) (bytes : Bytes) : GoString :=
  let data := fiveBits (bytes.flatMap byteBits)
  let expanded := hrp.map (·.val / 32) ++ [0] ++ hrp.map (·.val % 32)
  let check := polymod (expanded ++ data ++ List.replicate 6 0) ^^^ 1
  let checksum := (List.range 6).map fun i ↦ (check >>> (5 * (5 - i))) % 32
  hrp ++ go "1" ++ (data ++ checksum).map bech32Char

theorem isAscii_bech32Char (value : ℕ) : (bech32Char value).val < 0x80 := by
  have hcharset : ∀ b ∈ (0 : Byte) :: go "qpzry9x8gf2tvdw0s3jn54khce6mua7l", b.val < 0x80 := by
    decide +kernel
  refine hcharset _ ?_
  rw [bech32Char, List.getD_eq_getElem?_getD]
  cases h : (go "qpzry9x8gf2tvdw0s3jn54khce6mua7l")[value]? with
  | none => exact List.mem_cons_self
  | some b => exact List.mem_cons_of_mem _ (List.mem_of_getElem? h)

theorem isAscii_bech32 {hrp : GoString} (hhrp : IsAscii hrp) (bytes : Bytes) :
    IsAscii (bech32 hrp bytes) := by
  intro b hb
  rw [bech32, List.mem_append, List.mem_append, List.mem_map] at hb
  rcases hb with (hb | hb) | ⟨value, -, rfl⟩
  · exact hhrp b hb
  · exact (show IsAscii (go "1") by decide +kernel) b hb
  · exact isAscii_bech32Char value

/-- Accounts of the chain, as `cosmos1...`; the empty address has the empty text. -/
def cosmosAddress : AddressText where
  string := fun account ↦ if account = [] then [] else bech32 (go "cosmos") account
  ascii := fun account ↦ by
    by_cases h : account = []
    · rw [if_pos h]
      exact fun b hb ↦ absurd hb List.not_mem_nil
    · rw [if_neg h]
      exact isAscii_bech32 (by decide +kernel) account

example : cosmosAddress.string (List.replicate 20 0) =
    go "cosmos1qqqqqqqqqqqqqqqqqqqqqqqqqqqqqqqqnrql8a" := by decide +kernel

end CosmicSwingset.Chain
