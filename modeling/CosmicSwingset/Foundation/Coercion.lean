import CosmicSwingset.Foundation.Decimal
import CosmicSwingset.Foundation.Json
import CosmicSwingset.Foundation.Utf16

/-!
# How JavaScript compares values and names properties by them

A value that comes from JSON, or is missing, is made a primitive one by both: by `<=`, to compare
two texts as texts and all else as numbers, and by `o[k]`, to have the name of a property. An object
with a property `toString` of its own cannot be made one, as no value from JSON can be called.

Numbers are any linear order with a way to write them, and to read them back (`JsNumbers`). Zero is
one number here, and what is not a number is none.

A primitive value names the slot of an integer when it is this integer, or the text that is written
of it (`slotNumber_eq_some`).
-/

set_option autoImplicit false
set_option relaxedAutoImplicit false

namespace CosmicSwingset.Foundation

open Json

universe u

/-- The numbers, with `Number::toString` and `StringToNumber`. -/
structure JsNumbers (ν : Type u) where
  zero : ν
  one : ν
  isInteger : ν → Bool
  text : ν → String
  /-- There is no number when it is `NaN`. -/
  ofText : String → Option ν
  ofText_text : ∀ n, ofText (text n) = some n
  ofText_word : ∀ w ∈ ["undefined", "null", "true", "false"], ofText w = none

inductive Primitive (ν : Type u)
  | undefined
  | null
  | bool (b : Bool)
  | num (n : ν)
  | str (s : String)
  deriving DecidableEq

/-- Whether `typeof` is `"string"`. -/
def Primitive.isText {ν : Type u} : Primitive ν → Bool
  | .str _ => true
  | _ => false

namespace JsNumbers

variable {ν : Type u} (js : JsNumbers ν)

theorem text_injective : Function.Injective js.text := by
  intro m n h
  have hread := js.ofText_text m
  rw [h, js.ofText_text n] at hread
  exact (Option.some.inj hread).symm

def boolText (b : Bool) : String := if b then "true" else "false"

mutual

/-- `ToString`, unless it throws. -/
def toText : Json ν → Option String
  | .null => some "null"
  | .bool b => some (boolText b)
  | .num n => some (js.text n)
  | .str s => some s
  | .arr elements => joinText elements
  | .obj members =>
    if members.any fun member ↦ member.1 = "toString" then none else some "[object Object]"

/-- `join` of an array, which leaves `null` out. -/
def joinText : List (Json ν) → Option String
  | [] => some ""
  | [.null] => some ""
  | [element] => toText element
  | .null :: elements => (joinText elements).map fun rest ↦ "," ++ rest
  | element :: elements =>
    (toText element).bind fun s ↦ (joinText elements).map fun rest ↦ s ++ "," ++ rest

end

/-- `ToPrimitive` of a field that may be missing, unless it throws. An object has itself for
`valueOf`, so that the hint does not matter. -/
def toPrimitive : Option (Json ν) → Option (Primitive ν)
  | none => some .undefined
  | some .null => some .null
  | some (.bool b) => some (.bool b)
  | some (.num n) => some (.num n)
  | some (.str s) => some (.str s)
  | some value => (toText js value).map .str

def toNumber : Primitive ν → Option ν
  | .undefined => none
  | .null => some js.zero
  | .bool b => some (if b then js.one else js.zero)
  | .num n => some n
  | .str s => js.ofText s

/-- `ToPropertyKey`. -/
def propertyKey : Primitive ν → String
  | .undefined => "undefined"
  | .null => "null"
  | .bool b => boolText b
  | .num n => js.text n
  | .str s => s

/-- `<=`. Texts are compared by their code units. -/
def lessEqual [LinearOrder ν] (p q : Primitive ν) : Bool :=
  match p, q with
  | .str a, .str b => utf16 a.toList ≤ utf16 b.toList
  | p, q =>
    match js.toNumber p, js.toNumber q with
    | some a, some b => a ≤ b
    | _, _ => false

/-- The integer that names the same property. -/
def slotNumber : Primitive ν → Option ν
  | .num n => if js.isInteger n then some n else none
  | .str s => (js.ofText s).filter fun n ↦ js.isInteger n && js.text n == s
  | _ => none

/-! ### What names the slot of an integer -/

variable {js}

theorem slotNumber_eq_some {p : Primitive ν} {n : ν} :
    js.slotNumber p = some n ↔ js.isInteger n = true ∧ js.propertyKey p = js.text n := by
  have hword {w : String} (hw : w ∈ ["undefined", "null", "true", "false"]) : w ≠ js.text n := by
    intro h
    have hread := js.ofText_word w hw
    rw [h, js.ofText_text] at hread
    exact Option.some_ne_none n hread
  cases p with
  | undefined => simpa [slotNumber, propertyKey] using fun _ ↦ hword (by decide)
  | null => simpa [slotNumber, propertyKey] using fun _ ↦ hword (by decide)
  | bool b =>
    cases b with
    | false => simpa [slotNumber, propertyKey, boolText] using fun _ ↦ hword (by decide)
    | true => simpa [slotNumber, propertyKey, boolText] using fun _ ↦ hword (by decide)
  | num m =>
    rw [slotNumber, propertyKey, js.text_injective.eq_iff]
    grind
  | str s =>
    rw [slotNumber, propertyKey, Option.filter_eq_some_iff, Bool.and_eq_true, beq_iff_eq]
    constructor
    · rintro ⟨-, hinteger, htext⟩
      exact ⟨hinteger, htext.symm⟩
    · rintro ⟨hinteger, rfl⟩
      exact ⟨js.ofText_text n, hinteger, rfl⟩

theorem toNumber_of_slotNumber {p : Primitive ν} {n : ν} (h : js.slotNumber p = some n) :
    js.toNumber p = some n := by
  cases p with
  | num m =>
    rw [slotNumber_eq_some, propertyKey, js.text_injective.eq_iff] at h
    rw [toNumber, h.2]
  | str s => exact (Option.filter_eq_some_iff.mp h).1
  | undefined | null | bool b => simp [slotNumber] at h

section Order

variable [LinearOrder ν] {p q : Primitive ν} {m n : ν}

/-- Unless both are texts, they are compared as the numbers they name. -/
theorem lessEqual_of_slotNumber (hp : js.slotNumber p = some m) (hq : js.toNumber q = some n)
    (htexts : (p.isText && q.isText) = false) : js.lessEqual p q = decide (m ≤ n) := by
  have hp := toNumber_of_slotNumber hp
  cases p <;> cases q <;> simp_all [lessEqual, Primitive.isText]

end Order

/-! ### Integers alone -/

/-- The integers, with the texts of decimal digits. -/
def integers : JsNumbers ℤ where
  zero := 0
  one := 1
  isInteger _ := true
  text n := String.ofList (Decimal.writeInt n)
  ofText s :=
    match Decimal.readSigned s.toList with
    | some (n, []) => some n
    | _ => none
  ofText_text n := by
    have hends : EndsDigits [] := by simp [EndsDigits]
    have hread := Decimal.readSigned_writeInt n hends
    rw [List.append_nil] at hread
    simp only [String.toList_ofList, hread]
  ofText_word := by decide

end JsNumbers

end CosmicSwingset.Foundation
