import CosmicSwingset.Captp.PassStyle
import CosmicSwingset.Foundation.SortedJson
import CosmicSwingset.Foundation.Traversal

/-!
# `serialize`

`makeMarshal` of `captp.umd.js` makes a text of a value with `JSON.stringify` and a replacer. The
replacer writes what JSON has no text for, and each reference, as an object with the property
`@qclass`; the first visit to an object puts it into a table, and a later one writes the position in
this table, an ibid. So an object that is shared, or that contains itself, is in the text once.

References are for `serializeSlot`, which is that of `makeCapTP`: the object has a place in the list
of slots, and `slotOf` finds its slot in the tables of the connection or exports it there.

`JSON.stringify` visits what the replacer leaves in place. Each object is entered only once, so the
walk never goes deeper than there are objects; the fuel of `stringify` is this depth. Before it
calls the replacer it calls a method `toJSON` of an object, with the key at which the object stands,
and the replacer has what this gives. The objects that such methods make are among those of the
heap, and functions have none of them.
-/

set_option autoImplicit false
set_option relaxedAutoImplicit false

namespace CosmicSwingset.Captp

open Foundation

variable {ν σ : Type*} {n : ℕ}

/-- Numbers, with those that are positions and `Nat`, which refuses what is none with a message. -/
structure Positions (ν : Type*) extends Numerals ν where
  ofNat : ℕ → ν
  Nat : ν → Except String ℕ
  Nat_ofNat : ∀ i, Nat (ofNat i) = .ok i

/-- Natural numbers only. -/
def Positions.nat : Positions ℕ :=
  { Numerals.nat with ofNat := id, Nat := .ok, Nat_ofNat := fun _ ↦ rfl }

/-- `String(val)` of an integer. -/
def bigintDigits (i : ℤ) : String :=
  String.ofList (if i < 0 then '-' :: Nat.toDigits 10 i.natAbs else Nat.toDigits 10 i.natAbs)

/-- An object that stands for what JSON has no text for. -/
def qclass (cls : String) (rest : List (String × Json ν)) : Json ν :=
  .obj ((QCLASS, .str cls) :: rest)

/-- The tables of one call: the objects in the order of their ibids, the references in that of the
slots, each with its slot, and the tables of the connection. -/
structure Serializing (n : ℕ) (σ : Type*) where
  ibids : List (Fin n)
  slotMap : List (Fin n × String)
  exports : σ

/-- The list `slots`. -/
def Serializing.slots (s : Serializing n σ) : List String := s.slotMap.map Prod.snd

/-- What `JSON.stringify` has of the replacer: a value that is written as it is, or an object that
it goes through. -/
inductive Replaced (ν : Type*) (n : ℕ)
  | text (encoded : Json ν)
  | array (elements : List (Value ν n))
  | record (fields : List (String × Value ν n))

section Serialize

variable (numbers : Positions ν) (slotOf : σ → Fin n → String × σ)

def serializeSlot (o : Fin n) (s : Serializing n σ) : Json ν × Serializing n σ :=
  let s :=
    if o ∈ s.slotMap.map Prod.fst then s
    else
      let (slot, exports) := slotOf s.exports o
      { s with slotMap := s.slotMap ++ [(o, slot)], exports }
  (qclass "slot" [("index", .num (numbers.ofNat ((s.slotMap.map Prod.fst).idxOf o)))], s)

/-- A number that JSON has no text for is written as an object. -/
def encodeNumber : Number ν → Json ν
  | .nan => qclass "NaN" []
  | .negZero => qclass "-0" []
  | .infinity => qclass "Infinity" []
  | .negInfinity => qclass "-Infinity" []
  | .finite x => .num x

/-- The class and the message of an error. -/
def Obj.errorParts (obj : Obj ν n) : String × String :=
  (match obj.proto with
    | .error cls => cls.name
    | _ => "",
   match (obj.property "message").map Property.value with
    | some (.string message) => message
    | _ => "")

def replacer (h : Heap ν n) (v : Value ν n) (s : Serializing n σ) :
    Except Unpassable (Replaced ν n × Serializing n σ) :=
  match passStyleOf h v with
  | .error e => .error e
  | .ok style =>
    match v with
    | .null => .ok (.text .null, s)
    | .undefined => .ok (.text (qclass "undefined" []), s)
    | .string str => .ok (.text (.str str), s)
    | .bool b => .ok (.text (.bool b), s)
    | .number x => .ok (.text (encodeNumber x), s)
    | .symbol key => .ok (.text (qclass "symbol" [("key", .str (key.getD ""))]), s)
    | .bigint i => .ok (.text (qclass "bigint" [("digits", .str (bigintDigits i))]), s)
    | .function => .error .function
    | .object o =>
      if o ∈ s.ibids then
        .ok (.text (qclass "ibid" [("index", .num (numbers.ofNat (s.ibids.idxOf o)))]), s)
      else
        let s := { s with ibids := s.ibids ++ [o] }
        match style with
        | .copyArray => .ok (.array (h o).elements, s)
        | .copyRecord => .ok (.record (h o).fields, s)
        | .copyError =>
          .ok (.text (qclass "error"
            [("name", .str (h o).errorParts.1), ("message", .str (h o).errorParts.2)]), s)
        | _ =>
          let (encoded, s) := serializeSlot numbers slotOf o s
          .ok (.text encoded, s)

/-- What `JSON.stringify` gives to the replacer for a value at a key, unless there is an
exception. -/
def jsonValue (h : Heap ν n) (key : String) : Value ν n → Option (Value ν n)
  | .object o => if (h o).hasMethod "toJSON" then (h o).toJSON key else some (.object o)
  | v => some v

/-- The elements of an array with their keys. -/
def keyed (elements : List (Value ν n)) : List (String × Value ν n) :=
  elements.zipIdx.map fun p ↦ (toString p.2, p.1)

/-- An exception of a method `toJSON`, an error of the replacer, or no fuel. -/
inductive SerializeError
  | toJSON
  | unpassable (e : Unpassable)
  | fuel

/-- `JSON.stringify(val, replacer)` for the value at a key, up to the value that the text is of. -/
def stringify (h : Heap ν n) :
    ℕ → String × Value ν n → Serializing n σ → Except SerializeError (Json ν × Serializing n σ)
  | fuel, (key, v), s =>
    match jsonValue h key v with
    | none => .error .toJSON
    | some v =>
      match replacer numbers slotOf h v s with
      | .error e => .error (.unpassable e)
      | .ok (.text encoded, s) => .ok (encoded, s)
      | .ok (.array elements, s) =>
        match fuel with
        | 0 => .error .fuel
        | fuel + 1 => (traverse (stringify h fuel) (keyed elements) s).map fun p ↦ (.arr p.1, p.2)
      | .ok (.record fields, s) =>
        match fuel with
        | 0 => .error .fuel
        | fuel + 1 =>
          (traverse (stringify h fuel) fields s).map fun p ↦
            (.obj ((fields.map Prod.fst).zip p.1), p.2)

structure CapData where
  body : List Char
  slots : List String

/-- `serialize`, with the tables of the connection after it. -/
def serialize (h : Heap ν n) (v : Value ν n) (exports : σ) : Except SerializeError (CapData × σ) :=
  (stringify numbers slotOf h n ("", v) ⟨[], [], exports⟩).map fun p ↦
    (⟨Json.render numbers.toNumerals p.1, p.2.slots⟩, p.2.exports)

end Serialize

end CosmicSwingset.Captp
