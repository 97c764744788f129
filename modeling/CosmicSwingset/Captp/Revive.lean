import CosmicSwingset.Captp.Marshal
import CosmicSwingset.Solo.SetGciIngress

/-!
# `unserialize`

`unserialize` of `captp.umd.js` parses the text and makes a new graph of the tree that comes out of
it. `fullRevive` goes through the tree in the order in which the replacer went through the original,
with a table of the objects that it has begun: an array or a record is in it from its start on and
is unfinished up to its end, an error or a reference is in it at once. An ibid is a position in this
table; one of an unfinished object closes a cycle, and what becomes of it depends on the policy.

The objects of the new graph are the entries of the table, and a value refers to one by its
position. The tree need not come from `serialize`: what the code checks of it is checked here, with
the errors that it throws. An error without a message has the text that the engine gives it. Only
that the property `__proto__` of a tree sets a prototype is left out: it makes no property.
-/

set_option autoImplicit false
set_option relaxedAutoImplicit false

namespace CosmicSwingset.Captp

open Foundation Json
open Solo.SetGCIIngress (propertyOrder)

variable {ν τ : Type*}

/-! ### `JSON.parse` -/

/-- The properties of the object that is made of the members of a text. -/
def ownProperties (members : List (String × Json ν)) : List (String × Json ν) :=
  (propertyOrder (firstSeen (members.map Prod.fst))).filterMap fun key ↦
    (member key members).map fun v ↦ (key, v)

mutual

/-- The value of a text, with the properties of each object in its own order. -/
def canonical : Json ν → Json ν
  | .arr elements => .arr (canonicalElements elements)
  | .obj members => .obj (ownProperties (canonicalMembers members))
  | v => v

def canonicalElements : List (Json ν) → List (Json ν)
  | [] => []
  | v :: vs => canonical v :: canonicalElements vs

def canonicalMembers : List (String × Json ν) → List (String × Json ν)
  | [] => []
  | (key, v) :: ms => (key, canonical v) :: canonicalMembers ms

end

/-! ### The new graph -/

/-- A value of the new graph. -/
inductive Revived (ν : Type*)
  | undefined
  | null
  | bool (b : Bool)
  | number (x : Number ν)
  | string (s : String)
  | bigint (i : ℤ)
  | symbol (key : String)
  | ref (index : ℕ)

/-- An object of the new graph. The value of a reference is what `unserializeSlot` has for its
slot. -/
inductive Node (ν : Type*)
  | array (elements : List (Revived ν))
  | record (fields : List (String × Revived ν))
  | error (cls : ErrorClass) (message : String)
  | remote (slot : String)

/-- The table of the objects that are begun, with those that are finished, and the tables of the
connection. -/
structure Reviving (ν τ : Type*) where
  ibids : List (Option (Node ν))
  imports : τ

inductive CyclePolicy
  | allowCycles
  | warnOfCycles
  | forbidCycles
  | unrecognized (name : String)
  deriving DecidableEq

structure Thrown where
  cls : ErrorClass
  message : Option String
  deriving DecidableEq

def throwing {α : Type*} (cls : ErrorClass) (message : String) : Except Thrown α :=
  .error ⟨cls, some message⟩

/-- `typeof` of a property. -/
def typeOf : Option (Json ν) → String
  | none => "undefined"
  | some (.bool _) => "boolean"
  | some (.num _) => "number"
  | some (.str _) => "string"
  | _ => "object"

/-! ### `BigInt` -/

def isStrWhite (c : Char) : Bool :=
  [9, 10, 11, 12, 13, 32, 0xA0, 0x1680, 0x2028, 0x2029, 0x202F, 0x205F, 0x3000, 0xFEFF].contains
      c.toNat ||
    (0x2000 ≤ c.toNat && c.toNat ≤ 0x200A)

def digitValue (c : Char) : ℕ :=
  if '0' ≤ c ∧ c ≤ '9' then c.toNat - 48
  else if 'a' ≤ c ∧ c ≤ 'z' then c.toNat - 87
  else if 'A' ≤ c ∧ c ≤ 'Z' then c.toNat - 55
  else 36

/-- One digit of the base or more. -/
def readRadix (b : ℕ) (digits : List Char) : Option ℕ :=
  if digits ≠ [] ∧ digits.all (fun c ↦ digitValue c < b) then
    some (digits.foldl (fun n c ↦ n * b + digitValue c) 0)
  else none

/-- `BigInt` of a string. -/
def bigIntOfString (s : String) : Option ℤ :=
  let chars := (s.toList.dropWhile isStrWhite).rdropWhile isStrWhite
  if chars = [] then some 0
  else
    match chars with
    | '0' :: 'x' :: digits => (readRadix 16 digits).map Int.ofNat
    | '0' :: 'X' :: digits => (readRadix 16 digits).map Int.ofNat
    | '0' :: 'o' :: digits => (readRadix 8 digits).map Int.ofNat
    | '0' :: 'O' :: digits => (readRadix 8 digits).map Int.ofNat
    | '0' :: 'b' :: digits => (readRadix 2 digits).map Int.ofNat
    | '0' :: 'B' :: digits => (readRadix 2 digits).map Int.ofNat
    | '-' :: digits => (readRadix 10 digits).map fun n ↦ -Int.ofNat n
    | '+' :: digits => (readRadix 10 digits).map Int.ofNat
    | digits => (readRadix 10 digits).map Int.ofNat

/-! ### `fullRevive` -/

section Revive

variable (numbers : Positions ν) (receive : τ → String → τ) (slots : List String)
  (policy : CyclePolicy)

/-- `Nat` of a property. -/
def natOf : Option (Json ν) → Except Thrown ℕ
  | some (.num x) =>
    match numbers.Nat x with
    | .ok i => .ok i
    | .error message => throwing .rangeError message
  | _ => throwing .rangeError "not a safe integer"

namespace Reviving

/-- `ibidTable.get`. -/
def get (allegedIndex : Option (Json ν)) (s : Reviving ν τ) : Except Thrown (Revived ν) :=
  match natOf numbers allegedIndex with
  | .error e => .error e
  | .ok index =>
    match s.ibids[index]? with
    | none => throwing .rangeError ("ibid out of range: " ++ toString index)
    | some (some _) => .ok (.ref index)
    | some none =>
      match policy with
      | .allowCycles => .ok (.ref index)
      | .warnOfCycles => .ok (.ref index)
      | .forbidCycles => throwing .typeError ("Ibid cycle at " ++ toString index)
      | .unrecognized name => throwing .typeError ("Unrecognized cycle policy: " ++ name)

def register (node : Node ν) (s : Reviving ν τ) : Revived ν × Reviving ν τ :=
  (.ref s.ibids.length, { s with ibids := s.ibids ++ [some node] })

def start (s : Reviving ν τ) : Reviving ν τ := { s with ibids := s.ibids ++ [none] }

def finish (index : ℕ) (node : Node ν) (s : Reviving ν τ) : Reviving ν τ :=
  { s with ibids := s.ibids.set index (some node) }

end Reviving

/-- `unserializeSlot`, as far as it is not in the tables of the connection. -/
def unserializeSlot (index : Option (Json ν)) (s : Reviving ν τ) :
    Except Thrown (String × Reviving ν τ) :=
  match natOf numbers index with
  | .error e => .error e
  | .ok i =>
    match slots[i]? with
    -- `slot[0]` of `undefined`
    | none => .error ⟨.typeError, none⟩
    | some slot => .ok (slot, { s with imports := receive s.imports slot })

/-- The tree of a class. -/
def reviveClass (cls : String) (members : List (String × Json ν)) (s : Reviving ν τ) :
    Except Thrown (Revived ν × Reviving ν τ) :=
  match cls with
  | "undefined" => .ok (.undefined, s)
  | "-0" => .ok (.number .negZero, s)
  | "NaN" => .ok (.number .nan, s)
  | "Infinity" => .ok (.number .infinity, s)
  | "-Infinity" => .ok (.number .negInfinity, s)
  | "symbol" =>
    match member "key" members with
    | some (.str key) => .ok (.symbol key, s)
    | key => throwing .typeError ("invalid symbol key typeof " ++ typeOf key)
  | "bigint" =>
    match member "digits" members with
    | some (.str digits) =>
      match bigIntOfString digits with
      | some i => .ok (.bigint i, s)
      | none => .error ⟨.syntaxError, none⟩
    | digits => throwing .typeError ("invalid digits typeof " ++ typeOf digits)
  | "ibid" => (s.get numbers policy (member "index" members)).map fun v ↦ (v, s)
  | "error" =>
    match member "name" members, member "message" members with
    | some (.str name), some (.str message) =>
      .ok (s.register (.error ((getErrorConstructor name).getD .error) message))
    | some (.str _), message =>
      throwing .typeError ("invalid error message typeof " ++ typeOf message)
    | name, _ => throwing .typeError ("invalid error name typeof " ++ typeOf name)
  | "slot" =>
    (unserializeSlot numbers receive slots (member "index" members) s).map fun p ↦
      p.2.register (.remote p.1)
  | _ => throwing .typeError ("unrecognized " ++ QCLASS ++ " " ++ cls)

mutual

def fullRevive : Json ν → Reviving ν τ → Except Thrown (Revived ν × Reviving ν τ)
  | .null, s => .ok (.null, s)
  | .bool b, s => .ok (.bool b, s)
  | .num x, s => .ok (.number (.finite x), s)
  | .str text, s => .ok (.string text, s)
  | .arr elements, s =>
    (reviveElements elements s.start).map fun p ↦
      (.ref s.ibids.length, p.2.finish s.ibids.length (.array p.1))
  | .obj members, s =>
    match member QCLASS members with
    | some (.str cls) => reviveClass numbers receive slots policy cls members s
    | some other => throwing .typeError ("invalid qclass typeof " ++ typeOf (some other))
    | none =>
      (reviveMembers members s.start).map fun p ↦
        (.ref s.ibids.length, p.2.finish s.ibids.length (.record p.1))

def reviveElements : List (Json ν) → Reviving ν τ → Except Thrown (List (Revived ν) × Reviving ν τ)
  | [], s => .ok ([], s)
  | v :: vs, s =>
    match fullRevive v s with
    | .error e => .error e
    | .ok (r, s) => (reviveElements vs s).map fun p ↦ (r :: p.1, p.2)

def reviveMembers : List (String × Json ν) → Reviving ν τ →
    Except Thrown (List (String × Revived ν) × Reviving ν τ)
  | [], s => .ok ([], s)
  | (name, v) :: ms, s =>
    match fullRevive v s with
    | .error e => .error e
    | .ok (r, s) =>
      (reviveMembers ms s).map fun p ↦ (if name = "__proto__" then p.1 else (name, r) :: p.1, p.2)

end

/-- `unserialize`: the value, the objects of the new graph and the tables of the connection. -/
def unserialize (data : CapData) (imports : τ) :
    Except Thrown (Revived ν × List (Option (Node ν)) × τ) :=
  match Json.parse numbers.toNumerals data.body with
  | none => .error ⟨.syntaxError, none⟩
  | some rawTree =>
    (fullRevive numbers receive data.slots policy (canonical rawTree) ⟨[], imports⟩).map fun p ↦
      (p.1, p.2.ibids, p.2.imports)

end Revive

end CosmicSwingset.Captp
