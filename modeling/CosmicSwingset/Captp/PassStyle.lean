import CosmicSwingset.Solo.SetGciIngress
import Mathlib.Logic.Relation

/-!
# How a value is passed

The values that CapTP sends live in a heap: an object is a number, and the heap has its own
properties, its prototype and whether it is frozen. `passStyleOf` of `captp.umd.js` says how a value
is passed. Primitives go as they are, frozen arrays and non-empty records of data by copy, errors by
their name and message, and promises and objects with nothing but methods by reference; everything
else is refused.

`contents` are the values that are in the text of a value passed by copy: the elements of an array
and the fields of a record. The graph of a heap has them for its edges (`Part`).

An object has the enumerable own properties whose names are strings. What `passStyleOf` says about a
value in the text of an error, which depends on how the value is shown, is left out: an `Unpassable`
is which of its errors it is.
-/

set_option autoImplicit false
set_option relaxedAutoImplicit false

namespace CosmicSwingset.Captp

open Foundation
open Solo.SetGCIIngress (propertyOrder)

variable {ν : Type*} {n : ℕ}

/-! ### Values -/

/-- The numbers of JSON, and those that it has no text for. -/
inductive Number (ν : Type*)
  | nan
  | negZero
  | infinity
  | negInfinity
  | finite (x : ν)

/-- A value, with the objects of a heap of `n` of them. A symbol has its key, if it is
registered. -/
inductive Value (ν : Type*) (n : ℕ)
  | undefined
  | null
  | bool (b : Bool)
  | number (x : Number ν)
  | string (s : String)
  | bigint (i : ℤ)
  | symbol (key : Option String)
  | function
  | object (o : Fin n)

def Value.isFunction : Value ν n → Bool
  | .function => true
  | _ => false

/-- The classes of `errorConstructors`. -/
inductive ErrorClass
  | error
  | evalError
  | rangeError
  | referenceError
  | syntaxError
  | typeError
  | uriError
  deriving DecidableEq

def ErrorClass.name : ErrorClass → String
  | .error => "Error"
  | .evalError => "EvalError"
  | .rangeError => "RangeError"
  | .referenceError => "ReferenceError"
  | .syntaxError => "SyntaxError"
  | .typeError => "TypeError"
  | .uriError => "URIError"

def errorConstructors : List ErrorClass :=
  [.error, .evalError, .rangeError, .referenceError, .syntaxError, .typeError, .uriError]

def getErrorConstructor (name : String) : Option ErrorClass :=
  errorConstructors.find? fun cls ↦ cls.name = name

/-- What an object inherits from. Another prototype has names of its own, each of which may be that
of a method, and a prototype again. -/
inductive Proto
  | null
  | object
  | array
  | error (cls : ErrorClass)
  | other (frozen : Bool) (names : List (String × Bool)) (proto : Proto)

/-- There is a property of this name. -/
def Proto.has (name : String) : Proto → Bool
  | .other _ names proto => names.any (fun own ↦ own.1 = name) || proto.has name
  | _ => false

/-- There is a method of this name. -/
def Proto.hasMethod (name : String) : Proto → Bool
  | .other _ names proto =>
    match names.find? fun own ↦ own.1 = name with
    | some own => own.2
    | none => proto.hasMethod name
  | _ => false

/-- `instanceof Error`. -/
def Proto.isError : Proto → Bool
  | .error _ => true
  | .other _ _ proto => proto.isError
  | _ => false

/-- An own property, with the value that reading it gives. -/
structure Property (ν : Type*) (n : ℕ) where
  value : Value ν n
  accessor : Bool

/-- An object, with its own properties in the order that an object has them in. An array has a
length beside them. -/
structure Obj (ν : Type*) (n : ℕ) where
  frozen : Bool
  isPromise : Bool
  length : Option ℕ
  proto : Proto
  own : List (String × Property ν n)
  /-- What its method `toJSON`, if it has one, gives for a key; none is an exception. -/
  toJSON : String → Option (Value ν n) := fun _ ↦ none
  ordered : propertyOrder (firstSeen (own.map Prod.fst)) = own.map Prod.fst

abbrev Heap (ν : Type*) (n : ℕ) := Fin n → Obj ν n

def QCLASS : String := "@qclass"

namespace Obj

def property (obj : Obj ν n) (name : String) : Option (Property ν n) := obj.own.lookup name

/-- `name in obj`. -/
def has (obj : Obj ν n) (name : String) : Bool := (obj.property name).isSome || obj.proto.has name

/-- `typeof obj[name] === 'function'`. -/
def hasMethod (obj : Obj ν n) (name : String) : Bool :=
  match obj.property name with
  | some property => property.value.isFunction
  | none => obj.proto.hasMethod name

end Obj

/-! ### `passStyleOf` -/

inductive PassStyle
  | primitive
  | copyRecord
  | copyArray
  | copyError
  | presence
  | promise
  deriving DecidableEq

/-- The errors of `passStyleOf`, in the order in which it may throw them. -/
inductive Unpassable
  | reservedProperty
  | notFrozen
  | thenable
  | errorPrototype
  | errorWithoutMessage
  | errorProperties
  | errorMessage
  | arrayPrototype
  | arrayHole
  | arrayAccessor
  | arrayMethod
  | arrayNonIndex
  | frozenOnly
  | arrayPresence
  | nonMethod (name : String)
  | function
  | unregisteredSymbol
  deriving DecidableEq

/-- The name that is read in an instance of the class is the name of the class. -/
def namesClass (obj : Obj ν n) (cls : ErrorClass) : Bool :=
  match obj.property "name" with
  | none => true
  | some property =>
    match property.value with
    | .string name => name = cls.name
    | _ => false

/-- An object that inherits from an error class goes as an error, or not at all. -/
def isPassByCopyError (obj : Obj ν n) : Except Unpassable Bool :=
  if !obj.proto.isError then .ok false
  else
    match obj.proto with
    | .error cls =>
      if !namesClass obj cls then .error .errorPrototype
      else
        match obj.property "message" with
        | none => .error .errorWithoutMessage
        | some message =>
          if obj.own.any fun own ↦ own.1 ≠ "message" ∧ own.1 ≠ "stack" then
            .error .errorProperties
          else
            match message.accessor, message.value with
            | false, .string _ => .ok true
            | _, _ => .error .errorMessage
    | _ => .error .errorPrototype

/-- The descriptor of an element is one of data, and not of a method. -/
def checkElement : Option (Property ν n) → Except Unpassable Unit
  | none => .error .arrayHole
  | some property =>
    if property.accessor then .error .arrayAccessor
    else if property.value.isFunction then .error .arrayMethod
    else .ok ()

def isPassByCopyArray (obj : Obj ν n) : Except Unpassable Bool :=
  match obj.length with
  | none => .ok false
  | some len =>
    match obj.proto with
    | .array =>
      match (List.range len).forM fun i ↦ checkElement (obj.property (toString i)) with
      | .error e => .error e
      -- the length is a property too
      | .ok () => if obj.own.length + 1 ≠ len + 1 then .error .arrayNonIndex else .ok true
    | _ => .error .arrayPrototype

def isPassByCopyRecord (obj : Obj ν n) : Bool :=
  match obj.proto with
  | .object =>
    !obj.own.isEmpty && obj.own.all fun own ↦ !own.2.accessor && !own.2.value.isFunction
  | _ => false

/-- The names are those of methods, but for the one that vows have. -/
def checkMethods (names : List (String × Bool)) : Except Unpassable Unit :=
  match names.find? fun own ↦ own.1 ≠ "e" ∧ !own.2 with
  | some own => .error (.nonMethod own.1)
  | none => .ok ()

/-- `mustPassByPresence` of a prototype. The prototypes of arrays and of errors have properties that
are no methods. -/
def Proto.mustPassByPresence : Proto → Except Unpassable Unit
  | .null => .ok ()
  | .object => .ok ()
  | .array => .error .arrayPresence
  | .error _ => .error (.nonMethod "name")
  | .other frozen names proto =>
    if !frozen then .error .frozenOnly
    else
      match checkMethods names with
      | .error e => .error e
      | .ok () => proto.mustPassByPresence

def mustPassByPresence (obj : Obj ν n) : Except Unpassable Unit :=
  if !obj.frozen then .error .frozenOnly
  else if obj.length.isSome then .error .arrayPresence
  else
    match checkMethods (obj.own.map fun own ↦ (own.1, own.2.value.isFunction)) with
    | .error e => .error e
    | .ok () => obj.proto.mustPassByPresence

def passStyleOfObject (obj : Obj ν n) : Except Unpassable PassStyle :=
  if obj.has QCLASS then .error .reservedProperty
  else if !obj.frozen then .error .notFrozen
  else if obj.isPromise then .ok .promise
  else if obj.hasMethod "then" then .error .thenable
  else do
    if ← isPassByCopyError obj then return .copyError
    if ← isPassByCopyArray obj then return .copyArray
    if isPassByCopyRecord obj then return .copyRecord
    mustPassByPresence obj
    return .presence

def passStyleOf (h : Heap ν n) : Value ν n → Except Unpassable PassStyle
  | .object o => passStyleOfObject (h o)
  | .function => .error .function
  | .symbol none => .error .unregisteredSymbol
  | _ => .ok .primitive

/-! ### The graph of a heap -/

/-- The elements of an array. -/
def Obj.elements (obj : Obj ν n) : List (Value ν n) :=
  (List.range (obj.length.getD 0)).map fun i ↦
    ((obj.property (toString i)).map Property.value).getD .undefined

/-- The fields of a record. -/
def Obj.fields (obj : Obj ν n) : List (String × Value ν n) :=
  obj.own.map fun own ↦ (own.1, own.2.value)

/-- The values in an object that is passed by copy. -/
def contents (h : Heap ν n) (o : Fin n) : List (Value ν n) :=
  match passStyleOfObject (h o) with
  | .ok .copyArray => (h o).elements
  | .ok .copyRecord => (h o).fields.map Prod.snd
  | _ => []

/-- The value stands in the object. -/
def Part (h : Heap ν n) (v w : Value ν n) : Prop := ∃ o, v = .object o ∧ w ∈ contents h o

/-- The value is there when the other one is passed. -/
def Within (h : Heap ν n) : Value ν n → Value ν n → Prop := Relation.ReflTransGen (Part h)

/-- An object stands in the other one. -/
def Child (h : Heap ν n) (o o' : Fin n) : Prop := Value.object o' ∈ contents h o

theorem part_object {h : Heap ν n} {o : Fin n} {w : Value ν n} :
    Part h (.object o) w ↔ w ∈ contents h o := by
  constructor
  · rintro ⟨o', heq, hw⟩
    cases heq
    exact hw
  · intro hw
    exact ⟨o, rfl, hw⟩

end CosmicSwingset.Captp
