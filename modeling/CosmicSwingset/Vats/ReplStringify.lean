import CosmicSwingset.Vats.Repl

/-!
# The REPL's `stringify` on plain data

`stringify` of `repl.js` goes through arrays and objects by itself, to show functions and promises
and to leave an object with a method `toString` to this method; it calls `JSON.stringify` for what
is neither. A value that `JSON.parse` may give has no functions and no promises in it, and
`stringify` makes the text of it that `JSON.stringify` makes (`stringify_eq_jsonStringify`).

An object is the list of its properties in the order of `Object.keys`, in which `JSON.stringify`
writes them.
-/

set_option autoImplicit false
set_option relaxedAutoImplicit false

namespace CosmicSwingset.Vats

open Foundation Json

universe u

variable {ν : Type u}

mutual

/-- The value that `JSON.parse` makes. -/
def Value.ofJson : Json ν → Value ν
  | .null => .null
  | .bool b => .bool b
  | .num n => .num n
  | .str s => .str s
  | .arr elements => .array (Value.ofElements elements)
  | .obj members => .object (Value.ofMembers members)

def Value.ofElements : List (Json ν) → List (Value ν)
  | [] => []
  | v :: vs => Value.ofJson v :: Value.ofElements vs

def Value.ofMembers : List (String × Json ν) → List (String × Value ν)
  | [] => []
  | (key, v) :: ms => (key, Value.ofJson v) :: Value.ofMembers ms

end

variable (numerals : Numerals ν)

/-- `JSON.stringify`. -/
def jsonStringify (v : Json ν) : String := String.ofList (render numerals v)

/-- A property of plain data is no method, so it is shown as any other one. -/
theorem stringifyProperties_cons (ret sep key : String) (v : Json ν)
    (properties : List (String × Value ν)) :
    stringifyProperties numerals ret sep ((key, Value.ofJson v) :: properties) =
      (stringify numerals (Value.ofJson v)).bind fun shown ↦
        stringifyProperties numerals (ret ++ sep ++ quote key ++ ":" ++ shown.text) ","
          properties := by
  rw [stringifyProperties]
  cases v <;> simp [Value.ofJson]

mutual

theorem stringify_ofJson (v : Json ν) :
    stringify numerals (Value.ofJson v) = .ok (some (String.ofList (render numerals v))) := by
  cases v with
  | null => rfl
  | bool b => cases b <;> rfl
  | num n => rfl
  | str s => rfl
  | arr elements =>
    cases elements with
    | nil => rfl
    | cons v vs =>
      rw [Value.ofJson, Value.ofElements, stringify, stringifyElements, stringify_ofJson v]
      refine (stringifyElements_ofElements _ vs).trans ?_
      simp [Shown.text, render, String.append_assoc]
  | obj members =>
    cases members with
    | nil => rfl
    | cons member ms =>
      obtain ⟨key, v⟩ := member
      rw [Value.ofJson, Value.ofMembers, stringify, stringifyProperties_cons, stringify_ofJson v]
      refine (stringifyProperties_ofMembers _ ms).trans ?_
      simp [Shown.text, render, quote, String.append_assoc]

/-- The elements after the first one. -/
theorem stringifyElements_ofElements (ret : String) (vs : List (Json ν)) :
    stringifyElements numerals ret "," (Value.ofElements vs) =
      .ok (some (ret ++ String.ofList (renderElements numerals vs))) := by
  cases vs with
  | nil => rfl
  | cons v vs =>
    rw [Value.ofElements, stringifyElements, stringify_ofJson v]
    refine (stringifyElements_ofElements _ vs).trans ?_
    simp [Shown.text, renderElements, String.append_assoc]

/-- The properties after the first one. -/
theorem stringifyProperties_ofMembers (ret : String) (ms : List (String × Json ν)) :
    stringifyProperties numerals ret "," (Value.ofMembers ms) =
      .ok (some (ret ++ String.ofList (renderMembers numerals ms))) := by
  cases ms with
  | nil => rfl
  | cons member ms =>
    obtain ⟨key, v⟩ := member
    rw [Value.ofMembers, stringifyProperties_cons, stringify_ofJson v]
    refine (stringifyProperties_ofMembers _ ms).trans ?_
    simp [Shown.text, renderMembers, quote, String.append_assoc]

end

/-- On every value of JSON, `stringify` returns what `JSON.stringify` does. -/
theorem stringify_eq_jsonStringify (v : Json ν) :
    stringify numerals (Value.ofJson v) = .ok (some (jsonStringify numerals v)) :=
  stringify_ofJson numerals v

end CosmicSwingset.Vats
