import CosmicSwingset.Foundation.JsonPath
import CosmicSwingset.Foundation.Transition
import CosmicSwingset.Solo.SetGciIngress
import Mathlib

/-!
# Assignments to a JSON file

`set-json.js` reads a file, carries out assignments `path=value` in memory, and writes the file
again when all of them are done. A path is walked down from the top; `in` throws on what is no
object, so that a path which goes through a scalar ends the run.

The last segment is assigned to without a test. In sloppy mode an assignment to a property of a
string, number or boolean does nothing, and the run goes on. An array takes any name: an index above
its length leaves holes, which are written as `null`, and what is not an index is lost when the file
is written; `length` truncates it, and below the methods that it inherits nothing is of the file.
A number that is too large is an infinity for `JSON.parse`, and is written as `null`. These apart,
an assignment puts its value in place and changes nothing else (`setJson_lenses`). When the new file
cannot be written, the run ends as if it were.

The contents of a file are a JSON value here. Names that every object inherits are not among the
segments.
-/

set_option autoImplicit false
set_option relaxedAutoImplicit false

namespace CosmicSwingset.Setup

open Foundation
open Json (Assigned read)
open Solo.SetGCIIngress (isLineTerminator objectPrototype arrayIndex?)

universe u

variable {ν : Type u}

/-! ### Values in memory -/

/-- The numbers that `JSON.parse` makes, of which some are infinities; 0 and -0 are the same. -/
class Numbers (ν : Type u) where
  isFinite : ν → Bool

/-- The numbers in the value are finite. -/
def AllFinite [Numbers ν] (v : Json ν) : Prop := v.allNums Numbers.isFinite = true

/-- A value in memory. An object with a length is an array, and what it has no property for below
its length is a hole. -/
inductive Config (ν : Type u)
  | null
  | bool (b : Bool)
  | num (n : ν)
  | str (s : String)
  | object (length : Option ℕ) (properties : List (String × Config ν))

namespace Config

mutual

/-- The value that `JSON.parse` makes. -/
def ofJson : Json ν → Config ν
  | .null => .null
  | .bool b => .bool b
  | .num n => .num n
  | .str s => .str s
  | .arr elements => .object (some elements.length) (ofElements 0 elements)
  | .obj members => .object none (ofMembers members)

def ofElements (i : ℕ) : List (Json ν) → List (String × Config ν)
  | [] => []
  | v :: vs => (toString i, ofJson v) :: ofElements (i + 1) vs

def ofMembers : List (String × Json ν) → List (String × Config ν)
  | [] => []
  | (key, v) :: ms => (key, ofJson v) :: ofMembers ms

end

section ToJson

variable [Numbers ν]

mutual

/-- The value that is read in what `JSON.stringify` writes. -/
def toJson : Config ν → Json ν
  | .null => .null
  | .bool b => .bool b
  | .num n => if Numbers.isFinite n then .num n else .null
  | .str s => .str s
  | .object (some length) properties =>
    .arr ((List.range length).map fun i ↦ (entry (toMembers properties) (toString i)).getD .null)
  | .object none properties => .obj (toMembers properties)

def toMembers : List (String × Config ν) → List (String × Json ν)
  | [] => []
  | (key, c) :: properties => (key, toJson c) :: toMembers properties

end

end ToJson

/-- A property of its own is set. An array has a length above its indices. -/
def setOwn (length : Option ℕ) (properties : List (String × Config ν)) (p : String)
    (c : Config ν) : Config ν :=
  .object
    (length.map fun n ↦
      match arrayIndex? p with
      | some i => max n (i + 1)
      | none => n)
    (OrderedMap.setEntries properties p c)

end Config

/-! ### The assignments -/

/-- What there is to know of arrays: the names that they inherit and other objects do not; the
length that a value is, if it is one (an assignment to `length` throws otherwise); and whether an
assignment below what they inherit throws, after others. -/
structure ArrayPrototype (ν : Type u) where
  names : List String
  toLength : Json ν → Option ℕ
  throws : List String → List String → Bool
  name_ne : ∀ name ∈ names, ∀ i : ℕ, name ≠ toString i

section SetJson

variable (prototype : ArrayPrototype ν)

/-- `obj[p] = val`, unless it throws. -/
def setProperty (val : Json ν) : Config ν → String → Option (Config ν)
  | .null, _ => none
  -- sloppy mode
  | .bool b, _ => some (.bool b)
  | .num n, _ => some (.num n)
  | .str s, _ => some (.str s)
  | .object length properties, p =>
    if length.isSome ∧ p = "length" then
      (prototype.toLength val).map fun n ↦
        .object (some n) (properties.filter fun property ↦ (arrayIndex? property.1).all (· < n))
    else some (.setOwn length properties p (.ofJson val))

/-- The walk down the path, and the assignment at its end. `throws` is what becomes of it below the
methods of arrays. -/
def assignAt (throws : Bool) (val : Json ν) : Config ν → List String → Option (Config ν)
  | obj, [] => some obj
  | obj, p :: ps =>
    if ps = [] then setProperty prototype val obj p
    else
      match obj with
      | .object length properties =>
        if length.isSome ∧ p = "length" then
          -- it is a number
          if ps.length = 1 then some obj else none
        else
          match entry properties p with
          | some child => (assignAt throws val child ps).map fun child ↦
              .object length (OrderedMap.setEntries properties p child)
          | none =>
            if p ∈ objectPrototype ∨ length.isSome ∧ p ∈ prototype.names then
              if throws then none else some obj
            else (assignAt throws val (.object none []) ps).map (.setOwn length properties p)
      | _ => none

/-- `pathEquals.match(/^([^=]+)=(.*)$/)`. -/
def matchAssign (pathEquals : String) : Option (String × String) :=
  let chars := pathEquals.toList
  let path := chars.takeWhile (· ≠ '=')
  match chars.dropWhile (· ≠ '=') with
  | _ :: jsonVal =>
    if path ≠ [] ∧ ¬ jsonVal.any isLineTerminator then
      some (String.ofList path, String.ofList jsonVal)
    else none
  | [] => none

/-- `path.split('.')`. -/
def split (path : String) : List String := (path.toList.splitOn '.').map String.ofList

variable (parse : String → Option (Json ν))

/-- The segments of the path, and the value. -/
def parseAssign (pathEquals : String) : Option (List String × Json ν) :=
  (matchAssign pathEquals).bind fun group ↦ (parse group.2).map fun val ↦ (split group.1, val)

/-- The value in memory, and the assignments that were carried out. -/
structure Assigning (ν : Type u) where
  config : Config ν
  assigned : List String

def Assigning.start (file : Option (Json ν)) : Assigning ν := ⟨.ofJson (file.getD (.obj [])), []⟩

/-- One turn of the loop, unless it throws. -/
def assignStep (s : Assigning ν) (pathEquals : String) : Option (Assigning ν) :=
  (parseAssign parse pathEquals).bind fun assign ↦
    (assignAt prototype (prototype.throws s.assigned assign.1) assign.2 s.config assign.1).map
      fun config ↦ ⟨config, s.assigned ++ [pathEquals]⟩

def override (assign : String) : String :=
  if assign = "--agoric-genesis-overrides" then
    "app_state.auth.params.tx_size_cost_per_byte=\"0\""
  else assign

/-- What becomes of the new file: it takes the place of the old one, or it is removed when there is
an error, or this fails as well. -/
inductive Writing
  | renamed
  | unlinked
  | failed
  deriving DecidableEq

structure SetJsonRun (ν : Type u) where
  succeeds : Bool
  file : Option (Json ν)

variable [Numbers ν]

def setJson (file : Option (Json ν)) (sargs : List String) (writing : Writing) : SetJsonRun ν :=
  match run (assignStep prototype parse) (.start file) (sargs.map override) with
  | none => ⟨false, file⟩
  | some s =>
    match writing with
    | .renamed => ⟨true, some s.config.toJson⟩
    | .unlinked => ⟨true, file⟩
    | .failed => ⟨false, file⟩

/-! ### What assignments should do -/

/-- The assignment is as one should be, of what would be written. -/
def Lens (s : Assigning ν) (pathEquals : String) (s' : Assigning ν) : Prop :=
  ∀ assign ∈ parseAssign parse pathEquals,
    Assigned arrayIndex? s.config.toJson [assign] s'.config.toJson

def IsScalar : Json ν → Prop
  | .arr _ | .obj _ => False
  | _ => True

/-- It cannot be applied: it is no assignment, or has a segment below a scalar. -/
def Inapplicable (s : Assigning ν) (pathEquals : String) : Prop :=
  ∀ assign ∈ parseAssign parse pathEquals,
    ∃ q, q <+: assign.1 ∧ ¬ assign.1 <+: q ∧ ∃ v, read arrayIndex? s.config.toJson q = some v ∧
      IsScalar v

/-- What a run should do. -/
structure Lenses (file : Option (Json ν)) (sargs : List String) (writing : Writing) : Prop where
  assigned : (setJson prototype parse file sargs writing).succeeds = true →
    ∃ assigns config, (sargs.map override).mapM (parseAssign parse) = some assigns ∧
      (setJson prototype parse file sargs writing).file = some config ∧
        Assigned arrayIndex? (file.getD (.obj [])) assigns config
  untouched : ∀ before pathEquals after s, sargs.map override = before ++ pathEquals :: after →
    run (assignStep prototype parse) (.start file) before = some s →
      Inapplicable parse s pathEquals →
        (setJson prototype parse file sargs writing).file = file

/-- The path does not end below a string, number or boolean, and in an array it goes on by an index
up to the length; or the assignment throws before it does. -/
def Fits (throws : Bool) (val : Json ν) : Json ν → List String → Prop
  | _, [] => True
  | .null, _ => True
  | .bool _, _ :: ps | .num _, _ :: ps | .str _, _ :: ps => ps ≠ []
  | .obj members, p :: ps => Fits throws val ((entry members p).getD (.obj [])) ps
  | .arr elements, p :: ps =>
    match arrayIndex? p with
    | some i => i ≤ elements.length ∧ Fits throws val (elements[i]?.getD (.obj [])) ps
    | none =>
      if p = "length" then if ps = [] then prototype.toLength val = none else ps.length ≠ 1
      else p ∈ prototype.names ∧ ps ≠ [] ∧ throws = true

instance Fits.instDecidable (throws : Bool) (val v : Json ν) (path : List String) :
    Decidable (Fits prototype throws val v path) :=
  match v, path with
  | _, [] => .isTrue (by simp [Fits])
  | .null, _ :: _ => .isTrue (by simp [Fits])
  | .bool _, _ :: ps | .num _, _ :: ps | .str _, _ :: ps => inferInstanceAs (Decidable (ps ≠ []))
  | .obj members, p :: ps => Fits.instDecidable throws val ((entry members p).getD (.obj [])) ps
  | .arr elements, p :: ps =>
    match h : arrayIndex? p with
    | some i =>
      have := Fits.instDecidable throws val (elements[i]?.getD (.obj [])) ps
      decidable_of_iff
        (i ≤ elements.length ∧ Fits prototype throws val (elements[i]?.getD (.obj [])) ps)
        (by rw [Fits, h])
    | none =>
      have : Decidable (prototype.toLength val = none) :=
        decidable_of_iff _ Option.isNone_iff_eq_none
      decidable_of_iff
        (if p = "length" then if ps = [] then prototype.toLength val = none else ps.length ≠ 1
          else p ∈ prototype.names ∧ ps ≠ [] ∧ throws = true)
        (by rw [Fits, h])

/-- The assignment fits, and its value has finite numbers. -/
def Tame (s : Assigning ν) (pathEquals : String) : Prop :=
  ∀ assign ∈ parseAssign parse pathEquals, AllFinite assign.2 ∧
    Fits prototype (prototype.throws s.assigned assign.1) assign.2 s.config.toJson assign.1

/-- The path has no segment that is the name of a property of every object. -/
def Named (pathEquals : String) : Prop :=
  ∀ assign ∈ parseAssign parse pathEquals, ∀ p ∈ assign.1, p ∉ objectPrototype

instance Named.instDecidable (pathEquals : String) : Decidable (Named parse pathEquals) :=
  inferInstanceAs (Decidable
    (∀ assign ∈ parseAssign parse pathEquals, ∀ p ∈ assign.1, p ∉ objectPrototype))

end SetJson

/-! ### Indices -/

theorem toString_inj {m n : ℕ} : toString m = toString n ↔ m = n := Nat.repr_inj

theorem arrayIndex?_eq_some {p : String} {i : ℕ} :
    arrayIndex? p = some i ↔ p = toString i ∧ i < 4294967295 := by
  rw [arrayIndex?, Option.filter_eq_some_iff, decide_eq_true_eq]
  constructor
  · rintro ⟨-, htext, hlt⟩
    exact ⟨htext.symm, hlt⟩
  · rintro ⟨rfl, hlt⟩
    exact ⟨Nat.toNat?_repr i, rfl, hlt⟩

theorem arrayIndex?_inj (p q : String) (i : ℕ) (hp : arrayIndex? p = some i)
    (hq : arrayIndex? q = some i) : p = q :=
  (arrayIndex?_eq_some.mp hp).1.trans (arrayIndex?_eq_some.mp hq).1.symm

/-- What has a letter in it is no number. -/
theorem ne_toString {p : String} (h : p.toList.all Char.isDigit = false) (i : ℕ) :
    p ≠ toString i := by
  rintro rfl
  have hdigits : (toString i).toList.all Char.isDigit = true := by
    rw [List.all_eq_true, Nat.toString_eq_repr, Nat.toList_repr]
    exact fun c hc ↦ Nat.isDigit_of_mem_toDigits (by omega) (by omega) hc
  rw [h] at hdigits
  exact Bool.false_ne_true hdigits

/-- The elements of an array, by their indices from some number on. -/
def numbered {α : Type*} (i : ℕ) : List α → List (String × α)
  | [] => []
  | a :: as => (toString i, a) :: numbered (i + 1) as

section Numbered

variable {α : Type*}

theorem entry_numbered (elements : List α) (i j : ℕ) :
    entry (numbered i elements) (toString (i + j)) = elements[j]? := by
  induction elements generalizing i j with
  | nil => rfl
  | cons a as ih =>
    rw [numbered, entry_cons]
    cases j with
    | zero => simp
    | succ j =>
      rw [if_neg (by rw [toString_inj]; omega), ← Nat.add_assoc, Nat.add_right_comm, ih,
        List.getElem?_cons_succ]

theorem entry_numbered_zero (elements : List α) (i : ℕ) :
    entry (numbered 0 elements) (toString i) = elements[i]? := by
  have hentry := entry_numbered elements 0 i
  rwa [Nat.zero_add] at hentry

theorem entry_numbered_of_ne {p : String} (h : ∀ i : ℕ, p ≠ toString i) (elements : List α)
    (i : ℕ) : entry (numbered i elements) p = none := by
  induction elements generalizing i with
  | nil => rfl
  | cons a as ih => rw [numbered, entry_cons, if_neg (h i).symm, ih]

/-- An element is set, or one is added at the end. -/
theorem setEntries_numbered (elements : List α) (a : α) (i : ℕ) {j : ℕ}
    (h : j ≤ elements.length) :
    OrderedMap.setEntries (numbered i elements) (toString (i + j)) a =
      numbered i (if j < elements.length then elements.set j a else elements ++ [a]) := by
  induction elements generalizing i j with
  | nil =>
    obtain rfl := Nat.le_zero.mp h
    rfl
  | cons b as ih =>
    rw [numbered, OrderedMap.setEntries]
    cases j with
    | zero => simp [numbered]
    | succ j =>
      rw [if_neg (by rw [toString_inj]; omega), ← Nat.add_assoc, Nat.add_right_comm,
        ih (i + 1) (Nat.le_of_succ_le_succ h)]
      rw [List.length_cons]
      by_cases hlt : j < as.length
      · rw [if_pos hlt, if_pos (by omega), List.set_cons_succ, numbered]
      · rw [if_neg hlt, if_neg (by omega), List.cons_append, numbered]

theorem setEntries_index {elements : List α} {p : String} {i : ℕ} (hi : arrayIndex? p = some i)
    (hle : i ≤ elements.length) (a : α) :
    OrderedMap.setEntries (numbered 0 elements) p a =
      numbered 0 (if i < elements.length then elements.set i a else elements ++ [a]) := by
  have hset := setEntries_numbered elements a 0 hle
  rwa [Nat.zero_add, ← (arrayIndex?_eq_some.mp hi).1] at hset

end Numbered

/-! ### Finite numbers -/

section AllFinite

variable [Numbers ν] {v w : Json ν} {p : String}

theorem allFinite_arr {elements : List (Json ν)} :
    AllFinite (.arr elements) ↔ ∀ v ∈ elements, AllFinite v := by
  rw [AllFinite, Json.allNums_arr, List.all_eq_true]
  rfl

theorem allFinite_obj {members : List (String × Json ν)} :
    AllFinite (.obj members) ↔ ∀ m ∈ members, AllFinite m.2 := by
  rw [AllFinite, Json.allNums_obj, List.all_eq_true]
  rfl

theorem allFinite_getD {entries : Option (Json ν)} {w : Json ν} (hw : AllFinite w)
    (h : ∀ v ∈ entries, AllFinite v) : AllFinite (entries.getD w) := by
  cases entries with
  | none => exact hw
  | some v => exact h v rfl

theorem allFinite_entry {members : List (String × Json ν)} (h : ∀ m ∈ members, AllFinite m.2) :
    ∀ v ∈ entry members p, AllFinite v := by
  induction members with
  | nil => simp
  | cons m ms ih =>
    obtain ⟨hm, hms⟩ := List.forall_mem_cons.mp h
    rw [entry_cons]
    split_ifs
    · rintro v ⟨⟩
      exact hm
    · exact ih hms

theorem AllFinite.child (h : AllFinite v) : ∀ w ∈ Json.child arrayIndex? v p, AllFinite w := by
  cases v with
  | obj members => exact allFinite_entry (allFinite_obj.mp h)
  | arr elements =>
    intro w hw
    obtain ⟨i, -, hi⟩ := Option.bind_eq_some_iff.mp hw
    exact allFinite_arr.mp h w (List.mem_of_getElem? hi)
  | null | bool | num | str => simp [Json.child]

theorem AllFinite.childOrNew (h : AllFinite v) : AllFinite (Json.childOrNew arrayIndex? v p) :=
  allFinite_getD (allFinite_obj.mpr (by simp)) h.child

/-- What is read of finite numbers is finite. -/
theorem AllFinite.read (h : AllFinite v) {path : List String}
    (hread : read arrayIndex? v path = some w) : AllFinite w := by
  induction path generalizing v with
  | nil => exact Option.some.inj hread ▸ h
  | cons p path ih =>
    obtain ⟨c, hc, hread⟩ := Option.bind_eq_some_iff.mp hread
    exact ih (h.child c hc) hread

theorem AllFinite.setChild (h : AllFinite v) (hw : AllFinite w) :
    AllFinite (Json.setChild arrayIndex? w v p) := by
  cases v with
  | obj members =>
    refine allFinite_obj.mpr fun m hm ↦ ?_
    rcases mem_setEntries hm with hold | rfl
    · exact allFinite_obj.mp h m hold
    · exact hw
  | arr elements =>
    simp only [Json.setChild]
    split
    · refine allFinite_arr.mpr fun c hc ↦ ?_
      split_ifs at hc
      · rcases List.mem_or_eq_of_mem_set hc with hold | rfl
        · exact allFinite_arr.mp h c hold
        · exact hw
      · rcases List.mem_append.mp hc with hold | hlast
        · exact allFinite_arr.mp h c hold
        · exact List.mem_singleton.mp hlast ▸ hw
    · exact h
  | null | bool | num | str => exact h

theorem AllFinite.assign (h : AllFinite v) (hw : AllFinite w) {path : List String} :
    AllFinite (Json.assign arrayIndex? w v path) := by
  induction path generalizing v with
  | nil => exact hw
  | cons p path ih => exact h.setChild (ih h.childOrNew)

end AllFinite

/-! ### Values of files in memory -/

namespace Config

theorem ofMembers_eq (ms : List (String × Json ν)) : ofMembers ms = mapEntries ofJson ms := by
  induction ms with
  | nil => rfl
  | cons m ms ih => rw [ofMembers, ih, mapEntries, mapEntries, List.map_cons]

theorem ofElements_eq (elements : List (Json ν)) (i : ℕ) :
    ofElements i elements = mapEntries ofJson (numbered i elements) := by
  induction elements generalizing i with
  | nil => rfl
  | cons v vs ih => rw [ofElements, ih, numbered, mapEntries, mapEntries, List.map_cons]

theorem toMembers_eq [Numbers ν] (properties : List (String × Config ν)) :
    toMembers properties = mapEntries toJson properties := by
  induction properties with
  | nil => rfl
  | cons property properties ih => rw [toMembers, ih, mapEntries, mapEntries, List.map_cons]

/-- An array without holes is written as its elements. -/
theorem map_entry_numbered (elements : List (Json ν)) :
    ((List.range elements.length).map fun i ↦
      (entry (numbered 0 elements) (toString i)).getD .null) = elements := by
  refine List.ext_getElem (by simp) fun i hi hi' ↦ ?_
  rw [List.getElem_map, List.getElem_range, entry_numbered_zero, List.getElem?_eq_getElem hi',
    Option.getD_some]

mutual

theorem toJson_ofJson [Numbers ν] {v : Json ν} (h : AllFinite v) : toJson (ofJson v) = v := by
  cases v with
  | null | bool b | str s => rfl
  | num n => exact if_pos h
  | arr elements =>
    rw [ofJson, toJson, toMembers_ofElements (allFinite_arr.mp h) 0, map_entry_numbered]
  | obj members => rw [ofJson, toJson, toMembers_ofMembers (allFinite_obj.mp h)]

theorem toMembers_ofElements [Numbers ν] {vs : List (Json ν)} (h : ∀ v ∈ vs, AllFinite v)
    (i : ℕ) : toMembers (ofElements i vs) = numbered i vs := by
  cases vs with
  | nil => rfl
  | cons v vs =>
    obtain ⟨hv, hvs⟩ := List.forall_mem_cons.mp h
    rw [ofElements, toMembers, toJson_ofJson hv, toMembers_ofElements hvs (i + 1), numbered]

theorem toMembers_ofMembers [Numbers ν] {ms : List (String × Json ν)}
    (h : ∀ m ∈ ms, AllFinite m.2) : toMembers (ofMembers ms) = ms := by
  cases ms with
  | nil => rfl
  | cons m ms =>
    obtain ⟨key, v⟩ := m
    obtain ⟨hv, hms⟩ := List.forall_mem_cons.mp h
    rw [ofMembers, toMembers, toJson_ofJson hv, toMembers_ofMembers hms]

end

mutual

/-- What is written has finite numbers. -/
theorem allFinite_toJson [Numbers ν] (c : Config ν) : AllFinite (toJson c) := by
  cases c with
  | null | bool b | str s => rfl
  | num n =>
    rw [toJson]
    split_ifs with hn
    · exact hn
    · rfl
  | object length properties =>
    have hproperties := allFinite_toMembers properties
    cases length with
    | none => exact allFinite_obj.mpr hproperties
    | some length =>
      refine allFinite_arr.mpr fun v hv ↦ ?_
      obtain ⟨i, -, rfl⟩ := List.mem_map.mp hv
      exact allFinite_getD rfl (allFinite_entry hproperties)

theorem allFinite_toMembers [Numbers ν] (properties : List (String × Config ν)) :
    ∀ m ∈ toMembers properties, AllFinite m.2 := by
  cases properties with
  | nil => simp [toMembers]
  | cons property properties =>
    obtain ⟨key, c⟩ := property
    rw [toMembers]
    exact List.forall_mem_cons.mpr ⟨allFinite_toJson c, allFinite_toMembers properties⟩

end

theorem entry_ofMembers (ms : List (String × Json ν)) (p : String) :
    entry (ofMembers ms) p = (entry ms p).map ofJson := by
  rw [ofMembers_eq, entry_mapEntries]

theorem entry_ofElements (elements : List (Json ν)) {p : String} {i : ℕ}
    (hi : arrayIndex? p = some i) :
    entry (ofElements 0 elements) p = elements[i]?.map ofJson := by
  rw [ofElements_eq, entry_mapEntries, (arrayIndex?_eq_some.mp hi).1, entry_numbered_zero]

/-- An object with a property put in place. -/
def place (obj : Config ν) (p : String) (c : Config ν) : Config ν :=
  match obj with
  | .object length properties => setOwn length properties p c
  | obj => obj

theorem place_object (length : Option ℕ) (properties : List (String × Config ν)) (p : String) :
    place (.object length properties) p = setOwn length properties p := rfl

theorem length_set_or_append {α : Type*} {elements : List α} {i : ℕ} (h : i ≤ elements.length)
    (a : α) : (if i < elements.length then elements.set i a else elements ++ [a]).length =
      max elements.length (i + 1) := by
  split_ifs
  · rw [List.length_set]
    omega
  · rw [List.length_append, List.length_singleton]
    omega

theorem setOwn_ofElements {elements : List (Json ν)} {p : String} {i : ℕ}
    (hi : arrayIndex? p = some i) (c : Config ν) :
    setOwn (some elements.length) (ofElements 0 elements) p c =
      .object (some (max elements.length (i + 1)))
        (OrderedMap.setEntries (ofElements 0 elements) p c) := by
  simp only [setOwn, hi, Option.map_some]

theorem toMembers_setEntries [Numbers ν] (properties : List (String × Config ν)) (p : String)
    (c : Config ν) : toMembers (OrderedMap.setEntries properties p c) =
      OrderedMap.setEntries (toMembers properties) p (toJson c) := by
  rw [toMembers_eq, ← setEntries_mapEntries, ← toMembers_eq]

/-- What is put in place is written there. -/
theorem toJson_place [Numbers ν] {v : Json ν} {p : String} (hv : AllFinite v)
    (h : Json.Admits arrayIndex? v p) (c : Config ν) :
    toJson (place (ofJson v) p c) = Json.setChild arrayIndex? (toJson c) v p := by
  cases v with
  | obj members =>
    rw [ofJson, place, setOwn, Option.map_none, toJson, toMembers_setEntries,
      toMembers_ofMembers (allFinite_obj.mp hv), Json.setChild]
  | arr elements =>
    obtain ⟨i, hi, hle⟩ := h
    rw [Option.mem_def] at hi
    rw [ofJson, place, setOwn_ofElements hi, toJson, toMembers_setEntries,
      toMembers_ofElements (allFinite_arr.mp hv), setEntries_index hi hle,
      ← length_set_or_append hle (toJson c), map_entry_numbered]
    simp only [Json.setChild, hi]
  | null | bool | num | str => exact h.elim

theorem place_ofJson {v : Json ν} {p : String} (h : Json.Admits arrayIndex? v p) (w : Json ν) :
    place (ofJson v) p (ofJson w) = ofJson (Json.setChild arrayIndex? w v p) := by
  cases v with
  | obj members =>
    rw [ofJson, place, setOwn, Option.map_none, Json.setChild, ofJson, ofMembers_eq, ofMembers_eq,
      setEntries_mapEntries]
  | arr elements =>
    obtain ⟨i, hi, hle⟩ := h
    rw [Option.mem_def] at hi
    rw [ofJson, place, setOwn_ofElements hi, ofElements_eq, setEntries_mapEntries,
      setEntries_index hi hle, ← length_set_or_append hle w, ← ofElements_eq]
    simp only [Json.setChild, hi, ofJson]
  | null | bool | num | str => exact h.elim

end Config

/-! ### One assignment -/

section Assignment

open Config

variable {prototype : ArrayPrototype ν} {throws : Bool} {val v : Json ν} {p : String}
  {ps path : List String} {c' : Config ν}

theorem ne_length_of_index {i : ℕ} (hi : arrayIndex? p = some i) : p ≠ "length" := by
  rw [(arrayIndex?_eq_some.mp hi).1]
  exact (ne_toString (by decide) i).symm

theorem not_mem_names_of_index {i : ℕ} (hi : arrayIndex? p = some i) : p ∉ prototype.names :=
  fun hname ↦ prototype.name_ne p hname i (arrayIndex?_eq_some.mp hi).1

theorem assignAt_last (obj : Config ν) (p : String) :
    assignAt prototype throws val obj [p] = setProperty prototype val obj p := by
  cases obj <;> rfl

theorem setProperty_ofJson (h : Json.Admits arrayIndex? v p) :
    setProperty prototype val (ofJson v) p = some (place (ofJson v) p (ofJson val)) := by
  cases v with
  | obj members => simp [ofJson, setProperty, place]
  | arr elements =>
    obtain ⟨i, hi, -⟩ := h
    simp [ofJson, setProperty, place, ne_length_of_index hi]
  | null | bool | num | str => exact h.elim

/-- The step of the walk to a child, or to a new object. -/
theorem assignAt_cons (h : Json.Admits arrayIndex? v p) (hp : p ∉ objectPrototype) (hps : ps ≠ []) :
    assignAt prototype throws val (ofJson v) (p :: ps) =
      (assignAt prototype throws val (ofJson (Json.childOrNew arrayIndex? v p)) ps).map
        (place (ofJson v) p) := by
  cases v with
  | obj members =>
    rw [Json.childOrNew, Json.child, ofJson, assignAt, if_neg hps, entry_ofMembers]
    cases hentry : entry members p with
    | some w =>
      simp only [Option.isSome_none, Bool.false_eq_true, false_and, if_false, Option.map_some,
        Option.getD_some, place_object]
      rfl
    | none => simp [hp, place_object, ofJson, ofMembers]
  | arr elements =>
    obtain ⟨i, hi, hle⟩ := h
    rw [Option.mem_def] at hi
    have hlength := ne_length_of_index hi
    have hname : p ∉ prototype.names := not_mem_names_of_index hi
    rw [Json.childOrNew, Json.child, hi, Option.bind_some, ofJson, assignAt, if_neg hps,
      entry_ofElements elements hi]
    cases helement : elements[i]? with
    | some w =>
      have hlt : i < elements.length := (List.getElem?_eq_some_iff.mp helement).1
      have hmax : max elements.length (i + 1) = elements.length := by omega
      have hplace : setOwn (some elements.length) (ofElements 0 elements) p = fun child ↦
          .object (some elements.length)
            (OrderedMap.setEntries (ofElements 0 elements) p child) :=
        funext fun child ↦ by rw [setOwn_ofElements hi, hmax]
      simp [hlength, place_object, hplace]
    | none => simp [hlength, hp, hname, place_object, ofJson, ofMembers]
  | null | bool | num | str => exact h.elim

/-- An assignment to an open path is made as `Json.assign` does. -/
theorem assignAt_open (h : Json.Open arrayIndex? v path) (hpath : path ≠ [])
    (hnames : ∀ p ∈ path, p ∉ objectPrototype) :
    assignAt prototype throws val (ofJson v) path =
      some (ofJson (Json.assign arrayIndex? val v path)) := by
  induction path generalizing v with
  | nil => exact absurd rfl hpath
  | cons p ps ih =>
    obtain ⟨hp, hnames⟩ := List.forall_mem_cons.mp hnames
    by_cases hps : ps = []
    · subst hps
      rw [assignAt_last, setProperty_ofJson h.1, place_ofJson h.1]
      rfl
    · rw [assignAt_cons h.1 hp hps, ih h.2 hps hnames, Option.map_some, place_ofJson h.1]
      rfl

theorem assignAt_below (hadmits : Json.Admits arrayIndex? v p) (hp : p ∉ objectPrototype)
    (hps : ps ≠ []) (h : assignAt prototype throws val (ofJson v) (p :: ps) = some c') :
    ∃ c, assignAt prototype throws val (ofJson (Json.childOrNew arrayIndex? v p)) ps = some c ∧
      place (ofJson v) p c = c' := by
  rw [assignAt_cons hadmits hp hps] at h
  exact Option.map_eq_some_iff.mp h

/-- `in` throws on a scalar. -/
theorem assignAt_scalar (hv : IsScalar v) (hps : ps ≠ []) :
    assignAt prototype throws val (ofJson v) (p :: ps) = none := by
  cases v with
  | arr | obj => exact hv.elim
  | null | bool | num | str => simp [ofJson, assignAt, hps]

/-- What an assignment below an array leaves is an array. -/
theorem assignAt_array {n : ℕ} {properties : List (String × Config ν)}
    (h : assignAt prototype throws val (.object (some n) properties) (p :: ps) = some c') :
    ∃ m properties', c' = .object (some m) properties' := by
  by_cases hps : ps = []
  · subst hps
    rw [assignAt_last, setProperty] at h
    split at h
    · obtain ⟨m, -, rfl⟩ := Option.map_eq_some_iff.mp h
      exact ⟨m, _, rfl⟩
    · exact ⟨_, _, (Option.some.inj h).symm⟩
  · rw [assignAt, if_neg hps] at h
    split at h
    · split at h
      · exact ⟨n, properties, (Option.some.inj h).symm⟩
      · simp at h
    · split at h
      · obtain ⟨c, -, rfl⟩ := Option.map_eq_some_iff.mp h
        exact ⟨n, _, rfl⟩
      · split at h
        · split at h
          · simp at h
          · exact ⟨n, properties, (Option.some.inj h).symm⟩
        · obtain ⟨c, -, rfl⟩ := Option.map_eq_some_iff.mp h
          exact ⟨_, _, rfl⟩

theorem fits_index {elements : List (Json ν)} {i : ℕ} (hi : arrayIndex? p = some i) :
    Fits prototype throws val (.arr elements) (p :: ps) ↔
      i ≤ elements.length ∧
        Fits prototype throws val (Json.childOrNew arrayIndex? (.arr elements) p) ps := by
  rw [Fits, hi, Json.childOrNew, Json.child, hi]
  rfl

/-- Where it fits and does not throw, the path is open. -/
theorem open_of_fits (hfits : Fits prototype throws val v path)
    (h : assignAt prototype throws val (ofJson v) path = some c')
    (hnames : ∀ p ∈ path, p ∉ objectPrototype) : Json.Open arrayIndex? v path := by
  induction path generalizing v c' with
  | nil => trivial
  | cons p ps ih =>
    obtain ⟨hp, hnames⟩ := List.forall_mem_cons.mp hnames
    have hbelow (hadmits : Json.Admits arrayIndex? v p)
        (hfits : Fits prototype throws val (Json.childOrNew arrayIndex? v p) ps) :
        Json.Open arrayIndex? v (p :: ps) := by
      refine ⟨hadmits, ?_⟩
      by_cases hps : ps = []
      · subst hps
        trivial
      · obtain ⟨c, hc, -⟩ := assignAt_below hadmits hp hps h
        exact ih hfits hc hnames
    cases v with
    | obj members => exact hbelow trivial hfits
    | arr elements =>
      cases hi : arrayIndex? p with
      | some i =>
        obtain ⟨hle, hfits⟩ := (fits_index hi).mp hfits
        exact hbelow ⟨i, hi, hle⟩ hfits
      | none =>
        -- the assignment throws
        rw [Fits, hi] at hfits
        simp only at hfits
        split_ifs at hfits with hlength hps
        · simp [hps, assignAt_last, ofJson, setProperty, hlength, hfits] at h
        · simp [ofJson, assignAt, hps, hlength, hfits] at h
        · obtain ⟨hname, hps, hthrows⟩ := hfits
          have hentry : entry (ofElements 0 elements) p = none := by
            rw [ofElements_eq, entry_mapEntries,
              entry_numbered_of_ne (prototype.name_ne p hname), Option.map_none]
          simp [ofJson, assignAt, hps, hlength, hentry, hname, hthrows] at h
    | null =>
      by_cases hps : ps = []
      · simp [hps, assignAt_last, ofJson, setProperty] at h
      · simp [assignAt_scalar (v := .null) trivial hps] at h
    | bool b => simp [assignAt_scalar (v := .bool b) trivial hfits] at h
    | num n => simp [assignAt_scalar (v := .num n) trivial hfits] at h
    | str s => simp [assignAt_scalar (v := .str s) trivial hfits] at h

/-- The value is not what is read at the path, or something is changed that is not on it. -/
def Missed (val v : Json ν) (path : List String) (v' : Json ν) : Prop :=
  read arrayIndex? v' path ≠ some val ∨
    ∃ q, ¬ Overlap q path ∧ read arrayIndex? v' q ≠ read arrayIndex? v q

theorem Missed.not_assigned {v' : Json ν} (h : Missed val v path v') :
    ¬ Assigned arrayIndex? v [(path, val)] v' := by
  intro hassigned
  rcases h with hread | ⟨q, hq, hne⟩
  · exact hread (hassigned.reads [] path val [] rfl (by simp))
  · exact hne (hassigned.apart q (by simpa using hq))

/-- What is missed below a child is missed. -/
theorem Missed.cons {w : Json ν} (h : Missed val (Json.childOrNew arrayIndex? v p) ps w)
    (hadmits : Json.Admits arrayIndex? v p) :
    Missed val v (p :: ps) (Json.setChild arrayIndex? w v p) := by
  have hread (q : List String) :
      read arrayIndex? (Json.setChild arrayIndex? w v p) (p :: q) = read arrayIndex? w q := by
    rw [Json.read_cons, Json.child_setChild_self hadmits, Option.bind_some]
  rcases h with hne | ⟨q, hq, hne⟩
  · exact Or.inl (by rwa [hread])
  · have hnil : q ≠ [] := fun hnil ↦ hq (Or.inl (hnil ▸ List.nil_prefix))
    refine Or.inr ⟨p :: q, overlap_cons.not.mpr hq, ?_⟩
    rwa [hread, ← Json.read_childOrNew hnil]

/-- An index above the length leaves a hole at the end of the array as it was. -/
theorem missed_hole [Numbers ν] {elements : List (Json ν)} {i : ℕ}
    (helements : ∀ v ∈ elements, AllFinite v) (hi : arrayIndex? p = some i)
    (hlt : elements.length < i) (c : Config ν) :
    Missed val (.arr elements) (p :: ps)
      (setOwn (some elements.length) (ofElements 0 elements) p c).toJson := by
  obtain ⟨hp, hbound⟩ := arrayIndex?_eq_some.mp hi
  have hindex : arrayIndex? (toString elements.length) = some elements.length :=
    arrayIndex?_eq_some.mpr ⟨rfl, hlt.trans hbound⟩
  have hne : toString elements.length ≠ p := by
    rw [hp, Ne, toString_inj]
    exact hlt.ne
  have hentry := entry_numbered_zero elements elements.length
  rw [List.getElem?_eq_none le_rfl] at hentry
  refine Or.inr ⟨[toString elements.length], ?_, ?_⟩
  · rintro (hpre | hpre)
    · exact hne (List.cons_prefix_cons.mp hpre).1
    · exact hne (List.cons_prefix_cons.mp hpre).1.symm
  · have hold : read arrayIndex? (.arr elements) [toString elements.length] = none := by
      rw [Json.read_cons, Json.child, hindex, Option.bind_some, List.getElem?_eq_none le_rfl,
        Option.bind_none]
    have hhole : elements.length < max elements.length (i + 1) := by omega
    rw [hold, setOwn_ofElements hi, toJson, toMembers_setEntries,
      toMembers_ofElements helements, Json.read_cons, Json.child, hindex, Option.bind_some,
      List.getElem?_map, List.getElem?_range hhole, Option.map_some, entry_setEntries, if_neg hne,
      hentry]
    simp [Json.read]

/-- Where it does not fit and does not throw, the assignment is missed. -/
theorem missed_of_not_fits [Numbers ν] (hv : AllFinite v)
    (hfits : ¬ Fits prototype throws val v path)
    (h : assignAt prototype throws val (ofJson v) path = some c')
    (hnames : ∀ p ∈ path, p ∉ objectPrototype) : Missed val v path c'.toJson := by
  induction path generalizing v c' with
  | nil => exact absurd (by simp [Fits]) hfits
  | cons p ps ih =>
    obtain ⟨hp, hnames⟩ := List.forall_mem_cons.mp hnames
    have hbelow (hadmits : Json.Admits arrayIndex? v p)
        (hfits : ¬ Fits prototype throws val (Json.childOrNew arrayIndex? v p) ps) :
        Missed val v (p :: ps) c'.toJson := by
      have hps : ps ≠ [] := fun hnil ↦ hfits (by simp [hnil, Fits])
      obtain ⟨c, hc, rfl⟩ := assignAt_below hadmits hp hps h
      rw [toJson_place hv hadmits]
      exact (ih hv.childOrNew hfits hc hnames).cons hadmits
    cases v with
    | obj members => exact hbelow trivial hfits
    | arr elements =>
      cases hi : arrayIndex? p with
      | some i =>
        by_cases hle : i ≤ elements.length
        · exact hbelow ⟨i, hi, hle⟩ fun hchild ↦ hfits ((fits_index hi).mpr ⟨hle, hchild⟩)
        · have hlt := not_le.mp hle
          have hname : p ∉ prototype.names := not_mem_names_of_index hi
          have hentry := entry_ofElements elements hi
          rw [List.getElem?_eq_none hlt.le, Option.map_none] at hentry
          by_cases hps : ps = []
          · subst hps
            rw [assignAt_last, ofJson, setProperty,
              if_neg (fun hand ↦ ne_length_of_index hi hand.2)] at h
            exact Option.some.inj h ▸ missed_hole (allFinite_arr.mp hv) hi hlt _
          · rw [ofJson, assignAt, if_neg hps, if_neg (fun hand ↦ ne_length_of_index hi hand.2),
              hentry] at h
            simp only [hp, hname, and_false, or_false, if_false] at h
            obtain ⟨c, -, rfl⟩ := Option.map_eq_some_iff.mp h
            exact missed_hole (allFinite_arr.mp hv) hi hlt c
      | none =>
        -- an array has nothing to read at the segment
        obtain ⟨m, properties, rfl⟩ := assignAt_array h
        left
        rw [toJson, Json.read_cons, Json.child, hi]
        simp
    | null => exact absurd (by simp [Fits]) hfits
    | bool | num | str =>
      by_cases hps : ps = []
      · subst hps
        rw [assignAt_last, ofJson, setProperty] at h
        obtain rfl := Option.some.inj h
        left
        rw [← ofJson, toJson_ofJson hv]
        simp [Json.read, Json.child]
      · rw [assignAt_scalar (by trivial) hps] at h
        exact absurd h (by simp)

end Assignment

/-! ### Runs -/

section Runs

open Config

variable {prototype : ArrayPrototype ν} {parse : String → Option (Json ν)} {s s' t : Assigning ν}
  {v : Json ν} {pathEquals : String}

theorem split_ne_nil (path : String) : split path ≠ [] := by
  rw [split, Ne, List.map_eq_nil_iff]
  exact List.splitOn_ne_nil _ _

theorem parseAssign_ne_nil {assign : List String × Json ν}
    (h : assign ∈ parseAssign parse pathEquals) : assign.1 ≠ [] := by
  obtain ⟨group, -, h⟩ := Option.bind_eq_some_iff.mp h
  obtain ⟨val, -, rfl⟩ := Option.map_eq_some_iff.mp h
  exact split_ne_nil group.1

theorem assignStep_eq_some (h : assignStep prototype parse s pathEquals = some s') :
    ∃ assign ∈ parseAssign parse pathEquals,
      assignAt prototype (prototype.throws s.assigned assign.1) assign.2 s.config assign.1 =
        some s'.config := by
  obtain ⟨assign, hassign, h⟩ := Option.bind_eq_some_iff.mp h
  obtain ⟨config, hconfig, rfl⟩ := Option.map_eq_some_iff.mp h
  exact ⟨assign, hassign, hconfig⟩

/-- What is at a scalar is not on the way to an assignment. -/
theorem IsScalar.not_passed (hv : IsScalar v) (after : Option (Json ν)) :
    ¬ Json.Passed (some v) after := by
  cases v with
  | arr | obj => exact hv.elim
  | null | bool | num | str => exact id

variable [Numbers ν]

/-- A tame assignment to the value of a file makes the value of a file. -/
theorem assignStep_tame (hs : s.config = ofJson v) (hv : AllFinite v)
    (hnamed : Named parse pathEquals) (htame : Tame prototype parse s pathEquals)
    (h : assignStep prototype parse s pathEquals = some s') :
    ∃ assign w, parseAssign parse pathEquals = some assign ∧ s'.config = ofJson w ∧
      AllFinite w ∧ Assigned arrayIndex? v [assign] w := by
  obtain ⟨assign, hassign, hconfig⟩ := assignStep_eq_some h
  obtain ⟨hval, hfits⟩ := htame assign hassign
  rw [hs, toJson_ofJson hv] at hfits
  rw [hs] at hconfig
  have hopen := open_of_fits hfits hconfig (hnamed assign hassign)
  rw [assignAt_open hopen (parseAssign_ne_nil hassign) (hnamed assign hassign)] at hconfig
  exact ⟨assign, _, hassign, (Option.some.inj hconfig).symm, hv.assign hval,
    Json.assigned_assign arrayIndex?_inj hopen⟩

theorem lens_iff_tame (hs : s.config = ofJson v) (hv : AllFinite v)
    (hnamed : Named parse pathEquals)
    (h : assignStep prototype parse s pathEquals = some s') :
    Lens parse s pathEquals s' ↔ Tame prototype parse s pathEquals := by
  constructor
  · intro hlens assign hassign
    obtain ⟨assign', hassign', hconfig⟩ := assignStep_eq_some h
    obtain rfl := Option.some.inj (hassign.symm.trans hassign')
    have hassigned := hlens assign hassign
    -- the value is read in what is written
    have hval : AllFinite assign.2 :=
      (allFinite_toJson s'.config).read (hassigned.reads [] _ _ [] rfl (by simp))
    refine ⟨hval, ?_⟩
    by_contra hfits
    rw [hs, toJson_ofJson hv] at hfits hassigned
    rw [hs] at hconfig
    exact (missed_of_not_fits hv hfits hconfig (hnamed assign hassign)).not_assigned hassigned
  · intro htame assign hassign
    obtain ⟨assign', w, hassign', hw, hfinite, hassigned⟩ := assignStep_tame hs hv hnamed htame h
    obtain rfl := Option.some.inj (hassign.symm.trans hassign')
    rw [hs, hw, toJson_ofJson hv, toJson_ofJson hfinite]
    exact hassigned

/-- A file that there is has finite numbers; where there is none, there are no numbers. -/
theorem allFinite_start {file : Option (Json ν)} (hfile : ∀ v ∈ file, AllFinite v) :
    AllFinite (file.getD (.obj [])) :=
  allFinite_getD (allFinite_obj.mpr (by simp)) hfile

theorem allSteps_lens_iff {file : Option (Json ν)} (hfile : ∀ v ∈ file, AllFinite v)
    {args : List String} (hnamed : ∀ pathEquals ∈ args, Named parse pathEquals) :
    AllSteps (assignStep prototype parse) (Lens parse) (.start file) args ↔
      AllSteps (assignStep prototype parse) (fun s pathEquals _ ↦ Tame prototype parse s pathEquals)
        (.start file) args := by
  refine allSteps_congr_of_forall_mem (I := fun s ↦ ∃ v, s.config = ofJson v ∧ AllFinite v) ?_ ?_
    ⟨_, rfl, allFinite_start hfile⟩ hnamed
  · rintro s pathEquals s' ⟨v, hs, hv⟩ hnamed htame hstep
    obtain ⟨-, w, -, hw, hfinite, -⟩ := assignStep_tame hs hv hnamed htame hstep
    exact ⟨w, hw, hfinite⟩
  · rintro s pathEquals s' ⟨v, hs, hv⟩ hnamed hstep
    exact lens_iff_tame hs hv hnamed hstep

/-- A tame run makes its assignments one after the other. -/
theorem assigned_of_run {args : List String} (hnamed : ∀ pathEquals ∈ args, Named parse pathEquals)
    (hs : s.config = ofJson v) (hv : AllFinite v)
    (htame : AllSteps (assignStep prototype parse)
      (fun s pathEquals _ ↦ Tame prototype parse s pathEquals) s args)
    (hrun : run (assignStep prototype parse) s args = some t) :
    ∃ assigns w, args.mapM (parseAssign parse) = some assigns ∧ t.config = ofJson w ∧
      AllFinite w ∧ Assigned arrayIndex? v assigns w := by
  induction args generalizing s v with
  | nil =>
    obtain rfl := Option.some.inj hrun
    exact ⟨[], v, rfl, hs, hv, Assigned.nil v⟩
  | cons pathEquals args ih =>
    obtain ⟨hfirst, hnamed⟩ := List.forall_mem_cons.mp hnamed
    obtain ⟨s', hstep, hrest⟩ := run_cons_eq_some.mp hrun
    obtain ⟨hnow, hlater⟩ := allSteps_cons.mp htame s' hstep
    obtain ⟨assign, w, hassign, hw, hfinite, hassigned⟩ := assignStep_tame hs hv hfirst hnow hstep
    obtain ⟨assigns, w', hassigns, hw', hfinite', hassigned'⟩ :=
      ih hnamed hw hfinite hlater hrest
    refine ⟨assign :: assigns, w', ?_, hw', hfinite', hassigned.cons hassigned'⟩
    rw [List.mapM_cons, hassign, hassigns]
    rfl

/-- An assignment that cannot be applied throws, where assignments that do not are as they should
be. -/
theorem assignStep_inapplicable {args : List String}
    (hlens : AllSteps (assignStep prototype parse) (Lens parse) s (pathEquals :: args))
    (h : Inapplicable parse s pathEquals) : assignStep prototype parse s pathEquals = none := by
  cases hstep : assignStep prototype parse s pathEquals with
  | none => rfl
  | some s' =>
    obtain ⟨assign, hassign, -⟩ := assignStep_eq_some hstep
    obtain ⟨q, hpre, hproper, w, hread, hscalar⟩ := h assign hassign
    have hassigned := (allSteps_cons.mp hlens s' hstep).1 assign hassign
    have hpassed := hassigned.passed q ⟨assign, List.mem_cons_self, hpre⟩ (by simpa using hproper)
    rw [hread] at hpassed
    exact absurd hpassed (hscalar.not_passed _)

/-- The numbers of a file are finite. Then assignments are as they should be in a run if and only if
every one of them that does not throw fits and has a value of finite numbers. Where this is so, and
the new file is put in place, or the run fails, the run does what it should. -/
theorem setJson_lenses (prototype : ArrayPrototype ν) (parse : String → Option (Json ν))
    (file : Option (Json ν)) (hfile : ∀ v ∈ file, AllFinite v) (sargs : List String)
    (hnamed : ∀ pathEquals ∈ sargs.map override, Named parse pathEquals) :
    (AllSteps (assignStep prototype parse) (Lens parse) (.start file) (sargs.map override) ↔
      AllSteps (assignStep prototype parse) (fun s pathEquals _ ↦ Tame prototype parse s pathEquals)
        (.start file) (sargs.map override)) ∧
    (AllSteps (assignStep prototype parse) (fun s pathEquals _ ↦ Tame prototype parse s pathEquals)
        (.start file) (sargs.map override) →
      ∀ writing, writing ≠ .unlinked → Lenses prototype parse file sargs writing) := by
  refine ⟨allSteps_lens_iff hfile hnamed, fun htame writing hwriting ↦ ⟨fun hsucceeds ↦ ?_, ?_⟩⟩
  · rw [setJson] at hsucceeds ⊢
    cases hrun : run (assignStep prototype parse) (.start file) (sargs.map override) with
    | none => simp [hrun] at hsucceeds
    | some t =>
      obtain ⟨assigns, w, hassigns, hw, hfinite, hassigned⟩ :=
        assigned_of_run hnamed rfl (allFinite_start hfile) htame hrun
      rw [hrun] at hsucceeds
      cases writing with
      | renamed => exact ⟨assigns, w, hassigns, by simp only [hw, toJson_ofJson hfinite], hassigned⟩
      | unlinked => exact absurd rfl hwriting
      | failed => simp at hsucceeds
  · intro before pathEquals after s hsplit hrun hinapplicable
    have hlens := (allSteps_lens_iff hfile hnamed).mpr htame
    rw [hsplit, allSteps_append] at hlens
    have hthrows := assignStep_inapplicable (hlens.2 s hrun) hinapplicable
    rw [setJson, hsplit, run_append, hrun, Option.bind_some, run, hthrows, Option.bind_none]

def methodNames : List String :=
  ["concat", "copyWithin", "fill", "find", "findIndex", "lastIndexOf", "pop", "push", "reverse",
    "shift", "unshift", "slice", "sort", "splice", "includes", "indexOf", "join", "keys", "entries",
    "values", "forEach", "filter", "flat", "flatMap", "map", "every", "some", "reduce",
    "reduceRight"]

/-- Arrays with these methods, where no length is assigned and nothing throws below a method. -/
def methods : ArrayPrototype ν where
  names := methodNames
  toLength _ := none
  throws _ _ := false
  name_ne name hname := by
    have hletters : ∀ name ∈ methodNames, name.toList.all Char.isDigit = false := by decide
    exact ne_toString (hletters name hname)

/-- Numbers without infinities. -/
instance natNumbers : Numbers ℕ where
  isFinite _ := true

/-- `JSON.parse`, of constants alone. -/
def parseConstant (text : String) : Option (Json ℕ) :=
  if text = "null" then some .null
  else if text = "true" then some (.bool true)
  else if text = "false" then some (.bool false)
  else none

/-- A member is put below an object that is made. -/
theorem setJson_lenses_member :
    Lenses methods parseConstant (some (.obj [("a", .obj [("b", .num 5)])])) ["a.c.d=true"]
      .renamed := by
  have hfile : ∀ v ∈ some (Json.obj [("a", .obj [("b", .num 5)])]), AllFinite v := by
    rintro v ⟨⟩
    rfl
  refine (setJson_lenses methods parseConstant _ hfile _ (by decide)).2 ?_ .renamed (by decide)
  have hparse : parseAssign parseConstant "a.c.d=true" = some (["a", "c", "d"], .bool true) := rfl
  refine allSteps_cons.mpr fun s hstep ↦ ⟨fun assign hassign ↦ ?_, trivial⟩
  obtain rfl := Option.some.inj (hparse.symm.trans hassign)
  exact ⟨rfl, by decide⟩

/-- Nothing comes of an assignment below a number. -/
theorem not_setJson_lenses :
    ¬ Lenses methods parseConstant (some (.obj [("a", .num 5)])) ["a.b=null"] .renamed := by
  intro h
  have hparse : parseAssign parseConstant "a.b=null" = some (["a", "b"], .null) := rfl
  have hstep : assignStep methods parseConstant (.start (some (.obj [("a", .num 5)])))
      "a.b=null" = some ⟨.object none [("a", .num 5)], ["a.b=null"]⟩ := by
    rw [assignStep, hparse]
    rfl
  have hrun : setJson methods parseConstant (some (.obj [("a", .num 5)])) ["a.b=null"] .renamed =
      ⟨true, some (.obj [("a", .num 5)])⟩ := by
    simp [setJson, run, override, hstep, toJson, toMembers]
  have hassigned := h.assigned (by rw [hrun])
  rw [hrun] at hassigned
  obtain ⟨assigns, config, hassigns, hfile, hassigned⟩ := hassigned
  obtain rfl : [(["a", "b"], Json.null)] = assigns := Option.some.inj hassigns
  obtain rfl : Json.obj [("a", .num 5)] = config := Option.some.inj hfile
  have hread := hassigned.reads [] ["a", "b"] .null [] rfl (by simp)
  exact absurd hread (by simp [Json.read, Json.child, entry])

end Runs

end CosmicSwingset.Setup
