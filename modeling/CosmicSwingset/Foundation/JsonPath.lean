import CosmicSwingset.Foundation.Json
import CosmicSwingset.Foundation.OrderedMap

/-!
# Assignments to paths of a JSON value

A path goes from a value to a part of it, through the members of objects and, where a segment is an
index, the elements of arrays. `read` is what a value has at a path. `assign` puts a value there; it
makes an object of what is missing on the way, and an array may grow by one element. It is meant for
paths that are `Open`: those which go through objects, and through arrays at an index up to the
length.

`Assigned` says what a list of assignments has made of a value, as one would of lenses: a path that
no later one overlaps has the value it was assigned, what no path overlaps is as it was, and on the
way to a path there are the objects and arrays that were there, or new objects. One assignment to an
open path is such (`assigned_assign`), and lists of them compose (`Assigned.cons`).

Which segments are indices is a parameter. An object is the list of its members, and of two members
with one key the first counts.
-/

set_option autoImplicit false
set_option relaxedAutoImplicit false

namespace CosmicSwingset.Foundation

universe u v w

/-! ### Entries -/

section Entries

variable {α : Type v} {β : Type w}

/-- The value of an entry. -/
def entry (entries : List (String × α)) (key : String) : Option α :=
  (entries.find? fun e ↦ e.1 = key).map Prod.snd

@[simp] theorem entry_nil (key : String) : entry ([] : List (String × α)) key = none := rfl

theorem entry_cons (key key' : String) (a : α) (entries : List (String × α)) :
    entry ((key, a) :: entries) key' = if key = key' then some a else entry entries key' := by
  rw [entry, List.find?_cons]
  by_cases h : key = key'
  · simp [h]
  · simp [h, entry]

theorem entry_setEntries (entries : List (String × α)) (key key' : String) (a : α) :
    entry (OrderedMap.setEntries entries key a) key' =
      if key' = key then some a else entry entries key' :=
  OrderedMap.find_setEntries entries key key' a

theorem mem_setEntries {entries : List (String × α)} {key : String} {a : α} {m : String × α}
    (h : m ∈ OrderedMap.setEntries entries key a) : m ∈ entries ∨ m = (key, a) := by
  induction entries with
  | nil => exact Or.inr (List.mem_singleton.mp h)
  | cons e entries ih =>
    rw [OrderedMap.setEntries] at h
    split_ifs at h
    · rcases List.mem_cons.mp h with rfl | hrest
      · exact Or.inr rfl
      · exact Or.inl (List.mem_cons_of_mem _ hrest)
    · rcases List.mem_cons.mp h with rfl | hrest
      · exact Or.inl List.mem_cons_self
      · exact (ih hrest).imp_left (List.mem_cons_of_mem _)

/-- The entries with a function applied to their values. -/
def mapEntries (f : α → β) (entries : List (String × α)) : List (String × β) :=
  entries.map fun e ↦ (e.1, f e.2)

theorem entry_mapEntries (f : α → β) (entries : List (String × α)) (key : String) :
    entry (mapEntries f entries) key = (entry entries key).map f := by
  induction entries with
  | nil => rfl
  | cons e entries ih =>
    obtain ⟨key', a⟩ := e
    rw [mapEntries, List.map_cons, entry_cons, entry_cons]
    split_ifs
    · rfl
    · exact ih

theorem setEntries_mapEntries (f : α → β) (entries : List (String × α)) (key : String) (a : α) :
    OrderedMap.setEntries (mapEntries f entries) key (f a) =
      mapEntries f (OrderedMap.setEntries entries key a) := by
  induction entries with
  | nil => rfl
  | cons e entries ih =>
    rw [mapEntries, List.map_cons, OrderedMap.setEntries, OrderedMap.setEntries]
    by_cases h : e.1 = key
    · rw [if_pos h, if_pos h, mapEntries, List.map_cons]
    · rw [if_neg h, if_neg h, ← mapEntries, ih, mapEntries, mapEntries, List.map_cons]

end Entries

/-! ### Paths -/

/-- One of the paths leads to the other, or on from it. -/
def Overlap (p q : List String) : Prop := p <+: q ∨ q <+: p

theorem Overlap.symm {p q : List String} (h : Overlap p q) : Overlap q p := Or.symm h

@[simp] theorem overlap_cons {segment : String} {p q : List String} :
    Overlap (segment :: p) (segment :: q) ↔ Overlap p q := by
  simp [Overlap, List.cons_prefix_cons]

namespace Json

variable {ν : Type u} (index : String → Option ℕ)

def child : Json ν → String → Option (Json ν)
  | .obj members, segment => entry members segment
  | .arr elements, segment => (index segment).bind fun i ↦ elements[i]?
  | _, _ => none

/-- What the value has at a path. -/
def read : Json ν → List String → Option (Json ν)
  | v, [] => some v
  | v, segment :: path => (child index v segment).bind fun w ↦ read w path

/-- The child, or the object that is made where there is none. -/
def childOrNew (v : Json ν) (segment : String) : Json ν := (child index v segment).getD (.obj [])

def setChild (w : Json ν) : Json ν → String → Json ν
  | .obj members, segment => .obj (OrderedMap.setEntries members segment w)
  | .arr elements, segment =>
    match index segment with
    | some i => .arr (if i < elements.length then elements.set i w else elements ++ [w])
    | none => .arr elements
  | v, _ => v

/-- The value with another one at a path. -/
def assign (w : Json ν) : Json ν → List String → Json ν
  | _, [] => w
  | v, segment :: path => setChild index (assign w (childOrNew index v segment) path) v segment

/-- The value has a child at the segment, or can be given one. -/
def Admits : Json ν → String → Prop
  | .obj _, _ => True
  | .arr elements, segment => ∃ i ∈ index segment, i ≤ elements.length
  | _, _ => False

def Open : Json ν → List String → Prop
  | _, [] => True
  | v, segment :: path => Admits index v segment ∧ Open (childOrNew index v segment) path

/-- What may become of what is at a path on the way to an assignment. -/
def Passed : Option (Json ν) → Option (Json ν) → Prop
  | none, after | some (.obj _), after => ∃ members, after = some (.obj members)
  | some (.arr _), after => ∃ elements, after = some (.arr elements)
  | _, _ => False

/-- What assignments have made of a value. -/
structure Assigned (v : Json ν) (assigns : List (List String × Json ν)) (v' : Json ν) : Prop where
  reads : ∀ before path w after, assigns = before ++ (path, w) :: after →
    (∀ a ∈ after, ¬ Overlap path a.1) → read index v' path = some w
  apart : ∀ q, (∀ a ∈ assigns, ¬ Overlap q a.1) → read index v' q = read index v q
  passed : ∀ q, (∃ a ∈ assigns, q <+: a.1) → (∀ a ∈ assigns, ¬ a.1 <+: q) →
    Passed (read index v q) (read index v' q)

/-! ### One child -/

variable {index} {v v' v'' w : Json ν} {segment segment' : String}

theorem child_setChild_self (h : Admits index v segment) :
    child index (setChild index w v segment) segment = some w := by
  cases v with
  | obj members => simp only [setChild, child, entry_setEntries, if_true]
  | arr elements =>
    obtain ⟨i, hi, hle⟩ := h
    rw [Option.mem_def] at hi
    simp only [setChild, hi, child, Option.bind_some]
    split_ifs with hlt
    · rw [List.getElem?_set_self hlt]
    · rw [Nat.le_antisymm hle (Nat.le_of_not_lt hlt), List.getElem?_concat_length]
  | null | bool | num | str => exact h.elim

theorem child_setChild_of_ne (hindex : ∀ p q i, index p = some i → index q = some i → p = q)
    (h : Admits index v segment) (hne : segment' ≠ segment) :
    child index (setChild index w v segment) segment' = child index v segment' := by
  cases v with
  | obj members => simp only [setChild, child, entry_setEntries, if_neg hne]
  | arr elements =>
    obtain ⟨i, hi, hle⟩ := h
    rw [Option.mem_def] at hi
    simp only [setChild, hi, child]
    cases hj : index segment' with
    | none => rfl
    | some j =>
      have hij : i ≠ j := by
        rintro rfl
        exact hne (hindex segment' segment i hj hi)
      rw [Option.bind_some, Option.bind_some]
      split_ifs with hlt
      · rw [List.getElem?_set_ne hij]
      · have hlength : i = elements.length := Nat.le_antisymm hle (Nat.le_of_not_lt hlt)
        rw [List.getElem?_append]
        split_ifs with hj
        · rfl
        · rw [List.getElem?_eq_none (Nat.le_of_not_lt hj), List.getElem?_eq_none]
          rw [List.length_singleton]
          omega
  | null | bool | num | str => exact h.elim

/-- An object stays one, and so does an array. -/
theorem passed_setChild (h : Admits index v segment) :
    Passed (some v) (some (setChild index w v segment)) := by
  cases v with
  | obj members => exact ⟨_, rfl⟩
  | arr elements =>
    obtain ⟨i, hi, -⟩ := h
    rw [Option.mem_def] at hi
    exact ⟨if i < elements.length then elements.set i w else elements ++ [w],
      by simp only [setChild, hi]⟩
  | null | bool | num | str => exact h.elim

theorem Passed.trans {a b c : Option (Json ν)} (h : Passed a b) (h' : Passed b c) : Passed a c := by
  rcases a with _ | (_ | _ | _ | _ | elements | members)
  case none | some.obj =>
    obtain ⟨members', rfl⟩ := h
    exact h'
  case some.arr =>
    obtain ⟨elements', rfl⟩ := h
    exact h'
  all_goals exact h.elim

/-! ### One assignment -/

theorem read_cons (v : Json ν) (segment : String) (path : List String) :
    read index v (segment :: path) = (child index v segment).bind fun w ↦ read index w path := rfl

@[simp] theorem read_new (segment : String) (path : List String) :
    read index (.obj [] : Json ν) (segment :: path) = none := rfl

/-- A path below a child, or below a new object where there is none. -/
theorem read_childOrNew {path : List String} (hpath : path ≠ []) :
    read index (childOrNew index v segment) path = read index v (segment :: path) := by
  rw [read_cons, childOrNew]
  cases child index v segment with
  | some w => rfl
  | none =>
    cases path with
    | nil => exact absurd rfl hpath
    | cons segment' path => rfl

theorem read_assign_self {path : List String} (h : Open index v path) :
    read index (assign index w v path) path = some w := by
  induction path generalizing v with
  | nil => rfl
  | cons segment path ih =>
    rw [assign, read_cons, child_setChild_self h.1, Option.bind_some, ih h.2]

theorem read_assign_of_apart (hindex : ∀ p q i, index p = some i → index q = some i → p = q)
    {path q : List String} (h : Open index v path) (hapart : ¬ Overlap q path) :
    read index (assign index w v path) q = read index v q := by
  induction path generalizing v q with
  | nil => exact absurd (Or.inr List.nil_prefix) hapart
  | cons segment path ih =>
    cases q with
    | nil => exact absurd (Or.inl List.nil_prefix) hapart
    | cons segment' q =>
      by_cases hsegment : segment' = segment
      · subst hsegment
        rw [overlap_cons] at hapart
        have hq : q ≠ [] := fun hnil ↦ hapart (Or.inl (hnil ▸ List.nil_prefix))
        rw [assign, read_cons, child_setChild_self h.1, Option.bind_some, ih h.2 hapart,
          read_childOrNew hq]
      · rw [assign, read_cons, child_setChild_of_ne hindex h.1 hsegment, read_cons]

theorem passed_assign {path q : List String} (h : Open index v path) (hpre : q <+: path)
    (hproper : ¬ path <+: q) :
    Passed (read index v q) (read index (assign index w v path) q) := by
  induction path generalizing v q with
  | nil => exact absurd List.nil_prefix hproper
  | cons segment path ih =>
    cases q with
    | nil => exact passed_setChild h.1
    | cons segment' q =>
      obtain ⟨rfl, hrest⟩ := List.cons_prefix_cons.mp hpre
      rw [List.cons_prefix_cons, not_and] at hproper
      have hpassed := ih h.2 hrest (hproper rfl)
      have hread : read index (assign index w v (segment' :: path)) (segment' :: q) =
          read index (assign index w (childOrNew index v segment') path) q := by
        rw [assign, read_cons, child_setChild_self h.1, Option.bind_some]
      rw [hread, read_cons]
      cases hchild : child index v segment' with
      | some c =>
        rw [childOrNew, hchild, Option.getD_some] at hpassed ⊢
        exact hpassed
      | none =>
        rw [childOrNew, hchild, Option.getD_none] at hpassed ⊢
        -- what is missing is made an object, as is the new one
        cases q with
        | nil => exact hpassed
        | cons segment'' q => exact hpassed

/-- An assignment to an open path is as it should be. -/
theorem assigned_assign (hindex : ∀ p q i, index p = some i → index q = some i → p = q)
    {path : List String} (h : Open index v path) :
    Assigned index v [(path, w)] (assign index w v path) where
  reads := by
    intro before path' w' after hsplit _
    obtain ⟨rfl, rfl⟩ : path = path' ∧ w = w' := by
      cases before with
      | nil => simpa using (List.cons.inj hsplit).1
      | cons a before => simpa using (List.cons.inj hsplit).2
    exact read_assign_self h
  apart q hq := read_assign_of_apart hindex h (hq (path, w) List.mem_cons_self)
  passed := by
    rintro q ⟨a, ha, hpre⟩ hproper
    obtain rfl := List.mem_singleton.mp ha
    exact passed_assign h hpre (hproper _ List.mem_cons_self)

/-! ### Lists of assignments -/

theorem Assigned.nil (v : Json ν) : Assigned index v [] v where
  reads := by simp
  apart _ _ := rfl
  passed := by simp

/-- One assignment, and then others. -/
theorem Assigned.cons {a : List String × Json ν} {assigns : List (List String × Json ν)}
    (h : Assigned index v [a] v') (h' : Assigned index v' assigns v'') :
    Assigned index v (a :: assigns) v'' where
  reads := by
    intro before path w after hsplit hlast
    cases before with
    | nil =>
      obtain ⟨rfl, rfl⟩ := List.cons.inj hsplit
      rw [h'.apart path hlast]
      exact h.reads [] path w [] rfl (by simp)
    | cons b before =>
      obtain ⟨rfl, rfl⟩ := List.cons.inj hsplit
      exact h'.reads before path w after rfl hlast
  apart q hq := by
    obtain ⟨ha, hassigns⟩ := List.forall_mem_cons.mp hq
    rw [h'.apart q hassigns, h.apart q (by simpa using ha)]
  passed := by
    intro q hsome hproper
    obtain ⟨ha, hassigns⟩ := List.forall_mem_cons.mp hproper
    by_cases hlater : ∃ a ∈ assigns, q <+: a.1
    · have hpassed := h'.passed q hlater hassigns
      by_cases hfirst : q <+: a.1
      · have hpassed' := h.passed q ⟨a, List.mem_cons_self, hfirst⟩ (by simpa using ha)
        exact hpassed'.trans hpassed
      · have hapart : ¬ Overlap q a.1 := not_or_intro hfirst ha
        rwa [h.apart q (by simpa using hapart)] at hpassed
    · have hapart : ∀ a ∈ assigns, ¬ Overlap q a.1 := by
        intro a ha
        exact not_or_intro (fun hpre ↦ hlater ⟨a, ha, hpre⟩) (hassigns a ha)
      have hfirst : q <+: a.1 := by
        obtain ⟨b, hb, hpre⟩ := hsome
        rcases List.mem_cons.mp hb with rfl | hb
        · exact hpre
        · exact absurd ⟨b, hb, hpre⟩ hlater
      rw [h'.apart q hapart]
      exact h.passed q ⟨a, List.mem_cons_self, hfirst⟩ (by simpa using ha)

end Json

end CosmicSwingset.Foundation
