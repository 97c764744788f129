import Mathlib.Data.List.Nodup

/-!
# Maps in insertion order

A JavaScript `Map`: its entries are iterated over in the order in which their keys were first set,
and no key occurs twice, which the structure carries as a proof. `get_set` is what callers use, and
`mem_entries_set` and `mem_entries_delete` where they reason about all entries of a map.
-/

set_option autoImplicit false
set_option relaxedAutoImplicit false

namespace CosmicSwingset.Foundation

structure OrderedMap (κ ν : Type*) where
  entries : List (κ × ν)
  distinct : (entries.map Prod.fst).Nodup

namespace OrderedMap

variable {κ ν : Type*} [DecidableEq κ]

def empty : OrderedMap κ ν := ⟨[], List.nodup_nil⟩

def get (m : OrderedMap κ ν) (key : κ) : Option ν :=
  (m.entries.find? fun entry ↦ entry.1 = key).map Prod.snd

/-- The entries with the value at a key replaced, or a new entry at the end. -/
def setEntries (entries : List (κ × ν)) (key : κ) (value : ν) : List (κ × ν) :=
  match entries with
  | [] => [(key, value)]
  | entry :: rest =>
    if entry.1 = key then (key, value) :: rest else entry :: setEntries rest key value

theorem keys_setEntries (entries : List (κ × ν)) (key : κ) (value : ν) :
    (setEntries entries key value).map Prod.fst =
      if key ∈ entries.map Prod.fst then entries.map Prod.fst
      else entries.map Prod.fst ++ [key] := by
  induction entries with
  | nil => rfl
  | cons entry rest ih =>
    by_cases hkey : entry.1 = key
    · simp [setEntries, hkey]
    · by_cases hrest : key ∈ rest.map Prod.fst <;>
        simp_all [setEntries, Ne.symm hkey]

def set (m : OrderedMap κ ν) (key : κ) (value : ν) : OrderedMap κ ν where
  entries := setEntries m.entries key value
  distinct := by
    rw [keys_setEntries]
    split_ifs with hkey
    · exact m.distinct
    · rw [List.nodup_append]
      refine ⟨m.distinct, List.nodup_singleton key, ?_⟩
      intro other hother new hnew
      rw [List.mem_singleton.mp hnew]
      exact fun heq ↦ hkey (heq ▸ hother)

theorem mem_entries_of_get {m : OrderedMap κ ν} {key : κ} {value : ν}
    (h : m.get key = some value) : (key, value) ∈ m.entries := by
  obtain ⟨entry, hfind, rfl⟩ := Option.map_eq_some_iff.mp h
  have hkey : entry.1 = key := by simpa using List.find?_some hfind
  rw [← hkey]
  exact List.mem_of_find?_eq_some hfind

@[simp] theorem get_empty (key : κ) : (empty : OrderedMap κ ν).get key = none := rfl

theorem find_setEntries (entries : List (κ × ν)) (key key' : κ) (value : ν) :
    ((setEntries entries key value).find? fun entry ↦ entry.1 = key').map Prod.snd =
      if key' = key then some value
      else (entries.find? fun entry ↦ entry.1 = key').map Prod.snd := by
  induction entries with
  | nil =>
    by_cases hkey : key' = key
    · simp [setEntries, hkey]
    · simp [setEntries, hkey, Ne.symm hkey]
  | cons entry rest ih =>
    simp only [setEntries] at ih ⊢
    by_cases hentry : entry.1 = key
    · rw [if_pos hentry]
      by_cases hkey : key' = key
      · simp [hkey]
      · simp [hkey, Ne.symm hkey, hentry]
    · rw [if_neg hentry, List.find?_cons, List.find?_cons]
      by_cases hkey' : entry.1 = key'
      · have hne : key' ≠ key := fun heq ↦ hentry (hkey'.trans heq)
        simp [hkey', hne]
      · simp only [hkey', decide_false]
        exact ih

theorem get_set (m : OrderedMap κ ν) (key key' : κ) (value : ν) :
    (m.set key value).get key' = if key' = key then some value else m.get key' :=
  find_setEntries m.entries key key' value

/-! ### Keys and entries -/

def keys (m : OrderedMap κ ν) : List κ := m.entries.map Prod.fst

omit [DecidableEq κ] in
theorem mem_keys {m : OrderedMap κ ν} {key : κ} :
    key ∈ m.keys ↔ ∃ value, (key, value) ∈ m.entries := by
  simp [keys]

omit [DecidableEq κ] in
/-- Two entries under one key are one entry. -/
theorem value_unique {m : OrderedMap κ ν} {key : κ} {value value' : ν}
    (h : (key, value) ∈ m.entries) (h' : (key, value') ∈ m.entries) : value = value' := by
  have hpair : ((key, value) : κ × ν) = (key, value') :=
    List.inj_on_of_nodup_map m.distinct h h' rfl
  exact (Prod.mk.inj hpair).2

theorem get_of_mem_entries {m : OrderedMap κ ν} {key : κ} {value : ν}
    (h : (key, value) ∈ m.entries) : m.get key = some value := by
  cases hget : m.get key with
  | some value' => rw [value_unique h (mem_entries_of_get hget)]
  | none =>
    have hnone : (m.entries.find? fun entry ↦ entry.1 = key) = none :=
      Option.map_eq_none_iff.mp hget
    have hno := List.find?_eq_none.mp hnone (key, value) h
    simp at hno

theorem mem_entries_iff_get {m : OrderedMap κ ν} {key : κ} {value : ν} :
    (key, value) ∈ m.entries ↔ m.get key = some value :=
  ⟨get_of_mem_entries, mem_entries_of_get⟩

theorem get_eq_none_of_not_mem_keys {m : OrderedMap κ ν} {key : κ} (h : key ∉ m.keys) :
    m.get key = none := by
  refine Option.eq_none_iff_forall_ne_some.mpr fun value hget ↦ h ?_
  exact mem_keys.mpr ⟨value, mem_entries_of_get hget⟩

theorem keys_set (m : OrderedMap κ ν) (key : κ) (value : ν) :
    (m.set key value).keys = if key ∈ m.keys then m.keys else m.keys ++ [key] :=
  keys_setEntries m.entries key value

omit [DecidableEq κ] in
@[simp] theorem mem_entries_empty {entry : κ × ν} :
    entry ∈ (empty : OrderedMap κ ν).entries ↔ False := by
  simp [empty]

theorem mem_entries_set {m : OrderedMap κ ν} {key key' : κ} {value value' : ν} :
    (key', value') ∈ (m.set key value).entries ↔
      key' = key ∧ value' = value ∨ key' ≠ key ∧ (key', value') ∈ m.entries := by
  rw [mem_entries_iff_get, mem_entries_iff_get, get_set]
  by_cases hkey : key' = key
  · simp [hkey, eq_comm]
  · simp [hkey]

/-- `Map.prototype.delete`; a key that is not there is no error. -/
def delete (m : OrderedMap κ ν) (key : κ) : OrderedMap κ ν where
  entries := m.entries.filter fun entry ↦ entry.1 ≠ key
  distinct := (List.filter_sublist.map Prod.fst).nodup m.distinct

theorem mem_entries_delete {m : OrderedMap κ ν} {key key' : κ} {value' : ν} :
    (key', value') ∈ (m.delete key).entries ↔ key' ≠ key ∧ (key', value') ∈ m.entries := by
  simp [delete, and_comm]

theorem get_delete (m : OrderedMap κ ν) (key key' : κ) :
    (m.delete key).get key' = if key' = key then none else m.get key' := by
  by_cases hkey : key' = key
  · rw [if_pos hkey]
    refine Option.eq_none_iff_forall_ne_some.mpr fun value hget ↦ ?_
    exact (mem_entries_delete.mp (mem_entries_of_get hget)).1 hkey
  · rw [if_neg hkey]
    ext value
    rw [← mem_entries_iff_get, ← mem_entries_iff_get, mem_entries_delete]
    exact and_iff_right hkey

/-! ### Setting many entries -/

theorem get_foldl_set {m : OrderedMap κ ν} {entries : List (κ × ν)} {key : κ} {value : ν}
    (h : (entries.foldl (fun m entry ↦ m.set entry.1 entry.2) m).get key = some value) :
    (key, value) ∈ entries ∨ m.get key = some value := by
  induction entries generalizing m with
  | nil => exact Or.inr h
  | cons entry entries ih =>
    rcases ih h with hmem | hset
    · exact Or.inl (List.mem_cons_of_mem _ hmem)
    · rw [get_set] at hset
      split_ifs at hset with hkey
      · rw [hkey, ← Option.some.inj hset]
        exact Or.inl List.mem_cons_self
      · exact Or.inr hset

/-- The value of a key to which no other value is set. -/
theorem get_foldl_set_of_forall {m : OrderedMap κ ν} {entries : List (κ × ν)} {key : κ} {value : ν}
    (hsame : ∀ entry ∈ entries, entry.1 = key → entry.2 = value)
    (h : (key, value) ∈ entries ∨ m.get key = some value) :
    (entries.foldl (fun m entry ↦ m.set entry.1 entry.2) m).get key = some value := by
  induction entries generalizing m with
  | nil => exact h.resolve_left List.not_mem_nil
  | cons entry entries ih =>
    refine ih (fun other hother ↦ hsame other (List.mem_cons_of_mem _ hother)) ?_
    rw [get_set]
    by_cases hkey : key = entry.1
    · rw [if_pos hkey, hsame entry List.mem_cons_self hkey.symm]
      exact Or.inr rfl
    · rw [if_neg hkey]
      refine h.imp_left fun hmem ↦ (List.mem_cons.mp hmem).resolve_left fun heq ↦ hkey ?_
      rw [← heq]

end OrderedMap

end CosmicSwingset.Foundation
