import Mathlib.Data.List.Induction
import Mathlib.Data.List.Nodup
import CosmicSwingset.Foundation.OrderedMap

/-!
# Grouping a list by keys

A list is split into one list for each key and put together again, group after group. The order
within a group is that of the list (`filter_flatMap_of_key`); across groups it is that of the keys,
so the list comes back as it was exactly when it was sorted by them (`eq_of_filter_eq`). The keys of
a map that is filled from a list come in the order in which they are first seen (`firstSeen`).
-/

set_option autoImplicit false
set_option relaxedAutoImplicit false

namespace CosmicSwingset.Foundation

variable {α κ : Type*} [DecidableEq κ]

/-- The keys, each where it occurs first. -/
def firstSeen (keys : List κ) : List κ :=
  keys.foldl (fun seen key ↦ if key ∈ seen then seen else seen ++ [key]) []

@[simp] theorem firstSeen_nil : firstSeen ([] : List κ) = [] := rfl

theorem firstSeen_append_singleton (keys : List κ) (key : κ) :
    firstSeen (keys ++ [key]) =
      if key ∈ firstSeen keys then firstSeen keys else firstSeen keys ++ [key] := by
  rw [firstSeen, List.foldl_append]
  rfl

theorem mem_firstSeen {keys : List κ} {key : κ} : key ∈ firstSeen keys ↔ key ∈ keys := by
  induction keys using List.reverseRecOn with
  | nil => simp
  | append_singleton keys last ih =>
    rw [firstSeen_append_singleton]
    by_cases hlast : last ∈ firstSeen keys
    · rw [if_pos hlast, ih, List.mem_append, List.mem_singleton]
      refine ⟨Or.inl, fun h ↦ h.elim id fun heq ↦ ?_⟩
      exact heq ▸ ih.mp (heq ▸ hlast)
    · rw [if_neg hlast, List.mem_append, List.mem_append, ih]

theorem nodup_firstSeen (keys : List κ) : (firstSeen keys).Nodup := by
  induction keys using List.reverseRecOn with
  | nil => exact List.nodup_nil
  | append_singleton keys last ih =>
    rw [firstSeen_append_singleton]
    split_ifs with hlast
    · exact ih
    · exact ih.append (List.nodup_singleton last) (by simpa using hlast)

/-- Keys that are all different are in their order already. -/
theorem firstSeen_eq_self {keys : List κ} (h : keys.Nodup) : firstSeen keys = keys := by
  induction keys using List.reverseRecOn with
  | nil => rfl
  | append_singleton keys last ih =>
    obtain ⟨hkeys, -, hdisjoint⟩ := List.nodup_append.mp h
    have hlast : last ∉ keys := fun hmem ↦ hdisjoint last hmem last (List.mem_singleton_self _) rfl
    rw [firstSeen_append_singleton, if_neg (mt mem_firstSeen.mp hlast), ih hkeys]

/-- One key of a list of groups selects its group. -/
theorem filter_flatMap_of_key {key : α → κ} {group : κ → List α} {keys : List κ}
    (hnodup : keys.Nodup) (hkey : ∀ k, ∀ a ∈ group k, key a = k) (k : κ) :
    (keys.flatMap group).filter (fun a ↦ key a = k) = if k ∈ keys then group k else [] := by
  induction keys with
  | nil => simp
  | cons first keys ih =>
    obtain ⟨hfirst, hnodup'⟩ := List.nodup_cons.mp hnodup
    rw [List.flatMap_cons, List.filter_append, ih hnodup']
    by_cases hk : k = first
    · have hall : (group first).filter (fun a ↦ key a = k) = group first :=
        List.filter_eq_self.mpr fun a ha ↦ decide_eq_true ((hkey first a ha).trans hk.symm)
      rw [hall, hk, if_neg hfirst, if_pos List.mem_cons_self, List.append_nil]
    · have hnone : (group first).filter (fun a ↦ key a = k) = [] := by
        refine List.filter_eq_nil_iff.mpr fun a ha hak ↦ hk ?_
        exact (of_decide_eq_true hak).symm.trans (hkey first a ha)
      rw [hnone, List.nil_append]
      simp [hk]

theorem mem_iff_of_filter_eq {key : α → κ} {l l' : List α}
    (hfilter : ∀ k, l.filter (fun a ↦ key a = k) = l'.filter fun a ↦ key a = k) (a : α) :
    a ∈ l ↔ a ∈ l' := by
  have hmem : a ∈ l.filter (fun b ↦ key b = key a) ↔ a ∈ l'.filter fun b ↦ key b = key a := by
    rw [hfilter]
  simpa using hmem

/-- A list that is sorted by its keys is determined by its groups. -/
theorem eq_of_filter_eq (key : α → κ) (rank : κ → ℕ) {l l' : List α}
    (hrank : ∀ a ∈ l, ∀ b ∈ l, rank (key a) = rank (key b) → key a = key b)
    (hl : l.Pairwise fun a b ↦ rank (key a) ≤ rank (key b))
    (hl' : l'.Pairwise fun a b ↦ rank (key a) ≤ rank (key b))
    (hfilter : ∀ k, l.filter (fun a ↦ key a = k) = l'.filter fun a ↦ key a = k) : l = l' := by
  induction l generalizing l' with
  | nil =>
    refine (List.eq_nil_iff_forall_not_mem.mpr fun a ha ↦ ?_).symm
    exact List.not_mem_nil ((mem_iff_of_filter_eq hfilter a).mpr ha)
  | cons a l ih =>
    have hmem := mem_iff_of_filter_eq hfilter
    match l' with
    | [] => exact absurd ((hmem a).mp List.mem_cons_self) List.not_mem_nil
    | b :: l' =>
      have hb : b ∈ a :: l := (hmem b).mpr List.mem_cons_self
      -- both heads have the smallest rank, so they are of one group, and its first element
      have hab : rank (key a) ≤ rank (key b) := by
        rcases List.mem_cons.mp hb with rfl | hb'
        · exact Nat.le_refl _
        · exact (List.pairwise_cons.mp hl).1 b hb'
      have hba : rank (key b) ≤ rank (key a) := by
        rcases List.mem_cons.mp ((hmem a).mp List.mem_cons_self) with rfl | ha'
        · exact Nat.le_refl _
        · exact (List.pairwise_cons.mp hl').1 a ha'
      have hkey : key a = key b := hrank a List.mem_cons_self b hb (Nat.le_antisymm hab hba)
      have hhead : a = b := by
        have hgroup := hfilter (key a)
        rw [List.filter_cons_of_pos (by simp), List.filter_cons_of_pos (by simp [hkey])] at hgroup
        exact (List.cons.inj hgroup).1
      subst hhead
      have htail : ∀ k, l.filter (fun c ↦ key c = k) = l'.filter fun c ↦ key c = k := by
        intro k
        have hgroup := hfilter k
        by_cases hk : key a = k
        · rw [List.filter_cons_of_pos (by simp [hk]), List.filter_cons_of_pos (by simp [hk])]
            at hgroup
          exact (List.cons.inj hgroup).2
        · rwa [List.filter_cons_of_neg (by simp [hk]), List.filter_cons_of_neg (by simp [hk])]
            at hgroup
      rw [ih (fun c hc d hd ↦ hrank c (List.mem_cons_of_mem _ hc) d (List.mem_cons_of_mem _ hd))
        (List.pairwise_cons.mp hl).2 (List.pairwise_cons.mp hl').2 htail]

/-- Groups in the order of their keys are sorted by it. -/
theorem pairwise_flatMap_idxOf {key : α → κ} {group : κ → List α} {keys : List κ}
    (hnodup : keys.Nodup) (hkey : ∀ k, ∀ a ∈ group k, key a = k) :
    (keys.flatMap group).Pairwise fun a b ↦ keys.idxOf (key a) ≤ keys.idxOf (key b) := by
  rw [List.pairwise_flatMap]
  constructor
  · intro k _
    refine List.pairwise_of_forall_mem_list fun a ha b hb ↦ Nat.le_of_eq ?_
    rw [hkey k a ha, hkey k b hb]
  · rw [List.pairwise_iff_getElem]
    intro i j hi hj hij a ha b hb
    rw [hkey _ a ha, hkey _ b hb, hnodup.idxOf_getElem, hnodup.idxOf_getElem]
    exact Nat.le_of_lt hij

end CosmicSwingset.Foundation
