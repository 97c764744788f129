import CosmicSwingset.Foundation.Transition
import Mathlib.Data.List.Range
import Mathlib.Order.MinMax

/-!
# Batches that are sent more than once

A sender numbers its items upwards and sends them in batches, of which any may arrive several
times. The receiver takes an item when its number is above those of all items that have arrived
(`fresh`). If no batch arrives for the first time before those ahead of it have arrived, batches
without items apart, then whatever comes again the receiver takes the batches up to the last one,
each once and in order (`fresh_flatMap`).
-/

set_option autoImplicit false
set_option relaxedAutoImplicit false

namespace CosmicSwingset.Foundation

variable {α β : Type*} [LinearOrder β] (key : α → β)

/-- The items of a list above all before them and all that were seen. -/
def fresh (seen : List α) : List α → List α
  | [] => []
  | a :: as =>
    if ∀ b ∈ seen, key b < key a then a :: fresh (seen ++ [a]) as else fresh (seen ++ [a]) as

variable {key} {seen : List α}

theorem fresh_append (as bs : List α) :
    fresh key seen (as ++ bs) = fresh key seen as ++ fresh key (seen ++ as) bs := by
  induction as generalizing seen with
  | nil => rw [List.nil_append, List.append_nil, fresh, List.nil_append]
  | cons a as ih =>
    have hseen : seen ++ a :: as = seen ++ [a] ++ as := by simp
    rw [List.cons_append, fresh, fresh, ih, hseen]
    split_ifs <;> rfl

/-- What is taken ascends, above all that were seen. -/
theorem fresh_ascending (as : List α) :
    (fresh key seen as).Pairwise (fun a b ↦ key a < key b) ∧
      ∀ b ∈ seen, ∀ a ∈ fresh key seen as, key b < key a := by
  induction as generalizing seen with
  | nil => exact ⟨List.Pairwise.nil, fun _ _ _ h ↦ absurd h List.not_mem_nil⟩
  | cons a as ih =>
    obtain ⟨hrest, habove⟩ := @ih (seen ++ [a])
    have hseen : ∀ b ∈ seen, ∀ other ∈ fresh key (seen ++ [a]) as, key b < key other :=
      fun b hb ↦ habove b (List.mem_append_left _ hb)
    rw [fresh]
    split_ifs with ha
    · refine ⟨List.pairwise_cons.mpr ⟨habove a (by simp), hrest⟩, fun b hb other hother ↦ ?_⟩
      rcases List.mem_cons.mp hother with rfl | hmem
      · exact ha b hb
      · exact hseen b hb other hmem
    · exact ⟨hrest, hseen⟩

/-- Ascending items above all that were seen are all taken. -/
theorem fresh_of_ascending {as : List α} (habove : ∀ b ∈ seen, ∀ a ∈ as, key b < key a)
    (hascending : as.Pairwise fun a b ↦ key a < key b) : fresh key seen as = as := by
  induction as generalizing seen with
  | nil => rfl
  | cons a as ih =>
    obtain ⟨hfirst, hrest⟩ := List.pairwise_cons.mp hascending
    rw [fresh, if_pos fun b hb ↦ habove b hb a List.mem_cons_self, ih ?_ hrest]
    intro b hb other hother
    rcases List.mem_append.mp hb with hold | hlast
    · exact habove b hold other (List.mem_cons_of_mem a hother)
    · rw [List.mem_singleton.mp hlast]
      exact hfirst other hother

/-- None of the items that were seen is taken again. -/
theorem fresh_of_subset {as : List α} (h : as ⊆ seen) : fresh key seen as = [] := by
  induction as generalizing seen with
  | nil => rfl
  | cons a as ih =>
    obtain ⟨ha, has⟩ := List.cons_subset.mp h
    rw [fresh, if_neg fun habove ↦ lt_irrefl _ (habove a ha)]
    exact ih (List.subset_append_of_subset_left [a] has)

/-! ### Batches -/

/-- One above the highest number in a list, 0 for the empty list. -/
def width (log : List ℕ) : ℕ := log.foldr (fun i w ↦ max (i + 1) w) 0

theorem width_concat (log : List ℕ) (i : ℕ) : width (log ++ [i]) = max (width log) (i + 1) := by
  induction log with
  | nil => simp [width]
  | cons j log ih =>
    change max (j + 1) (width (log ++ [i])) = max (max (j + 1) (width log)) (i + 1)
    rw [ih, max_assoc]

theorem lt_width {log : List ℕ} {i : ℕ} (h : i ∈ log) : i < width log := by
  induction log with
  | nil => exact absurd h List.not_mem_nil
  | cons j log ih =>
    change i < max (j + 1) (width log)
    rcases List.mem_cons.mp h with rfl | hrest
    · exact lt_max_of_lt_left (Nat.lt_succ_self i)
    · exact lt_max_of_lt_right (ih hrest)

theorem exists_le_of_lt_width {log : List ℕ} {i : ℕ} (h : i < width log) : ∃ j ∈ log, i ≤ j := by
  induction log with
  | nil => exact absurd h (Nat.not_lt_zero i)
  | cons j log ih =>
    change i < max (j + 1) (width log) at h
    rcases lt_max_iff.mp h with hfirst | hrest
    · exact ⟨j, List.mem_cons_self, Nat.le_of_lt_succ hfirst⟩
    · obtain ⟨k, hk, hle⟩ := ih hrest
      exact ⟨k, List.mem_cons_of_mem j hk, hle⟩

variable {batch : ℕ → List α}

/-- Batches of ascending items, all of them above those of the batches before. -/
structure AscendingBatches (key : α → β) (batch : ℕ → List α) : Prop where
  within : ∀ i, (batch i).Pairwise fun a b ↦ key a < key b
  across : ∀ i j, i < j → ∀ a ∈ batch i, ∀ b ∈ batch j, key a < key b

/-- Every batch ahead of batch `i` that is not empty is in the list. -/
def Ahead (batch : ℕ → List α) (log : List ℕ) (i : ℕ) : Prop :=
  ∀ j < i, batch j = [] ∨ j ∈ log

/-- A batch at or below one that has arrived has itself arrived, unless it is empty. -/
theorem Ahead.arrived {log : List ℕ} (h : Justified (Ahead batch) log) {i : ℕ}
    (hi : i < width log) : batch i = [] ∨ i ∈ log := by
  obtain ⟨j, hj, hle⟩ := exists_le_of_lt_width hi
  rcases hle.eq_or_lt with rfl | hlt
  · exact Or.inr hj
  · obtain ⟨before, after, hsplit⟩ := List.append_of_mem hj
    refine (h before j after hsplit i hlt).imp id fun hbefore ↦ ?_
    rw [hsplit]
    exact List.mem_append_left _ hbefore

/-- Batches without items add nothing. -/
theorem flatMap_range_of_empty {n m : ℕ} (hle : n ≤ m)
    (hempty : ∀ j, n ≤ j → j < m → batch j = []) :
    (List.range m).flatMap batch = (List.range n).flatMap batch := by
  induction m, hle using Nat.le_induction with
  | base => rfl
  | succ m hle ih =>
    rw [List.range_succ, List.flatMap_append, ih fun j hj hlt ↦ hempty j hj (Nat.lt_succ_of_lt hlt)]
    simp [hempty m hle (Nat.lt_succ_self m)]

/-- However often batches come again, the receiver takes each batch up to the last, once and in
order. -/
theorem fresh_flatMap (hascending : AscendingBatches key batch) {log : List ℕ}
    (h : Justified (Ahead batch) log) :
    fresh key [] (log.flatMap batch) = (List.range (width log)).flatMap batch := by
  induction log using List.reverseRecOn with
  | nil => rfl
  | append_singleton log i ih =>
    obtain ⟨hbefore, hahead⟩ := justified_concat_iff.mp h
    rw [List.flatMap_append, fresh_append, ih hbefore, width_concat, List.nil_append]
    have hbatch : [i].flatMap batch = batch i := by simp
    rw [hbatch]
    by_cases hi : i < width log
    · -- a batch that comes again
      have hseen : batch i ⊆ log.flatMap batch := by
        rcases Ahead.arrived hbefore hi with hnil | hmem
        · rw [hnil]
          exact List.nil_subset _
        · exact fun a ha ↦ List.mem_flatMap.mpr ⟨i, hmem, ha⟩
      rw [fresh_of_subset hseen, List.append_nil, max_eq_left hi]
    · -- the first batch beyond those that have come
      have hlower : ∀ j ∈ log, j < i := fun j hj ↦ (lt_width hj).trans_le (not_lt.mp hi)
      have habove : ∀ b ∈ log.flatMap batch, ∀ a ∈ batch i, key b < key a := by
        intro b hb a ha
        obtain ⟨j, hj, hbj⟩ := List.mem_flatMap.mp hb
        exact hascending.across j i (hlower j hj) b hbj a ha
      have hskipped : ∀ j, width log ≤ j → j < i → batch j = [] := fun j hj hlt ↦
        (hahead j hlt).resolve_right fun hmem ↦ absurd (lt_width hmem) (not_lt.mpr hj)
      rw [fresh_of_ascending habove (hascending.within i),
        max_eq_right ((not_lt.mp hi).trans (Nat.le_succ i)), List.range_succ, List.flatMap_append,
        flatMap_range_of_empty (not_lt.mp hi) hskipped, hbatch]

/-- The first batch comes twice, the second is empty. -/
example : fresh id [] ([0, 0, 2, 0].flatMap fun i ↦ [[1, 2], [], [3]].getD i []) = [1, 2, 3] := by
  decide

end CosmicSwingset.Foundation
