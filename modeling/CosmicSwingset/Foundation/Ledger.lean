import CosmicSwingset.Foundation.OrderedMap
import Mathlib.Algebra.Order.BigOperators.Group.List
import Mathlib.Tactic.Abel

/-!
# Ledgers

A ledger is a map from accounts to balances in a commutative group. `total` is the sum of all
balances; setting a balance changes it by the difference (`total_set_of_get`), and no balance of a
ledger without negative ones is above it (`le_total`).

`move` takes an amount from one account and then gives it to another one, the balance of which it
reads again. So it does not change the total, and where the two are one account it changes nothing
(`total_move`, `get_move`).
-/

set_option autoImplicit false
set_option relaxedAutoImplicit false

namespace CosmicSwingset.Foundation

namespace OrderedMap

variable {κ M : Type*} [DecidableEq κ] [AddCommGroup M]

def total (m : OrderedMap κ M) : M := (m.entries.map Prod.snd).sum

omit [DecidableEq κ] in
@[simp] theorem total_empty : (empty : OrderedMap κ M).total = 0 := rfl

theorem sum_setEntries (entries : List (κ × M)) (key : κ) (balance : M) :
    ((setEntries entries key balance).map Prod.snd).sum =
      (entries.map Prod.snd).sum + balance -
        ((entries.find? fun entry ↦ entry.1 = key).map Prod.snd).getD 0 := by
  induction entries with
  | nil => simp [setEntries]
  | cons entry rest ih =>
    by_cases hkey : entry.1 = key
    · rw [setEntries, if_pos hkey, List.find?_cons, decide_eq_true hkey]
      simp only [List.map_cons, List.sum_cons, Option.map_some, Option.getD_some]
      abel
    · rw [setEntries, if_neg hkey, List.find?_cons, decide_eq_false hkey]
      simp only [List.map_cons, List.sum_cons, ih]
      abel

theorem total_set_of_get {m : OrderedMap κ M} {key : κ} {old : M} (h : m.get key = some old)
    (balance : M) : (m.set key balance).total = m.total + balance - old := by
  refine (sum_setEntries m.entries key balance).trans ?_
  rw [show (m.entries.find? fun entry ↦ entry.1 = key).map Prod.snd = some old from h]
  rfl

theorem total_set_of_none {m : OrderedMap κ M} {key : κ} (h : m.get key = none) (balance : M) :
    (m.set key balance).total = m.total + balance := by
  refine (sum_setEntries m.entries key balance).trans ?_
  rw [show (m.entries.find? fun entry ↦ entry.1 = key).map Prod.snd = none from h]
  exact sub_zero _

theorem le_total [PartialOrder M] [IsOrderedAddMonoid M] {m : OrderedMap κ M}
    (hnonneg : ∀ key balance, m.get key = some balance → 0 ≤ balance) {key : κ} {balance : M}
    (h : m.get key = some balance) : balance ≤ m.total := by
  refine List.single_le_sum (fun b hb ↦ ?_) balance ?_
  · obtain ⟨entry, hentry, rfl⟩ := List.mem_map.mp hb
    exact hnonneg entry.1 entry.2 (get_of_mem_entries hentry)
  · exact List.mem_map.mpr ⟨(key, balance), mem_entries_of_get h, rfl⟩

/-- The amount goes from `src` to `dst`, where each of them has a balance. -/
def move (m : OrderedMap κ M) (src dst : κ) (amount : M) : OrderedMap κ M :=
  let taken := m.set src ((m.get src).getD 0 - amount)
  taken.set dst ((taken.get dst).getD 0 + amount)

theorem get_move {m : OrderedMap κ M} {src dst : κ} {srcBal dstBal : M}
    (hsrc : m.get src = some srcBal) (hdst : m.get dst = some dstBal) (amount : M) (key : κ) :
    (m.move src dst amount).get key =
      if src = dst then m.get key
      else if key = dst then some (dstBal + amount)
      else if key = src then some (srcBal - amount)
      else m.get key := by
  simp only [move, get_set, hsrc, Option.getD_some]
  by_cases hsame : src = dst
  · subst hsame
    rw [if_pos rfl, if_pos rfl]
    split_ifs with hkey
    · rw [hkey, hsrc, Option.getD_some, sub_add_cancel]
    · rfl
  · rw [if_neg hsame, if_neg (Ne.symm hsame), hdst, Option.getD_some]

theorem total_move {m : OrderedMap κ M} {src dst : κ} {srcBal dstBal : M}
    (hsrc : m.get src = some srcBal) (hdst : m.get dst = some dstBal) (amount : M) :
    (m.move src dst amount).total = m.total := by
  have htaken : (m.set src (srcBal - amount)).get dst =
      some (if dst = src then srcBal - amount else dstBal) := by
    rw [get_set]
    split_ifs
    · rfl
    · exact hdst
  simp only [move, hsrc, Option.getD_some, htaken]
  rw [total_set_of_get htaken, total_set_of_get hsrc]
  abel

end OrderedMap

end CosmicSwingset.Foundation
