import CosmicSwingset.Foundation.SeparatedPath
import Mathlib.Tactic.Common

/-!
# Numbered names

A name is made unique by a separator and a number in digits of some base up to sixteen. The digits
can be read back (`toDigits_injective`) and none of them is the separator, so the last separator is
the one before the number, whatever the name is (`numbered_inj`).
-/

set_option autoImplicit false
set_option relaxedAutoImplicit false

namespace CosmicSwingset.Foundation

section Digits

variable {b : ℕ}

theorem digitChar_inj {m n : ℕ} (hm : m < 16) (hn : n < 16) (h : m.digitChar = n.digitChar) :
    m = n := by
  have hall : ∀ m < 16, ∀ n < 16, Nat.digitChar m = Nat.digitChar n → m = n := by decide
  exact hall m hm n hn h

theorem mem_toDigits (hb : 1 < b) {n : ℕ} {c : Char} (h : c ∈ Nat.toDigits b n) :
    ∃ d < b, c = d.digitChar := by
  induction n using Nat.strongRecOn with
  | ind n ih =>
    rw [Nat.toDigits_eq_if hb] at h
    split_ifs at h with hn
    · exact ⟨n, hn, List.mem_singleton.mp h⟩
    · rcases List.mem_append.mp h with hinit | hlast
      · exact ih (n / b) (Nat.div_lt_self (by omega) hb) hinit
      · exact ⟨n % b, Nat.mod_lt n (by omega), List.mem_singleton.mp hlast⟩

theorem toDigits_injective (hb : 1 < b) (hb' : b ≤ 16) : Function.Injective (Nat.toDigits b) := by
  intro m
  induction m using Nat.strongRecOn with
  | ind m ih =>
    intro n h
    rw [Nat.toDigits_eq_if hb, Nat.toDigits_eq_if (n := n) hb] at h
    have hinit : ∀ k, Nat.toDigits b k ≠ [] := fun _ ↦ Nat.toDigits_ne_nil
    split_ifs at h with hm hn hn
    · exact digitChar_inj (by omega) (by omega) (List.singleton_inj.mp h)
    · exact absurd (List.append_eq_singleton_iff.mp h.symm) (by simp [hinit])
    · exact absurd (List.append_eq_singleton_iff.mp h) (by simp [hinit])
    · obtain ⟨hdiv, hmod⟩ := List.append_inj' h rfl
      have hquotient : m / b = n / b := ih (m / b) (Nat.div_lt_self (by omega) hb) hdiv
      have hbound : ∀ k, k % b < 16 := fun k ↦
        Nat.lt_of_lt_of_le (Nat.mod_lt k (Nat.zero_lt_of_lt hb)) hb'
      have hremainder : m % b = n % b :=
        digitChar_inj (hbound m) (hbound n) (List.singleton_inj.mp hmod)
      rw [← Nat.div_add_mod m b, hquotient, hremainder, Nat.div_add_mod]

end Digits

/-- The name, the separator, and the number. -/
def numbered (sep : Char) (b : ℕ) (name : String) (n : ℕ) : String :=
  name ++ String.singleton sep ++ String.ofList (Nat.toDigits b n)

theorem numbered_inj {sep : Char} {b : ℕ} (hb : 1 < b) (hb' : b ≤ 16)
    (hsep : ∀ d < b, d.digitChar ≠ sep) {name name' : String} {n n' : ℕ} :
    numbered sep b name n = numbered sep b name' n' ↔ name = name' ∧ n = n' := by
  have hdigits : ∀ k, sep ∉ Nat.toDigits b k := by
    intro k hmem
    obtain ⟨d, hd, hchar⟩ := mem_toDigits hb hmem
    exact hsep d hd hchar.symm
  constructor
  · intro h
    have hchars := congrArg String.toList h
    simp only [numbered, String.toList_append, String.toList_singleton, String.toList_ofList,
      List.append_assoc, List.singleton_append] at hchars
    obtain ⟨hname, hnumber⟩ := (append_cons_inj sep (hdigits n) (hdigits n')).mp hchars
    exact ⟨String.toList_inj.mp hname, toDigits_injective hb hb' hnumber⟩
  · rintro ⟨rfl, rfl⟩
    rfl

end CosmicSwingset.Foundation
