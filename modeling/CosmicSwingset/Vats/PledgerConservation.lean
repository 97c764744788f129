import CosmicSwingset.Vats.Pledger
import Mathlib.Algebra.BigOperators.Group.List.Basic
import Mathlib.Tactic.Abel

/-!
# Conservation of an account's deposits

For every assay, what the purse that `getPurse` returns holds, together with what was withdrawn,
should be what the account's deposits of that assay put in, and every deposit should be in the purse
that the account still refers to (`Conserved`).

`depositAll` tests for a purse before it awaits a new one and stores the new one whatever has
happened since, although "an account consists of unique per-assay purses". Two first deposits of one
assay make two purses, and the second replaces the first with its payment
(`replaced_not_conserved`). The account is conserved in every state of the runs in which no new
purse replaces another (`conserved_of_noReplacement`): in them the purse of an assay, once stored,
stays (`Unique`).
-/

set_option autoImplicit false
set_option relaxedAutoImplicit false

namespace CosmicSwingset.Vats

open Foundation

variable {A M : Type*} [DecidableEq A] [AddCommMonoid M]

/-- The sum of the amounts of an assay. -/
def total (moves : List (Deposit A M)) (assay : A) : M :=
  ((moves.filter (·.assay = assay)).map Deposit.amount).sum

theorem total_cons (move : Deposit A M) (moves : List (Deposit A M)) (assay : A) :
    total (move :: moves) assay =
      if move.assay = assay then move.amount + total moves assay else total moves assay := by
  by_cases hassay : move.assay = assay <;> simp [total, hassay]

namespace Account

/-- The balance of the purse that `getPurse` returns, nothing when it returns none. -/
def held (s : Account A M) (assay : A) : M :=
  match s.getPurse assay with
  | none => 0
  | some purse => s.balance purse

theorem held_of_some {s : Account A M} {assay : A} {purse : ℕ}
    (h : s.assayPurses.get assay = some purse) : s.held assay = s.balance purse := by
  rw [held, getPurse, h]

theorem held_of_none {s : Account A M} {assay : A} (h : s.assayPurses.get assay = none) :
    s.held assay = 0 := by
  rw [held, getPurse, h]

end Account

/-- The deposits of every assay are held or withdrawn, `getBalance` counts the purse that `getPurse`
returns, and every deposit is in that purse. -/
def Conserved (s : Account A M) : Prop :=
  (∀ assay, s.held assay + total s.withdrawals assay = total s.deposits assay) ∧
    (∀ assay, ∀ purse ∈ s.getPurse assay, s.balance purse ∈ s.getBalance) ∧
    ∀ deposit ∈ s.deposits, s.getPurse deposit.assay = some deposit.purse

/-- The assay of the purse that a call awaits. -/
def AccountCall.asked : AccountCall A → Option A
  | .awaitingPurse assay => some assay
  | _ => none

/-- A purse that is made finds none stored for its assay. -/
def NoReplacement (s : Account A M) (event : AccountEvent A M) (_ : Account A M) : Prop :=
  match event with
  | .madePurse i true => ∀ assay ∈ s.calls[i]?.bind AccountCall.asked, s.getPurse assay = none
  | _ => True

instance (s : Account A M) (event : AccountEvent A M) (s' : Account A M) :
    Decidable (NoReplacement s event s') :=
  match event with
  | .madePurse i true => inferInstanceAs
      (Decidable (∀ assay ∈ s.calls[i]?.bind AccountCall.asked, s.getPurse assay = none))
  | .madePurse _ false | .depositAll | .withdrawExactly | .gotAssay _ _ | .deposited _ _
  | .gotLabel _ _ | .withdrew _ _ => .isTrue trivial

instance [DecidableEq M] (s : Account (Fin 1) M) : Decidable (Conserved s) :=
  inferInstanceAs (Decidable (_ ∧ _ ∧ _))

/-- The purses of the account are different ones, and every call that is with a purse is with the
one of its assay. -/
structure Unique (s : Account A M) : Prop where
  made : ∀ assay purse, s.assayPurses.get assay = some purse → purse < s.made
  apart : ∀ assay assay' purse, s.assayPurses.get assay = some purse →
    s.assayPurses.get assay' = some purse → assay = assay'
  depositing : ∀ assay purse, AccountCall.depositing assay purse ∈ s.calls →
    s.assayPurses.get assay = some purse
  withdrawing : ∀ assay purse, AccountCall.withdrawing assay purse ∈ s.calls →
    s.assayPurses.get assay = some purse
  balanced : ∀ assay, s.held assay + total s.withdrawals assay = total s.deposits assay
  placed : ∀ deposit ∈ s.deposits, s.assayPurses.get deposit.assay = some deposit.purse

theorem unique_fresh : Unique (Account.fresh : Account A M) := by
  constructor <;> simp [Account.fresh, Account.held, Account.getPurse, total]

namespace Unique

variable {s : Account A M}

/-- A call that is with no purse, or with the one of its assay, may come or go on. -/
theorem calls (h : Unique s) {calls : List (AccountCall A)}
    (hcalls : ∀ call ∈ calls, call ∈ s.calls ∨
      (∀ assay purse, call = .depositing assay purse → s.assayPurses.get assay = some purse) ∧
      ∀ assay purse, call = .withdrawing assay purse → s.assayPurses.get assay = some purse) :
    Unique { s with calls := calls } where
  made := h.made
  apart := h.apart
  depositing := fun assay purse hmem ↦ by
    rcases hcalls _ hmem with hold | hnew
    · exact h.depositing assay purse hold
    · exact hnew.1 assay purse rfl
  withdrawing := fun assay purse hmem ↦ by
    rcases hcalls _ hmem with hold | hnew
    · exact h.withdrawing assay purse hold
    · exact hnew.2 assay purse rfl
  balanced := h.balanced
  placed := h.placed

theorem set_call (h : Unique s) (i : ℕ) {call : AccountCall A}
    (hdepositing : ∀ assay purse, call = .depositing assay purse →
      s.assayPurses.get assay = some purse)
    (hwithdrawing : ∀ assay purse, call = .withdrawing assay purse →
      s.assayPurses.get assay = some purse) :
    Unique { s with calls := s.calls.set i call } := by
  refine h.calls fun other hother ↦ ?_
  rcases List.mem_or_eq_of_mem_set hother with hold | rfl
  · exact Or.inl hold
  · exact Or.inr ⟨hdepositing, hwithdrawing⟩

/-- A call that is made. -/
theorem add_call (h : Unique s) {call : AccountCall A}
    (hdepositing : ∀ assay purse, call ≠ .depositing assay purse)
    (hwithdrawing : ∀ assay purse, call ≠ .withdrawing assay purse) :
    Unique { s with calls := s.calls ++ [call] } := by
  refine h.calls fun other hother ↦ ?_
  rcases List.mem_append.mp hother with hold | hlast
  · exact Or.inl hold
  · rw [List.mem_singleton.mp hlast]
    exact Or.inr ⟨fun assay purse heq ↦ absurd heq (hdepositing assay purse),
      fun assay purse heq ↦ absurd heq (hwithdrawing assay purse)⟩

/-- A call that ends. -/
theorem resolved (h : Unique s) (i : ℕ) : Unique { s with calls := s.calls.set i .resolved } :=
  h.set_call i (by simp) (by simp)

theorem proceed_eq {assayPurses : OrderedMap A ℕ} {assay assay' : A} {purse : ℕ}
    (h : Account.proceed assayPurses assay = .depositing assay' purse) :
    assayPurses.get assay' = some purse := by
  unfold Account.proceed at h
  split at h
  · cases h
  · rename_i hget
    obtain ⟨rfl, rfl⟩ := AccountCall.depositing.inj h
    exact hget

/-- A new purse for an assay that has none: no call is with another purse of that assay, and the
account holds nothing of it. -/
theorem madePurse (h : Unique s) (i : ℕ) {assay : A} (hnone : s.assayPurses.get assay = none) :
    Unique
      { s with
        assayPurses := s.assayPurses.set assay s.made
        made := s.made + 1
        balance := Function.update s.balance s.made 0
        calls := s.calls.set i (Account.proceed (s.assayPurses.set assay s.made) assay) } := by
  have hother : ∀ other purse, s.assayPurses.get other = some purse →
      (s.assayPurses.set assay s.made).get other = some purse := by
    intro other purse hpurse
    have hne : other ≠ assay := by
      rintro rfl
      rw [hnone] at hpurse
      cases hpurse
    rw [OrderedMap.get_set, if_neg hne, hpurse]
  refine ⟨?_, ?_, ?_, ?_, ?_, ?_⟩
  · intro other purse hpurse
    rw [OrderedMap.get_set] at hpurse
    split at hpurse
    · obtain rfl := Option.some.inj hpurse
      exact Nat.lt_succ_self _
    · exact Nat.lt_succ_of_lt (h.made other purse hpurse)
  · intro other other' purse hpurse hpurse'
    rw [OrderedMap.get_set] at hpurse hpurse'
    split at hpurse <;> split at hpurse'
    · rename_i heq heq'
      exact heq.trans heq'.symm
    · obtain rfl := Option.some.inj hpurse
      exact absurd (h.made other' _ hpurse') (Nat.lt_irrefl _)
    · obtain rfl := Option.some.inj hpurse'
      exact absurd (h.made other _ hpurse) (Nat.lt_irrefl _)
    · exact h.apart other other' purse hpurse hpurse'
  · intro other purse hmem
    rcases List.mem_or_eq_of_mem_set hmem with hold | hnew
    · exact hother other purse (h.depositing other purse hold)
    · exact proceed_eq hnew.symm
  · intro other purse hmem
    rcases List.mem_or_eq_of_mem_set hmem with hold | hnew
    · exact hother other purse (h.withdrawing other purse hold)
    · unfold Account.proceed at hnew
      split at hnew <;> cases hnew
  · intro other
    rw [← h.balanced other]
    congr 1
    by_cases heq : other = assay
    · subst heq
      rw [Account.held_of_none hnone, Account.held_of_some (by rw [OrderedMap.get_set, if_pos rfl])]
      exact Function.update_self _ _ _
    · cases hpurse : s.assayPurses.get other with
      | none =>
        rw [Account.held_of_none hpurse, Account.held_of_none]
        rw [OrderedMap.get_set, if_neg heq, hpurse]
      | some purse =>
        rw [Account.held_of_some hpurse, Account.held_of_some (hother other purse hpurse)]
        exact Function.update_of_ne (Nat.ne_of_lt (h.made other purse hpurse)) _ _
  · intro deposit hdeposit
    exact hother _ _ (h.placed deposit hdeposit)

/-- The balance of one purse of the account changes: what the account holds of the other assays
stays. -/
theorem held_update (h : Unique s) {assay : A} {purse : ℕ}
    (hpurse : s.assayPurses.get assay = some purse) (balance : M) (other : A) :
    Account.held { s with balance := Function.update s.balance purse balance } other =
      if other = assay then balance else s.held other := by
  by_cases heq : other = assay
  · subst heq
    simp [Account.held, Account.getPurse, hpurse]
  · rw [if_neg heq]
    cases hother : s.assayPurses.get other with
    | none => simp [Account.held, Account.getPurse, hother]
    | some purse' =>
      have hne : purse' ≠ purse := by
        rintro rfl
        exact heq (h.apart other assay purse' hother hpurse)
      simp [Account.held, Account.getPurse, hother, Function.update_of_ne hne]

theorem deposited (h : Unique s) (i : ℕ) {assay : A} {purse : ℕ}
    (hpurse : s.assayPurses.get assay = some purse) (amount : M) :
    Unique
      { s with
        balance := Function.update s.balance purse (s.balance purse + amount)
        calls := s.calls.set i .resolved
        deposits := ⟨assay, purse, amount⟩ :: s.deposits } := by
  have hcalls := h.resolved i
  refine ⟨h.made, h.apart, hcalls.depositing, hcalls.withdrawing, fun other ↦ ?_, ?_⟩
  · have hheld := h.held_update hpurse (s.balance purse + amount) other
    have hbefore := h.balanced other
    change Account.held { s with balance := Function.update s.balance purse _ } other + _ = _
    rw [hheld, total_cons]
    by_cases heq : other = assay
    · subst heq
      rw [if_pos rfl, if_pos rfl, ← hbefore, Account.held_of_some hpurse]
      abel
    · rw [if_neg heq, if_neg (Ne.symm heq), hbefore]
  · intro deposit hdeposit
    rcases List.mem_cons.mp hdeposit with rfl | hold
    · exact hpurse
    · exact h.placed deposit hold

theorem withdrew (h : Unique s) (i : ℕ) {assay : A} {purse : ℕ}
    (hpurse : s.assayPurses.get assay = some purse) {amount rest : M}
    (hbalance : s.balance purse = amount + rest) :
    Unique
      { s with
        balance := Function.update s.balance purse rest
        calls := s.calls.set i .resolved
        withdrawals := ⟨assay, purse, amount⟩ :: s.withdrawals } := by
  have hcalls := h.resolved i
  refine ⟨h.made, h.apart, hcalls.depositing, hcalls.withdrawing, fun other ↦ ?_, h.placed⟩
  have hheld := h.held_update hpurse rest other
  have hbefore := h.balanced other
  change Account.held { s with balance := Function.update s.balance purse _ } other + _ = _
  rw [hheld, total_cons]
  by_cases heq : other = assay
  · subst heq
    rw [Account.held_of_some hpurse, hbalance] at hbefore
    rw [if_pos rfl, if_pos rfl, ← hbefore]
    abel
  · rw [if_neg heq, if_neg (Ne.symm heq), hbefore]

theorem conserved (h : Unique s) : Conserved s := by
  refine ⟨h.balanced, fun assay purse hpurse ↦ ?_, h.placed⟩
  exact List.mem_map.mpr ⟨_, OrderedMap.mem_entries_of_get hpurse, rfl⟩

variable [DecidableEq M] {s' : Account A M}

theorem step (h : Unique s) {event : AccountEvent A M} (hnew : NoReplacement s event s')
    (hstep : s.step event = some s') : Unique s' := by
  cases event with
  | depositAll =>
    obtain rfl := Option.some.inj hstep
    exact h.add_call nofun nofun
  | withdrawExactly =>
    obtain rfl := Option.some.inj hstep
    exact h.add_call nofun nofun
  | gotAssay i assay =>
    simp only [Account.step] at hstep
    split at hstep
    · obtain rfl := Option.some.inj hstep
      refine h.set_call i (fun _ _ hcall ↦ proceed_eq hcall) fun _ _ hcall ↦ ?_
      unfold Account.proceed at hcall
      split at hcall <;> cases hcall
    · obtain rfl := Option.some.inj hstep
      exact h.set_call i (by simp) (by simp)
    · cases hstep
  | madePurse i made =>
    simp only [Account.step] at hstep
    split at hstep
    · rename_i assay hcall
      split at hstep
      · rename_i hmade
        subst hmade
        obtain rfl := Option.some.inj hstep
        exact h.madePurse i (hnew assay (by rw [hcall]; rfl))
      · obtain rfl := Option.some.inj hstep
        exact h.set_call i (by simp) (by simp)
    · cases hstep
  | deposited i amount =>
    simp only [Account.step] at hstep
    split at hstep
    · rename_i assay purse amount hcall
      obtain rfl := Option.some.inj hstep
      exact h.deposited i (h.depositing assay purse (List.mem_of_getElem? hcall)) amount
    · obtain rfl := Option.some.inj hstep
      exact h.set_call i (by simp) (by simp)
    · cases hstep
  | gotLabel i assay =>
    simp only [Account.step] at hstep
    split at hstep
    · rename_i assay hcall
      split at hstep
      · obtain rfl := Option.some.inj hstep
        exact h.set_call i (by simp) (by simp)
      · rename_i purse hpurse
        obtain rfl := Option.some.inj hstep
        refine h.set_call i (by simp) fun assay' purse' hsame ↦ ?_
        obtain ⟨rfl, rfl⟩ := AccountCall.withdrawing.inj hsame
        exact hpurse
    · obtain rfl := Option.some.inj hstep
      exact h.set_call i (by simp) (by simp)
    · cases hstep
  | withdrew i amounts =>
    simp only [Account.step] at hstep
    split at hstep
    · rename_i assay purse amount rest hcall
      split at hstep
      · rename_i hbalance
        obtain rfl := Option.some.inj hstep
        exact h.withdrew i (h.withdrawing assay purse (List.mem_of_getElem? hcall)) hbalance
      · cases hstep
    · obtain rfl := Option.some.inj hstep
      exact h.set_call i (by simp) (by simp)
    · cases hstep

end Unique

/-- In every run of an account in which a purse that is made finds none stored for its assay, in
every state the purse that `getPurse` returns for an assay, which `getBalance` counts, holds the
deposits of the assay less what was withdrawn, and every deposit is in a purse of the account. -/
theorem conserved_of_noReplacement [DecidableEq M] (events : List (AccountEvent A M))
    (hnew : AllSteps Account.step NoReplacement Account.fresh events) :
    AllSteps Account.step (fun _ _ s ↦ Conserved s) (Account.fresh : Account A M) events := by
  refine AllSteps.of_invariant (I := Unique) ?_ ?_ unique_fresh hnew
  · intro s event s' hunique hnew hstep
    exact hunique.step hnew hstep
  · intro s event s' hunique hnew hstep
    exact (hunique.step hnew hstep).conserved

/-! ### Two deposits of one assay -/

/-- The second deposit asks for its assay when the first has stored the purse. -/
def oneByOne : List (AccountEvent (Fin 1) ℕ) :=
  [.depositAll, .depositAll, .gotAssay 0 (some 0), .madePurse 0 true, .gotAssay 1 (some 0),
    .deposited 1 (some 7), .deposited 0 (some 5), .withdrawExactly, .gotLabel 2 (some 0),
    .withdrew 2 (some (2, 10))]

theorem conserved_oneByOne :
    AllSteps Account.step (fun _ _ s ↦ Conserved s) Account.fresh oneByOne :=
  conserved_of_noReplacement oneByOne (by decide)

/-- Both deposits find no purse, and each makes one. -/
def replaced : List (AccountEvent (Fin 1) ℕ) :=
  [.depositAll, .depositAll, .gotAssay 0 (some 0), .gotAssay 1 (some 0), .madePurse 0 true,
    .madePurse 1 true, .deposited 0 (some 5), .deposited 1 (some 7)]

theorem replaced_not_conserved :
    (run Account.step Account.fresh replaced).isSome ∧
      ¬ AllSteps Account.step (fun _ _ s ↦ Conserved s) Account.fresh replaced := by
  decide

end CosmicSwingset.Vats
