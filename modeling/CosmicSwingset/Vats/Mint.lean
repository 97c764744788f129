import CosmicSwingset.Foundation.Ledger
import CosmicSwingset.Foundation.Transition
import Mathlib.Algebra.Order.Group.Int

/-!
# The demo mint

`makeMint` of `vat-mint.js` keeps the balances of its purses in one ledger. `deposit` checks the
amount at once, waits for the source, and then does all of the rest in one turn: first the checks,
which read the balances as they are by then, and after them the two writes. The balance of the purse
is read again between the writes, so that a deposit of a purse into itself changes nothing.

A deposit that gets past the checks is a `move` of the ledger, and it moves what the source has. So
balances stay natural, and their sum is what was minted, whatever calls there are and in whatever
order their sources resolve (`mint_conserves`).

A value is an integer or anything else, for `Nat` lets only integers through. Balances are exact:
the sum of two of them that is above `maxSafeInteger` may be rounded, but not to a safe integer.
-/

set_option autoImplicit false
set_option relaxedAutoImplicit false

namespace CosmicSwingset.Vats

open Foundation

/-- `Number.MAX_SAFE_INTEGER`. -/
def maxSafeInteger : ℤ := 2 ^ 53 - 1

/-- What there is to know of a value: whether it is a number that is an integer. -/
inductive AllegedNum
  | integer (n : ℤ)
  | other

/-- `Nat` of `@agoric/nat`, which throws at what is no natural number or not a safe integer. -/
structure NatCheck where
  nat : AllegedNum → Option ℤ
  nat_integer : ∀ n, nat (.integer n) = if 0 ≤ n ∧ n ≤ maxSafeInteger then some n else none
  nat_other : nat .other = none

/-- A call of `deposit`. -/
inductive DepositCall (κ : Type*)
  /-- It waits for its source. -/
  | awaiting (purse : κ) (amount : ℤ)
  | rejected
  | resolved

/-- A mint: the ledger, in which only its own purses are, and the calls of `deposit`. -/
structure Mint (κ : Type*) where
  ledger : OrderedMap κ ℤ
  deposits : List (DepositCall κ)

inductive MintEvent (κ : Type*)
  /-- A purse is made; `makeEmptyPurse` is this with nothing in it. -/
  | mint (purse : κ) (initialBalance : ℕ)
  | deposit (purse : κ) (amount : AllegedNum)
  /-- The source of a deposit resolves, to a purse of the mint or anything else. -/
  | resolved (i : ℕ) (src : κ)
  /-- It rejects. -/
  | rejected (i : ℕ)

namespace Mint

variable {κ : Type*} [DecidableEq κ]

def fresh : Mint κ := ⟨.empty, []⟩

/-- `ledger.get`; there is no balance of what is no purse. -/
def balance (ledger : OrderedMap κ ℤ) (purse : κ) : AllegedNum :=
  (ledger.get purse).elim .other .integer

variable (nats : NatCheck)

/-- What `deposit` does when the source has resolved, unless a check throws. -/
def depositFrom (ledger : OrderedMap κ ℤ) (purse : κ) (amount : ℤ) (src : κ) :
    Option (OrderedMap κ ℤ) :=
  (nats.nat (balance ledger purse)).bind fun myOldBal ↦
    (nats.nat (balance ledger src)).bind fun srcOldBal ↦
      (nats.nat (.integer (myOldBal + amount))).bind fun _ ↦
        (nats.nat (.integer (srcOldBal - amount))).map fun srcNewBal ↦
          let ledger := ledger.set src srcNewBal
          ledger.set purse ((ledger.get purse).getD 0 + amount)

def step (s : Mint κ) : MintEvent κ → Option (Mint κ)
  | .mint purse initialBalance =>
    -- a purse is a new object
    if (s.ledger.get purse).isSome then none
    else some { s with ledger := s.ledger.set purse initialBalance }
  | .deposit purse amount =>
    if (s.ledger.get purse).isNone then none
    else
      match nats.nat amount with
      | none => some { s with deposits := s.deposits ++ [.rejected] }
      | some amount => some { s with deposits := s.deposits ++ [.awaiting purse amount] }
  | .resolved i src =>
    match s.deposits[i]? with
    | some (.awaiting purse amount) =>
      match depositFrom nats s.ledger purse amount src with
      | none => some { s with deposits := s.deposits.set i .rejected }
      | some ledger => some { s with ledger := ledger, deposits := s.deposits.set i .resolved }
    | _ => none
  | .rejected i =>
    match s.deposits[i]? with
    | some (.awaiting _ _) => some { s with deposits := s.deposits.set i .rejected }
    | _ => none

/-! ### What should hold of a step -/

/-- All that was ever minted is a safe integer. -/
def Issues (s : Mint κ) (event : MintEvent κ) (_ : Mint κ) : Prop :=
  match event with
  | .mint _ initialBalance => s.ledger.total + initialBalance ≤ maxSafeInteger
  | _ => True

instance (s : Mint κ) (event : MintEvent κ) (s' : Mint κ) : Decidable (Issues s event s') :=
  match event with
  | .mint _ initialBalance =>
    inferInstanceAs (Decidable (s.ledger.total + initialBalance ≤ maxSafeInteger))
  | .deposit _ _ | .resolved _ _ | .rejected _ => .isTrue trivial

def issued : MintEvent κ → ℤ
  | .mint _ initialBalance => initialBalance
  | _ => 0

/-- The amount is taken from the one purse and given to the other one; between a purse and itself
nothing changes. -/
def Moved (s s' : Mint κ) (src purse : κ) (amount : ℤ) : Prop :=
  ∃ srcBal myBal, s.ledger.get src = some srcBal ∧ s.ledger.get purse = some myBal ∧
    ∀ key, s'.ledger.get key =
      if src = purse then s.ledger.get key
      else if key = purse then some (myBal + amount)
      else if key = src then some (srcBal - amount)
      else s.ledger.get key

/-- * `total`: the sum of all balances is what was minted.
* `natural`: balances are natural numbers and safe integers.
* `rejects`: a deposit that rejects leaves the ledger as it is.
* `moves`: one that resolves moves its amount.
* `others`: nothing else changes the balance of a purse. -/
structure Conserves (s : Mint κ) (event : MintEvent κ) (s' : Mint κ) : Prop where
  total : s'.ledger.total = s.ledger.total + issued event
  natural : ∀ purse bal, s'.ledger.get purse = some bal → 0 ≤ bal ∧ bal ≤ maxSafeInteger
  rejects : ∀ i : ℕ, s'.deposits[i]? = some DepositCall.rejected →
    s.deposits[i]? ≠ some DepositCall.rejected → s'.ledger = s.ledger
  moves : ∀ (i : ℕ) src purse amount, event = .resolved i src →
    s.deposits[i]? = some (.awaiting purse amount) → s'.deposits[i]? = some .resolved →
      Moved s s' src purse amount
  others : (∀ i src, event ≠ .resolved i src) →
    ∀ purse bal, s.ledger.get purse = some bal → s'.ledger.get purse = some bal

/-! ### The ledger stays sound -/

variable {nats} {s s' : Mint κ}

omit [DecidableEq κ] in
theorem nat_eq_some_iff {v : AllegedNum} {n : ℤ} :
    nats.nat v = some n ↔ v = .integer n ∧ 0 ≤ n ∧ n ≤ maxSafeInteger := by
  cases v with
  | other => simp [nats.nat_other]
  | integer m =>
    rw [nats.nat_integer, AllegedNum.integer.injEq]
    split_ifs with hm
    · rw [Option.some.injEq]
      exact ⟨fun heq ↦ ⟨heq, heq ▸ hm⟩, fun h ↦ h.1⟩
    · exact iff_of_false (by simp) fun h ↦ hm (h.1 ▸ h.2)

theorem balance_eq_integer_iff {ledger : OrderedMap κ ℤ} {purse : κ} {n : ℤ} :
    balance ledger purse = .integer n ↔ ledger.get purse = some n := by
  unfold balance
  cases ledger.get purse with
  | none => simp
  | some bal => simp

/-- What gets past the checks is a move, and the source has the amount. -/
theorem depositFrom_eq_some {ledger ledger' : OrderedMap κ ℤ} {purse src : κ} {amount : ℤ}
    (h : depositFrom nats ledger purse amount src = some ledger') :
    ∃ srcBal myBal, ledger.get src = some srcBal ∧ ledger.get purse = some myBal ∧
      amount ≤ srcBal ∧ ledger' = ledger.move src purse amount := by
  simp only [depositFrom, Option.bind_eq_some_iff, Option.map_eq_some_iff] at h
  obtain ⟨myBal, hmyBal, srcBal, hsrcBal, _, -, srcNewBal, hsrcNewBal, hledger⟩ := h
  obtain ⟨hget, -⟩ := nat_eq_some_iff.mp hmyBal
  obtain ⟨hgetSrc, -⟩ := nat_eq_some_iff.mp hsrcBal
  obtain ⟨hnew, hnonneg, -⟩ := nat_eq_some_iff.mp hsrcNewBal
  rw [AllegedNum.integer.injEq] at hnew
  rw [balance_eq_integer_iff] at hget hgetSrc
  refine ⟨srcBal, myBal, hgetSrc, hget, by omega, ?_⟩
  rw [← hledger, ← hnew]
  simp only [OrderedMap.move, hgetSrc, Option.getD_some]

/-- No balance is negative, and all of them together are a safe integer; nor is an amount negative
that has been checked. -/
structure Sound (s : Mint κ) : Prop where
  bounded : s.ledger.total ≤ maxSafeInteger
  natural : ∀ purse bal, s.ledger.get purse = some bal → 0 ≤ bal
  amounts : ∀ call ∈ s.deposits, ∀ purse amount, call = .awaiting purse amount → 0 ≤ amount

theorem sound_fresh : (fresh : Mint κ).Sound where
  bounded := show (0 : ℤ) ≤ maxSafeInteger by decide
  natural := by simp [fresh]
  amounts := by simp [fresh]

theorem Sound.append_deposit (h : s.Sound) {call : DepositCall κ}
    (hcall : ∀ purse amount, call = .awaiting purse amount → 0 ≤ amount) :
    Sound { s with deposits := s.deposits ++ [call] } := by
  refine ⟨h.bounded, h.natural, fun other hother purse amount heq ↦ ?_⟩
  rcases List.mem_append.mp hother with hold | hlast
  · exact h.amounts other hold purse amount heq
  · exact hcall purse amount (List.mem_singleton.mp hlast ▸ heq)

theorem Sound.set_deposit (h : s.Sound) (i : ℕ) {call : DepositCall κ}
    (hcall : ∀ purse amount, call ≠ .awaiting purse amount) :
    Sound { s with deposits := s.deposits.set i call } := by
  refine ⟨h.bounded, h.natural, fun other hother purse amount heq ↦ ?_⟩
  rcases List.mem_or_eq_of_mem_set hother with hold | rfl
  · exact h.amounts other hold purse amount heq
  · exact absurd heq (hcall purse amount)

theorem Sound.mint (h : s.Sound) {purse : κ} (hnew : s.ledger.get purse = none)
    {initialBalance : ℕ} (htotal : s.ledger.total + initialBalance ≤ maxSafeInteger) :
    Sound { s with ledger := s.ledger.set purse initialBalance } := by
  refine ⟨?_, fun other bal hbal ↦ ?_, h.amounts⟩
  · change (s.ledger.set purse initialBalance).total ≤ maxSafeInteger
    rwa [OrderedMap.total_set_of_none hnew]
  · change (s.ledger.set purse initialBalance).get other = some bal at hbal
    rw [OrderedMap.get_set] at hbal
    split_ifs at hbal
    · rw [← Option.some.inj hbal]
      exact Int.natCast_nonneg initialBalance
    · exact h.natural other bal hbal

theorem Sound.move (h : s.Sound) {purse src : κ} {amount srcBal myBal : ℤ}
    (hsrc : s.ledger.get src = some srcBal) (hpurse : s.ledger.get purse = some myBal)
    (hamount : 0 ≤ amount) (hle : amount ≤ srcBal) :
    Sound { s with ledger := s.ledger.move src purse amount } := by
  refine ⟨?_, fun other bal hbal ↦ ?_, h.amounts⟩
  · change (s.ledger.move src purse amount).total ≤ maxSafeInteger
    rw [OrderedMap.total_move hsrc hpurse]
    exact h.bounded
  · change (s.ledger.move src purse amount).get other = some bal at hbal
    have hnonneg := h.natural purse myBal hpurse
    rw [OrderedMap.get_move hsrc hpurse] at hbal
    split_ifs at hbal
    · exact h.natural other bal hbal
    · rw [← Option.some.inj hbal]
      omega
    · rw [← Option.some.inj hbal]
      omega
    · exact h.natural other bal hbal

theorem Sound.natural_le (h : s.Sound) {purse : κ} {bal : ℤ}
    (hbal : s.ledger.get purse = some bal) :
    0 ≤ bal ∧ bal ≤ maxSafeInteger :=
  ⟨h.natural purse bal hbal, (OrderedMap.le_total h.natural hbal).trans h.bounded⟩

/-- Where the ledger is as it was and nothing resolves, there is nothing to conserve. -/
theorem Sound.conserves_of_ledger (h : s.Sound) {event : MintEvent κ}
    (hledger : s'.ledger = s.ledger) (hissued : issued event = 0)
    (hresolved : ∀ i src, event = .resolved i src → s'.deposits[i]? ≠ some DepositCall.resolved) :
    Conserves s event s' where
  total := by rw [hledger, hissued, add_zero]
  natural := fun purse bal hbal ↦ h.natural_le (hledger ▸ hbal)
  rejects := fun _ _ _ ↦ hledger
  moves := fun i src _ _ hevent _ hdone ↦ absurd hdone (hresolved i src hevent)
  others := fun _ purse bal hbal ↦ hledger ▸ hbal

/-- A source has resolved: the deposit moves its amount, or it rejects. -/
theorem Sound.resolved (h : s.Sound) {i : ℕ} {src : κ}
    (hstep : s.step nats (.resolved i src) = some s') :
    s'.Sound ∧ Conserves s (.resolved i src) s' := by
  simp only [Mint.step] at hstep
  split at hstep
  · rename_i purse amount hcall
    cases hfrom : depositFrom nats s.ledger purse amount src with
    | none =>
      rw [hfrom] at hstep
      obtain rfl := Option.some.inj hstep
      refine ⟨h.set_deposit i (by simp), h.conserves_of_ledger rfl rfl ?_⟩
      rintro j src' heq
      obtain ⟨rfl, -⟩ := MintEvent.resolved.inj heq
      obtain ⟨hlt, -⟩ := List.getElem?_eq_some_iff.mp hcall
      simp [List.getElem?_set_self hlt]
    | some ledger =>
      rw [hfrom] at hstep
      obtain rfl := Option.some.inj hstep
      obtain ⟨srcBal, myBal, hsrc, hpurse, hle, rfl⟩ := depositFrom_eq_some hfrom
      have hamount := h.amounts _ (List.mem_of_getElem? hcall) purse amount rfl
      have hsound : Mint.Sound ⟨s.ledger.move src purse amount, s.deposits.set i .resolved⟩ :=
        (h.move hsrc hpurse hamount hle).set_deposit i (by simp)
      refine ⟨hsound, ⟨?_, fun _ _ ↦ hsound.natural_le, ?_, ?_, ?_⟩⟩
      · exact (OrderedMap.total_move hsrc hpurse amount).trans (add_zero _).symm
      · intro j hrejected hnot
        rw [List.getElem?_set] at hrejected
        split_ifs at hrejected
        · simp at hrejected
        · exact absurd hrejected hnot
      · rintro j src' purse' amount' heq hcall' -
        obtain ⟨rfl, rfl⟩ := MintEvent.resolved.inj heq
        obtain ⟨rfl, rfl⟩ := DepositCall.awaiting.inj (Option.some.inj (hcall.symm.trans hcall'))
        exact ⟨srcBal, myBal, hsrc, hpurse, OrderedMap.get_move hsrc hpurse amount⟩
      · exact fun hnot ↦ absurd rfl (hnot i src)
  · simp at hstep

theorem Sound.step (h : s.Sound) {event : MintEvent κ} (hissues : Issues s event s')
    (hstep : s.step nats event = some s') : s'.Sound ∧ Conserves s event s' := by
  cases event with
  | mint purse initialBalance =>
    simp only [Mint.step] at hstep
    split_ifs at hstep with hnew
    obtain rfl := Option.some.inj hstep
    have hnone : s.ledger.get purse = none := by simpa using hnew
    have hsound := h.mint hnone hissues
    refine ⟨hsound, ⟨OrderedMap.total_set_of_none hnone _, fun _ _ ↦ hsound.natural_le, ?_, ?_, ?_⟩⟩
    · exact fun i hrejected hnot ↦ absurd hrejected hnot
    · rintro i src purse' amount' hevent
      cases hevent
    · intro _ other bal hbal
      change (s.ledger.set purse initialBalance).get other = some bal
      have hne : other ≠ purse := by
        rintro rfl
        rw [hnone] at hbal
        cases hbal
      rwa [OrderedMap.get_set, if_neg hne]
  | deposit purse amount =>
    simp only [Mint.step] at hstep
    split_ifs at hstep
    cases hamount : nats.nat amount with
    | none =>
      rw [hamount] at hstep
      obtain rfl := Option.some.inj hstep
      exact ⟨h.append_deposit (by simp), h.conserves_of_ledger rfl rfl (by simp)⟩
    | some n =>
      rw [hamount] at hstep
      obtain rfl := Option.some.inj hstep
      refine ⟨h.append_deposit fun purse' amount' heq ↦ ?_, h.conserves_of_ledger rfl rfl (by simp)⟩
      obtain ⟨-, rfl⟩ := DepositCall.awaiting.inj heq
      exact (nat_eq_some_iff.mp hamount).2.1
  | resolved i src => exact h.resolved hstep
  | rejected i =>
    simp only [Mint.step] at hstep
    split at hstep
    · obtain rfl := Option.some.inj hstep
      exact ⟨h.set_deposit i (by simp), h.conserves_of_ledger rfl rfl (by simp)⟩
    · simp at hstep

/-- In every run of a mint that never mints more than a safe integer in all, with any deposits of
any amounts and their sources resolving in any order: the sum of all balances is what was minted,
they are natural numbers and safe integers, a deposit that rejects changes none of them, and one
that resolves moves exactly its amount. -/
theorem mint_conserves (nats : NatCheck) (events : List (MintEvent κ))
    (h : AllSteps (step nats) Issues fresh events) :
    AllSteps (step nats) Conserves fresh events := by
  have hkeep : ∀ (s : Mint κ) (event : MintEvent κ) (s' : Mint κ), s.Sound →
      Issues s event s' → s.step nats event = some s' → s'.Sound :=
    fun _ _ _ hs hissues hstep ↦ (hs.step hissues hstep).1
  have hprop : ∀ (s : Mint κ) (event : MintEvent κ) (s' : Mint κ), s.Sound →
      Issues s event s' → s.step nats event = some s' → Conserves s event s' :=
    fun _ _ _ hs hissues hstep ↦ (hs.step hissues hstep).2
  exact AllSteps.of_invariant hkeep hprop sound_fresh h

def agoricNat : NatCheck where
  nat
    | .integer n => if 0 ≤ n ∧ n ≤ maxSafeInteger then some n else none
    | .other => none
  nat_integer := fun _ ↦ rfl
  nat_other := rfl

/-- Three deposits from one purse: the last one resolves first, so that the first one finds too
little, and the second one is into the source itself. -/
def threeDeposits : List (MintEvent ℕ) :=
  [.mint 0 10, .mint 1 0, .deposit 1 (.integer 7), .deposit 0 (.integer 3),
    .deposit 1 (.integer 5), .resolved 2 0, .resolved 0 0, .resolved 1 0]

/-- The last deposit resolves; both purses have 5 at the end. -/
theorem mint_conserves_threeDeposits :
    AllSteps (step agoricNat) Conserves fresh threeDeposits ∧
      ∃ s, run (step agoricNat) fresh threeDeposits = some s ∧
        s.deposits[2]? = some .resolved ∧ s.ledger.entries = [(0, 5), (1, 5)] :=
  ⟨mint_conserves agoricNat threeDeposits (by decide), _, rfl, rfl, rfl⟩

end Mint

end CosmicSwingset.Vats
