import CosmicSwingset.Foundation.OrderedMap
import CosmicSwingset.Foundation.Transition
import Mathlib.Algebra.Group.Defs

/-!
# An account of the pledger

`makeAccount` of `vat-pledger.js` keeps one purse for each assay in the map `assayPurses`. Its
methods are asynchronous: `depositAll` awaits the payment's assay, then, if there is no purse for
it, awaits a new purse and stores it, and then sends the payment to the stored purse;
`withdrawExactly` awaits the assay of what is asked for and then sends the withdrawal to the stored
purse. `step` takes one turn of one call, so that calls interleave at their awaits.

Purses are the mint's: they are numbered in the order they are made, start empty, and a deposit or a
withdrawal changes the balance of one purse by what it moves. Amounts are any commutative monoid.
-/

set_option autoImplicit false
set_option relaxedAutoImplicit false

namespace CosmicSwingset.Vats

open Foundation

variable {A M : Type*}

/-- Where a call stands. -/
inductive AccountCall (A : Type*)
  | awaitingAssay
  | awaitingPurse (assay : A)
  | depositing (assay : A) (purse : ℕ)
  | awaitingLabel
  | withdrawing (assay : A) (purse : ℕ)
  | resolved
  | rejected
  deriving DecidableEq

/-- A payment that a purse has taken. -/
structure Deposit (A M : Type*) where
  assay : A
  purse : ℕ
  amount : M

/-- An account, the purses made for it with their balances, its calls, and what the purses have
taken and given. -/
structure Account (A M : Type*) where
  assayPurses : OrderedMap A ℕ
  made : ℕ
  balance : ℕ → M
  calls : List (AccountCall A)
  deposits : List (Deposit A M)
  withdrawals : List (Deposit A M)

/-- One turn.

* `depositAll`, `withdrawExactly`: the method is called.
* `gotAssay i`, `gotLabel i`: the assay that call `i` awaits, or an error.
* `madePurse i`: the purse that call `i` awaits is made, or an error.
* `deposited i`: the purse takes the payment of call `i`, of some amount, or refuses it.
* `withdrew i`: the purse gives call `i` an amount and keeps the rest, or refuses. -/
inductive AccountEvent (A M : Type*)
  | depositAll
  | withdrawExactly
  | gotAssay (i : ℕ) (assay : Option A)
  | madePurse (i : ℕ) (made : Bool)
  | deposited (i : ℕ) (amount : Option M)
  | gotLabel (i : ℕ) (assay : Option A)
  | withdrew (i : ℕ) (amounts : Option (M × M))

namespace Account

variable [DecidableEq A] [DecidableEq M] [AddCommMonoid M]

def getPurse (s : Account A M) (assay : A) : Option ℕ := s.assayPurses.get assay

def getBalance (s : Account A M) : List M := s.assayPurses.entries.map fun entry ↦ s.balance entry.2

/-- `depositAll` from the test for a purse on. -/
def proceed (assayPurses : OrderedMap A ℕ) (assay : A) : AccountCall A :=
  match assayPurses.get assay with
  | none => .awaitingPurse assay
  | some purse => .depositing assay purse

def step (s : Account A M) : AccountEvent A M → Option (Account A M)
  | .depositAll => some { s with calls := s.calls ++ [.awaitingAssay] }
  | .withdrawExactly => some { s with calls := s.calls ++ [.awaitingLabel] }
  | .gotAssay i assay =>
    match s.calls[i]?, assay with
    | some .awaitingAssay, some assay => some
        { s with calls := s.calls.set i (proceed s.assayPurses assay) }
    | some .awaitingAssay, none => some { s with calls := s.calls.set i .rejected }
    | _, _ => none
  | .madePurse i made =>
    match s.calls[i]? with
    | some (.awaitingPurse assay) =>
      if made then
        let assayPurses := s.assayPurses.set assay s.made
        some
          { s with
            assayPurses := assayPurses
            made := s.made + 1
            balance := Function.update s.balance s.made 0
            calls := s.calls.set i (proceed assayPurses assay) }
      else some { s with calls := s.calls.set i .rejected }
    | _ => none
  | .deposited i amount =>
    match s.calls[i]?, amount with
    | some (.depositing assay purse), some amount => some
        { s with
          balance := Function.update s.balance purse (s.balance purse + amount)
          calls := s.calls.set i .resolved
          deposits := ⟨assay, purse, amount⟩ :: s.deposits }
    | some (.depositing _ _), none => some { s with calls := s.calls.set i .rejected }
    | _, _ => none
  | .gotLabel i assay =>
    match s.calls[i]?, assay with
    | some .awaitingLabel, some assay =>
      -- a message to `undefined`, where there is no purse, rejects
      match s.getPurse assay with
      | none => some { s with calls := s.calls.set i .rejected }
      | some purse => some { s with calls := s.calls.set i (.withdrawing assay purse) }
    | some .awaitingLabel, none => some { s with calls := s.calls.set i .rejected }
    | _, _ => none
  | .withdrew i amounts =>
    match s.calls[i]?, amounts with
    | some (.withdrawing assay purse), some (amount, rest) =>
      if s.balance purse = amount + rest then some
        { s with
          balance := Function.update s.balance purse rest
          calls := s.calls.set i .resolved
          withdrawals := ⟨assay, purse, amount⟩ :: s.withdrawals }
      else none
    | some (.withdrawing _ _), none => some { s with calls := s.calls.set i .rejected }
    | _, _ => none

/-- An account without purses. -/
def fresh : Account A M where
  assayPurses := .empty
  made := 0
  balance := fun _ ↦ 0
  calls := []
  deposits := []
  withdrawals := []

end Account

end CosmicSwingset.Vats
