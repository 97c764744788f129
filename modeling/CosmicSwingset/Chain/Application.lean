import CosmicSwingset.Chain.LaunchChain
import CosmicSwingset.Foundation.Transition

/-!
# The chain node over its transactions, blocks and crashes

The SDK opens a transaction on the store of the block, or on the committed store when it simulates,
and hands its messages to the handler one at a time. For each, `toSwingSet0` of `ag-chain-cosmos`
launches the SwingSet if it is not launched yet and then calls `deliverInbound`; both write to the
state file at once and to the store of the transaction. When the transaction ends its writes go to
the block or are dropped, and they become durable when the block is committed. A crash loses the
memory and every write that is not durable, and may come after any write of a call.

Two parts of the state only record the run: the saves that were completed with their machines, and
how far the last one that was begun has come (`Saving`).
-/

set_option autoImplicit false
set_option relaxedAutoImplicit false

namespace CosmicSwingset.Chain

open Foundation SwingSet

variable {K : Type*}

/-- How far the last `saveState` has come.

* `never`: none has written the file in full.
* `writing`: the file is being written, or is written and the mailbox entry is not.
* `inTx`, `inBlock`, `settled`: it has returned, and its mailbox entry is in the open transaction,
  in the block, committed.
* `lost`: its mailbox entry was not written, or was dropped with its transaction or block. -/
inductive Saving
  | never
  | writing
  | inTx
  | inBlock
  | settled
  | lost
  deriving DecidableEq

def Saving.onEffect : Saving → Effect K → Saving
  | .never, .truncateFile => .never
  | _, .truncateFile => .writing
  | _, .writeFile _ => .writing
  | saving, .set key _ => if key = "mailbox" then .inTx else saving

/-- The completed saves: the mailbox entry is the last write of a save. -/
def Effect.onSaves (machine : Machine K) (saves : List (Machine K)) : Effect K → List (Machine K)
  | .set key _ => if key = "mailbox" then machine :: saves else saves
  | .truncateFile | .writeFile _ => saves

/-- The transaction is kept. -/
def Saving.keep : Saving → Saving
  | .inTx => .inBlock
  | saving => saving

/-- The transaction is dropped. -/
def Saving.drop : Saving → Saving
  | .inTx => .lost
  | saving => saving

def Saving.commit : Saving → Saving
  | .inBlock => .settled
  | saving => saving

def Saving.crash : Saving → Saving
  | .never => .never
  | .settled => .settled
  | _ => .lost

/-- An open transaction: whether it is simulated, whether one of its messages failed, the memory and
the file when it began, and whether all its messages so far found the SwingSet launched and no new
work. -/
structure Tx (K : Type*) where
  simulate : Bool
  failed : Bool
  liveBefore : Option (Machine K)
  fileBefore : StateFile K
  idle : Bool

/-- The chain node. `view` is the store that a message sees; outside of transactions it is the
store of the block. -/
structure Node (K : Type*) where
  live : Option (Machine K)
  file : StateFile K
  committed : MailboxStorage
  block : MailboxStorage
  view : MailboxStorage
  tx : Option (Tx K)
  saves : List (Machine K)
  saving : Saving

/-- How a call ends: all its writes succeed, the write number `i` throws, or the process crashes
after `i` writes. -/
inductive Fate
  | completed
  | threw (i : ℕ)
  | crashed (i : ℕ)
  deriving DecidableEq

/-- One step of the node.

* `beginTx`, `endTx`, `commit`, `crash`: as the SDK does them, or the machine it runs on.
* `launch`: a message of the open transaction finds the SwingSet not launched; `buildSwingset` is
  the machine after the bootstrap run, or an error.
* `deliverInbound`: a message finds the SwingSet launched. -/
inductive Event (K : Type*)
  | beginTx (simulate : Bool)
  | launch (buildSwingset : Option (Machine K)) (fate : Fate)
  | deliverInbound (work : Work K) (fate : Fate)
  | endTx (keep : Bool)
  | commit
  | crash

namespace Node

/-- The node after some writes of a call that leaves the machine `machine`. -/
def performed (n : Node K) (machine : Machine K) (done : List (Effect K)) : Node K :=
  { n with
    file := done.foldl Effect.onFile n.file
    view := done.foldl Effect.onStorage n.view
    saving := done.foldl Saving.onEffect n.saving
    saves := done.foldl (Effect.onSaves machine) n.saves }

def crash (n : Node K) : Node K :=
  { n with
    live := none
    block := n.committed
    view := n.committed
    tx := none
    saving := n.saving.crash }

/-- A call in the transaction `tx`. A rejected `launch` leaves `deliverInbound` unassigned, a
rejected `deliverInbound` leaves the machine as the run made it. -/
def perform (n : Node K) (tx : Tx K) (launching : Bool) (call : Call K) :
    Fate → Option (Node K)
  | .completed => some
      { n.performed call.live call.effects with
        live := some call.live
        tx := some { tx with failed := !call.resolves } }
  | .threw i =>
    if i < call.effects.length then some
      { n.performed call.live (call.effects.take i) with
        live := if launching then none else some call.live
        tx := some { tx with failed := true } }
    else none
  | .crashed i => some (n.performed call.live (call.effects.take i)).crash

variable (json : DeterministicJson) (empty : K)

def step (n : Node K) : Event K → Option (Node K)
  | .beginTx simulate =>
    match n.tx with
    | some _ => none
    | none => some
        { n with
          view := if simulate then n.committed else n.block
          tx := some ⟨simulate, false, n.live, n.file, true⟩ }
  | .launch buildSwingset fate =>
    match n.tx, n.live with
    | some tx, none =>
      if tx.failed then none
      else match launch json empty n.file n.view buildSwingset with
        | none => some { n with tx := some { tx with failed := true } }
        | some call => n.perform { tx with idle := false } true call fate
    | _, _ => none
  | .deliverInbound work fate =>
    match n.tx, n.live with
    | some tx, some live =>
      if tx.failed then none
      else
        let idle := match work with
          | .nothing => tx.idle
          | _ => false
        n.perform { tx with idle } false (deliverInbound json live work) fate
    | _, _ => none
  | .endTx keep =>
    match n.tx with
    | none => none
    | some tx =>
      if keep then
        if tx.failed || tx.simulate then none
        else some { n with block := n.view, tx := none, saving := n.saving.keep }
      else some { n with view := n.block, tx := none, saving := n.saving.drop }
  | .commit =>
    match n.tx with
    | some _ => none
    | none => some
        { n with
          committed := n.block
          view := n.block
          saving := n.saving.commit }
  | .crash => some n.crash

section Steps

variable {json empty} {n n' : Node K}

theorem step_beginTx {simulate : Bool} (hstep : n.step json empty (.beginTx simulate) = some n') :
    n.tx = none ∧ n' = { n with
      view := if simulate then n.committed else n.block
      tx := some ⟨simulate, false, n.live, n.file, true⟩ } := by
  simp only [step] at hstep
  split at hstep <;> cases hstep
  rename_i hnone
  exact ⟨hnone, rfl⟩

theorem step_launch {buildSwingset : Option (Machine K)} {fate : Fate}
    (hstep : n.step json empty (.launch buildSwingset fate) = some n') :
    ∃ tx, n.tx = some tx ∧ n.live = none ∧ tx.failed = false ∧
      (n' = { n with tx := some { tx with failed := true } } ∨
        ∃ call, launch json empty n.file n.view buildSwingset = some call ∧
          n.perform { tx with idle := false } true call fate = some n') := by
  simp only [step] at hstep
  split at hstep
  · rename_i tx htx hlive
    split at hstep
    · cases hstep
    · rename_i hfailed
      refine ⟨tx, htx, hlive, Bool.not_eq_true _ ▸ hfailed, ?_⟩
      split at hstep
      · exact Or.inl (Option.some.inj hstep).symm
      · rename_i call hcall
        exact Or.inr ⟨call, hcall, hstep⟩
  · cases hstep

theorem step_deliverInbound {work : Work K} {fate : Fate}
    (hstep : n.step json empty (.deliverInbound work fate) = some n') :
    ∃ tx live, n.tx = some tx ∧ n.live = some live ∧ tx.failed = false ∧
      (work = .nothing ∧ n.perform tx false (deliverInbound json live work) fate = some n' ∨
        work ≠ .nothing ∧
          n.perform { tx with idle := false } false (deliverInbound json live work) fate =
            some n') := by
  simp only [step] at hstep
  split at hstep
  · rename_i tx live htx hlive
    split at hstep
    · cases hstep
    · rename_i hfailed
      refine ⟨tx, live, htx, hlive, Bool.not_eq_true _ ▸ hfailed, ?_⟩
      cases work with
      | nothing => exact Or.inl ⟨rfl, hstep⟩
      | ran after => exact Or.inr ⟨by simp, hstep⟩
      | threw after => exact Or.inr ⟨by simp, hstep⟩
  · cases hstep

theorem step_endTx {keep : Bool} (hstep : n.step json empty (.endTx keep) = some n') :
    ∃ tx, n.tx = some tx ∧
      (keep = true ∧ tx.failed = false ∧ tx.simulate = false ∧
          n' = { n with block := n.view, tx := none, saving := n.saving.keep } ∨
        keep = false ∧ n' = { n with view := n.block, tx := none, saving := n.saving.drop }) := by
  simp only [step] at hstep
  split at hstep
  · cases hstep
  · rename_i tx htx
    refine ⟨tx, htx, ?_⟩
    split at hstep
    · rename_i hkeep
      split at hstep <;> cases hstep
      rename_i hkept
      simp only [Bool.or_eq_true, not_or, Bool.not_eq_true] at hkept
      exact Or.inl ⟨hkeep, hkept.1, hkept.2, rfl⟩
    · rename_i hkeep
      exact Or.inr ⟨Bool.not_eq_true _ ▸ hkeep, (Option.some.inj hstep).symm⟩

theorem step_commit (hstep : n.step json empty .commit = some n') :
    n.tx = none ∧ n' = { n with
      committed := n.block
      view := n.block
      saving := n.saving.commit } := by
  simp only [step] at hstep
  split at hstep <;> cases hstep
  rename_i hnone
  exact ⟨hnone, rfl⟩

end Steps

/-- A node that has never run. -/
def genesis : Node K where
  live := none
  file := .absent
  committed := fun _ ↦ none
  block := fun _ ↦ none
  view := fun _ ↦ none
  tx := none
  saves := []
  saving := .never

theorem performed_append (n : Node K) (machine : Machine K) (first second : List (Effect K)) :
    n.performed machine (first ++ second) =
      (n.performed machine first).performed machine second := by
  simp only [performed, List.foldl_append]

/-- Copies for peers change nothing but the store of the transaction. -/
theorem performed_copies (n : Node K) (machine : Machine K) {copies : List (Effect K)}
    (h : ∀ effect ∈ copies, effect.IsCopy) :
    n.performed machine copies =
      { n with view := copies.foldl Effect.onStorage n.view } := by
  have hfile : copies.foldl Effect.onFile n.file = n.file := by
    refine foldl_copies ?_ h n.file
    rintro file _ ⟨key, value, rfl, -⟩
    rfl
  have hsaving : copies.foldl Saving.onEffect n.saving = n.saving := by
    refine foldl_copies ?_ h n.saving
    rintro saving _ ⟨key, value, rfl, hkey⟩
    cases saving <;> exact if_neg hkey
  have hsaves : copies.foldl (Effect.onSaves machine) n.saves = n.saves := by
    refine foldl_copies ?_ h n.saves
    rintro saves _ ⟨key, value, rfl, hkey⟩
    exact if_neg hkey
  rw [performed, hfile, hsaving, hsaves]

/-- After the last write of a save the file and the store of the transaction have the machine. -/
theorem saved_performed (json : DeterministicJson) (n : Node K) (machine : Machine K)
    (copies : List (Effect K)) :
    (n.performed machine (copies ++ saveState json machine)).file = .json machine.kernel ∧
      (n.performed machine (copies ++ saveState json machine)).view "mailbox" =
        some (json.stringify machine.mailbox) := by
  rw [performed_append]
  refine ⟨rfl, ?_⟩
  change (saveState json machine).foldl Effect.onStorage (n.performed machine copies).view
    "mailbox" = _
  rw [storage_saveState, Function.update_self]

end Node

/-- A block whose transaction launches the SwingSet. -/
def firstBlock : List (Event ℕ) :=
  [.beginTx false, .launch (some ⟨sending, 1⟩) .completed, .deliverInbound .nothing .completed,
    .endTx true, .commit]

end CosmicSwingset.Chain
