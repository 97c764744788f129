import CosmicSwingset.Chain.Application

/-!
# Discarded transactions

The writes of a transaction that fails, or that is only simulated, are dropped from the store. The
machine in memory and the state file should then be as they were when it began, and between
transactions a launched SwingSet should be in step with both halves of its checkpoint, the file and
the mailbox entry of the block (`LeavesNoTrace`).

Nothing in `launch-chain.js` undoes a run of the kernel or the write of the file, so a discarded
transaction in which a message finds new work leaves the machine ahead of the store
(`drift_not_leavesNoTrace`). The runs in which every discarded transaction found the SwingSet
launched and no new work have the property in every state (`leavesNoTrace_of_idle`).
-/

set_option autoImplicit false
set_option relaxedAutoImplicit false

namespace CosmicSwingset.Chain

open Foundation SwingSet

variable {K : Type*} (json : DeterministicJson) (empty : K)

/-- A machine is the one that the file and a store have saved. -/
def InStep (live : Option (Machine K)) (file : StateFile K) (storage : MailboxStorage) : Prop :=
  ∀ m ∈ live, file = .json m.kernel ∧ storage "mailbox" = some (json.stringify m.mailbox)

instance [DecidableEq K] (live : Option (Machine K)) (file : StateFile K)
    (storage : MailboxStorage) : Decidable (InStep json live file storage) :=
  inferInstanceAs (Decidable (∀ m ∈ live, file = .json m.kernel ∧
    storage "mailbox" = some (json.stringify m.mailbox)))

/-- A discarded transaction leaves the memory and the file as they were when it began, and outside
of transactions the machine is in step with the file and the block. -/
def LeavesNoTrace (n : Node K) (event : Event K) (n' : Node K) : Prop :=
  (event = .endTx false → ∀ tx ∈ n.tx, n'.live = tx.liveBefore ∧ n'.file = tx.fileBefore) ∧
    (n'.tx = none → InStep json n'.live n'.file n'.block)

/-- Every message of a discarded transaction found the SwingSet launched and no new work. -/
def DiscardsIdle (n : Node K) (event : Event K) (_ : Node K) : Prop :=
  event = .endTx false → ∀ tx ∈ n.tx, tx.idle = true

/-- Outside of transactions the machine is in step with the block. In an open one it is in step with
the store of the transaction while that may still be kept, and has not moved while the transaction
is idle. -/
structure Tracked (n : Node K) : Prop where
  outside : n.tx = none → InStep json n.live n.file n.block
  kept : ∀ tx ∈ n.tx, tx.simulate = false → tx.failed = false → InStep json n.live n.file n.view
  idle : ∀ tx ∈ n.tx, tx.idle = true →
    n.live = tx.liveBefore ∧ n.file = tx.fileBefore ∧ InStep json n.live n.file n.block

instance [DecidableEq K] (n : Node K) (event : Event K) (n' : Node K) :
    Decidable (LeavesNoTrace json n event n') :=
  match event with
  | .endTx false => decidable_of_iff
      ((∀ tx ∈ n.tx, n'.live = tx.liveBefore ∧ n'.file = tx.fileBefore) ∧
        (n'.tx.isNone → InStep json n'.live n'.file n'.block)) (by simp [LeavesNoTrace])
  | .endTx true | .beginTx _ | .launch _ _ | .deliverInbound _ _ | .commit | .crash =>
    decidable_of_iff (n'.tx.isNone → InStep json n'.live n'.file n'.block)
      (by simp [LeavesNoTrace])

instance (n : Node K) (event : Event K) (n' : Node K) : Decidable (DiscardsIdle n event n') :=
  match event with
  | .endTx false => decidable_of_iff (∀ tx ∈ n.tx, tx.idle = true) (by simp [DiscardsIdle])
  | .endTx true | .beginTx _ | .launch _ _ | .deliverInbound _ _ | .commit | .crash =>
    .isTrue (by simp [DiscardsIdle])

variable {json}

theorem tracked_genesis : Tracked json (Node.genesis : Node K) := by
  constructor <;> simp [Node.genesis, InStep]

/-- Nothing is in memory after a crash. -/
theorem tracked_crash (n : Node K) : Tracked json n.crash := by
  constructor <;> simp [Node.crash, InStep]

namespace Tracked

variable {n n' : Node K}

/-- A transaction that has failed will not be kept. -/
theorem of_failed {tx : Tx K} (htx : n.tx = some tx) (hfailed : tx.failed = true)
    (hidle : tx.idle = true →
      n.live = tx.liveBefore ∧ n.file = tx.fileBefore ∧ InStep json n.live n.file n.block) :
    Tracked json n := by
  refine ⟨by simp [htx], ?_, ?_⟩
  · intro tx' htx' _ hkept
    rw [← Option.some.inj (htx.symm.trans htx'), hfailed] at hkept
    exact absurd hkept.symm Bool.false_ne_true
  · intro tx' htx'
    rw [← Option.some.inj (htx.symm.trans htx')]
    exact hidle

/-- A call that finds new work, or a launch: the transaction is no longer idle. -/
theorem perform_busy {tx : Tx K} (hbusy : tx.idle = false) {launching : Bool} {call : Call K}
    (hcall : call.resolves = true → ∃ copies, call.effects = copies ++ saveState json call.live)
    {fate : Fate} (hperform : n.perform tx launching call fate = some n') : Tracked json n' := by
  cases fate with
  | completed =>
    obtain rfl := Option.some.inj hperform
    refine ⟨by simp, ?_, ?_⟩
    · intro tx' htx' _ hfailed
      obtain rfl := Option.some.inj htx'
      obtain ⟨copies, heffects⟩ := hcall (by simpa using hfailed)
      intro m hm
      obtain rfl := Option.some.inj hm
      rw [heffects]
      exact Node.saved_performed json n call.live copies
    · intro tx' htx' hidle
      obtain rfl := Option.some.inj htx'
      exact absurd hidle (by simp [hbusy])
  | threw i =>
    simp only [Node.perform] at hperform
    split at hperform <;> cases hperform
    exact of_failed rfl rfl fun hidle ↦ absurd hidle (by simp [hbusy])
  | crashed i =>
    obtain rfl := Option.some.inj hperform
    exact tracked_crash _

/-- A call that finds no new work changes nothing. -/
theorem perform_nothing (h : Tracked json n) {tx : Tx K} (htx : n.tx = some tx)
    (hfailed : tx.failed = false) {live : Machine K} (hlive : n.live = some live) {fate : Fate}
    (hperform : n.perform tx false (deliverInbound json live .nothing) fate = some n') :
    Tracked json n' := by
  cases fate with
  | completed =>
    obtain rfl := Option.some.inj hperform
    refine ⟨by simp, ?_, ?_⟩
    · intro tx' htx' hsimulate _
      obtain rfl := Option.some.inj htx'
      have hview := h.kept tx htx hsimulate hfailed
      rw [hlive] at hview
      exact hview
    · intro tx' htx' hidle
      obtain rfl := Option.some.inj htx'
      have hbefore := h.idle tx htx hidle
      rw [hlive] at hbefore
      exact hbefore
  | threw i =>
    simp [Node.perform, deliverInbound] at hperform
  | crashed i =>
    obtain rfl := Option.some.inj hperform
    exact tracked_crash _

theorem step (h : Tracked json n) {event : Event K} (hdiscards : DiscardsIdle n event n')
    (hstep : n.step json empty event = some n') : Tracked json n' := by
  cases event with
  | beginTx simulate =>
    obtain ⟨hnone, rfl⟩ := Node.step_beginTx hstep
    have hblock := h.outside hnone
    refine ⟨by simp, ?_, ?_⟩
    · intro tx htx hsimulate _
      obtain rfl := Option.some.inj htx
      have hmode : simulate = false := hsimulate
      simpa [hmode] using hblock
    · intro tx htx _
      obtain rfl := Option.some.inj htx
      exact ⟨rfl, rfl, hblock⟩
  | launch buildSwingset fate =>
    obtain ⟨tx, htx, -, -, rfl | ⟨call, hcall, hperform⟩⟩ := Node.step_launch hstep
    · exact of_failed rfl rfl (h.idle tx htx)
    · refine perform_busy ?_ (fun _ ↦ ?_) hperform
      · rfl
      · exact ⟨[], effects_of_launch json hcall⟩
  | deliverInbound work fate =>
    obtain ⟨tx, live, htx, hlive, hfailed, hperform⟩ := Node.step_deliverInbound hstep
    rcases hperform with ⟨rfl, hperform⟩ | ⟨hwork, hperform⟩
    · exact h.perform_nothing htx hfailed hlive hperform
    · refine perform_busy ?_ (fun hresolves ↦ ?_) hperform
      · rfl
      · cases work with
        | nothing => exact absurd rfl hwork
        | ran after => exact ⟨_, rfl⟩
        | threw after => cases hresolves
  | endTx keep =>
    obtain ⟨tx, htx, ⟨-, hfailed, hsimulate, rfl⟩ | ⟨hkeep, rfl⟩⟩ := Node.step_endTx hstep
    · exact ⟨fun _ ↦ h.kept tx htx hsimulate hfailed, by simp, by simp⟩
    · have hidle := hdiscards (by rw [hkeep]) tx htx
      exact ⟨fun _ ↦ (h.idle tx htx hidle).2.2, by simp, by simp⟩
  | commit =>
    obtain ⟨hnone, rfl⟩ := Node.step_commit hstep
    exact ⟨fun _ ↦ h.outside hnone, by simp [hnone], by simp [hnone]⟩
  | crash =>
    obtain rfl := Option.some.inj hstep
    exact tracked_crash n

/-- A discarded idle transaction leaves no trace. -/
theorem leavesNoTrace (h : Tracked json n) {event : Event K} (hdiscards : DiscardsIdle n event n')
    (hstep : n.step json empty event = some n') : LeavesNoTrace json n event n' := by
  refine ⟨?_, (h.step empty hdiscards hstep).outside⟩
  rintro rfl tx htx
  have hidle := h.idle tx htx (hdiscards rfl tx htx)
  obtain ⟨-, -, ⟨hkeep, -⟩ | ⟨-, rfl⟩⟩ := Node.step_endTx hstep
  · cases hkeep
  · exact ⟨hidle.1, hidle.2.1⟩

end Tracked

/-- In every run in which the messages of a discarded transaction found the SwingSet launched and no
new work, a discarded transaction leaves the machine and the state file as they were when it began,
and between transactions a launched machine is the one that the file and the block have saved. -/
theorem leavesNoTrace_of_idle (json : DeterministicJson) (empty : K) (events : List (Event K))
    (hdiscards : AllSteps (Node.step json empty) DiscardsIdle Node.genesis events) :
    AllSteps (Node.step json empty) (LeavesNoTrace json) Node.genesis events := by
  refine AllSteps.of_invariant (I := Tracked json) ?_ ?_ tracked_genesis hdiscards
  · intro n event n' htracked hdiscards hstep
    exact htracked.step empty hdiscards hstep
  · intro n event n' htracked hdiscards hstep
    exact htracked.leavesNoTrace empty hdiscards hstep

/-! ### Two discarded transactions -/

/-- A simulated message that finds no new work, and a block that delivers one. -/
theorem leavesNoTrace_simulated :
    AllSteps (Node.step djson 0) (LeavesNoTrace djson) Node.genesis
      (firstBlock ++ [.beginTx true, .deliverInbound .nothing .completed, .endTx false,
        .beginTx false, .deliverInbound (.ran ⟨quiet, 2⟩) .completed, .endTx true, .commit]) :=
  leavesNoTrace_of_idle djson 0 _ (by decide)

/-- A message finds new work and is delivered, and a later message of its transaction fails. -/
def drift : List (Event ℕ) :=
  firstBlock ++ [.beginTx false, .deliverInbound (.ran ⟨quiet, 2⟩) .completed, .endTx false]

theorem drift_not_leavesNoTrace :
    (run (Node.step djson 0) Node.genesis drift).isSome ∧
      ¬ AllSteps (Node.step djson 0) (LeavesNoTrace djson) Node.genesis drift := by
  decide

end CosmicSwingset.Chain
