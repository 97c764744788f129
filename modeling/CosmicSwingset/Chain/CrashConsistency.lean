import CosmicSwingset.Chain.Application

/-!
# Crash consistency of the checkpoint

A launch should start from a kernel state and a mailbox map that one earlier `saveState` saved
together, or from both empty if none was ever completed (`StartsFromOneSave`). The two halves are
written one after the other and become durable at different moments, the file at once and the
mailbox entry with its block, and a file that does not parse is taken for an empty kernel. So a
crash between the two pairs the kernel of one save with the mailbox map of another
(`torn_not_startsFromOneSave`).

It holds in every run in which a launch comes only when the last `saveState` has got its mailbox
entry committed, or before any has written the file in full (`startsFromOneSave_of_settled`). The
invariant is what each stage of a save has made sure of (`Coherent`).
-/

set_option autoImplicit false
set_option relaxedAutoImplicit false

namespace CosmicSwingset.Chain

open Foundation SwingSet

variable {K : Type*} (json : DeterministicJson) (empty : K)

/-- A launch starts from a machine saved by one earlier save, or from an empty one when there was no
save. -/
def StartsFromOneSave (n : Node K) (event : Event K) (_ : Node K) : Prop :=
  match event with
  | .launch _ _ => ∃ start ∈ initialState json empty n.file n.view,
      (∃ saved ∈ n.saves, start.kernel = saved.kernel ∧
        start.mailbox.entries.Perm saved.mailbox.entries) ∨
      start = ⟨.empty, empty⟩ ∧ n.saves = []
  | _ => True

instance [DecidableEq K] (n : Node K) (event : Event K) (n' : Node K) :
    Decidable (StartsFromOneSave json empty n event n') :=
  match event with
  | .launch _ _ => inferInstanceAs
      (Decidable (∃ start ∈ initialState json empty n.file n.view,
        (∃ saved ∈ n.saves, start.kernel = saved.kernel ∧
          start.mailbox.entries.Perm saved.mailbox.entries) ∨
        start = ⟨.empty, empty⟩ ∧ n.saves = []))
  | .beginTx _ | .deliverInbound _ _ | .endTx _ | .commit | .crash => .isTrue trivial

/-- A launch comes only when no save has written the file in full, or when the mailbox entry of the
last save is committed. -/
def LaunchesSettled (n : Node K) (event : Event K) (_ : Node K) : Prop :=
  match event with
  | .launch _ _ => n.saving = .never ∨ n.saving = .settled
  | _ => True

instance (n : Node K) (event : Event K) (n' : Node K) :
    Decidable (LaunchesSettled n event n') :=
  match event with
  | .launch _ _ => inferInstanceAs (Decidable (n.saving = .never ∨ n.saving = .settled))
  | .beginTx _ | .deliverInbound _ _ | .endTx _ | .commit | .crash => .isTrue trivial

/-- A store has the mailbox entry of a machine. -/
def Holds (storage : MailboxStorage) (m : Machine K) : Prop :=
  storage "mailbox" = some (json.stringify m.mailbox)

/-- What the stages of a save have made sure of. -/
structure Coherent (n : Node K) : Prop where
  never : n.saving = .never → (∀ kernel, n.file ≠ .json kernel) ∧ n.saves = [] ∧
    n.view "mailbox" = none ∧ n.block "mailbox" = none ∧ n.committed "mailbox" = none
  inTx : n.saving = .inTx → n.tx ≠ none ∧ ∃ m ∈ n.saves, n.file = .json m.kernel ∧
    Holds json n.view m
  inBlock : n.saving = .inBlock → ∃ m ∈ n.saves, n.file = .json m.kernel ∧ Holds json n.block m ∧
    ∀ tx, n.tx = some tx → tx.simulate = false → Holds json n.view m
  settled : n.saving = .settled → ∃ m ∈ n.saves, n.file = .json m.kernel ∧
    Holds json n.view m ∧ Holds json n.block m ∧ Holds json n.committed m

variable {json}

theorem holds_saveState (storage : MailboxStorage) (m : Machine K) :
    Holds json ((saveState json m).foldl Effect.onStorage storage) m := by
  rw [storage_saveState, Holds, Function.update_self]

theorem coherent_genesis : Coherent json (Node.genesis : Node K) := by
  constructor <;> simp [Node.genesis]

/-- A stage that makes sure of nothing. -/
theorem Coherent.of_torn {n : Node K} (h : n.saving = .writing ∨ n.saving = .lost) :
    Coherent json n := by
  constructor <;> intro hsaving <;> rw [hsaving] at h <;> simp at h

namespace Coherent

variable {n : Node K}

/-! One stage at a time: what it makes sure of is all there is to show. -/

theorem of_never (hsaving : n.saving = .never)
    (h : (∀ kernel, n.file ≠ .json kernel) ∧ n.saves = [] ∧ n.view "mailbox" = none ∧
      n.block "mailbox" = none ∧ n.committed "mailbox" = none) : Coherent json n := by
  refine ⟨fun _ ↦ h, ?_, ?_, ?_⟩
  all_goals exact fun hother ↦ absurd (hsaving.symm.trans hother) (by simp)

theorem of_inBlock (hsaving : n.saving = .inBlock)
    (h : ∃ m ∈ n.saves, n.file = .json m.kernel ∧ Holds json n.block m ∧
      ∀ tx, n.tx = some tx → tx.simulate = false → Holds json n.view m) : Coherent json n := by
  refine ⟨?_, ?_, fun _ ↦ h, ?_⟩
  all_goals exact fun hother ↦ absurd (hsaving.symm.trans hother) (by simp)

theorem of_settled (hsaving : n.saving = .settled)
    (h : ∃ m ∈ n.saves, n.file = .json m.kernel ∧ Holds json n.view m ∧ Holds json n.block m ∧
      Holds json n.committed m) : Coherent json n := by
  refine ⟨?_, ?_, ?_, fun _ ↦ h⟩
  all_goals exact fun hother ↦ absurd (hsaving.symm.trans hother) (by simp)

/-- A launch that comes settled starts from one save. -/
theorem startsFromOneSave (h : Coherent json n)
    (hsettled : n.saving = .never ∨ n.saving = .settled) :
    ∃ start ∈ initialState json empty n.file n.view,
      (∃ saved ∈ n.saves, start.kernel = saved.kernel ∧
        start.mailbox.entries.Perm saved.mailbox.entries) ∨
      start = ⟨.empty, empty⟩ ∧ n.saves = [] := by
  rcases hsettled with hnever | hsettled
  · obtain ⟨hfile, hsaves, hview, -, -⟩ := h.never hnever
    refine ⟨⟨.empty, empty⟩, ?_, Or.inr ⟨rfl, hsaves⟩⟩
    rw [initialState, hview]
    cases hkernel : n.file with
    | absent => rfl
    | cut => rfl
    | json kernel => exact absurd hkernel (hfile kernel)
  · obtain ⟨saved, hmem, hfile, hview, -, -⟩ := h.settled hsettled
    obtain ⟨parsed, hparsed, hperm⟩ := json.parse_stringify saved.mailbox
    refine ⟨⟨parsed, saved.kernel⟩, ?_, Or.inl ⟨saved, hmem, rfl, hperm⟩⟩
    have hentry : n.view "mailbox" = some (json.stringify saved.mailbox) := hview
    simp only [initialState, hfile, hentry, hparsed, StateFile.kernel, Option.map_some,
      Option.mem_def]

/-- Copies for peers leave the mailbox entry alone. -/
theorem copies (h : Coherent json n) (machine : Machine K) {copies : List (Effect K)}
    (hcopies : ∀ effect ∈ copies, effect.IsCopy) : Coherent json (n.performed machine copies) := by
  have hview : copies.foldl Effect.onStorage n.view "mailbox" = n.view "mailbox" :=
    mailbox_copies hcopies
  rw [Node.performed_copies n machine hcopies]
  constructor <;> simp only [Holds, hview]
  · exact h.never
  · exact h.inTx
  · exact h.inBlock
  · exact h.settled

/-- Any number of the writes of a save. -/
theorem saveState (h : Coherent json n) (htx : n.tx ≠ none) (machine : Machine K) (i : ℕ) :
    Coherent json (n.performed machine ((saveState json machine).take i)) := by
  match i with
  | 0 => exact h
  | 1 =>
    by_cases hnever : n.saving = .never
    · -- the first save: the file is cut, and there is still no entry
      have hsaving :
          (n.performed machine ((Chain.saveState json machine).take 1)).saving = .never := by
        simp [Node.performed, Chain.saveState, hnever, Saving.onEffect]
      obtain ⟨-, hentries⟩ := h.never hnever
      exact of_never hsaving
        ⟨fun kernel ↦ by simp [Node.performed, Chain.saveState, Effect.onFile], hentries⟩
    · refine of_torn (Or.inl ?_)
      cases hsaving : n.saving with
      | never => exact absurd hsaving hnever
      | _ => simp [Node.performed, Chain.saveState, hsaving, Saving.onEffect]
  | 2 =>
    refine of_torn (Or.inl ?_)
    cases hsaving : n.saving <;> simp [Node.performed, Chain.saveState, hsaving, Saving.onEffect]
  | i + 3 =>
    rw [List.take_of_length_le (by simp [Chain.saveState])]
    have hsaving : (n.performed machine (Chain.saveState json machine)).saving = .inTx := by
      cases hold : n.saving <;> simp [Node.performed, Chain.saveState, hold, Saving.onEffect]
    constructor <;> intro hother <;> rw [hsaving] at hother
    · cases hother
    · exact ⟨htx, machine, List.mem_cons_self, rfl, holds_saveState n.view machine⟩
    · cases hother
    · cases hother

/-- Any number of the writes of a call. -/
theorem call (h : Coherent json n) (htx : n.tx ≠ none) {call : Call K} (hcall : call.Saves json)
    (i : ℕ) : Coherent json (n.performed call.live (call.effects.take i)) := by
  rcases hcall with hnone | ⟨copies, hcopies, heffects⟩
  · rw [hnone, List.take_nil]
    exact h
  · rw [heffects, List.take_append, Node.performed_append]
    refine (h.copies call.live fun effect heffect ↦ ?_).saveState htx call.live _
    exact hcopies effect (List.mem_of_mem_take heffect)

/-- Memory is no part of the invariant, nor is what an open transaction records. -/
theorem of_live_tx (h : Coherent json n) {old : Tx K} (hold : n.tx = some old)
    (live : Option (Machine K)) {tx : Tx K} (hsimulate : tx.simulate = old.simulate) :
    Coherent json { n with live, tx := some tx } where
  never := h.never
  inTx := fun hsaving ↦ ⟨Option.some_ne_none tx, (h.inTx hsaving).2⟩
  inBlock := fun hsaving ↦ by
    obtain ⟨m, hmem, hfile, hblock, hview⟩ := h.inBlock hsaving
    refine ⟨m, hmem, hfile, hblock, fun other hother hmode ↦ hview old hold ?_⟩
    rw [← hsimulate, Option.some.inj hother, hmode]
  settled := h.settled

theorem crash (h : Coherent json n) : Coherent json n.crash := by
  cases hsaving : n.saving with
  | never =>
    obtain ⟨hfile, hsaves, -, -, hcommitted⟩ := h.never hsaving
    exact of_never (by simp [Node.crash, hsaving, Saving.crash])
      ⟨hfile, hsaves, hcommitted, hcommitted, hcommitted⟩
  | settled =>
    obtain ⟨saved, hmem, hfile, -, -, hcommitted⟩ := h.settled hsaving
    exact of_settled (by simp [Node.crash, hsaving, Saving.crash])
      ⟨saved, hmem, hfile, hcommitted, hcommitted, hcommitted⟩
  | _ => exact of_torn (Or.inr (by simp [Node.crash, hsaving, Saving.crash]))

theorem perform {n' : Node K} (h : Coherent json n) {old tx : Tx K} (hold : n.tx = some old)
    (hsimulate : tx.simulate = old.simulate) {call : Call K} (hcall : call.Saves json)
    {launching : Bool} {fate : Fate}
    (hperform : n.perform tx launching call fate = some n') : Coherent json n' := by
  have htx : n.tx ≠ none := by simp [hold]
  cases fate with
  | completed =>
    obtain rfl := Option.some.inj hperform
    have hall := h.call htx hcall call.effects.length
    rw [List.take_length] at hall
    exact hall.of_live_tx hold _ hsimulate
  | threw i =>
    simp only [Node.perform] at hperform
    split at hperform <;> cases hperform
    exact (h.call htx hcall i).of_live_tx hold _ hsimulate
  | crashed i =>
    obtain rfl := Option.some.inj hperform
    exact (h.call htx hcall i).crash

/-- A transaction begins on the store of the block, or on the committed one. -/
theorem beginTx (h : Coherent json n) (hnone : n.tx = none) (tx : Tx K) :
    Coherent json
      { n with
        view := if tx.simulate then n.committed else n.block
        tx := some tx } where
  never := fun hsaving ↦ by
    obtain ⟨hfile, hsaves, -, hblock, hcommitted⟩ := h.never hsaving
    refine ⟨hfile, hsaves, ?_, hblock, hcommitted⟩
    by_cases hsimulate : tx.simulate <;> simp [hsimulate, hblock, hcommitted]
  inTx := fun hsaving ↦ absurd hnone (h.inTx hsaving).1
  inBlock := fun hsaving ↦ by
    obtain ⟨m, hmem, hfile, hblock, -⟩ := h.inBlock hsaving
    refine ⟨m, hmem, hfile, hblock, fun other hother hmode ↦ ?_⟩
    have hsimulate : tx.simulate = false := Option.some.inj hother ▸ hmode
    simpa [hsimulate] using hblock
  settled := fun hsaving ↦ by
    obtain ⟨m, hmem, hfile, -, hblock, hcommitted⟩ := h.settled hsaving
    refine ⟨m, hmem, hfile, ?_, hblock, hcommitted⟩
    by_cases hsimulate : tx.simulate
    · simpa [hsimulate] using hcommitted
    · simpa [hsimulate] using hblock

/-- A transaction that is kept gives its store to the block. -/
theorem keep (h : Coherent json n) {tx : Tx K} (htx : n.tx = some tx)
    (hsimulate : tx.simulate = false) :
    Coherent json { n with block := n.view, tx := none, saving := n.saving.keep } := by
  cases hsaving : n.saving with
  | never =>
    obtain ⟨hfile, hsaves, hview, -, hcommitted⟩ := h.never hsaving
    exact of_never (by simp [Saving.keep]) ⟨hfile, hsaves, hview, hview, hcommitted⟩
  | inTx =>
    obtain ⟨-, m, hmem, hfile, hview⟩ := h.inTx hsaving
    exact of_inBlock (by simp [Saving.keep]) ⟨m, hmem, hfile, hview, by simp⟩
  | inBlock =>
    obtain ⟨m, hmem, hfile, -, hview⟩ := h.inBlock hsaving
    exact of_inBlock (by simp [Saving.keep]) ⟨m, hmem, hfile, hview tx htx hsimulate, by simp⟩
  | settled =>
    obtain ⟨m, hmem, hfile, hview, -, hcommitted⟩ := h.settled hsaving
    exact of_settled (by simp [Saving.keep]) ⟨m, hmem, hfile, hview, hview, hcommitted⟩
  | _ => exact of_torn (by simp [Saving.keep])

theorem drop (h : Coherent json n) :
    Coherent json { n with view := n.block, tx := none, saving := n.saving.drop } := by
  cases hsaving : n.saving with
  | never =>
    obtain ⟨hfile, hsaves, -, hblock, hcommitted⟩ := h.never hsaving
    exact of_never (by simp [Saving.drop]) ⟨hfile, hsaves, hblock, hblock, hcommitted⟩
  | inBlock =>
    obtain ⟨m, hmem, hfile, hblock, -⟩ := h.inBlock hsaving
    exact of_inBlock (by simp [Saving.drop]) ⟨m, hmem, hfile, hblock, by simp⟩
  | settled =>
    obtain ⟨m, hmem, hfile, -, hblock, hcommitted⟩ := h.settled hsaving
    exact of_settled (by simp [Saving.drop]) ⟨m, hmem, hfile, hblock, hblock, hcommitted⟩
  | _ => exact of_torn (by simp [Saving.drop])

theorem commit (h : Coherent json n) (hnone : n.tx = none) :
    Coherent json
      { n with
        committed := n.block
        view := n.block
        saving := n.saving.commit } := by
  cases hsaving : n.saving with
  | never =>
    obtain ⟨hfile, hsaves, -, hblock, -⟩ := h.never hsaving
    exact of_never (by simp [Saving.commit]) ⟨hfile, hsaves, hblock, hblock, hblock⟩
  | inTx => exact absurd hnone (h.inTx hsaving).1
  | inBlock =>
    obtain ⟨m, hmem, hfile, hblock, -⟩ := h.inBlock hsaving
    exact of_settled (by simp [Saving.commit]) ⟨m, hmem, hfile, hblock, hblock, hblock⟩
  | settled =>
    obtain ⟨m, hmem, hfile, -, hblock, -⟩ := h.settled hsaving
    exact of_settled (by simp [Saving.commit]) ⟨m, hmem, hfile, hblock, hblock, hblock⟩
  | _ => exact of_torn (by simp [Saving.commit])

theorem step {n' : Node K} {event : Event K} (h : Coherent json n)
    (hstep : n.step json empty event = some n') : Coherent json n' := by
  cases event with
  | beginTx simulate =>
    obtain ⟨htx, rfl⟩ := Node.step_beginTx hstep
    exact h.beginTx htx ⟨simulate, false, n.live, n.file, true⟩
  | launch buildSwingset fate =>
    obtain ⟨tx, htx, -, -, rfl | ⟨call, hcall, hperform⟩⟩ := Node.step_launch hstep
    · exact h.of_live_tx htx n.live rfl
    · refine h.perform htx ?_ (saves_of_launch json hcall) hperform
      rfl
  | deliverInbound work fate =>
    obtain ⟨tx, live, htx, -, -, hperform⟩ := Node.step_deliverInbound hstep
    have hcall := saves_deliverInbound json live work
    rcases hperform with ⟨-, hperform⟩ | ⟨-, hperform⟩
    · exact h.perform htx rfl hcall hperform
    · refine h.perform htx ?_ hcall hperform
      rfl
  | endTx keep =>
    obtain ⟨tx, htx, ⟨-, -, hsimulate, rfl⟩ | ⟨-, rfl⟩⟩ := Node.step_endTx hstep
    · exact h.keep htx hsimulate
    · exact h.drop
  | commit =>
    obtain ⟨htx, rfl⟩ := Node.step_commit hstep
    exact h.commit htx
  | crash =>
    obtain rfl := Option.some.inj hstep
    exact h.crash

end Coherent

/-- In every run in which a launch comes only when the mailbox entry of the last save is committed,
or before any save has written the file in full, each launch starts from a kernel state and a
mailbox map that one earlier save saved together, or from both empty when no save was completed. -/
theorem startsFromOneSave_of_settled (json : DeterministicJson) (empty : K)
    (events : List (Event K))
    (hsettled : AllSteps (Node.step json empty) LaunchesSettled Node.genesis events) :
    AllSteps (Node.step json empty) (StartsFromOneSave json empty) Node.genesis events := by
  refine AllSteps.of_invariant (I := Coherent json) ?_ ?_ coherent_genesis hsettled
  · intro n event n' hcoherent _ hstep
    exact hcoherent.step empty hstep
  · intro n event n' hcoherent hlaunch _
    cases event with
    | launch buildSwingset fate => exact hcoherent.startsFromOneSave empty hlaunch
    | _ => trivial

/-! ### Two crashes -/

/-- The process restarts after the block, and the next message launches it again. -/
theorem startsFromOneSave_restart :
    AllSteps (Node.step djson 0) (StartsFromOneSave djson 0) Node.genesis
      (firstBlock ++ [.crash, .beginTx false, .launch (some ⟨sending, 2⟩) .completed]) :=
  startsFromOneSave_of_settled djson 0 _ (by decide +kernel)

/-- The process crashes after the first save and before its block is committed. -/
def uncommitted : List (Event ℕ) :=
  [.beginTx false, .launch (some ⟨sending, 1⟩) .completed, .crash, .beginTx false,
    .launch (some ⟨sending, 2⟩) .completed]

/-- The process crashes in the middle of writing the file, and the next launch takes the damaged
file for an empty kernel beside the committed map. -/
def damaged : List (Event ℕ) :=
  firstBlock ++ [.beginTx false, .deliverInbound (.ran ⟨sending, 2⟩) (.crashed 1), .beginTx false,
    .launch (some ⟨sending, 3⟩) .completed]

theorem torn_not_startsFromOneSave :
    (run (Node.step djson 0) Node.genesis uncommitted).isSome ∧
      ¬ AllSteps (Node.step djson 0) (StartsFromOneSave djson 0) Node.genesis uncommitted ∧
      (run (Node.step djson 0) Node.genesis damaged).isSome ∧
      ¬ AllSteps (Node.step djson 0) (StartsFromOneSave djson 0) Node.genesis damaged := by
  decide +kernel

end CosmicSwingset.Chain
