import CosmicSwingset.Solo.HelperQueue
import CosmicSwingset.SwingSet.Mailbox

/-!
# Sending batches to a chain

The deliverator that `connectToChain` of `chain-cosmos-sdk.js` returns: `deliver(newMessages,
acknum)` writes the batch to a temporary file with three awaited operations of its own, then joins
the helper queue `deliver`, which never cancels, to run `ag-cosmos-helper tx swingset deliver` on
that file. Any number of calls may be under way at once.
-/

set_option autoImplicit false
set_option relaxedAutoImplicit false

namespace CosmicSwingset.Solo

open Foundation SwingSet

/-- What a call of `deliver` awaits: `tempOpen`, `fs.write`, `fs.close` after a write that did or
did not succeed, the queued helper; or it has failed before it could join the queue. -/
inductive BatchPhase
  | opening
  | writing
  | closing (wrote : Bool)
  | queued
  | failed
  deriving DecidableEq

/-- A call `deliver(newMessages, acknum)`. -/
structure Batch where
  newMessages : List Message
  acknum : ℕ
  phase : BatchPhase
  deriving DecidableEq

/-- The deliverator of one chain: its calls in the order they were made, and the helper queue,
whose jobs are the indices of the calls. -/
structure Deliverator where
  batches : List Batch
  helper : HelperQueue ℕ
  deriving DecidableEq

/-- A turn of the deliverator: a new call, the completion of a file operation of call `i`, or a
turn of the helper queue. -/
inductive DeliveratorEvent
  | deliver (newMessages : List Message) (acknum : ℕ)
  | opened (i : ℕ) (ok : Bool)
  | wrote (i : ℕ) (ok : Bool)
  | closed (i : ℕ) (ok : Bool)
  | helper (turn : HelperQueue.Turn)
  deriving DecidableEq

namespace Deliverator

def empty : Deliverator := ⟨[], .empty⟩

def setPhase (d : Deliverator) (i : ℕ) (phase : BatchPhase) : Deliverator :=
  { d with batches := d.batches.modify i fun b ↦ { b with phase } }

def phase (d : Deliverator) (i : ℕ) : Option BatchPhase :=
  d.batches[i]?.map Batch.phase

def step (d : Deliverator) : DeliveratorEvent → Option Deliverator
  | .deliver newMessages acknum =>
    some { d with batches := d.batches ++ [⟨newMessages, acknum, .opening⟩] }
  | .opened i ok =>
    match d.phase i with
    | some .opening => some (d.setPhase i (if ok then .writing else .failed))
    | _ => none
  | .wrote i ok =>
    -- the `finally` closes the file whether or not the write succeeded
    match d.phase i with
    | some .writing => some (d.setPhase i (.closing ok))
    | _ => none
  | .closed i ok =>
    match d.phase i with
    | some (.closing wrote) =>
      if wrote && ok then
        some { d.setPhase i .queued with helper := d.helper.call none i }
      else some (d.setPhase i .failed)
    | _ => none
  | .helper turn =>
    match d.helper.step turn with
    | some helper => some { d with helper }
    | none => none

/-- What a turn can do: take a call, move one on with its file, let one join the queue, or let the
queue take a turn. A call fails, or closes its file after a failed write, only by the failure of an
operation of its own or of its write before. -/
theorem step_cases {d d' : Deliverator} {event : DeliveratorEvent}
    (hstep : d.step event = some d') :
    (∃ newMessages acknum, event = .deliver newMessages acknum ∧
        d' = { d with batches := d.batches ++ [⟨newMessages, acknum, .opening⟩] }) ∨
      (∃ i old new, d.phase i = some old ∧ d' = d.setPhase i new ∧
        (new = .failed ∨ new = .closing false →
          event = .opened i false ∨ event = .wrote i false ∨ event = .closed i false ∨
            old = .closing false)) ∨
      (∃ i, event = .closed i true ∧ d.phase i = some (.closing true) ∧
        d' = { d.setPhase i .queued with helper := d.helper.call none i }) ∨
      ∃ turn helper, event = .helper turn ∧ d.helper.step turn = some helper ∧
        d' = { d with helper } := by
  cases event with
  | deliver newMessages acknum => exact Or.inl ⟨_, _, rfl, (Option.some.inj hstep).symm⟩
  | opened i ok =>
    simp only [step] at hstep
    split at hstep <;> cases hstep
    rename_i hphase
    refine Or.inr (Or.inl ⟨i, _, _, hphase, rfl, fun hnew ↦ ?_⟩)
    cases ok with
    | true => simp at hnew
    | false => exact Or.inl rfl
  | wrote i ok =>
    simp only [step] at hstep
    split at hstep <;> cases hstep
    rename_i hphase
    refine Or.inr (Or.inl ⟨i, _, _, hphase, rfl, fun hnew ↦ ?_⟩)
    cases ok with
    | true => simp at hnew
    | false => exact Or.inr (Or.inl rfl)
  | closed i ok =>
    simp only [step] at hstep
    split at hstep
    · rename_i wrote hphase
      split_ifs at hstep with hok
      · cases hstep
        rw [Bool.and_eq_true] at hok
        rw [hok.1] at hphase
        exact Or.inr (Or.inr (Or.inl ⟨i, congrArg (DeliveratorEvent.closed i) hok.2, hphase, rfl⟩))
      · cases hstep
        refine Or.inr (Or.inl ⟨i, _, _, hphase, rfl, fun _ ↦ ?_⟩)
        cases ok with
        | true => cases wrote <;> simp at hok ⊢
        | false => exact Or.inr (Or.inr (Or.inl rfl))
    · cases hstep
  | helper turn =>
    simp only [step] at hstep
    split at hstep <;> cases hstep
    rename_i helper hturn
    exact Or.inr (Or.inr (Or.inr ⟨turn, helper, rfl, hturn, rfl⟩))

/-- The calls whose batches the helper was started on so far, in the order of the starts. -/
def submissions (d : Deliverator) : List ℕ :=
  d.helper.started.filterMap fun entry ↦ d.helper.jobs[entry]?

end Deliverator

end CosmicSwingset.Solo
