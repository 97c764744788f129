import CosmicSwingset.Solo.HelperQueueSafety

/-!
# One mailbox query at a time

`getMailbox` of `chain-cosmos-sdk.js` is called for each new block, and calls `queuedHelper` with
room for one call in the queue. A call that finds another one in the queue cancels it and takes its
place at once; but the helper process of the one that is cancelled goes on, because its flag is
looked at only before and after the process, and the new call does not wait for it.

So two processes are under way as soon as a block comes while a process runs (`two_running`). As
long as each block finds none running there is never more than one (`exclusive_of_idle`).
-/

set_option autoImplicit false
set_option relaxedAutoImplicit false

namespace CosmicSwingset.Solo

open Foundation

/-- An `update` of the light client, which calls `getMailbox`, or a turn of a call made before. -/
inductive MailboxEvent
  | update
  | turn (turn : HelperQueue.Turn)
  deriving DecidableEq

/-- What happens to the queue `getMailbox`, where all calls have the same arguments. -/
def MailboxEvent.helperEvent : MailboxEvent → HelperEvent Unit
  | update => .call (some 1) ()
  | turn t => .turn t

namespace HelperQueue

def mailboxStep (q : HelperQueue Unit) (event : MailboxEvent) : Option (HelperQueue Unit) :=
  q.act event.helperEvent

section

variable {ι : Type*} {q q' : HelperQueue ι}

/-- At most one helper process is under way. -/
def Exclusive (q : HelperQueue ι) : Prop :=
  ∀ i j, q.Running i → q.Running j → i = j

/-- No helper process is under way. -/
def Idle (q : HelperQueue ι) : Prop := ∀ i, ¬ q.Running i

theorem idle_iff : q.Idle ↔ ∀ c ∈ q.calls, c.phase ≠ .running := by
  constructor
  · intro h c hc hphase
    obtain ⟨i, hi⟩ := List.mem_iff_getElem?.mp hc
    exact h i ⟨c, hi, hphase⟩
  · rintro h i ⟨c, hc, hphase⟩
    exact h c (List.mem_of_getElem? hc) hphase

instance (q : HelperQueue ι) : Decidable q.Idle :=
  decidable_of_iff _ idle_iff.symm

/-- A new call starts and ends no helper process, cancelled or not. -/
theorem running_call {maxQueued : Option ℕ} {job : ι} {i : ℕ} :
    (q.call maxQueued job).Running i ↔ q.Running i := by
  have hjoin : ∀ q : HelperQueue ι, (q.call none job).Running i ↔ q.Running i := by
    intro q
    constructor
    · rintro ⟨c, hc, hphase⟩
      rcases getElem?_call.mp hc with hold | ⟨-, rfl⟩
      · exact ⟨c, hold, hphase⟩
      · cases hphase
    · rintro ⟨c, hc, hphase⟩
      exact ⟨c, getElem?_call.mpr (Or.inl hc), hphase⟩
  cases maxQueued with
  | none => exact hjoin q
  | some m =>
    refine (hjoin (q.cancelExcess m)).trans ?_
    constructor
    · rintro ⟨c, hc, hphase⟩
      obtain ⟨old, hold, rfl⟩ := getElem?_cancelExcess.mp hc
      refine ⟨old, hold, ?_⟩
      split_ifs at hphase
      · exact hphase
      · exact hphase
    · rintro ⟨c, hc, hphase⟩
      refine ⟨_, getElem?_cancelExcess.mpr ⟨c, hc, rfl⟩, ?_⟩
      split_ifs
      · exact hphase
      · exact hphase

/-- Where a call of `finish` ends, the processes of the others go on as before. -/
theorem running_of_finish {i j : ℕ} (h : (q.finish i).Running j) : q.Running j := by
  obtain ⟨c, hc, hphase⟩ := h
  unfold finish wakeHead at hc
  split at hc
  · obtain ⟨old, hold, rfl⟩ := (getElem?_modify (q := q) (i := i)).mp hc
    split_ifs at hphase
    exact ⟨old, hold, hphase⟩
  · obtain ⟨mid, hmid, rfl⟩ := getElem?_modify.mp hc
    obtain ⟨old, hold, rfl⟩ := (getElem?_modify (q := q) (i := i)).mp hmid
    refine ⟨old, hold, ?_⟩
    split_ifs at hphase
    · exact hphase
    · exact hphase

/-- Only a call that is not cancelled starts a helper process. -/
theorem running_of_step {turn : Turn} (hstep : q.step turn = some q') {j : ℕ}
    (hj : q'.Running j) : q.Running j ∨ q.Kept j := by
  obtain ⟨i, c, hcall, -, ⟨rfl, -⟩ | ⟨-, -, hcancelled, rfl⟩ | ⟨-, phase, -, hstopped, rfl⟩⟩ :=
    step_cases hstep
  · exact Or.inl (running_of_finish hj)
  · obtain ⟨c', hc', hphase⟩ := hj
    obtain ⟨old, hold, rfl⟩ := (getElem?_modify (q := q) (i := i)).mp hc'
    by_cases hij : i = j
    · exact Or.inr ⟨c, hij ▸ hcall, hcancelled⟩
    · rw [if_neg hij] at hphase
      exact Or.inl ⟨old, hold, hphase⟩
  · obtain ⟨c', hc', hphase⟩ := hj
    obtain ⟨old, hold, rfl⟩ := getElem?_modify.mp hc'
    split_ifs at hphase
    · exact absurd hphase hstopped
    · exact Or.inl ⟨old, hold, hphase⟩

theorem kept_of_step {turn : Turn} (hstep : q.step turn = some q') {j : ℕ} (hj : q.Kept j) :
    q'.Kept j := by
  have hsame : q'.calls.map HelperCall.cancelled = q.calls.map HelperCall.cancelled :=
    map_step (fun _ _ ↦ rfl) (fun _ ↦ rfl) hstep
  obtain ⟨c, hc, hcancelled⟩ := hj
  have hget : (q'.calls.map HelperCall.cancelled)[j]? = some false := by
    rw [hsame, List.getElem?_map, hc, Option.map_some, hcancelled]
  rw [List.getElem?_map, Option.map_eq_some_iff] at hget
  exact hget

/-- A process that runs for a call not cancelled runs for the head of the queue. -/
theorem Queued.exclusive (h : q.Queued) (hkept : ∀ i, q.Running i → q.Kept i) : q.Exclusive := by
  have hhead : ∀ i, q.Running i → q.queue.head? = some i := by
    intro i hi
    obtain ⟨c, hc, hcancelled⟩ := hkept i hi
    obtain ⟨d, hd, hphase⟩ := hi
    obtain rfl : c = d := Option.some.inj (hc.symm.trans hd)
    have hwoken := h.started_woken i c hc (by simp [hphase])
    exact h.woken i c hc hcancelled hwoken (by simp [hphase])
  exact fun i j hi hj ↦ Option.some.inj ((hhead i hi).symm.trans (hhead j hj))

end

/-- A block that comes while a process runs can be followed by the start of a second process. -/
theorem two_running {q : HelperQueue Unit} {i : ℕ} (hi : q.Running i) :
    ∃ q', run mailboxStep q [.update, .turn (.proceed q.calls.length)] = some q' ∧
      ¬ q'.Exclusive := by
  have hlength : (q.cancelExcess 1).calls.length = q.calls.length := length_foldl_cancel q _
  have hlt : i < q.calls.length := by
    obtain ⟨c, hc, -⟩ := hi
    exact (List.getElem?_eq_some_iff.mp hc).1
  -- nobody is left in the queue, so the new call is woken at once
  have hnew : (q.call (some 1) ()).calls[q.calls.length]? = some ⟨(), true, false, .waiting⟩ :=
    getElem?_call.mpr (Or.inr ⟨hlength.symm, rfl⟩)
  have hstart : ∃ q', (q.call (some 1) ()).step (.proceed q.calls.length) = some q' ∧
      q'.calls = ((q.call (some 1) ()).modify q.calls.length
        fun c ↦ { c with phase := .running }).calls := by
    simp only [step, hnew, Bool.false_eq_true, if_false, Option.some.injEq, exists_eq_left']
  obtain ⟨q', hstep, hcalls⟩ := hstart
  refine ⟨q', ?_, fun hexclusive ↦ ?_⟩
  · rw [run_cons_eq_some]
    refine ⟨q.call (some 1) (), rfl, ?_⟩
    rw [run_cons_eq_some]
    exact ⟨q', hstep, run_nil q'⟩
  · have hsecond : q'.Running q.calls.length := by
      refine ⟨⟨(), true, false, .running⟩, ?_, rfl⟩
      rw [hcalls]
      exact getElem?_modify.mpr ⟨_, hnew, if_pos rfl⟩
    obtain ⟨c, hc, hphase⟩ := running_call.mpr hi
    have hfirst : q'.Running i := by
      refine ⟨c, ?_, hphase⟩
      rw [hcalls]
      exact getElem?_modify.mpr ⟨c, hc, if_neg hlt.ne'⟩
    exact hlt.ne (hexclusive i q.calls.length hfirst hsecond)

/-- Where every block so far has come while no helper process was running, at most one is running;
and if one is, the next block can be followed by the start of a second one. -/
theorem exclusive_of_idle (events : List MailboxEvent) {q : HelperQueue Unit}
    (hidle : AllSteps mailboxStep (fun q event _ ↦ event = .update → q.Idle) .empty events)
    (hrun : run mailboxStep .empty events = some q) :
    q.Exclusive ∧ ∀ i, q.Running i →
      ∃ q', run mailboxStep q [.update, .turn (.proceed q.calls.length)] = some q' ∧
        ¬ q'.Exclusive := by
  have hkeep : ∀ (s : HelperQueue Unit) (event : MailboxEvent) (s' : HelperQueue Unit),
      (s.Queued ∧ ∀ i, s.Running i → s.Kept i) → (event = .update → s.Idle) →
      mailboxStep s event = some s' → s'.Queued ∧ ∀ i, s'.Running i → s'.Kept i := by
    rintro s event s' ⟨hqueued, hkept⟩ hguard hstep
    cases event with
    | update =>
      obtain rfl := Option.some.inj hstep
      exact ⟨hqueued.call (some 1) (), fun i hi ↦ absurd (running_call.mp hi) (hguard rfl i)⟩
    | turn t =>
      refine ⟨hqueued.step hstep, fun i hi ↦ kept_of_step hstep ?_⟩
      exact (running_of_step hstep hi).elim (hkept i) id
  have hempty : ∀ i, ¬ HelperQueue.Running (.empty : HelperQueue Unit) i := by
    rintro i ⟨c, hc, -⟩
    cases hc
  obtain ⟨hqueued, hkept⟩ :=
    run_invariant hkeep ⟨queued_empty, fun i hi ↦ absurd hi (hempty i)⟩ hidle hrun
  exact ⟨hqueued.exclusive hkept, fun i hi ↦ two_running hi⟩

/-- Two blocks, the second one while the helper of the first one runs. -/
def overtaken : List MailboxEvent :=
  [.update, .turn (.proceed 0), .update, .turn (.proceed 1)]

/-- Both processes are running, the first one for a call that is cancelled. -/
theorem overtaken_not_exclusive :
    ∃ q, run mailboxStep .empty overtaken = some q ∧ ¬ q.Exclusive :=
  ⟨_, rfl, fun h ↦ absurd (h 0 1 ⟨_, rfl, rfl⟩ ⟨_, rfl, rfl⟩) (by decide)⟩

/-- Two blocks, the second one when the helper of the first one has ended. -/
def consecutive : List MailboxEvent :=
  [.update, .turn (.proceed 0), .turn (.exited 0 false), .update, .turn (.proceed 1)]

theorem exclusive_of_idle_consecutive :
    ∃ q, run mailboxStep .empty consecutive = some q ∧ q.Exclusive :=
  ⟨_, rfl, (exclusive_of_idle consecutive (by decide) rfl).1⟩

end HelperQueue

end CosmicSwingset.Solo
