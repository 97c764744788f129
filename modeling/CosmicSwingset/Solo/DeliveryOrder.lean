import CosmicSwingset.Solo.ChainCosmosSdk

/-!
# The order in which batches reach the chain

The chain drops a message whose number is not above the highest it has seen, so the helper should
be run on the batches in the order in which the deliverator was called. The comment in `deliver`
says that the calls are queued for a like reason ("we need to queue our deliver() calls and not
allow one to proceed until the others have finished"). The helper queue does keep its order, with
any pattern of failures and retries, but a call joins it only after three file operations, and the
operations of two calls complete in any order: in `overtaken` the second batch is submitted first.

When the calls that join the queue join it in the order in which they were made, the submissions
are in that order too (`submissions_inOrder`). The invariant is that the queue is first in, first
out, and that its jobs ascend (`Ordered`).
-/

set_option autoImplicit false
set_option relaxedAutoImplicit false

namespace CosmicSwingset.Solo

open Foundation SwingSet

/-- The numbers of the messages ascend from each call of the deliverator to the next, as `deliver`
of `outbound.js` chooses them. -/
def Ascending (batches : List Batch) : Prop :=
  batches.Pairwise fun b c ↦ ∀ m ∈ b.newMessages, ∀ m' ∈ c.newMessages, m.num < m'.num

instance (batches : List Batch) : Decidable (Ascending batches) :=
  inferInstanceAs (Decidable (batches.Pairwise fun b c ↦
    ∀ m ∈ b.newMessages, ∀ m' ∈ c.newMessages, m.num < m'.num))

/-- A call whose file operations have all succeeded finds only earlier calls in the queue. -/
def JoinsInOrder (d : Deliverator) (event : DeliveratorEvent) (_ : Deliverator) : Prop :=
  match event with
  | .closed i true => d.phase i = some (.closing true) → ∀ job ∈ d.helper.jobs, job < i
  | _ => True

instance (d : Deliverator) (event : DeliveratorEvent) (d' : Deliverator) :
    Decidable (JoinsInOrder d event d') :=
  match event with
  | .closed i true => inferInstanceAs
      (Decidable (d.phase i = some (.closing true) → ∀ job ∈ d.helper.jobs, job < i))
  | .closed _ false | .deliver _ _ | .opened _ _ | .wrote _ _ | .helper _ => .isTrue trivial

/-- The queue is first in, first out, and the calls stand in it in the order they were made. -/
structure Ordered (d : Deliverator) : Prop where
  fifo : d.helper.Fifo
  jobs : d.helper.jobs.Pairwise (· < ·)

theorem ordered_empty : Ordered .empty :=
  ⟨HelperQueue.fifo_empty, List.Pairwise.nil⟩

theorem Ordered.step {d d' : Deliverator} {event : DeliveratorEvent} (h : Ordered d)
    (hjoin : JoinsInOrder d event d') (hstep : d.step event = some d') : Ordered d' := by
  rcases Deliverator.step_cases hstep with ⟨_, _, -, rfl⟩ | ⟨i, _, _, -, rfl, -⟩ |
    ⟨i, rfl, hphase, rfl⟩ | ⟨turn, helper, -, hturn, rfl⟩
  · exact ⟨h.fifo, h.jobs⟩
  · exact ⟨h.fifo, h.jobs⟩
  · refine ⟨h.fifo.call i, ?_⟩
    change (d.helper.call none i).jobs.Pairwise (· < ·)
    rw [HelperQueue.jobs_call_none, List.pairwise_append]
    refine ⟨h.jobs, List.pairwise_singleton _ _, fun job hmem other hother ↦ ?_⟩
    rw [List.mem_singleton.mp hother]
    exact hjoin hphase job hmem
  · refine ⟨h.fifo.step hturn, ?_⟩
    change helper.jobs.Pairwise (· < ·)
    rw [HelperQueue.jobs_step hturn]
    exact h.jobs

/-- The submissions of a deliverator with the invariant are in the order of the calls. -/
theorem Ordered.submissions {d : Deliverator} (h : Ordered d) : d.submissions.Pairwise (· ≤ ·) := by
  have hjobs := List.pairwise_iff_getElem.mp h.jobs
  rw [Deliverator.submissions, List.pairwise_filterMap]
  refine h.fifo.inOrder.imp fun {entry other} hle job hjob job' hjob' ↦ ?_
  obtain ⟨hlt, rfl⟩ := List.getElem?_eq_some_iff.mp hjob
  obtain ⟨hlt', rfl⟩ := List.getElem?_eq_some_iff.mp hjob'
  rcases hle.lt_or_eq with hentry | rfl
  · exact (hjobs entry other hlt hlt' hentry).le
  · exact le_rfl

/-- Two submissions in the order of their calls are of the same batch, or of ascending numbers. -/
theorem Ascending.lt_of_le {batches : List Batch} (h : Ascending batches) {i j : ℕ} (hij : i ≤ j) :
    i = j ∨ ∀ b c, batches[i]? = some b → batches[j]? = some c →
      ∀ m ∈ b.newMessages, ∀ m' ∈ c.newMessages, m.num < m'.num := by
  rcases hij.eq_or_lt with heq | hlt
  · exact Or.inl heq
  · refine Or.inr fun b c hb hc ↦ ?_
    obtain ⟨hi, rfl⟩ := List.getElem?_eq_some_iff.mp hb
    obtain ⟨hj, rfl⟩ := List.getElem?_eq_some_iff.mp hc
    exact List.pairwise_iff_getElem.mp h i j hi hj hlt

/-- When the calls of a deliverator join its queue in the order they were made, the helper is run
on their batches in that order, retries included; and when the numbers ascend from call to call,
they are submitted in ascending order. -/
theorem submissions_inOrder (events : List DeliveratorEvent) (d : Deliverator)
    (hjoin : AllSteps Deliverator.step JoinsInOrder .empty events)
    (hrun : run Deliverator.step .empty events = some d) :
    d.submissions.Pairwise (· ≤ ·) ∧
      (Ascending d.batches → d.submissions.Pairwise fun i j ↦
        i = j ∨ ∀ b c, d.batches[i]? = some b → d.batches[j]? = some c →
          ∀ m ∈ b.newMessages, ∀ m' ∈ c.newMessages, m.num < m'.num) := by
  have hordered : Ordered d :=
    run_invariant (fun _ _ _ h hguard hstep ↦ h.step hguard hstep) ordered_empty hjoin hrun
  exact ⟨hordered.submissions,
    fun hascending ↦ hordered.submissions.imp fun hle ↦ hascending.lt_of_le hle⟩

section Runs

/-- The file operations of call `i`, all of them successful. -/
def fileTurns (i : ℕ) : List DeliveratorEvent :=
  [.opened i true, .wrote i true, .closed i true]

/-- Two calls whose files complete in order; the first run of the helper fails and is retried. -/
def inTurn : List DeliveratorEvent :=
  [.deliver [⟨1, "a"⟩] 0, .deliver [⟨2, "b"⟩] 0] ++ fileTurns 0 ++ fileTurns 1 ++
    [.helper (.proceed 0), .helper (.exited 0 false), .helper (.retry 0), .helper (.proceed 0),
      .helper (.exited 0 true), .helper (.proceed 1)]

theorem submissions_inTurn :
    ∃ d, run Deliverator.step .empty inTurn = some d ∧ d.submissions = [0, 0, 1] ∧
      d.submissions.Pairwise (· ≤ ·) := by
  exact ⟨_, rfl, rfl, (submissions_inOrder inTurn _ (by decide) rfl).1⟩

/-- The same two calls, the files of the second completing first. -/
def overtaken : List DeliveratorEvent :=
  [.deliver [⟨1, "a"⟩] 0, .deliver [⟨2, "b"⟩] 0] ++ fileTurns 1 ++ fileTurns 0 ++
    [.helper (.proceed 0), .helper (.exited 0 true), .helper (.proceed 1)]

theorem overtaken_not_inOrder :
    ∃ d, run Deliverator.step .empty overtaken = some d ∧ Ascending d.batches ∧
      d.submissions = [1, 0] ∧ ¬ d.submissions.Pairwise (· ≤ ·) := by
  exact ⟨_, rfl, by decide, rfl, by decide⟩

end Runs

end CosmicSwingset.Solo
