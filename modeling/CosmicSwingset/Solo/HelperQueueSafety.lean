import CosmicSwingset.Solo.HelperQueue

/-!
# One helper at a time

Every run of `queuedHelper` on one queue name, whatever limit each call puts on the queue and in
whatever order calls, helper runs, retries and cancellations come. To what `Queued` says of the
queue `Served` adds that its head has been woken, so that no call is stranded, and that a call which
was not cancelled has gone on only by running its helper. Together they give the order of all the
runs (`queuedHelper_safe`). On a queue without limits, such as `deliver`, no call is ever cancelled
and two helper processes are never under way at once.
-/

set_option autoImplicit false
set_option relaxedAutoImplicit false

namespace CosmicSwingset.Solo

open Foundation

variable {ι : Type*}

/-- What happens to the queue of one name: a call of `queuedHelper`, with its `maxQueued`, or a turn
of a call made before. -/
inductive HelperEvent (ι : Type*)
  | call (maxQueued : Option ℕ) (job : ι)
  | turn (turn : HelperQueue.Turn)
  deriving DecidableEq

namespace HelperQueue

def act (q : HelperQueue ι) : HelperEvent ι → Option (HelperQueue ι)
  | .call maxQueued job => some (q.call maxQueued job)
  | .turn turn => q.step turn

/-- Call `i` has been woken and is neither cancelled nor finished. -/
def Proceeding (q : HelperQueue ι) (i : ℕ) : Prop :=
  ∃ c, q.calls[i]? = some c ∧ c.woken = true ∧ c.cancelled = false ∧ c.phase ≠ .finished

/-- Call `i` awaits the helper process it has started. -/
def Running (q : HelperQueue ι) (i : ℕ) : Prop :=
  ∃ c, q.calls[i]? = some c ∧ c.phase = .running

def Finished (q : HelperQueue ι) (i : ℕ) : Prop :=
  ∃ c, q.calls[i]? = some c ∧ c.phase = .finished

/-- The head of the queue has been woken, and a call that is not cancelled has left its wait by
having its helper process started. -/
structure Served (q : HelperQueue ι) : Prop where
  head : ∀ i : ℕ, q.queue.head? = some i → ∃ c : HelperCall ι, q.calls[i]? = some c ∧ c.woken = true
  ran : ∀ (i : ℕ) (c : HelperCall ι), q.calls[i]? = some c → c.cancelled = false →
    c.phase ≠ .waiting → i ∈ q.started

theorem served_empty : Served (empty : HelperQueue ι) := by
  constructor <;> simp [empty]

theorem Served.join {q : HelperQueue ι} (h : q.Served) (job : ι) : (q.call none job).Served := by
  constructor
  · intro i hi
    change (q.queue ++ [q.calls.length]).head? = some i at hi
    cases hqueue : q.queue with
    | nil =>
      -- the new call is alone, and is woken at once
      rw [hqueue, List.nil_append, List.head?_cons, Option.some.injEq] at hi
      subst hi
      exact ⟨_, getElem?_call.mpr (Or.inr ⟨rfl, rfl⟩), by rw [hqueue]; rfl⟩
    | cons first rest =>
      rw [hqueue, List.cons_append, List.head?_cons] at hi
      obtain ⟨c, hc, hwoken⟩ := h.head i (by rw [hqueue, List.head?_cons, hi])
      exact ⟨c, getElem?_call.mpr (Or.inl hc), hwoken⟩
  · intro i c hc hcancelled hphase
    rcases getElem?_call.mp hc with hold | ⟨-, rfl⟩
    · exact h.ran i c hold hcancelled hphase
    · exact absurd rfl hphase

theorem Served.cancelExcess {q : HelperQueue ι} (h : q.Served) (maxQueued : ℕ) :
    (q.cancelExcess maxQueued).Served := by
  constructor
  · intro i hi
    change (q.queue.take (maxQueued - 1)).head? = some i at hi
    rw [List.head?_take] at hi
    split_ifs at hi
    obtain ⟨old, hold, hwoken⟩ := h.head i hi
    refine ⟨_, getElem?_cancelExcess.mpr ⟨old, hold, rfl⟩, ?_⟩
    split_ifs
    · rfl
    · exact hwoken
  · intro i c hc hcancelled hphase
    obtain ⟨old, hold, rfl⟩ := getElem?_cancelExcess.mp hc
    split_ifs at hcancelled hphase
    rw [show (q.cancelExcess maxQueued).started = q.started from started_foldl_cancel q _]
    exact h.ran i old hold hcancelled hphase

theorem Served.call {q : HelperQueue ι} (h : q.Served) (maxQueued : Option ℕ) (job : ι) :
    (q.call maxQueued job).Served := by
  cases maxQueued with
  | none => exact h.join job
  | some m => exact (h.cancelExcess m).join job

/-- A change of one call that wakes it if anything, and moves it out of its wait only if its helper
process has been started. -/
theorem Served.modify {q : HelperQueue ι} (h : q.Served) {i : ℕ}
    {change : HelperCall ι → HelperCall ι}
    (hchange : ∀ c, q.calls[i]? = some c → (change c).cancelled = c.cancelled ∧
      (c.woken = true → (change c).woken = true) ∧
      (c.cancelled = false → (change c).phase ≠ .waiting → i ∈ q.started)) :
    (q.modify i change).Served := by
  constructor
  · intro j hj
    obtain ⟨old, hold, hwoken⟩ := h.head j hj
    refine ⟨_, getElem?_modify.mpr ⟨old, hold, rfl⟩, ?_⟩
    split_ifs with hij
    · subst hij
      exact (hchange old hold).2.1 hwoken
    · exact hwoken
  · intro j c hc hcancelled hphase
    obtain ⟨old, hold, rfl⟩ := getElem?_modify.mp hc
    split_ifs at hcancelled hphase with hij
    · subst hij
      rw [(hchange old hold).1] at hcancelled
      exact (hchange old hold).2.2 hcancelled hphase
    · exact h.ran j old hold hcancelled hphase

/-- After `wakeHead` the head has been woken, whatever it was before. -/
theorem Served.wakeHead {q : HelperQueue ι} (hqueued : q.wakeHead.Queued)
    (hran : ∀ (i : ℕ) (c : HelperCall ι), q.calls[i]? = some c → c.cancelled = false →
      c.phase ≠ .waiting → i ∈ q.started) : q.wakeHead.Served := by
  unfold HelperQueue.wakeHead at hqueued ⊢
  cases hqueue : q.queue with
  | nil =>
    refine ⟨fun i hi ↦ ?_, hran⟩
    rw [hqueue] at hi
    cases hi
  | cons first rest =>
    simp only [hqueue] at hqueued
    refine ⟨fun i hi ↦ ?_, fun i c hc hcancelled hphase ↦ ?_⟩
    · change q.queue.head? = some i at hi
      obtain ⟨c, hc, -⟩ := (hqueued.queued i).mp (List.mem_of_head? hi)
      refine ⟨c, hc, ?_⟩
      obtain ⟨old, -, rfl⟩ := getElem?_modify.mp hc
      rw [hqueue, List.head?_cons, Option.some.injEq] at hi
      rw [if_pos hi]
    · obtain ⟨old, hold, rfl⟩ := getElem?_modify.mp hc
      split_ifs at hcancelled hphase with hij
      · exact hran i old hold hcancelled hphase
      · exact hran i old hold hcancelled hphase

theorem Served.step {q q' : HelperQueue ι} (h : q.Served) (hqueued : q'.Queued) {turn : Turn}
    (hstep : q.step turn = some q') : q'.Served := by
  obtain ⟨i, c, hc, -, ⟨rfl, hwaiting, -⟩ | ⟨-, hwoken, -, rfl⟩ | ⟨hleft, phase, -, -, rfl⟩⟩ :=
    step_cases hstep
  · refine Served.wakeHead hqueued fun j d hd hcancelled hphase ↦ ?_
    obtain ⟨old, hold, rfl⟩ := getElem?_modify.mp hd
    split_ifs at hcancelled hphase with hij
    · subst hij
      obtain rfl : c = old := Option.some.inj (hc.symm.trans hold)
      refine h.ran i c hc hcancelled fun hphase' ↦ ?_
      rw [(hwaiting hphase').2] at hcancelled
      cases hcancelled
    · exact h.ran j old hold hcancelled hphase
  · have hstarted : Served { q with started := q.started ++ [i] } :=
      ⟨h.head, fun j d hd hcancelled hphase ↦
        List.mem_append_left _ (h.ran j d hd hcancelled hphase)⟩
    exact hstarted.modify (i := i) fun d _ ↦ ⟨rfl, id, fun _ _ ↦ by simp⟩
  · refine h.modify fun d hd ↦ ⟨rfl, id, fun hcancelled _ ↦ ?_⟩
    obtain rfl : c = d := Option.some.inj (hc.symm.trans hd)
    exact h.ran i c hc hcancelled hleft

theorem act_invariant {q q' : HelperQueue ι} {event : HelperEvent ι} (h : q.Queued ∧ q.Served)
    (hact : q.act event = some q') : q'.Queued ∧ q'.Served := by
  cases event with
  | call maxQueued job =>
    cases hact
    exact ⟨h.1.call maxQueued job, h.2.call maxQueued job⟩
  | turn turn => exact ⟨h.1.step hact, h.2.step (h.1.step hact) hact⟩

/-- Of two calls never cancelled the later one starts its helper, and ends, only when the earlier
one has ended. -/
theorem Queued.finished_of_lt {q : HelperQueue ι} (h : q.Queued) (hserved : q.Served) {i j : ℕ}
    (hij : i < j) (hi : q.Kept i) (hj : q.Kept j) (hlater : j ∈ q.started ∨ q.Finished j) :
    q.Finished i := by
  have hstarted : j ∈ q.started := by
    rcases hlater with hstarted | ⟨c, hc, hphase⟩
    · exact hstarted
    · obtain ⟨d, hd, hcancelled⟩ := hj
      obtain rfl : c = d := Option.some.inj (hc.symm.trans hd)
      exact hserved.ran j c hc hcancelled (by simp [hphase])
  obtain ⟨c, hc, hcancelled⟩ := hi
  refine ⟨c, hc, by_contra fun hphase ↦ ?_⟩
  have hqueue : i ∈ q.queue := (h.queued i).mpr ⟨c, hc, hcancelled, hphase⟩
  exact absurd ((h.behind j hstarted).2 hj i hqueue) (not_le.mpr hij)

theorem Fifo.act {q q' : HelperQueue ι} {event : HelperEvent ι} (h : q.Fifo)
    (hunlimited : ∀ maxQueued job, event = .call maxQueued job → maxQueued = none)
    (hact : q.act event = some q') : q'.Fifo := by
  cases event with
  | call maxQueued job =>
    obtain rfl := hunlimited maxQueued job rfl
    cases hact
    exact h.call job
  | turn turn => exact h.step hact

/-- In every state of the queue of a name that calls of `queuedHelper` with any limits, helper runs,
retries and cancellations lead to: a call that has been woken and is neither cancelled nor finished
is the head of the queue, so that there is at most one; the head of a queue has been woken; of two
calls never cancelled the later one starts and ends its helper runs only after the earlier one has
ended; and where no call sets a limit, at most one helper process is under way. -/
theorem queuedHelper_safe (events : List (HelperEvent ι)) (q : HelperQueue ι)
    (hrun : run act .empty events = some q) :
    ((∀ i, q.Proceeding i → q.queue.head? = some i) ∧
        ∀ i j, q.Proceeding i → q.Proceeding j → i = j) ∧
      (q.queue ≠ [] → ∃ i, q.queue.head? = some i ∧ q.Proceeding i) ∧
      ((∀ i j, i < j → q.Kept i → q.Kept j → j ∈ q.started ∨ q.Finished j → q.Finished i) ∧
        q.started.Pairwise fun i j ↦ q.Kept i → q.Kept j → i ≤ j) ∧
      ((∀ maxQueued job, .call maxQueued job ∈ events → maxQueued = none) →
        ∀ i j, q.Running i → q.Running j → i = j) := by
  have hinvariant : q.Queued ∧ q.Served :=
    run_inductive (fun _ _ _ h hstep ↦ act_invariant h hstep) ⟨queued_empty, served_empty⟩ hrun
  obtain ⟨hqueued, hserved⟩ := hinvariant
  have hhead : ∀ i, q.Proceeding i → q.queue.head? = some i := by
    rintro i ⟨c, hc, hwoken, hcancelled, hphase⟩
    exact hqueued.woken i c hc hcancelled hwoken hphase
  refine ⟨⟨hhead, fun i j hi hj ↦ ?_⟩, fun hne ↦ ?_, ⟨fun i j hij hi hj ↦ ?_, hqueued.inOrder⟩,
    fun hunlimited i j hi hj ↦ ?_⟩
  · exact Option.some.inj ((hhead i hi).symm.trans (hhead j hj))
  · obtain ⟨i, rest, hqueue⟩ := List.exists_cons_of_ne_nil hne
    have hi : q.queue.head? = some i := by rw [hqueue, List.head?_cons]
    obtain ⟨c, hc, hlive⟩ := (hqueued.queued i).mp (List.mem_of_head? hi)
    obtain ⟨d, hd, hwoken⟩ := hserved.head i hi
    obtain rfl : c = d := Option.some.inj (hc.symm.trans hd)
    exact ⟨i, hi, c, hc, hwoken, hlive⟩
  · exact hqueued.finished_of_lt hserved hij hi hj
  · have hfifo : q.Fifo := by
      refine run_invariant (G := fun _ event _ ↦
        ∀ maxQueued job, event = .call maxQueued job → maxQueued = none)
        (fun _ _ _ h hguard hstep ↦ h.act hguard hstep) fifo_empty ?_ hrun
      refine allSteps_of_forall_mem fun event hevent _ _ maxQueued job hcall ↦ ?_
      exact hunlimited maxQueued job (hcall ▸ hevent)
    have hproceeding : ∀ k, q.Running k → q.Proceeding k := by
      rintro k ⟨c, hc, hphase⟩
      refine ⟨c, hc, hfifo.started_woken k c hc ?_, hfifo.kept k c hc, ?_⟩ <;> simp [hphase]
    exact Option.some.inj ((hhead i (hproceeding i hi)).symm.trans (hhead j (hproceeding j hj)))

section Runs

/-- A run of the queue `getMailbox`, with one call at a time: the second call cancels the first
while its helper runs and starts its own at once; the first still ends, and wakes nobody else. -/
def superseded : List (HelperEvent ℕ) :=
  [.call (some 1) 0, .turn (.proceed 0), .call (some 1) 1, .turn (.proceed 1),
    .turn (.exited 0 true), .turn (.exited 1 false)]

theorem queuedHelper_safe_superseded :
    ∃ q, run act .empty superseded = some q ∧ q.queue = [1] ∧ q.started = [0, 1] ∧
      ∃ i, q.queue.head? = some i ∧ q.Proceeding i :=
  ⟨_, rfl, rfl, rfl, (queuedHelper_safe superseded _ rfl).2.1 (by decide)⟩

end Runs

end HelperQueue

end CosmicSwingset.Solo
