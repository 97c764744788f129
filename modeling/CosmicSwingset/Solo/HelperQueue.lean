import CosmicSwingset.Foundation.Transition
import Mathlib.Data.List.Pairwise
import Mathlib.Order.Basic
import Mathlib.Order.Lattice

/-!
# The helper queue

`queuedHelper` of `chain-cosmos-sdk.js` runs `ag-cosmos-helper` for one call of a queue name at a
time. A call pops and cancels the excess of its queue, joins at the end, and is woken at once if it
is alone. `retryHelper` then waits to be woken, starts the helper process, and starts it again after
a pause until the process succeeds and its output parses; `throwIfCancelled` ends a cancelled call
before and after each run. A call that ends leaves the queue and wakes the new head.

`HelperQueue` is the state of one queue name: every call ever made, by its index, with the job it
runs. Between the two tests of `throwIfCancelled` around the process only `exited` is an await on
the outside; the microtasks between are taken with it.
-/

set_option autoImplicit false
set_option relaxedAutoImplicit false

namespace CosmicSwingset.Solo

open Foundation

variable {ι : Type*}

/-- What a call of `queuedHelper` awaits: to be woken, the helper process, the pause before a
retry, or nothing more. -/
inductive HelperPhase
  | waiting
  | running
  | sleeping
  | finished
  deriving DecidableEq

/-- A call of `queuedHelper`: the arguments it runs the helper with, whether its `wait` promise is
resolved, its `cancelled` flag, and where it stands. -/
structure HelperCall (ι : Type*) where
  job : ι
  woken : Bool
  cancelled : Bool
  phase : HelperPhase
  deriving DecidableEq

/-- The calls of one queue name, the array `queued[name]` of those queued, and the calls whose
helper processes were started so far, in the order of the starts. -/
structure HelperQueue (ι : Type*) where
  calls : List (HelperCall ι)
  queue : List ℕ
  started : List ℕ
  deriving DecidableEq

namespace HelperQueue

def empty : HelperQueue ι := ⟨[], [], []⟩

/-- Changes the call with the index `i`. -/
def modify (q : HelperQueue ι) (i : ℕ) (change : HelperCall ι → HelperCall ι) : HelperQueue ι :=
  { q with calls := q.calls.modify i change }

/-- `cancel()` of a queue entry. -/
def cancel (q : HelperQueue ι) (i : ℕ) : HelperQueue ι :=
  q.modify i fun c ↦ { c with cancelled := true, woken := true }

/-- The loop that pops and cancels from the most recent call down, until fewer than `maxQueued`
are left. -/
def cancelExcess (q : HelperQueue ι) (maxQueued : ℕ) : HelperQueue ι :=
  { (q.queue.drop (maxQueued - 1)).reverse.foldl cancel q with
    queue := q.queue.take (maxQueued - 1) }

/-- A call of `queuedHelper` up to its first await. -/
def call (q : HelperQueue ι) (maxQueued : Option ℕ) (job : ι) : HelperQueue ι :=
  let q := match maxQueued with
    | none => q
    | some m => q.cancelExcess m
  { q with
    calls := q.calls ++ [⟨job, q.queue.isEmpty, false, .waiting⟩]
    queue := q.queue ++ [q.calls.length] }

/-- `proceed()` of the entry at the head of the queue, if there is one. -/
def wakeHead (q : HelperQueue ι) : HelperQueue ι :=
  match q.queue with
  | [] => q
  | i :: _ => q.modify i fun c ↦ { c with woken := true }

/-- The `finally` block of `queuedHelper`. -/
def finish (q : HelperQueue ι) (i : ℕ) : HelperQueue ι :=
  wakeHead { q with
    calls := q.calls.modify i fun c ↦ { c with phase := .finished }
    queue := q.queue.erase i }

/-- A turn of the queue after a call has joined it.

* `proceed i`: call `i` has been woken; it throws if it is cancelled, else starts the helper.
* `exited i ok`: its helper process has ended, and `ok` says that the process succeeded and
  `parseReturn` gave a value.
* `retry i`: the pause after a failed run is over. -/
inductive Turn
  | proceed (i : ℕ)
  | exited (i : ℕ) (ok : Bool)
  | retry (i : ℕ)
  deriving DecidableEq

def step (q : HelperQueue ι) : Turn → Option (HelperQueue ι)
  | .proceed i =>
    match q.calls[i]? with
    | some ⟨_, true, cancelled, .waiting⟩ =>
      if cancelled then some (q.finish i)
      else some { q.modify i fun c ↦ { c with phase := .running } with started := q.started ++ [i] }
    | _ => none
  | .exited i ok =>
    match q.calls[i]? with
    | some ⟨_, _, cancelled, .running⟩ =>
      if cancelled || ok then some (q.finish i)
      else some (q.modify i fun c ↦ { c with phase := .sleeping })
    | _ => none
  | .retry i =>
    match q.calls[i]? with
    | some ⟨_, _, _, .sleeping⟩ => some (q.modify i fun c ↦ { c with phase := .waiting })
    | _ => none

/-- What each call runs the helper with, by the index of the call. -/
def jobs (q : HelperQueue ι) : List ι :=
  q.calls.map HelperCall.job

theorem jobs_call_none (q : HelperQueue ι) (job : ι) :
    (q.call none job).jobs = q.jobs ++ [job] := by
  simp [jobs, call]

/-- What a turn can do: end a call, start its helper process, or move it between a run and the wait
for the next. -/
theorem step_cases {q q' : HelperQueue ι} {turn : Turn} (hstep : q.step turn = some q') :
    ∃ i c, q.calls[i]? = some c ∧ c.phase ≠ .finished ∧
      (q' = q.finish i ∧ (c.phase = .waiting → c.woken = true ∧ c.cancelled = true) ∧
            (c.cancelled = true ∨ turn = .exited i true) ∨
        c.phase = .waiting ∧ c.woken = true ∧ c.cancelled = false ∧
          q' = { q.modify i (fun c ↦ { c with phase := .running }) with
            started := q.started ++ [i] } ∨
        c.phase ≠ .waiting ∧ ∃ phase : HelperPhase, phase ≠ .finished ∧ phase ≠ .running ∧
          q' = q.modify i fun c ↦ { c with phase }) := by
  cases turn with
  | proceed i =>
    simp only [step] at hstep
    split at hstep
    · rename_i job cancelled hcall
      refine ⟨i, _, hcall, by simp, ?_⟩
      cases cancelled with
      | true => exact Or.inl ⟨(Option.some.inj hstep).symm, by simp, Or.inl rfl⟩
      | false => exact Or.inr (Or.inl ⟨rfl, rfl, rfl, (Option.some.inj hstep).symm⟩)
    · cases hstep
  | exited i ok =>
    simp only [step] at hstep
    split at hstep
    · rename_i job woken cancelled hcall
      refine ⟨i, _, hcall, by simp, ?_⟩
      split_ifs at hstep with hends
      · rw [Bool.or_eq_true] at hends
        exact Or.inl
          ⟨(Option.some.inj hstep).symm, by simp, hends.imp id (congrArg (Turn.exited i))⟩
      · exact Or.inr (Or.inr ⟨by simp, .sleeping, by simp, by simp, (Option.some.inj hstep).symm⟩)
    · cases hstep
  | retry i =>
    simp only [step] at hstep
    split at hstep
    · rename_i job woken cancelled hcall
      refine ⟨i, _, hcall, by simp, ?_⟩
      exact Or.inr (Or.inr ⟨by simp, .waiting, by simp, by simp, (Option.some.inj hstep).symm⟩)
    · cases hstep

section Fixed

variable {α : Type*} {f : HelperCall ι → α}

theorem map_modify (q : HelperQueue ι) (i : ℕ) {change : HelperCall ι → HelperCall ι}
    (hchange : ∀ c, f (change c) = f c) : (q.modify i change).calls.map f = q.calls.map f := by
  apply List.ext_getElem?
  intro j
  simp only [modify, List.getElem?_map, List.getElem?_modify]
  cases q.calls[j]? with
  | none => rfl
  | some c =>
    by_cases hij : i = j
    · simp [hij, hchange]
    · simp [hij]

/-- A turn changes nothing of a call but its phase and whether it has been woken. -/
theorem map_step (hphase : ∀ (c : HelperCall ι) phase, f { c with phase } = f c)
    (hwoken : ∀ c : HelperCall ι, f { c with woken := true } = f c) {q q' : HelperQueue ι}
    {turn : Turn} (hstep : q.step turn = some q') : q'.calls.map f = q.calls.map f := by
  obtain ⟨i, c, -, -, ⟨rfl, -⟩ | ⟨-, -, -, rfl⟩ | ⟨-, phase, -, -, rfl⟩⟩ := step_cases hstep
  · have hfinished := map_modify (f := f) q i fun c ↦ hphase c .finished
    rw [← hfinished]
    unfold finish wakeHead
    split
    · rfl
    · exact map_modify _ _ hwoken
  · exact map_modify q i fun c ↦ hphase c .running
  · exact map_modify q i fun c ↦ hphase c phase

end Fixed

/-- Which call runs which job is settled when the call is made. -/
theorem jobs_step {q q' : HelperQueue ι} {turn : Turn} (hstep : q.step turn = some q') :
    q'.jobs = q.jobs :=
  map_step (fun _ _ ↦ rfl) (fun _ ↦ rfl) hstep

/-- The calls after a new one: it is the last, and is woken if nobody is queued before it. -/
theorem getElem?_call {q : HelperQueue ι} {job : ι} {i : ℕ} {c : HelperCall ι} :
    (q.call none job).calls[i]? = some c ↔
      q.calls[i]? = some c ∨ i = q.calls.length ∧ c = ⟨job, q.queue.isEmpty, false, .waiting⟩ := by
  rw [HelperQueue.call, List.getElem?_append]
  split_ifs with hi
  · exact ⟨Or.inl, fun h ↦ h.resolve_right fun hnew ↦ hi.ne hnew.1⟩
  · rw [List.getElem?_eq_none (not_lt.mp hi), List.getElem?_singleton]
    by_cases hlen : i = q.calls.length
    · simp [hlen, eq_comm]
    · have hpos : i - q.calls.length ≠ 0 := by omega
      simp [hlen, hpos]

/-- The calls after a change of one. -/
theorem getElem?_modify {q : HelperQueue ι} {i : ℕ} {change : HelperCall ι → HelperCall ι} {j : ℕ}
    {c : HelperCall ι} :
    (q.modify i change).calls[j]? = some c ↔
      ∃ old, q.calls[j]? = some old ∧ (if i = j then change old else old) = c := by
  simp [HelperQueue.modify, List.getElem?_modify]

/-- A call that has ended had ended before, was cancelled, or ends by a run of its helper that
succeeds. -/
theorem finished_of_step {q q' : HelperQueue ι} {turn : Turn} (hstep : q.step turn = some q')
    {j : ℕ} {c' : HelperCall ι} (hc' : q'.calls[j]? = some c') (hfinished : c'.phase = .finished) :
    ∃ c, q.calls[j]? = some c ∧
      (c.phase = .finished ∨ c.cancelled = true ∨ turn = .exited j true) := by
  obtain ⟨i, c, hc, hlive, ⟨rfl, -, hends⟩ | ⟨-, -, -, rfl⟩ | ⟨-, phase, hphase, -, rfl⟩⟩ :=
    step_cases hstep
  · by_cases hij : i = j
    · subst hij
      exact ⟨c, hc, Or.inr hends⟩
    · -- what `finish` does to another call is to wake it
      have hother : ∃ old, q.calls[j]? = some old ∧ old.phase = c'.phase := by
        unfold finish wakeHead at hc'
        split at hc'
        · exact ⟨c', by simpa [List.getElem?_modify, hij] using hc', rfl⟩
        · obtain ⟨old, hold, rfl⟩ := getElem?_modify.mp hc'
          refine ⟨old, by simpa [List.getElem?_modify, hij] using hold, ?_⟩
          split_ifs <;> rfl
      obtain ⟨old, hold, hsame⟩ := hother
      exact ⟨old, hold, Or.inl (hsame.trans hfinished)⟩
  · obtain ⟨old, hold, rfl⟩ := getElem?_modify.mp hc'
    split_ifs at hfinished with hij
    exact ⟨old, hold, Or.inl hfinished⟩
  · obtain ⟨old, hold, rfl⟩ := getElem?_modify.mp hc'
    split_ifs at hfinished with hij
    · exact absurd hfinished hphase
    · exact ⟨old, hold, Or.inl hfinished⟩

/-! ### What holds of every queue -/

/-- Call `i` has not been cancelled. -/
def Kept (q : HelperQueue ι) (i : ℕ) : Prop :=
  ∃ c, q.calls[i]? = some c ∧ c.cancelled = false

/-- Call `i` has been neither cancelled nor finished. -/
def Live (q : HelperQueue ι) (i : ℕ) : Prop :=
  ∃ c, q.calls[i]? = some c ∧ c.cancelled = false ∧ c.phase ≠ .finished

/-- The live calls are queued in the order they were made, and only the head has been woken; of the
calls never cancelled the helper processes were started in the order of the calls, none of them
before a call still queued. -/
structure Queued (q : HelperQueue ι) : Prop where
  queued : ∀ i : ℕ, i ∈ q.queue ↔ q.Live i
  ascending : q.queue.Pairwise (· < ·)
  woken : ∀ (i : ℕ) (c : HelperCall ι), q.calls[i]? = some c → c.cancelled = false →
    c.woken = true → c.phase ≠ .finished → q.queue.head? = some i
  started_woken : ∀ (i : ℕ) (c : HelperCall ι), q.calls[i]? = some c → c.phase ≠ .waiting →
    c.woken = true
  inOrder : q.started.Pairwise fun i j ↦ q.Kept i → q.Kept j → i ≤ j
  behind : ∀ j ∈ q.started, j < q.calls.length ∧ (q.Kept j → ∀ i ∈ q.queue, j ≤ i)

theorem queued_empty : Queued (empty : HelperQueue ι) := by
  constructor <;> simp [empty, Live]

theorem Queued.lt_length {q : HelperQueue ι} (h : q.Queued) {i : ℕ} (hi : i ∈ q.queue) :
    i < q.calls.length := by
  obtain ⟨c, hc, -⟩ := (h.queued i).mp hi
  exact (List.getElem?_eq_some_iff.mp hc).1

/-- A call that was made before a new one is cancelled just if it was. -/
theorem kept_call {q : HelperQueue ι} {job : ι} {i : ℕ} (hi : i < q.calls.length) :
    (q.call none job).Kept i ↔ q.Kept i := by
  simp only [Kept, getElem?_call, hi.ne, false_and, or_false]

/-- A call that cancels nobody joins the queue. -/
theorem Queued.join {q : HelperQueue ι} (h : q.Queued) (job : ι) : (q.call none job).Queued := by
  have hqueue : (q.call none job).queue = q.queue ++ [q.calls.length] := rfl
  have hlength : (q.call none job).calls.length = q.calls.length + 1 := List.length_append
  constructor
  · intro i
    rw [hqueue, List.mem_append, List.mem_singleton, h.queued i]
    constructor
    · rintro (⟨c, hc, hlive⟩ | rfl)
      · exact ⟨c, getElem?_call.mpr (Or.inl hc), hlive⟩
      · exact ⟨_, getElem?_call.mpr (Or.inr ⟨rfl, rfl⟩), by simp⟩
    · rintro ⟨c, hc, hlive⟩
      rcases getElem?_call.mp hc with hold | ⟨hi, -⟩
      · exact Or.inl ⟨c, hold, hlive⟩
      · exact Or.inr hi
  · rw [hqueue, List.pairwise_append]
    refine ⟨h.ascending, List.pairwise_singleton _ _, fun i hi j hj ↦ ?_⟩
    rw [List.mem_singleton.mp hj]
    exact h.lt_length hi
  · intro i c hc hkept hwoken hphase
    rw [hqueue, List.head?_append]
    rcases getElem?_call.mp hc with hold | ⟨rfl, rfl⟩
    · rw [h.woken i c hold hkept hwoken hphase, Option.some_or]
    · -- woken at once, so nobody was queued
      rw [List.isEmpty_iff.mp hwoken]
      rfl
  · intro i c hc hphase
    rcases getElem?_call.mp hc with hold | ⟨-, rfl⟩
    · exact h.started_woken i c hold hphase
    · exact absurd rfl hphase
  · refine h.inOrder.imp_of_mem fun hi hj hle hkept hkept' ↦ hle ?_ ?_
    · exact (kept_call (h.behind _ hi).1).mp hkept
    · exact (kept_call (h.behind _ hj).1).mp hkept'
  · intro j hj
    obtain ⟨hlen, hle⟩ := h.behind j hj
    rw [hlength, hqueue, kept_call hlen]
    refine ⟨Nat.lt_succ_of_lt hlen, fun hkept i hi ↦ ?_⟩
    rcases List.mem_append.mp hi with hold | hnew
    · exact hle hkept i hold
    · rw [List.mem_singleton.mp hnew]
      exact hlen.le

/-- The calls after some have been cancelled. -/
theorem getElem?_cancel {q : HelperQueue ι} {cancelled : List ℕ} {j : ℕ} {c : HelperCall ι} :
    (cancelled.foldl cancel q).calls[j]? = some c ↔ ∃ old, q.calls[j]? = some old ∧
      (if j ∈ cancelled then { old with cancelled := true, woken := true } else old) = c := by
  induction cancelled generalizing q with
  | nil => simp
  | cons i rest ih =>
    rw [List.foldl_cons, ih]
    constructor
    · rintro ⟨mid, hmid, rfl⟩
      obtain ⟨old, hold, rfl⟩ := getElem?_modify.mp hmid
      refine ⟨old, hold, ?_⟩
      rcases eq_or_ne i j with rfl | hij
      · by_cases hmem : i ∈ rest <;> simp [hmem]
      · simp [hij, hij.symm]
    · rintro ⟨old, hold, rfl⟩
      refine ⟨_, getElem?_modify.mpr ⟨old, hold, rfl⟩, ?_⟩
      rcases eq_or_ne i j with rfl | hij
      · by_cases hmem : i ∈ rest <;> simp [hmem]
      · simp [hij, hij.symm]

theorem started_foldl_cancel (q : HelperQueue ι) (cancelled : List ℕ) :
    (cancelled.foldl cancel q).started = q.started := by
  induction cancelled generalizing q with
  | nil => rfl
  | cons i rest ih => exact ih (q.cancel i)

theorem length_foldl_cancel (q : HelperQueue ι) (cancelled : List ℕ) :
    (cancelled.foldl cancel q).calls.length = q.calls.length := by
  induction cancelled generalizing q with
  | nil => rfl
  | cons i rest ih => exact (ih (q.cancel i)).trans (List.length_modify _ _ _)

/-- The calls after the excess has been cancelled. -/
theorem getElem?_cancelExcess {q : HelperQueue ι} {maxQueued j : ℕ} {c : HelperCall ι} :
    (q.cancelExcess maxQueued).calls[j]? = some c ↔ ∃ old, q.calls[j]? = some old ∧
      (if j ∈ q.queue.drop (maxQueued - 1) then { old with cancelled := true, woken := true }
        else old) = c := by
  change ((q.queue.drop (maxQueued - 1)).reverse.foldl cancel q).calls[j]? = some c ↔ _
  rw [getElem?_cancel]
  simp only [List.mem_reverse]

/-- Popping and cancelling the last of the queue. -/
theorem Queued.cancelExcess {q : HelperQueue ι} (h : q.Queued) (maxQueued : ℕ) :
    (q.cancelExcess maxQueued).Queued := by
  have hqueue : (q.cancelExcess maxQueued).queue = q.queue.take (maxQueued - 1) := rfl
  have hstarted : (q.cancelExcess maxQueued).started = q.started := started_foldl_cancel q _
  have hsplit : q.queue.take (maxQueued - 1) ++ q.queue.drop (maxQueued - 1) = q.queue :=
    List.take_append_drop _ _
  have hascending := h.ascending
  rw [← hsplit, List.pairwise_append] at hascending
  have hkept : ∀ i, (q.cancelExcess maxQueued).Kept i → q.Kept i := by
    rintro i ⟨c, hc, hcancelled⟩
    obtain ⟨old, hold, rfl⟩ := getElem?_cancelExcess.mp hc
    split_ifs at hcancelled
    exact ⟨old, hold, hcancelled⟩
  constructor
  · intro i
    rw [hqueue]
    constructor
    · intro hi
      have hnot : i ∉ q.queue.drop (maxQueued - 1) := fun hdrop ↦
        (hascending.2.2 i hi i hdrop).false
      obtain ⟨c, hc, hlive⟩ := (h.queued i).mp (List.mem_of_mem_take hi)
      exact ⟨c, getElem?_cancelExcess.mpr ⟨c, hc, if_neg hnot⟩, hlive⟩
    · rintro ⟨c, hc, hcancelled, hphase⟩
      obtain ⟨old, hold, rfl⟩ := getElem?_cancelExcess.mp hc
      split_ifs at hcancelled hphase with hdrop
      have hmem := (h.queued i).mpr ⟨old, hold, hcancelled, hphase⟩
      rw [← hsplit] at hmem
      exact (List.mem_append.mp hmem).resolve_right hdrop
  · exact hascending.1
  · intro i c hc hcancelled hwoken hphase
    obtain ⟨old, hold, rfl⟩ := getElem?_cancelExcess.mp hc
    split_ifs at hcancelled hwoken hphase with hdrop
    -- the head was woken, so it is not among those cancelled
    have hhead := h.woken i old hold hcancelled hwoken hphase
    rw [← hsplit, List.head?_append] at hhead
    rw [hqueue]
    cases htake : (q.queue.take (maxQueued - 1)).head? with
    | some first =>
      rwa [htake, Option.some_or] at hhead
    | none =>
      rw [htake, Option.none_or] at hhead
      exact absurd (List.mem_of_head? hhead) hdrop
  · intro i c hc hphase
    obtain ⟨old, hold, rfl⟩ := getElem?_cancelExcess.mp hc
    split_ifs at hphase ⊢
    · rfl
    · exact h.started_woken i old hold hphase
  · rw [hstarted]
    exact h.inOrder.imp fun hle hi hj ↦ hle (hkept _ hi) (hkept _ hj)
  · rw [hstarted, hqueue]
    intro j hj
    obtain ⟨hlen, hle⟩ := h.behind j hj
    refine ⟨hlen.trans_eq (length_foldl_cancel q _).symm, fun hk i hi ↦ ?_⟩
    exact hle (hkept j hk) i (List.mem_of_mem_take hi)

/-- A call of `queuedHelper`, with any limit on the queue. -/
theorem Queued.call {q : HelperQueue ι} (h : q.Queued) (maxQueued : Option ℕ) (job : ι) :
    (q.call maxQueued job).Queued := by
  cases maxQueued with
  | none => exact h.join job
  | some m => exact (h.cancelExcess m).join job

/-- A change of one call that revives none keeps no other calls than before. -/
theorem kept_of_modify {q : HelperQueue ι} {i : ℕ} {change : HelperCall ι → HelperCall ι}
    (hchange : ∀ c, q.calls[i]? = some c → (change c).cancelled = false → c.cancelled = false)
    {j : ℕ} (hj : (q.modify i change).Kept j) : q.Kept j := by
  obtain ⟨c, hc, hcancelled⟩ := hj
  obtain ⟨old, hold, rfl⟩ := getElem?_modify.mp hc
  refine ⟨old, hold, ?_⟩
  split_ifs at hcancelled with hij
  · subst hij
    exact hchange old hold hcancelled
  · exact hcancelled

/-- A change of one call that neither cancels nor ends it and does not wake it out of turn. -/
theorem Queued.modify {q : HelperQueue ι} (h : q.Queued) {i : ℕ}
    {change : HelperCall ι → HelperCall ι}
    (hchange : ∀ c, q.calls[i]? = some c → (change c).cancelled = c.cancelled ∧
      ((change c).phase = .finished ↔ c.phase = .finished) ∧
      (c.cancelled = false → (change c).woken = true → c.phase ≠ .finished →
        q.queue.head? = some i) ∧
      ((change c).phase ≠ .waiting → (change c).woken = true)) :
    (q.modify i change).Queued := by
  have hkept : ∀ j, (q.modify i change).Kept j → q.Kept j := fun j ↦
    kept_of_modify fun c hc hcancelled ↦ (hchange c hc).1.symm.trans hcancelled
  constructor
  · intro j
    rw [show (q.modify i change).queue = q.queue from rfl, h.queued j]
    constructor
    · rintro ⟨old, hold, hcancelled, hphase⟩
      refine ⟨_, getElem?_modify.mpr ⟨old, hold, rfl⟩, ?_⟩
      split_ifs with hij
      · subst hij
        rw [(hchange old hold).1, ne_eq, (hchange old hold).2.1]
        exact ⟨hcancelled, hphase⟩
      · exact ⟨hcancelled, hphase⟩
    · rintro ⟨c, hc, hcancelled, hphase⟩
      obtain ⟨old, hold, rfl⟩ := getElem?_modify.mp hc
      refine ⟨old, hold, ?_⟩
      split_ifs at hcancelled hphase with hij
      · subst hij
        rw [(hchange old hold).1] at hcancelled
        rw [ne_eq, (hchange old hold).2.1] at hphase
        exact ⟨hcancelled, hphase⟩
      · exact ⟨hcancelled, hphase⟩
  · exact h.ascending
  · intro j c hc hcancelled hwoken hphase
    obtain ⟨old, hold, rfl⟩ := getElem?_modify.mp hc
    split_ifs at hcancelled hwoken hphase with hij
    · subst hij
      rw [(hchange old hold).1] at hcancelled
      rw [ne_eq, (hchange old hold).2.1] at hphase
      exact (hchange old hold).2.2.1 hcancelled hwoken hphase
    · exact h.woken j old hold hcancelled hwoken hphase
  · intro j c hc hphase
    obtain ⟨old, hold, rfl⟩ := getElem?_modify.mp hc
    split_ifs at hphase ⊢ with hij
    · subst hij
      exact (hchange old hold).2.2.2 hphase
    · exact h.started_woken j old hold hphase
  · exact h.inOrder.imp fun hle hi hj ↦ hle (hkept _ hi) (hkept _ hj)
  · intro j hj
    obtain ⟨hlen, hle⟩ := h.behind j hj
    exact ⟨hlen.trans_eq (List.length_modify _ _ _).symm, fun hk ↦ hle (hkept j hk)⟩

theorem Queued.wakeHead {q : HelperQueue ι} (h : q.Queued) : q.wakeHead.Queued := by
  unfold HelperQueue.wakeHead
  split
  · exact h
  · rename_i i rest hqueue
    refine h.modify fun c _ ↦ ⟨rfl, Iff.rfl, fun _ _ _ ↦ ?_, fun _ ↦ rfl⟩
    rw [hqueue, List.head?_cons]

/-- The end of a call that has been woken. -/
theorem Queued.finish {q : HelperQueue ι} (h : q.Queued) {i : ℕ} {call : HelperCall ι}
    (hcall : q.calls[i]? = some call) (hwoken : call.woken = true)
    (hphase : call.phase ≠ .finished) : (q.finish i).Queued := by
  have hnodup : q.queue.Nodup := h.ascending.imp fun hlt ↦ hlt.ne
  have hkept : ∀ j, (q.modify i fun c ↦ { c with phase := .finished }).Kept j → q.Kept j := by
    intro j hj
    refine kept_of_modify ?_ hj
    exact fun _ _ hcancelled ↦ hcancelled
  -- no live call but `i` was woken out of turn, so until `wakeHead` there is none
  refine Queued.wakeHead ⟨?_, h.ascending.sublist List.erase_sublist, ?_, ?_, ?_, ?_⟩
  · intro j
    rw [hnodup.mem_erase_iff, h.queued j]
    constructor
    · rintro ⟨hij, old, hold, hlive⟩
      refine ⟨old, getElem?_modify.mpr ⟨old, hold, if_neg hij.symm⟩, hlive⟩
    · rintro ⟨c, hc, hcancelled, hlive⟩
      obtain ⟨old, hold, rfl⟩ := getElem?_modify.mp hc
      split_ifs at hcancelled hlive with hij
      · exact absurd rfl hlive
      · exact ⟨Ne.symm hij, old, hold, hcancelled, hlive⟩
  · intro j c hc hcancelled hc_woken hlive
    obtain ⟨old, hold, rfl⟩ := getElem?_modify.mp hc
    split_ifs at hcancelled hc_woken hlive with hij
    · exact absurd rfl hlive
    · have hhead := h.woken j old hold hcancelled hc_woken hlive
      have hnot : i ∉ q.queue := by
        intro hmem
        obtain ⟨c, hc, hcancelled', -⟩ := (h.queued i).mp hmem
        obtain rfl := Option.some.inj (hcall.symm.trans hc)
        have hhead' := h.woken i call hcall hcancelled' hwoken hphase
        exact hij (Option.some.inj (hhead'.symm.trans hhead))
      change (q.queue.erase i).head? = some j
      rwa [List.erase_of_not_mem hnot]
  · intro j c hc hc_phase
    obtain ⟨old, hold, rfl⟩ := getElem?_modify.mp hc
    split_ifs at hc_phase ⊢ with hij
    · subst hij
      obtain rfl := Option.some.inj (hcall.symm.trans hold)
      exact hwoken
    · exact h.started_woken j old hold hc_phase
  · exact h.inOrder.imp fun hle hj hk ↦ hle (hkept _ hj) (hkept _ hk)
  · intro j hj
    obtain ⟨hlen, hle⟩ := h.behind j hj
    refine ⟨hlen.trans_eq (List.length_modify _ _ _).symm, fun hk k hmem ↦ ?_⟩
    exact hle (hkept j hk) k (List.mem_of_mem_erase hmem)

/-- Starting the helper process of a live call that has been woken. -/
theorem Queued.start {q : HelperQueue ι} (h : q.Queued) {i : ℕ} {call : HelperCall ι}
    (hcall : q.calls[i]? = some call) (hwoken : call.woken = true)
    (hcancelled : call.cancelled = false) (hphase : call.phase ≠ .finished) :
    Queued
      { q.modify i (fun c ↦ { c with phase := .running }) with started := q.started ++ [i] } := by
  have hhead := h.woken i call hcall hcancelled hwoken hphase
  have hrunning : (q.modify i fun c ↦ { c with phase := .running }).Queued := by
    refine h.modify fun c hc ↦ ?_
    obtain rfl : call = c := Option.some.inj (hcall.symm.trans hc)
    exact ⟨rfl, by simp [hphase], fun _ _ _ ↦ hhead, fun _ ↦ hwoken⟩
  obtain ⟨rest, hqueue⟩ := List.head?_eq_some_iff.mp hhead
  refine { hrunning with inOrder := ?_, behind := ?_ }
  · rw [List.pairwise_append]
    refine ⟨hrunning.inOrder, List.pairwise_singleton _ _, fun j hj k hk hkept _ ↦ ?_⟩
    rw [List.mem_singleton.mp hk]
    exact (hrunning.behind j hj).2 hkept i (hqueue ▸ List.mem_cons_self)
  · intro j hj
    rcases List.mem_append.mp hj with hold | hnew
    · exact hrunning.behind j hold
    · rw [List.mem_singleton.mp hnew]
      refine ⟨?_, fun _ k hk ↦ ?_⟩
      · simpa [HelperQueue.modify] using (List.getElem?_eq_some_iff.mp hcall).1
      · have hascending := h.ascending
        rw [hqueue, List.pairwise_cons] at hascending
        rcases List.mem_cons.mp (hqueue ▸ hk) with rfl | hrest
        · exact le_rfl
        · exact (hascending.1 k hrest).le

/-- A turn of a queue. -/
theorem Queued.step {q q' : HelperQueue ι} (h : q.Queued) {turn : Turn}
    (hstep : q.step turn = some q') : q'.Queued := by
  obtain ⟨i, c, hc, hlive, ⟨rfl, hwaiting, -⟩ | ⟨-, hwoken, hcancelled, rfl⟩ |
    ⟨hleft, phase, hphase, -, rfl⟩⟩ := step_cases hstep
  · refine h.finish hc ?_ hlive
    by_cases hphase : c.phase = .waiting
    · exact (hwaiting hphase).1
    · exact h.started_woken i c hc hphase
  · exact h.start hc hwoken hcancelled hlive
  · have hwoken := h.started_woken i c hc hleft
    refine h.modify fun other hother ↦ ?_
    obtain rfl : c = other := Option.some.inj (hc.symm.trans hother)
    exact ⟨rfl, by simp [hlive, hphase], fun hcancelled _ _ ↦
      h.woken i c hc hcancelled hwoken hlive, fun _ ↦ hwoken⟩

/-! ### Queues that are never cut short -/

/-- What holds of a queue whose calls never cancel each other: the calls not yet finished are
queued in the order they were made, only the head has been woken, and the helper processes were
started in the order of the calls, none of them before a call still queued. -/
structure Fifo (q : HelperQueue ι) : Prop where
  queued : ∀ i : ℕ, i ∈ q.queue ↔ ∃ c : HelperCall ι, q.calls[i]? = some c ∧ c.phase ≠ .finished
  ascending : q.queue.Pairwise (· < ·)
  woken : ∀ (i : ℕ) (c : HelperCall ι), q.calls[i]? = some c → c.woken = true →
    c.phase ≠ .finished → q.queue.head? = some i
  started_woken : ∀ (i : ℕ) (c : HelperCall ι), q.calls[i]? = some c → c.phase ≠ .waiting →
    c.woken = true
  kept : ∀ (i : ℕ) (c : HelperCall ι), q.calls[i]? = some c → c.cancelled = false
  inOrder : q.started.Pairwise (· ≤ ·)
  behind : ∀ j ∈ q.started, j < q.calls.length ∧ ∀ i ∈ q.queue, j ≤ i

/-- A queue of which no call has been cancelled. -/
theorem fifo_iff {q : HelperQueue ι} :
    q.Fifo ↔ q.Queued ∧
      ∀ (i : ℕ) (c : HelperCall ι), q.calls[i]? = some c → c.cancelled = false := by
  constructor
  · intro h
    refine ⟨⟨fun i ↦ ?_, h.ascending, fun i c hc _ ↦ h.woken i c hc, h.started_woken, ?_, ?_⟩,
      h.kept⟩
    · rw [h.queued i]
      exact exists_congr fun c ↦ and_congr_right fun hc ↦ by simp [h.kept i c hc]
    · exact h.inOrder.imp fun hle _ _ ↦ hle
    · exact fun j hj ↦ ⟨(h.behind j hj).1, fun _ ↦ (h.behind j hj).2⟩
  · rintro ⟨h, hkept⟩
    have hstarted : ∀ j ∈ q.started, q.Kept j := fun j hj ↦
      ⟨_, List.getElem?_eq_getElem (h.behind j hj).1, hkept j _ (List.getElem?_eq_getElem _)⟩
    refine ⟨fun i ↦ ?_, h.ascending, fun i c hc ↦ h.woken i c hc (hkept i c hc), h.started_woken,
      hkept, ?_, fun j hj ↦ ⟨(h.behind j hj).1, (h.behind j hj).2 (hstarted j hj)⟩⟩
    · rw [h.queued i]
      exact exists_congr fun c ↦ and_congr_right fun hc ↦ by simp [hkept i c hc]
    · exact h.inOrder.imp_of_mem fun hi hj hle ↦ hle (hstarted _ hi) (hstarted _ hj)

theorem fifo_empty : Fifo (empty : HelperQueue ι) :=
  fifo_iff.mpr ⟨queued_empty, by simp [empty]⟩

theorem Fifo.call {q : HelperQueue ι} (h : q.Fifo) (job : ι) : (q.call none job).Fifo := by
  obtain ⟨hqueued, hkept⟩ := fifo_iff.mp h
  refine fifo_iff.mpr ⟨hqueued.join job, fun i c hc ↦ ?_⟩
  rcases getElem?_call.mp hc with hold | ⟨-, rfl⟩
  · exact hkept i c hold
  · rfl

/-- A turn of a queue that is never cut short. -/
theorem Fifo.step {q q' : HelperQueue ι} (h : q.Fifo) {turn : Turn}
    (hstep : q.step turn = some q') :
    q'.Fifo := by
  obtain ⟨hqueued, hkept⟩ := fifo_iff.mp h
  refine fifo_iff.mpr ⟨hqueued.step hstep, fun i c hc ↦ ?_⟩
  have hsame : q'.calls.map HelperCall.cancelled = q.calls.map HelperCall.cancelled :=
    map_step (fun _ _ ↦ rfl) (fun _ ↦ rfl) hstep
  have hflag : (q.calls.map HelperCall.cancelled)[i]? = some c.cancelled := by
    rw [← hsame, List.getElem?_map, hc, Option.map_some]
  rw [List.getElem?_map, Option.map_eq_some_iff] at hflag
  obtain ⟨old, hold, hcancelled⟩ := hflag
  rw [← hcancelled]
  exact hkept i old hold

end HelperQueue

end CosmicSwingset.Solo
