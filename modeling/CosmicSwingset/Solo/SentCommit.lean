import CosmicSwingset.Solo.ChainCosmosSdk
import CosmicSwingset.Solo.OutboundRuns

/-!
# What has been sent has been committed

`deliver` of `outbound.js` raises `highestSent` as soon as it has called the deliverator, and never
looks at what becomes of the call. So a message up to `highestSent` is accounted for only as long as
its call has not settled, or by a transaction that the helper has reported as committed. The calls
of `chain-cosmos-sdk.js` retry the helper for as long as it fails, but they give up when an
operation on the temporary file fails, and they take any output for success ("we want 'code' to be
0", says a TODO), so that a message can be lost in two ways (`openFailed`, `codeIgnored`).

`Sender` is the outbound side of the solo node as a whole: the mailbox map, `knownTargets` and the
calls of every target's deliverator. When file operations of calls with messages succeed and the
code reported is 0, in a numbering that puts new messages above `highestSent`, nothing is marked as
sent that is neither in progress nor committed (`accountedFor_of_reliable`).
-/

set_option autoImplicit false
set_option relaxedAutoImplicit false

namespace CosmicSwingset.Solo

open Foundation SwingSet

/-- How a run of the helper ends: it could not be spawned or exited with an error, or it exited with
0 and output that reports the code of the transaction. -/
inductive HelperOutcome
  | failed
  | reported (code : ℕ)
  deriving DecidableEq

/-- `parseReturn` of `deliver` gives a value for any output. -/
def HelperOutcome.ok : HelperOutcome → Bool
  | .failed => false
  | .reported _ => true

/-- A turn of the calls of one deliverator: the completion of a file operation of call `i`, or a
turn of a call of the helper queue, of which `exited` says how the helper ended. -/
inductive DeliveryEvent
  | opened (i : ℕ) (ok : Bool)
  | wrote (i : ℕ) (ok : Bool)
  | closed (i : ℕ) (ok : Bool)
  | proceed (entry : ℕ)
  | exited (entry : ℕ) (outcome : HelperOutcome)
  | retry (entry : ℕ)
  | unlinked (i : ℕ) (ok : Bool)
  deriving DecidableEq

/-- The calls of one deliverator, those that have settled, and the codes that the helper has
reported, each with the call whose file it ran on. -/
structure Deliveries where
  deliverator : Deliverator
  settled : List ℕ
  reports : List (ℕ × ℕ)

namespace Deliveries

def empty : Deliveries := ⟨.empty, [], []⟩

/-- A call `deliver(newMessages, acknum)`. -/
def deliver (c : Deliveries) (newMessages : List Message) (acknum : ℕ) : Deliveries :=
  { c with deliverator.batches := c.deliverator.batches ++ [⟨newMessages, acknum, .opening⟩] }

/-- Call `i` awaits the `unlink` of its `finally`: its file could not be written or closed, or its
call of the helper queue has ended. -/
def unlinking (c : Deliveries) (i : ℕ) : Bool :=
  i ∉ c.settled && (c.deliverator.phase i = some .failed ||
    c.deliverator.helper.calls.any fun call ↦ call.job = i && call.phase = .finished)

/-- A turn of the deliverator in which nothing is reported and nothing settles. -/
def turn (c : Deliveries) (event : DeliveratorEvent) : Option Deliveries :=
  (c.deliverator.step event).map fun deliverator ↦ { c with deliverator }

def step (c : Deliveries) : DeliveryEvent → Option Deliveries
  | .opened i true => c.turn (.opened i true)
  -- there is no file to unlink, and the call settles
  | .opened i false => (c.turn (.opened i false)).map fun c ↦ { c with settled := c.settled ++ [i] }
  | .wrote i ok => c.turn (.wrote i ok)
  | .closed i ok => c.turn (.closed i ok)
  | .proceed entry => c.turn (.helper (.proceed entry))
  | .retry entry => c.turn (.helper (.retry entry))
  | .exited entry .failed => c.turn (.helper (.exited entry false))
  | .exited entry (.reported code) =>
    match c.deliverator.helper.jobs[entry]? with
    | some i => (c.turn (.helper (.exited entry true))).map fun c ↦
        { c with reports := c.reports ++ [(i, code)] }
    | none => none
  | .unlinked i _ => if c.unlinking i then some { c with settled := c.settled ++ [i] } else none

/-- A message is in a call that has not settled, or was in a transaction that the helper has
reported with code 0. -/
def Accounts (c : Deliveries) (m : Message) : Prop :=
  ∃ i < c.deliverator.batches.length, ∃ b ∈ c.deliverator.batches[i]?,
    m ∈ b.newMessages ∧ (i ∉ c.settled ∨ (i, 0) ∈ c.reports)

instance (c : Deliveries) (m : Message) : Decidable (c.Accounts m) :=
  inferInstanceAs (Decidable (∃ i < c.deliverator.batches.length,
    ∃ b ∈ c.deliverator.batches[i]?, m ∈ b.newMessages ∧ (i ∉ c.settled ∨ (i, 0) ∈ c.reports)))

end Deliveries

/-- The outbound side of a solo node. -/
structure Sender where
  data : MailboxData
  known : KnownTargets
  deliveries : String → Deliveries

/-- A turn of the outbound side: the kernel changes the mailbox map, a connection registers its
deliverator, `deliver(mbs)` runs, or a call of some deliverator goes on. -/
inductive SenderEvent
  | exported (data : MailboxData)
  | addDeliveryTarget (target : String)
  | deliver
  | delivery (target : String) (event : DeliveryEvent)
  deriving DecidableEq

/-- The messages in the outbox of a target. -/
def outboxFor (data : MailboxData) (target : String) : List Message :=
  ((data.get target).map Mailbox.outbox).getD []

namespace Sender

/-- One call of a deliverator. -/
def hand (deliveries : String → Deliveries) (h : Handed) : String → Deliveries :=
  Function.update deliveries h.target
    ((deliveries h.target).deliver h.newMessages h.acknum)

def start (data : MailboxData) : Sender := ⟨data, fun _ ↦ none, fun _ ↦ .empty⟩

def step (s : Sender) : SenderEvent → Option Sender
  | .exported data => some { s with data }
  | .addDeliveryTarget target =>
    (Solo.addDeliveryTarget s.known target).map fun known ↦ { s with known }
  | .deliver =>
    some
      { s with
        known := (Solo.deliver s.known s.data).1
        deliveries := (Solo.deliver s.known s.data).2.foldl hand s.deliveries }
  | .delivery target event =>
    ((s.deliveries target).step event).map fun deliveries ↦
      { s with deliveries := Function.update s.deliveries target deliveries }

end Sender

/-- Every message in the outbox of a known target whose number is at most `highestSent` is in
progress or committed. -/
def AccountedFor (s : Sender) : Prop :=
  ∀ entry ∈ s.data.entries, ∀ t ∈ s.known entry.1, ∀ m ∈ entry.2.outbox,
    m.num ≤ t.highestSent → (s.deliveries entry.1).Accounts m

instance (s : Sender) : Decidable (AccountedFor s) :=
  inferInstanceAs (Decidable (∀ entry ∈ s.data.entries, ∀ t ∈ s.known entry.1,
    ∀ m ∈ entry.2.outbox, m.num ≤ t.highestSent → (s.deliveries entry.1).Accounts m))

/-- Call `i` has only an acknowledgement to pass. -/
def Deliveries.Bare (c : Deliveries) (i : ℕ) : Prop :=
  ∀ b ∈ c.deliverator.batches[i]?, b.newMessages = []

instance (c : Deliveries) (i : ℕ) : Decidable (c.Bare i) :=
  inferInstanceAs (Decidable (∀ b ∈ c.deliverator.batches[i]?, b.newMessages = []))

/-- For a call with messages no operation on the temporary file fails, and the code that the helper
reports is 0. -/
def Deliveries.Succeeds (c : Deliveries) : DeliveryEvent → Prop
  | .opened i ok | .wrote i ok | .closed i ok => ok = true ∨ c.Bare i
  | .exited entry (.reported code) =>
    code = 0 ∨ ∀ i ∈ c.deliverator.helper.jobs[entry]?, c.Bare i
  | .exited _ .failed | .proceed _ | .retry _ | .unlinked _ _ => True

instance (c : Deliveries) (event : DeliveryEvent) : Decidable (c.Succeeds event) :=
  match event with
  | .opened i ok | .wrote i ok | .closed i ok =>
    inferInstanceAs (Decidable (ok = true ∨ c.Bare i))
  | .exited entry (.reported code) => inferInstanceAs
      (Decidable (code = 0 ∨ ∀ i ∈ c.deliverator.helper.jobs[entry]?, c.Bare i))
  | .exited _ .failed | .proceed _ | .retry _ | .unlinked _ _ => .isTrue trivial

/-- The mailbox map is numbered as SwingSet numbers it: what newly appears in an outbox has a number
above all that were sent, and numbers are not 0. The calls with messages succeed. -/
def Reliable (s : Sender) (event : SenderEvent) (_ : Sender) : Prop :=
  match event with
  | .exported data => ∀ entry ∈ data.entries, ∀ t ∈ s.known entry.1, ∀ m ∈ entry.2.outbox,
      m ∈ outboxFor s.data entry.1 ∨ t.highestSent < m.num
  | .addDeliveryTarget target => ∀ m ∈ outboxFor s.data target, 0 < m.num
  | .deliver => True
  | .delivery target event => (s.deliveries target).Succeeds event

instance (s : Sender) (event : SenderEvent) (s' : Sender) : Decidable (Reliable s event s') :=
  match event with
  | .exported data => inferInstanceAs (Decidable (∀ entry ∈ data.entries, ∀ t ∈ s.known entry.1,
      ∀ m ∈ entry.2.outbox, m ∈ outboxFor s.data entry.1 ∨ t.highestSent < m.num))
  | .addDeliveryTarget target =>
    inferInstanceAs (Decidable (∀ m ∈ outboxFor s.data target, 0 < m.num))
  | .deliver => .isTrue trivial
  | .delivery target event => inferInstanceAs (Decidable ((s.deliveries target).Succeeds event))

/-! ### One deliverator -/

theorem Deliverator.getElem?_setPhase {d : Deliverator} {i j : ℕ} {phase : BatchPhase} {b : Batch} :
    (d.setPhase i phase).batches[j]? = some b ↔
      ∃ old, d.batches[j]? = some old ∧ (if i = j then { old with phase } else old) = b := by
  simp [Deliverator.setPhase, List.getElem?_modify]

theorem Deliverator.newMessages_setPhase {d : Deliverator} (k : ℕ) (phase : BatchPhase) {i : ℕ}
    {b : Batch} (hb : d.batches[i]? = some b) :
    ∃ b', (d.setPhase k phase).batches[i]? = some b' ∧ b'.newMessages = b.newMessages := by
  refine ⟨_, getElem?_setPhase.mpr ⟨b, hb, rfl⟩, ?_⟩
  split_ifs <;> rfl

/-- A call keeps its index and its messages. -/
theorem Deliverator.newMessages_of_step {d d' : Deliverator} {event : DeliveratorEvent}
    (hstep : d.step event = some d') {i : ℕ} {b : Batch} (hb : d.batches[i]? = some b) :
    ∃ b', d'.batches[i]? = some b' ∧ b'.newMessages = b.newMessages := by
  obtain ⟨newMessages, acknum, -, rfl⟩ | ⟨k, old, new, -, rfl, -⟩ | ⟨k, -, -, rfl⟩ |
    ⟨turn, helper, -, -, rfl⟩ := step_cases hstep
  · exact ⟨b, by rw [List.getElem?_append_left (List.getElem?_eq_some_iff.mp hb).1, hb], rfl⟩
  · exact newMessages_setPhase k new hb
  · exact newMessages_setPhase k .queued hb
  · exact ⟨b, hb, rfl⟩

namespace Deliveries

/-- Call `i` has no messages, or the helper has reported its transaction with code 0. -/
def Spent (c : Deliveries) (i : ℕ) : Prop :=
  ∃ b, c.deliverator.batches[i]? = some b ∧ (b.newMessages = [] ∨ (i, 0) ∈ c.reports)

/-- What holds of a deliverator while its calls with messages succeed: those that have failed or
settled, and those whose call of the helper queue has ended, are spent. -/
structure Settles (c : Deliveries) : Prop where
  fifo : c.deliverator.helper.Fifo
  jobs : ∀ i ∈ c.deliverator.helper.jobs, i < c.deliverator.batches.length
  failed : ∀ (i : ℕ) (b : Batch), c.deliverator.batches[i]? = some b →
    b.phase = .failed ∨ b.phase = .closing false → b.newMessages = []
  finished : ∀ (entry i : ℕ) (call : HelperCall ℕ), c.deliverator.helper.jobs[entry]? = some i →
    c.deliverator.helper.calls[entry]? = some call → call.phase = .finished → c.Spent i
  settled : ∀ i ∈ c.settled, c.Spent i

theorem settles_empty : Settles empty :=
  ⟨HelperQueue.fifo_empty, nofun, nofun, nofun, nofun⟩

/-- A spent call stays spent where it keeps its messages and the reports grow. -/
theorem Spent.mono {c c' : Deliveries} {i : ℕ} (h : c.Spent i)
    (hbatches : ∀ b, c.deliverator.batches[i]? = some b →
      ∃ b', c'.deliverator.batches[i]? = some b' ∧ b'.newMessages = b.newMessages)
    (hreports : c.reports ⊆ c'.reports) : c'.Spent i := by
  obtain ⟨b, hb, hi⟩ := h
  obtain ⟨b', hb', hsame⟩ := hbatches b hb
  exact ⟨b', hb', hi.imp (fun hnil ↦ hsame.trans hnil) fun hmem ↦ hreports hmem⟩

theorem Settles.reported {c : Deliveries} (h : c.Settles) {reports : List (ℕ × ℕ)}
    (hreports : c.reports ⊆ reports) : Settles { c with reports } := by
  have hspent : ∀ i, c.Spent i → Spent { c with reports } i := fun i hi ↦
    hi.mono (fun b hb ↦ ⟨b, hb, rfl⟩) hreports
  exact ⟨h.fifo, h.jobs, h.failed, fun entry i call hi hcall hphase ↦
    hspent i (h.finished entry i call hi hcall hphase), fun i hi ↦ hspent i (h.settled i hi)⟩

/-- The deliverator takes a call. -/
theorem Settles.taken {c : Deliveries} (h : c.Settles) (newMessages : List Message) (acknum : ℕ) :
    Settles { c with deliverator := { c.deliverator with
      batches := c.deliverator.batches ++ [⟨newMessages, acknum, .opening⟩] } } := by
  have hspent : ∀ i, c.Spent i → Spent { c with deliverator := { c.deliverator with
      batches := c.deliverator.batches ++ [⟨newMessages, acknum, .opening⟩] } } i := fun i hi ↦
    hi.mono (fun b hb ↦ Deliverator.newMessages_of_step
      (show c.deliverator.step (.deliver newMessages acknum) = some _ from rfl) hb)
        (List.Subset.refl _)
  refine ⟨h.fifo, fun i hi ↦ ?_, fun i b hb hphase ↦ ?_, fun entry i call hi hcall hphase ↦
    hspent i (h.finished entry i call hi hcall hphase), fun i hi ↦ hspent i (h.settled i hi)⟩
  · exact (h.jobs i hi).trans_le (by simp)
  · change (c.deliverator.batches ++ _)[i]? = some b at hb
    rw [List.getElem?_append] at hb
    split_ifs at hb with hlt
    · exact h.failed i b hb hphase
    · obtain rfl := List.mem_singleton.mp (List.mem_of_getElem? hb)
      simp at hphase

/-- A call moves on: it has no messages if it does so by failing. -/
theorem Settles.setPhase {c : Deliveries} (h : c.Settles) (k : ℕ) (new : BatchPhase)
    (hnew : new = .failed ∨ new = .closing false → c.Bare k) :
    Settles { c with deliverator := c.deliverator.setPhase k new } := by
  have hspent : ∀ i, c.Spent i → Spent { c with deliverator := c.deliverator.setPhase k new } i :=
    fun i hi ↦ hi.mono (fun b hb ↦ Deliverator.newMessages_setPhase k new hb) (List.Subset.refl _)
  refine ⟨h.fifo, fun i hi ↦ ?_, fun i b hb hphase ↦ ?_, fun entry i call hi hcall hphase ↦
    hspent i (h.finished entry i call hi hcall hphase), fun i hi ↦ hspent i (h.settled i hi)⟩
  · exact (h.jobs i hi).trans_eq (List.length_modify _ _ _).symm
  · obtain ⟨b₀, hb₀, rfl⟩ := Deliverator.getElem?_setPhase.mp hb
    split_ifs at hphase ⊢ with hki
    · subst hki
      exact hnew hphase b₀ hb₀
    · exact h.failed i b₀ hb₀ hphase

/-- A call joins the helper queue. -/
theorem Settles.join {c : Deliveries} (h : c.Settles) {k : ℕ}
    (hk : k < c.deliverator.batches.length) :
    Settles { c with deliverator := { c.deliverator with
      helper := c.deliverator.helper.call none k } } := by
  refine ⟨h.fifo.call k, fun i hi ↦ ?_, h.failed, fun entry i call hi hcall hphase ↦ ?_, h.settled⟩
  · change i ∈ (c.deliverator.helper.call none k).jobs at hi
    rw [HelperQueue.jobs_call_none] at hi
    rcases List.mem_append.mp hi with hold | hlast
    · exact h.jobs i hold
    · rw [List.mem_singleton.mp hlast]
      exact hk
  · rcases HelperQueue.getElem?_call.mp hcall with hcalled | ⟨-, rfl⟩
    · refine h.finished entry i call ?_ hcalled hphase
      change (c.deliverator.helper.call none k).jobs[entry]? = some i at hi
      have hentry : entry < c.deliverator.helper.jobs.length := by
        simpa [HelperQueue.jobs] using (List.getElem?_eq_some_iff.mp hcalled).1
      rwa [HelperQueue.jobs_call_none, List.getElem?_append_left hentry] at hi
    · cases hphase

/-- The helper queue takes a turn. -/
theorem Settles.helper {c : Deliveries} (h : c.Settles) {turn : HelperQueue.Turn}
    {helper : HelperQueue ℕ} (hturn : c.deliverator.helper.step turn = some helper)
    (hexited : ∀ entry i, turn = .exited entry true →
      c.deliverator.helper.jobs[entry]? = some i → c.Spent i) :
    Settles { c with deliverator := { c.deliverator with helper } } := by
  have hjobs : helper.jobs = c.deliverator.helper.jobs := HelperQueue.jobs_step hturn
  refine ⟨h.fifo.step hturn, fun i hi ↦ h.jobs i (hjobs ▸ hi), h.failed,
    fun entry i call hi hcall hphase ↦ ?_, h.settled⟩
  change helper.jobs[entry]? = some i at hi
  rw [hjobs] at hi
  obtain ⟨before, hbefore, hfinished | hcancelled | hexit⟩ :=
    HelperQueue.finished_of_step hturn hcall hphase
  · exact h.finished entry i before hi hbefore hfinished
  · exact absurd (h.fifo.kept entry before hbefore) (by simp [hcancelled])
  · exact hexited entry i hexit hi

/-- A turn of the deliverator, after which more may have been reported. -/
theorem Settles.turn {c : Deliveries} (h : c.Settles) {event : DeliveratorEvent} {d' : Deliverator}
    {reports : List (ℕ × ℕ)} (hstep : c.deliverator.step event = some d')
    (hfails : ∀ i, event = .opened i false ∨ event = .wrote i false ∨ event = .closed i false →
      c.Bare i)
    (hreports : c.reports ⊆ reports)
    (hexited : ∀ entry i, event = .helper (.exited entry true) →
      c.deliverator.helper.jobs[entry]? = some i → c.Bare i ∨ (i, 0) ∈ reports) :
    Settles ⟨d', c.settled, reports⟩ := by
  have hmore : Settles { c with reports } := h.reported hreports
  obtain ⟨newMessages, acknum, -, rfl⟩ | ⟨k, old, new, hold, rfl, hnew⟩ | ⟨k, -, hk, rfl⟩ |
    ⟨turn, helper, rfl, hturn, rfl⟩ := Deliverator.step_cases hstep
  · exact hmore.taken newMessages acknum
  · refine hmore.setPhase k new fun hfailed ↦ ?_
    rcases hnew hfailed with hfail | hfail | hfail | hclosing
    · exact hfails k (Or.inl hfail)
    · exact hfails k (Or.inr (Or.inl hfail))
    · exact hfails k (Or.inr (Or.inr hfail))
    · intro b hb
      obtain ⟨b', hb', hphase⟩ := Option.map_eq_some_iff.mp hold
      obtain rfl : b' = b := Option.some.inj (hb'.symm.trans hb)
      exact h.failed k b' hb' (Or.inr (hphase.trans hclosing))
  · have hqueued := hmore.setPhase k .queued (by simp)
    refine hqueued.join ?_
    obtain ⟨b, hb, -⟩ := Option.map_eq_some_iff.mp hk
    exact (List.getElem?_eq_some_iff.mp hb).1.trans_eq (List.length_modify _ _ _).symm
  · refine hmore.helper hturn fun entry i hexit hi ↦ ?_
    have hb := List.getElem?_eq_getElem (h.jobs i (List.mem_of_getElem? hi))
    exact ⟨_, hb, (hexited entry i (congrArg DeliveratorEvent.helper hexit) hi).imp
      (fun hbare ↦ hbare _ hb) id⟩

theorem turn_eq_some_iff {c c' : Deliveries} {event : DeliveratorEvent} :
    c.turn event = some c' ↔
      ∃ d', c.deliverator.step event = some d' ∧ c' = { c with deliverator := d' } := by
  simp [turn, eq_comm]

/-- The turn before any report of it. -/
theorem Settles.of_turn {c c' : Deliveries} (h : c.Settles) {event : DeliveratorEvent}
    (hturn : c.turn event = some c')
    (hfails : ∀ i, event = .opened i false ∨ event = .wrote i false ∨ event = .closed i false →
      c.Bare i)
    (hexited : ∀ entry, event ≠ .helper (.exited entry true)) : c'.Settles := by
  obtain ⟨d', hstep, rfl⟩ := turn_eq_some_iff.mp hturn
  exact h.turn hstep hfails (List.Subset.refl _) fun entry _ hevent ↦ absurd hevent (hexited entry)

theorem Settles.settle {c : Deliveries} (h : c.Settles) {i : ℕ} (hi : c.Spent i) :
    Settles { c with settled := c.settled ++ [i] } := by
  refine ⟨h.fifo, h.jobs, h.failed, h.finished, fun j hj ↦ ?_⟩
  rcases List.mem_append.mp hj with hold | hlast
  · exact h.settled j hold
  · rw [List.mem_singleton.mp hlast]
    exact hi

/-- A call that awaits its `unlink` is spent. -/
theorem Settles.spent_of_unlinking {c : Deliveries} (h : c.Settles) {i : ℕ}
    (hi : c.unlinking i = true) : c.Spent i := by
  rw [unlinking, Bool.and_eq_true, Bool.or_eq_true, decide_eq_true_eq, List.any_eq_true] at hi
  rcases hi.2 with hfailed | ⟨call, hcall, hdone⟩
  · obtain ⟨b, hb, hphase⟩ := Option.map_eq_some_iff.mp (of_decide_eq_true hfailed)
    exact ⟨b, hb, Or.inl (h.failed i b hb (Or.inl hphase))⟩
  · rw [Bool.and_eq_true, decide_eq_true_eq, decide_eq_true_eq] at hdone
    obtain ⟨entry, hentry⟩ := List.getElem?_of_mem hcall
    refine h.finished entry i call ?_ hentry hdone.2
    rw [HelperQueue.jobs, List.getElem?_map, hentry, Option.map_some, hdone.1]

theorem step_reported {c c' : Deliveries} {entry code : ℕ}
    (hstep : c.step (.exited entry (.reported code)) = some c') :
    ∃ i, c.deliverator.helper.jobs[entry]? = some i ∧
      ∃ c₁, c.turn (.helper (.exited entry true)) = some c₁ ∧
        { c₁ with reports := c₁.reports ++ [(i, code)] } = c' := by
  simp only [Deliveries.step] at hstep
  split at hstep
  · rename_i i hi
    exact ⟨i, hi, Option.map_eq_some_iff.mp hstep⟩
  · cases hstep

theorem step_unlinked {c c' : Deliveries} {i : ℕ} {ok : Bool}
    (hstep : c.step (.unlinked i ok) = some c') :
    c.unlinking i = true ∧ c' = { c with settled := c.settled ++ [i] } := by
  simp only [Deliveries.step] at hstep
  split_ifs at hstep with hunlinking
  exact ⟨hunlinking, (Option.some.inj hstep).symm⟩

/-- A turn in which what can lose a message does not happen to a call that has one. -/
theorem Settles.step {c c' : Deliveries} (h : c.Settles) {event : DeliveryEvent}
    (hsucceeds : c.Succeeds event) (hstep : c.step event = some c') : c'.Settles := by
  cases event with
  | opened i ok =>
    cases ok with
    | true => exact h.of_turn hstep (by simp) (by simp)
    | false =>
      obtain ⟨c₁, hturn, rfl⟩ := Option.map_eq_some_iff.mp hstep
      have hbare : c.Bare i := hsucceeds.resolve_left Bool.false_ne_true
      refine (h.of_turn hturn (fun j hj ↦ ?_) (by simp)).settle ?_
      · rcases hj with hj | hj | hj <;> cases hj
        exact hbare
      · obtain ⟨d', hd', rfl⟩ := turn_eq_some_iff.mp hturn
        simp only [Deliverator.step] at hd'
        split at hd' <;> cases hd'
        rename_i hphase
        obtain ⟨b, hb, -⟩ := Option.map_eq_some_iff.mp hphase
        exact ⟨_, Deliverator.getElem?_setPhase.mpr ⟨b, hb, if_pos rfl⟩, Or.inl (hbare b hb)⟩
  | wrote i ok | closed i ok =>
    refine h.of_turn hstep (fun j hj ↦ ?_) (by simp)
    rcases hj with hj | hj | hj <;> cases hj
    exact hsucceeds.resolve_left Bool.false_ne_true
  | proceed entry | retry entry => exact h.of_turn hstep (by simp) (by simp)
  | exited entry outcome =>
    cases outcome with
    | failed => exact h.of_turn hstep (by simp) (by simp)
    | reported code =>
      obtain ⟨i, hi, c₁, hturn, rfl⟩ := step_reported hstep
      obtain ⟨d', hd', rfl⟩ := turn_eq_some_iff.mp hturn
      refine h.turn hd' (by simp) (List.subset_append_left _ _) fun other j hevent hj ↦ ?_
      cases hevent
      obtain rfl : i = j := Option.some.inj (hi.symm.trans hj)
      rcases hsucceeds with rfl | hbare
      · exact Or.inr (by simp)
      · exact Or.inl (hbare i hi)
  | unlinked i ok =>
    obtain ⟨hunlinking, rfl⟩ := step_unlinked hstep
    exact h.settle (h.spent_of_unlinking hunlinking)

/-- A message was handed to the deliverator. -/
def Held (c : Deliveries) (m : Message) : Prop :=
  ∃ (i : ℕ) (b : Batch), c.deliverator.batches[i]? = some b ∧ m ∈ b.newMessages

/-- A turn leaves the deliverator as it is, or is one of its turns. -/
theorem deliverator_of_step {c c' : Deliveries} {event : DeliveryEvent}
    (hstep : c.step event = some c') : c'.deliverator = c.deliverator ∨
      ∃ turn, c.deliverator.step turn = some c'.deliverator := by
  have hturn {turn : DeliveratorEvent} {c₁ : Deliveries} (hc₁ : c.turn turn = some c₁) :
      ∃ turn, c.deliverator.step turn = some c₁.deliverator := by
    obtain ⟨d, hd, rfl⟩ := turn_eq_some_iff.mp hc₁
    exact ⟨turn, hd⟩
  cases event with
  | opened i ok =>
    cases ok with
    | true => exact Or.inr (hturn hstep)
    | false =>
      obtain ⟨c₁, hc₁, rfl⟩ := Option.map_eq_some_iff.mp hstep
      obtain ⟨turn, hd⟩ := hturn hc₁
      exact Or.inr ⟨turn, hd⟩
  | wrote | closed | proceed | retry => exact Or.inr (hturn hstep)
  | exited entry outcome =>
    cases outcome with
    | failed => exact Or.inr (hturn hstep)
    | reported code =>
      obtain ⟨i, -, c₁, hc₁, rfl⟩ := step_reported hstep
      obtain ⟨turn, hd⟩ := hturn hc₁
      exact Or.inr ⟨turn, hd⟩
  | unlinked i ok =>
    obtain ⟨-, rfl⟩ := step_unlinked hstep
    exact Or.inl rfl

theorem Held.step {c c' : Deliveries} {m : Message} (h : c.Held m) {event : DeliveryEvent}
    (hstep : c.step event = some c') : c'.Held m := by
  obtain ⟨i, b, hb, hm⟩ := h
  rcases deliverator_of_step hstep with hsame | ⟨turn, hturn⟩
  · exact ⟨i, b, by rw [hsame, hb], hm⟩
  · obtain ⟨b', hb', hsame⟩ := Deliverator.newMessages_of_step hturn hb
    exact ⟨i, b', hb', hsame ▸ hm⟩

/-- What a deliverator has been handed is accounted for while its calls succeed. -/
theorem Settles.accounts {c : Deliveries} (h : c.Settles) {m : Message} (hm : c.Held m) :
    c.Accounts m := by
  obtain ⟨i, b, hb, hmem⟩ := hm
  refine ⟨i, (List.getElem?_eq_some_iff.mp hb).1, b, hb, hmem, ?_⟩
  by_cases hi : i ∈ c.settled
  · obtain ⟨b', hb', hspent⟩ := h.settled i hi
    obtain rfl : b = b' := Option.some.inj (hb.symm.trans hb')
    exact Or.inr (hspent.resolve_left (List.ne_nil_of_mem hmem))
  · exact Or.inl hi

theorem Settles.deliver {c : Deliveries} (h : c.Settles) (newMessages : List Message) (acknum : ℕ) :
    (c.deliver newMessages acknum).Settles := by
  have hstep : c.deliverator.step (.deliver newMessages acknum) =
      some (c.deliver newMessages acknum).deliverator := rfl
  exact h.turn hstep (by simp) (List.Subset.refl _) (by simp)

theorem Held.deliver {c : Deliveries} {m : Message} {newMessages : List Message} {acknum : ℕ}
    (h : c.Held m ∨ m ∈ newMessages) : (c.deliver newMessages acknum).Held m := by
  rcases h with ⟨i, b, hb, hm⟩ | hm
  · have hlt := (List.getElem?_eq_some_iff.mp hb).1
    exact ⟨i, b, (List.getElem?_append_left hlt).trans hb, hm⟩
  · exact ⟨c.deliverator.batches.length, _, List.getElem?_concat_length, hm⟩

end Deliveries

/-! ### The whole outbound side -/

/-- What a run of `deliver(mbs)` does to the calls of one target's deliverator. -/
theorem Sender.foldl_hand (handed : List Handed) (deliveries : String → Deliveries)
    (target : String) :
    handed.foldl hand deliveries target =
      (handed.filter fun h ↦ h.target = target).foldl
        (fun c h ↦ c.deliver h.newMessages h.acknum) (deliveries target) := by
  induction handed generalizing deliveries with
  | nil => rfl
  | cons h rest ih =>
    rw [List.foldl_cons, ih, List.filter_cons, hand]
    by_cases htarget : h.target = target
    · subst htarget
      simp
    · simp [htarget, Function.update_of_ne (Ne.symm htarget)]

/-- The calls of every deliverator settle as they should, and every message in the outbox of a known
target that counts as sent was handed to its deliverator. -/
structure Accounting (s : Sender) : Prop where
  settles : ∀ target, (s.deliveries target).Settles
  held : ∀ target t, s.known target = some t → ∀ m ∈ outboxFor s.data target,
    m.num ≤ t.highestSent → (s.deliveries target).Held m

theorem accounting_start (data : MailboxData) : Accounting (.start data) :=
  ⟨fun _ ↦ Deliveries.settles_empty, nofun⟩

theorem mem_outboxFor {data : MailboxData} {target : String} {m : Message} :
    m ∈ outboxFor data target ↔ ∃ mailbox, data.get target = some mailbox ∧ m ∈ mailbox.outbox := by
  unfold outboxFor
  cases data.get target <;> simp

/-- After `deliver(mbs)` every message in the outbox of a known target has been handed over. -/
theorem Accounting.deliver {s : Sender} (h : Accounting s) :
    Accounting
      { s with
        known := (deliver s.known s.data).1
        deliveries := (deliver s.known s.data).2.foldl Sender.hand s.deliveries } := by
  have hgrow : ∀ (handed : List Handed) (c : Deliveries), c.Settles →
      (handed.foldl (fun c h ↦ c.deliver h.newMessages h.acknum) c).Settles := by
    intro handed
    induction handed with
    | nil => exact fun c hc ↦ hc
    | cons h rest ih => exact fun c hc ↦ ih _ (hc.deliver h.newMessages h.acknum)
  refine ⟨fun target ↦ ?_, fun target t' ht' m hm _ ↦ ?_⟩
  · change ((Solo.deliver s.known s.data).2.foldl Sender.hand s.deliveries target).Settles
    rw [Sender.foldl_hand]
    exact hgrow _ _ (h.settles target)
  · obtain ⟨mailbox, hget, hm⟩ := mem_outboxFor.mp hm
    obtain ⟨hentry, hhanded⟩ := deliverEntries_mem s.known s.data.distinct
      ((s.data.get_eq_some_iff target mailbox).mp hget)
    change (deliverEntries s.known s.data.entries).1 target = some t' at ht'
    change ((deliverEntries s.known s.data.entries).2.foldl Sender.hand s.deliveries target).Held m
    rw [Sender.foldl_hand, hhanded]
    rw [hentry] at ht'
    unfold deliverTarget at ht' ⊢
    cases hknown : s.known target with
    | none => simp [hknown] at ht'
    | some t =>
      simp only
      by_cases hle : m.num ≤ t.highestSent
      · have hbefore := h.held target t hknown m (mem_outboxFor.mpr ⟨mailbox, hget, hm⟩) hle
        split_ifs
        · exact Deliveries.Held.deliver (Or.inl hbefore)
        · exact hbefore
      · have hfresh : m ∈ newMessages t mailbox.outbox := mem_newMessages.mpr ⟨hm, not_le.mp hle⟩
        rw [if_pos (Or.inl (List.ne_nil_of_mem hfresh))]
        exact Deliveries.Held.deliver (Or.inr hfresh)

theorem Accounting.step {s s' : Sender} (h : Accounting s) {event : SenderEvent}
    (hreliable : Reliable s event s') (hstep : s.step event = some s') : Accounting s' := by
  cases event with
  | exported data =>
    cases hstep
    refine ⟨h.settles, fun target t ht m hm hle ↦ ?_⟩
    obtain ⟨mailbox, hget, hmem⟩ := mem_outboxFor.mp hm
    have hentry := (data.get_eq_some_iff target mailbox).mp hget
    rcases hreliable _ hentry t ht m hmem with hbefore | hnew
    · exact h.held target t ht m hbefore hle
    · exact absurd hle (not_le.mpr hnew)
  | addDeliveryTarget target =>
    obtain ⟨known, hadded, rfl⟩ := Option.map_eq_some_iff.mp hstep
    refine ⟨h.settles, fun other t ht m hm hle ↦ ?_⟩
    unfold addDeliveryTarget at hadded
    split at hadded <;> cases hadded
    change Function.update s.known target (some ⟨0, 0⟩) other = some t at ht
    by_cases hother : other = target
    · subst hother
      rw [Function.update_self, Option.some.injEq] at ht
      subst ht
      exact absurd hle (not_le.mpr (hreliable m hm))
    · rw [Function.update_of_ne hother] at ht
      exact h.held other t ht m hm hle
  | deliver =>
    cases hstep
    exact h.deliver
  | delivery target event =>
    obtain ⟨deliveries, hevent, rfl⟩ := Option.map_eq_some_iff.mp hstep
    refine ⟨fun other ↦ ?_, fun other t ht m hm hle ↦ ?_⟩
    · by_cases hother : other = target
      · subst hother
        simpa using (h.settles other).step hreliable hevent
      · simpa [Function.update_of_ne hother] using h.settles other
    · have hheld := h.held other t ht m hm hle
      by_cases hother : other = target
      · subst hother
        simpa using hheld.step hevent
      · simpa [Function.update_of_ne hother] using hheld

/-- In every state of the outbound side that is reached by steps in which new messages have numbers
above those sent and calls with messages meet no failure of a file operation and no code but 0,
every message in the outbox of a known target up to `highestSent` is in a call that has not settled
or in a transaction reported with code 0. Spawn failures and exits with an error may come at any
time. -/
theorem accountedFor_of_reliable (data : MailboxData) (events : List SenderEvent) (s : Sender)
    (hreliable : AllSteps Sender.step Reliable (.start data) events)
    (hrun : run Sender.step (.start data) events = some s) : AccountedFor s := by
  have h : Accounting s :=
    run_invariant (fun _ _ _ h hreliable hstep ↦ h.step hreliable hstep) (accounting_start data)
      hreliable hrun
  intro entry hentry t ht m hm hle
  have hget := (s.data.get_eq_some_iff entry.1 entry.2).mpr hentry
  have hmem : m ∈ outboxFor s.data entry.1 := mem_outboxFor.mpr ⟨entry.2, hget, hm⟩
  exact (h.settles entry.1).accounts (h.held entry.1 t ht m hmem hle)

section Runs

/-- A target with one message, registered before its first `deliver(mbs)`. -/
def oneMessage : List SenderEvent :=
  [.addDeliveryTarget "gci", .exported (outboxOf [⟨1, "hello"⟩] 0), .deliver]

/-- The temporary file of the call cannot be opened. -/
def openFailed : List SenderEvent :=
  oneMessage ++ [.delivery "gci" (.opened 0 false)]

/-- The helper exits with 0, and its output reports that the transaction failed with code 5. -/
def codeIgnored : List SenderEvent :=
  oneMessage ++ [.delivery "gci" (.opened 0 true), .delivery "gci" (.wrote 0 true),
    .delivery "gci" (.closed 0 true), .delivery "gci" (.proceed 0),
    .delivery "gci" (.exited 0 (.reported 5)), .delivery "gci" (.unlinked 0 true)]

/-- The helper fails once, is run again and reports code 0. -/
def committed : List SenderEvent :=
  oneMessage ++ [.delivery "gci" (.opened 0 true), .delivery "gci" (.wrote 0 true),
    .delivery "gci" (.closed 0 true), .delivery "gci" (.proceed 0),
    .delivery "gci" (.exited 0 .failed), .delivery "gci" (.retry 0), .delivery "gci" (.proceed 0),
    .delivery "gci" (.exited 0 (.reported 0)), .delivery "gci" (.unlinked 0 true)]

theorem accountedFor_committed :
    ∃ s, run Sender.step (.start .empty) committed = some s ∧
      (s.deliveries "gci").settled = [0] ∧ AccountedFor s :=
  ⟨_, rfl, rfl, accountedFor_of_reliable .empty committed _ (by decide) rfl⟩

theorem lost_not_accountedFor :
    (∃ s, run Sender.step (.start .empty) openFailed = some s ∧ ¬ AccountedFor s) ∧
      ∃ s, run Sender.step (.start .empty) codeIgnored = some s ∧ ¬ AccountedFor s := by
  exact ⟨⟨_, rfl, by decide⟩, ⟨_, rfl, by decide⟩⟩

end Runs

end CosmicSwingset.Solo
