import CosmicSwingset.Solo.Start

/-!
# Output commit of the solo node

What `deliver(mbs)` hands a deliverator should already be in `swingstate.json`: after a crash the
node restarts from that file, and the other side must not have seen messages or acknowledgements
that it does not remember.

`deliver` exports the live mailbox map, not the snapshot that `saveState` wrote, and it runs after
an await. `start.js` leaves the overlap open in its comment on `deliverInboundCommand` ("synchronize
this somehow, make sure it doesn't overlap with the processKernel() call in deliverInbound()"), and
`overlap` is a run in which it loses the commit (`overlap_not_commitsOutput`). The runs in which the
kernel has something new to send only while no call stands between its snapshot and its `deliver`,
and `fs.write` never stops short, all commit their output (`commitsOutput_of_keepsApart`): in them
every snapshot under way records all that the live map has to send (`SnapshotsLive`).
-/

set_option autoImplicit false
set_option relaxedAutoImplicit false

namespace CosmicSwingset.Solo

open Foundation SwingSet

variable {K : Type*}

/-- The mailbox of a peer that a restart from the file would find. -/
def Contents.mailbox (file : Contents (Machine K)) (peer : String) : Option Mailbox :=
  match file with
  | .whole saved => saved.mailbox.get peer
  | .short _ => none

/-- The file records what a deliverator is handed. -/
def Recorded (file : Contents (Machine K)) (h : Handed) : Prop :=
  ∃ mailbox ∈ file.mailbox h.target,
    (∀ m ∈ h.newMessages, m ∈ mailbox.outbox) ∧ h.acknum ≤ mailbox.inboundAck

instance (file : Contents (Machine K)) (h : Handed) : Decidable (Recorded file h) :=
  inferInstanceAs (Decidable (∃ mailbox ∈ file.mailbox h.target,
    (∀ m ∈ h.newMessages, m ∈ mailbox.outbox) ∧ h.acknum ≤ mailbox.inboundAck))

/-- A step that runs `deliver(mbs)` hands out only what `swingstate.json` records. -/
def CommitsOutput (n : Node K) (event : Event K) (_ : Node K) : Prop :=
  match event with
  | .deliver _ => ∀ h ∈ (deliver n.known n.live.mailbox).2, Recorded n.file h
  | _ => True

instance (n : Node K) (event : Event K) (n' : Node K) : Decidable (CommitsOutput n event n') :=
  match event with
  | .deliver _ =>
    inferInstanceAs (Decidable (∀ h ∈ (deliver n.known n.live.mailbox).2, Recorded n.file h))
  | .deliverInbound _ | .deliverInboundCommand _ | .crank _ _ | .ran _ _ | .file _ _ =>
    .isTrue trivial

/-- A saved map has every message and acknowledgement that the live one has to send. -/
def Covers (saved live : MailboxData) : Prop :=
  ∀ entry ∈ live.entries, ∃ mailbox ∈ saved.get entry.1,
    (∀ m ∈ entry.2.outbox, m ∈ mailbox.outbox) ∧ entry.2.inboundAck ≤ mailbox.inboundAck

instance (saved live : MailboxData) : Decidable (Covers saved live) :=
  inferInstanceAs (Decidable (∀ entry ∈ live.entries, _))

theorem Covers.refl (data : MailboxData) : Covers data data := fun entry hentry ↦
  ⟨entry.2, (data.get_eq_some_iff _ _).mpr hentry, fun _ hm ↦ hm, le_rfl⟩

theorem Covers.trans {saved data live : MailboxData} (h : Covers saved data)
    (hlive : Covers data live) : Covers saved live := by
  intro entry hentry
  obtain ⟨mailbox, hget, houtbox, hack⟩ := hlive entry hentry
  have hmem : (entry.1, mailbox) ∈ data.entries := (data.get_eq_some_iff _ _).mp hget
  obtain ⟨mailbox', hget', houtbox', hack'⟩ := h _ hmem
  exact ⟨mailbox', hget', fun m hm ↦ houtbox' m (houtbox m hm), hack.trans hack'⟩

/-- The call has captured its snapshot and has still to run `deliver`. -/
def Phase.committing : Phase K → Bool
  | .saving replacing => replacing.underway
  | _ => false

/-- The kernel adds a message to an outbox or raises an acknowledgement only while no call is
between its snapshot and its `deliver`, and `fs.write` writes all it was given. -/
def KeepsApart (n : Node K) (event : Event K) (_ : Node K) : Prop :=
  match event with
  | .crank _ machine =>
    Covers n.live.mailbox machine.mailbox ∨ ∀ call ∈ n.calls, call.committing = false
  | .file _ event => event ≠ .wrote .some
  | _ => True

instance (n : Node K) (event : Event K) (n' : Node K) : Decidable (KeepsApart n event n') :=
  match event with
  | .crank _ machine => inferInstanceAs
      (Decidable (Covers n.live.mailbox machine.mailbox ∨
        ∀ call ∈ n.calls, call.committing = false))
  | .file _ event => inferInstanceAs (Decidable (event ≠ .wrote .some))
  | .deliverInbound _ | .deliverInboundCommand _ | .ran _ _ | .deliver _ => .isTrue trivial

/-- Every snapshot under way covers the live mailbox map, and so does the file once it is saved. -/
structure SnapshotsLive (n : Node K) : Prop where
  carries : ∀ replacing, Phase.saving replacing ∈ n.calls →
    replacing.Carries fun saved ↦ Covers saved.mailbox n.live.mailbox
  saved : Phase.saving .returned ∈ n.calls →
    ∃ saved, n.file = .whole saved ∧ Covers saved.mailbox n.live.mailbox

theorem snapshotsLive_start (targets : List String) (initialState : Machine K) :
    SnapshotsLive (Node.start targets initialState) := by
  constructor <;> simp [Node.start]

theorem SnapshotsLive.processKernel {n : Node K} (h : SnapshotsLive n) (kernel : K) :
    SnapshotsLive ({ n with live.kernel := kernel }.processKernel) := by
  refine ⟨fun replacing hmem ↦ h.carries replacing ?_, fun hmem ↦ h.saved ?_⟩ <;>
    simpa [Node.processKernel] using hmem

/-- Replacing one call by one that carries nothing keeps the invariant. -/
theorem SnapshotsLive.set_call {n : Node K} (h : SnapshotsLive n) (i : ℕ) {call : Phase K}
    (hcall : ∀ replacing, call = .saving replacing →
      replacing ≠ .returned ∧ replacing.Carries fun saved ↦ Covers saved.mailbox n.live.mailbox)
    (known : KnownTargets) : SnapshotsLive { n with calls := n.calls.set i call, known } := by
  constructor
  · intro replacing hmem
    rcases List.mem_or_eq_of_mem_set hmem with hold | hnew
    · exact h.carries replacing hold
    · exact (hcall replacing hnew.symm).2
  · intro hmem
    rcases List.mem_or_eq_of_mem_set hmem with hold | hnew
    · exact h.saved hold
    · exact absurd rfl (hcall .returned hnew.symm).1

/-- A crank that has nothing new to send, or comes when nobody is committing, keeps the snapshots
live. -/
theorem SnapshotsLive.crank {n : Node K} (h : SnapshotsLive n) {machine : Machine K}
    (hapart : Covers n.live.mailbox machine.mailbox ∨ ∀ call ∈ n.calls, call.committing = false) :
    SnapshotsLive { n with live := machine } := by
  rcases hapart with hcovers | hnone
  · refine ⟨fun replacing hmem ↦ ?_, fun hmem ↦ ?_⟩
    · exact (h.carries replacing hmem).imp fun _ hsaved ↦ hsaved.trans hcovers
    · obtain ⟨saved, hfile, hsaved⟩ := h.saved hmem
      exact ⟨saved, hfile, hsaved.trans hcovers⟩
  · refine ⟨fun replacing hmem ↦ ?_, fun hmem ↦ ?_⟩
    · have hidle := hnone _ hmem
      cases replacing <;> simp_all [Phase.committing, Replacing.underway, Replacing.Carries]
    · simpa [Phase.committing, Replacing.underway] using hnone _ hmem

/-- The completion of a file operation keeps the snapshots live: what a rename puts in the file is
a snapshot under way. -/
theorem SnapshotsLive.file {n : Node K} (h : SnapshotsLive n) {i : ℕ} {event : FileEvent}
    (hshort : event ≠ .wrote .some) {replacing replacing' : Replacing (Machine K)}
    {put : Option (Contents (Machine K))} (hcall : n.calls[i]? = some (.saving replacing))
    (hstep : replacing.step event = some (replacing', put)) :
    SnapshotsLive
      { n with
        calls := n.calls.set i (.awaiting replacing')
        file := put.getD n.file } := by
  have hcarries := h.carries replacing (List.mem_of_getElem? hcall)
  rcases Replacing.step_cases hstep with ⟨hreturned, rfl⟩ | ⟨written, rfl, rfl, rfl⟩
  · refine h.set_call i (fun other hother ↦ ?_) n.known
    obtain rfl := Phase.eq_of_awaiting hother
    exact ⟨hreturned, Replacing.carries_of_step hstep hshort hcarries⟩
  · -- the rename: the file now holds the snapshot that call `i` carried
    obtain ⟨saved, rfl, hsaved⟩ := hcarries
    constructor
    · intro other hmem
      rcases List.mem_or_eq_of_mem_set hmem with hold | hnew
      · exact h.carries other hold
      · obtain rfl := Phase.eq_of_awaiting hnew.symm
        trivial
    · exact fun _ ↦ ⟨saved, rfl, hsaved⟩

theorem SnapshotsLive.step {n n' : Node K} {event : Event K} (h : SnapshotsLive n)
    (hapart : KeepsApart n event n') (hstep : n.step event = some n') : SnapshotsLive n' := by
  cases event with
  | deliverInbound kernel =>
    obtain ⟨-, rfl | ⟨kernel, rfl⟩⟩ := Node.step_deliverInbound hstep
    · exact h
    · exact h.processKernel kernel
  | deliverInboundCommand kernel =>
    obtain ⟨-, rfl⟩ := Node.step_deliverInboundCommand hstep
    exact h.processKernel kernel
  | crank i machine =>
    obtain ⟨-, rfl⟩ := Node.step_crank hstep
    exact h.crank hapart
  | ran i ok =>
    obtain ⟨-, rfl⟩ := Node.step_ran hstep
    refine h.set_call i (fun replacing hcall ↦ ?_) n.known
    cases ok with
    | false => simp at hcall
    | true =>
      obtain rfl := Phase.saving.inj hcall
      exact ⟨by simp, Covers.refl n.live.mailbox⟩
  | file i event =>
    obtain ⟨replacing, replacing', put, hcall, hfile, rfl⟩ := Node.step_file hstep
    exact h.file hapart hcall hfile
  | deliver i =>
    obtain ⟨-, rfl⟩ := Node.step_deliver hstep
    exact h.set_call i (by simp) _

/-- A call that goes on after `saveState` finds its output recorded. -/
theorem SnapshotsLive.commitsOutput {n n' : Node K} {event : Event K} (h : SnapshotsLive n)
    (hstep : n.step event = some n') : CommitsOutput n event n' := by
  cases event with
  | deliver i =>
    obtain ⟨hcall, rfl⟩ := Node.step_deliver hstep
    obtain ⟨saved, hfile, hsaved⟩ := h.saved (List.mem_of_getElem? hcall)
    intro handed hmem
    obtain ⟨mailbox, hget, hack, hmessages⟩ := mem_deliver hmem
    obtain ⟨recorded, hrecorded, houtbox, hle⟩ :=
      hsaved _ ((n.live.mailbox.get_eq_some_iff _ _).mp hget)
    refine ⟨recorded, ?_, fun m hm ↦ houtbox m (hmessages m hm), hack.le.trans hle⟩
    rw [hfile]
    exact hrecorded
  | _ => trivial

/-- In every run of the node whose kernel adds messages and raises acknowledgements only while no
call stands between its snapshot and its `deliver`, and in which `fs.write` never stops short, each
`deliver` hands out only messages and acknowledgements that `swingstate.json` records at that
moment. -/
theorem commitsOutput_of_keepsApart (targets : List String) (initialState : Machine K)
    (events : List (Event K))
    (hapart : AllSteps Node.step KeepsApart (Node.start targets initialState) events) :
    AllSteps Node.step CommitsOutput (Node.start targets initialState) events := by
  refine AllSteps.of_invariant (I := SnapshotsLive) ?_ ?_
    (snapshotsLive_start targets initialState) hapart
  · intro n event n' hlive hapart hstep
    exact hlive.step hapart hstep
  · intro n event n' hlive _ hstep
    exact hlive.commitsOutput hstep

section Runs

/-- A mailbox map with nothing to send. -/
def quiet : MailboxData := ⟨[("gci", ⟨[], 0⟩)], by decide⟩

/-- The same map after the kernel has put a message in the outbox. -/
def sending : MailboxData := ⟨[("gci", ⟨[⟨1, "hello"⟩], 0⟩)], by decide⟩

/-- The turns of call `i` from the end of its kernel run to its `deliver`, with nothing between. -/
def commitTurns (i : ℕ) : List (Event ℕ) :=
  [.ran i true, .file i (.opened true), .file i (.wrote .all), .file i (.closed true),
    .file i (.renamed true), .deliver i]

theorem commitsOutput_bootstrap :
    AllSteps Node.step CommitsOutput (Node.start ["gci"] ⟨quiet, 0⟩)
      (.crank 0 ⟨sending, 1⟩ :: commitTurns 0) :=
  commitsOutput_of_keepsApart _ _ _ (by decide)

/-- Two commands overlap after the bootstrap: while the first saves its snapshot, the kernel run of
the second puts a message in the outbox, and the first `deliver` sends it. -/
def overlap : List (Event ℕ) :=
  commitTurns 0 ++
    [.deliverInboundCommand 1, .ran 1 true, .deliverInboundCommand 2, .crank 2 ⟨sending, 3⟩] ++
    (commitTurns 1).tail

theorem overlap_not_commitsOutput :
    (run Node.step (Node.start ["gci"] ⟨quiet, 0⟩) overlap).isSome ∧
      ¬ AllSteps Node.step CommitsOutput (Node.start ["gci"] ⟨quiet, 0⟩) overlap := by
  decide

end Runs

end CosmicSwingset.Solo
