import CosmicSwingset.Chain.GetCmdDeliver
import CosmicSwingset.Solo.SentCommit
import Mathlib.Data.List.Perm.Basic

/-!
# From an outbox to the kernel of the chain

A call of a deliverator ends in a file with a text; each helper process that is started for it reads
the file and broadcasts at most one transaction, which the chain may take into a block at any later
time or never, also after the process has failed and another was started. For each transaction in a
block the handler calls `deliverInbound` in the chain's kernel. `Link` is the outbound side of a
solo node together with the transactions that are on their way to its chains and the calls that
the chains have made.

In every run, whatever fails, and in whatever order transactions arrive, each call is under the name
of the node and has the messages and the acknowledgement of one mailbox that the node had for this
chain (`delivered_of_run`), and none is made more often than the helper was started on its batch
(`delivered_count_of_run`).
-/

set_option autoImplicit false
set_option relaxedAutoImplicit false

namespace CosmicSwingset.Solo

open Foundation SwingSet Chain

/-- What `connectToChain` knows of the node's account: the name under which it sends, the address of
the key `ag-solo`, and the paths of its temporary files, none of which is `-`. -/
structure Account where
  text : AddressText
  myAddr : String
  submitter : AccAddress
  tmpPath : String → ℕ → GoString
  tmpPath_ne : ∀ target i, tmpPath target i ≠ go "-"

/-- A transaction that was broadcast by helper call `entry` for a chain. -/
structure Submission where
  target : String
  entry : ℕ
  msg : MsgDeliverInbound

/-- A call `deliverInbound` that a chain has made for a transaction of helper call `entry`. -/
structure Inbound where
  target : String
  entry : ℕ
  call : DeliverInboundCall

/-- `spoken` are the helper processes under way that have broadcast, `pool` the transactions that
are in no block, `log` the calls of the chains in the order of their blocks. -/
structure Link where
  sender : Sender
  spoken : List (String × ℕ)
  pool : List Submission
  ports : String → Ports
  log : List Inbound

/-- A turn of the outbound side; the broadcast of a helper process; the inclusion of a transaction
in a block, with the reply of the JavaScript side; or its loss. -/
inductive LinkEvent
  | sender (event : SenderEvent)
  | broadcast (target : String) (entry : ℕ)
  | included (k : ℕ) (blockHeight : ℤ) (reply : Except GoString GoString)
  | dropped (k : ℕ)

/-- What call `i` of the helper queue awaits. -/
def HelperQueue.phase (q : HelperQueue ℕ) (i : ℕ) : Option HelperPhase :=
  q.calls[i]?.map HelperCall.phase

namespace Deliveries

/-- The arguments of the deliverator's calls. -/
def contents (c : Deliveries) : List (List Message × ℕ) :=
  c.deliverator.batches.map fun b ↦ (b.newMessages, b.acknum)

/-- The deliverator's calls that have joined the helper queue. -/
def jobs (c : Deliveries) : List ℕ := c.deliverator.helper.jobs

/-- The messages and the acknowledgement that helper call `entry` is for. -/
def content (c : Deliveries) (entry : ℕ) : Option (List Message × ℕ) :=
  c.jobs[entry]?.bind (c.contents[·]?)

def phase (c : Deliveries) (entry : ℕ) : Option HelperPhase := c.deliverator.helper.phase entry

end Deliveries

/-- The temporary file of call `i` of a deliverator. -/
def Account.readFile (a : Account) (target : String) (i : ℕ) (content : List Message × ℕ)
    (path : GoString) : Option GoString :=
  if path = a.tmpPath target i then some (encode (deliverText content.1 content.2)) else none

/-- The message that the helper process of call `entry` broadcasts, if it does. Its standard input
is the password. -/
def Account.submit (a : Account) (target : String) (c : Deliveries) (entry : ℕ) :
    Option MsgDeliverInbound :=
  match c.jobs[entry]?, c.content entry with
  | some i, some content =>
    match getCmdDeliver a.text (a.readFile target i content) (some (go "mmmmmmmm"))
        (encode a.myAddr) (go "@" ++ a.tmpPath target i) a.submitter with
    | .msg msg => some msg
    | .failed _ | .panicked => none
  | _, _ => none

namespace Link

def start (data : MailboxData) (ports : String → Ports) : Link := ⟨.start data, [], [], ports, []⟩

/-- A helper process that is started has broadcast nothing yet. -/
def restart (spoken : List (String × ℕ)) : SenderEvent → List (String × ℕ)
  | .delivery target (.proceed entry) => spoken.filter (· ≠ (target, entry))
  | _ => spoken

def step (a : Account) (l : Link) : LinkEvent → Option Link
  | .sender event =>
    (l.sender.step event).map fun sender ↦ { l with sender, spoken := restart l.spoken event }
  | .broadcast target entry =>
    if (l.sender.deliveries target).phase entry = some .running ∧ (target, entry) ∉ l.spoken then
      (a.submit target (l.sender.deliveries target) entry).map fun msg ↦
        { l with
          spoken := (target, entry) :: l.spoken
          pool := l.pool ++ [⟨target, entry, msg⟩] }
    else none
  | .included k blockHeight reply =>
    match l.pool[k]? with
    | none => none
    | some s =>
      match handleMsgDeliverInbound (fun _ ↦ reply) blockHeight (l.ports s.target) s.msg with
      | none => none
      | some handled => (fromGo (Json.marshal handled.action.json)).map fun call ↦
          { l with
            pool := l.pool.eraseIdx k
            ports := Function.update l.ports s.target handled.ports
            log := l.log ++ [⟨s.target, s.entry, call⟩] }
  | .dropped k => if k < l.pool.length then some { l with pool := l.pool.eraseIdx k } else none

end Link

/-! ### What a turn of the outbound side does to one chain -/

/-- What was handed to a deliverator stays, and so does what has joined its queue. -/
structure Deliveries.Grows (c c' : Deliveries) : Prop where
  contents : c.contents <+: c'.contents
  jobs : c.jobs <+: c'.jobs

theorem Deliveries.Grows.refl (c : Deliveries) : c.Grows c :=
  ⟨List.prefix_rfl, List.prefix_rfl⟩

theorem getElem?_of_prefix {α : Type*} {l l' : List α} (h : l <+: l') {i : ℕ} {x : α}
    (hx : l[i]? = some x) : l'[i]? = some x := by
  obtain ⟨hi, rfl⟩ := List.getElem?_eq_some_iff.mp hx
  exact List.prefix_iff_getElem?.mp h i hi

theorem Deliveries.Grows.content {c c' : Deliveries} (h : c.Grows c') {entry : ℕ}
    {content : List Message × ℕ} (hcontent : c.content entry = some content) :
    c'.content entry = some content := by
  obtain ⟨i, hi, hc⟩ := Option.bind_eq_some_iff.mp hcontent
  exact Option.bind_eq_some_iff.mpr
    ⟨i, getElem?_of_prefix h.jobs hi, getElem?_of_prefix h.contents hc⟩

theorem Deliverator.contents_setPhase (d : Deliverator) (i : ℕ) (phase : BatchPhase) :
    (d.setPhase i phase).batches.map (fun b ↦ (b.newMessages, b.acknum)) =
      d.batches.map fun b ↦ (b.newMessages, b.acknum) := by
  apply List.ext_getElem?
  intro j
  simp only [setPhase, List.getElem?_map, List.getElem?_modify]
  cases d.batches[j]? with
  | none => rfl
  | some b => by_cases hij : i = j <;> simp [hij]

/-- A turn of the deliverator takes a call, or lets one whose file is complete join the queue, or
leaves the calls and the queue as they are. -/
theorem Deliverator.contents_of_step {d d' : Deliverator} {event : DeliveratorEvent}
    (hstep : d.step event = some d') :
    (∃ newMessages acknum, event = .deliver newMessages acknum) ∨
      d'.batches.map (fun b ↦ (b.newMessages, b.acknum)) =
          d.batches.map (fun b ↦ (b.newMessages, b.acknum)) ∧
        (d'.helper.jobs = d.helper.jobs ∨
          ∃ i, event = .closed i true ∧ d.phase i = some (.closing true) ∧
            d'.helper.jobs = d.helper.jobs ++ [i]) := by
  rcases step_cases hstep with ⟨newMessages, acknum, rfl, -⟩ | ⟨i, old, new, -, rfl, -⟩ |
    ⟨i, rfl, hphase, rfl⟩ | ⟨turn, helper, rfl, hturn, rfl⟩
  · exact Or.inl ⟨newMessages, acknum, rfl⟩
  · exact Or.inr ⟨contents_setPhase d i new, Or.inl rfl⟩
  · exact Or.inr ⟨contents_setPhase d i .queued,
      Or.inr ⟨i, rfl, hphase, HelperQueue.jobs_call_none _ i⟩⟩
  · exact Or.inr ⟨rfl, Or.inl (HelperQueue.jobs_step hturn)⟩

/-- The turn of the deliverator that an event is. -/
def DeliveryEvent.turn : DeliveryEvent → Option DeliveratorEvent
  | .opened i ok => some (.opened i ok)
  | .wrote i ok => some (.wrote i ok)
  | .closed i ok => some (.closed i ok)
  | .proceed entry => some (.helper (.proceed entry))
  | .exited entry outcome => some (.helper (.exited entry outcome.ok))
  | .retry entry => some (.helper (.retry entry))
  | .unlinked _ _ => none

theorem Deliveries.step_turn {c c' : Deliveries} {event : DeliveryEvent}
    (hstep : c.step event = some c') :
    (∃ turn, event.turn = some turn ∧ c.deliverator.step turn = some c'.deliverator) ∨
      event.turn = none ∧ c'.deliverator = c.deliverator := by
  have hturn {turn : DeliveratorEvent} {c₁ : Deliveries} (hc₁ : c.turn turn = some c₁) :
      c.deliverator.step turn = some c₁.deliverator := by
    obtain ⟨d, hd, rfl⟩ := turn_eq_some_iff.mp hc₁
    exact hd
  cases event with
  | opened i ok =>
    cases ok with
    | true => exact Or.inl ⟨_, rfl, hturn hstep⟩
    | false =>
      obtain ⟨c₁, hc₁, rfl⟩ := Option.map_eq_some_iff.mp hstep
      have hd := hturn hc₁
      exact Or.inl ⟨_, rfl, hd⟩
  | wrote | closed | proceed | retry => exact Or.inl ⟨_, rfl, hturn hstep⟩
  | exited entry outcome =>
    cases outcome with
    | failed => exact Or.inl ⟨_, rfl, hturn hstep⟩
    | reported code =>
      obtain ⟨i, -, c₁, hc₁, rfl⟩ := step_reported hstep
      have hd := hturn hc₁
      exact Or.inl ⟨_, rfl, hd⟩
  | unlinked i ok =>
    obtain ⟨-, rfl⟩ := step_unlinked hstep
    exact Or.inr ⟨rfl, rfl⟩

/-- What a turn of a call does to what was handed over and to the queue. -/
theorem Deliveries.step_spec {c c' : Deliveries} {event : DeliveryEvent}
    (hstep : c.step event = some c') :
    c'.contents = c.contents ∧ (c'.jobs = c.jobs ∨ ∃ i, event = .closed i true ∧
      c.deliverator.phase i = some (.closing true) ∧ c'.jobs = c.jobs ++ [i]) := by
  rcases step_turn hstep with ⟨turn, hevent, hturn⟩ | ⟨-, hsame⟩
  · rcases Deliverator.contents_of_step hturn with ⟨newMessages, acknum, rfl⟩ | ⟨hcontents, hjobs⟩
    · cases event <;> cases hevent
    · refine ⟨hcontents, hjobs.imp id ?_⟩
      rintro ⟨i, rfl, hphase, hjoined⟩
      cases event <;> cases hevent
      exact ⟨i, rfl, hphase, hjoined⟩
  · rw [contents, jobs, hsame]
    exact ⟨rfl, Or.inl rfl⟩

theorem Deliveries.reports_of_step {c c' : Deliveries} {event : DeliveryEvent}
    (hstep : c.step event = some c') :
    c'.reports = c.reports ∨ ∃ entry i code, event = .exited entry (.reported code) ∧
      c.jobs[entry]? = some i ∧ c'.reports = c.reports ++ [(i, code)] := by
  have hturn {turn : DeliveratorEvent} {c₁ : Deliveries} (hc₁ : c.turn turn = some c₁) :
      c₁.reports = c.reports := by
    obtain ⟨d, -, rfl⟩ := turn_eq_some_iff.mp hc₁
    rfl
  cases event with
  | opened i ok =>
    cases ok with
    | true => exact Or.inl (hturn hstep)
    | false =>
      obtain ⟨c₁, hc₁, rfl⟩ := Option.map_eq_some_iff.mp hstep
      have hsame := hturn hc₁
      exact Or.inl hsame
  | wrote | closed | proceed | retry => exact Or.inl (hturn hstep)
  | exited entry outcome =>
    cases outcome with
    | failed => exact Or.inl (hturn hstep)
    | reported code =>
      obtain ⟨i, hi, c₁, hc₁, rfl⟩ := step_reported hstep
      exact Or.inr ⟨entry, i, code, rfl, hi, congrArg (· ++ [(i, code)]) (hturn hc₁)⟩
  | unlinked i ok =>
    obtain ⟨-, rfl⟩ := step_unlinked hstep
    exact Or.inl rfl

theorem Deliveries.grows_of_step {c c' : Deliveries} {event : DeliveryEvent}
    (hstep : c.step event = some c') : c.Grows c' := by
  obtain ⟨hcontents, hjobs⟩ := step_spec hstep
  refine ⟨hcontents ▸ List.prefix_rfl, ?_⟩
  rcases hjobs with hsame | ⟨i, -, -, hjoined⟩
  · exact hsame ▸ List.prefix_rfl
  · exact hjoined ▸ List.prefix_append _ _

theorem Deliveries.contents_deliver (c : Deliveries) (newMessages : List Message) (acknum : ℕ) :
    (c.deliver newMessages acknum).contents = c.contents ++ [(newMessages, acknum)] := by
  simp [contents, deliver]

theorem Deliveries.grows_deliver (c : Deliveries) (newMessages : List Message) (acknum : ℕ) :
    c.Grows (c.deliver newMessages acknum) := by
  refine ⟨?_, List.prefix_rfl⟩
  rw [contents_deliver]
  exact List.prefix_append _ _

/-- What a turn does to a target: nothing, but that it may become known; a call of its deliverator
with what is new in its mailbox; or a turn of a call. -/
theorem Sender.step_target {s s' : Sender} {event : SenderEvent} (hstep : s.step event = some s')
    (target : String) :
    ((∀ turn, event ≠ .delivery target turn) ∧ s'.deliveries target = s.deliveries target ∧
        (s'.known target = s.known target ∨
          s.known target = none ∧ s'.known target = some ⟨0, 0⟩)) ∨
      (event = .deliver ∧ ∃ t mailbox, s.known target = some t ∧
        s.data.get target = some mailbox ∧
        s'.known target = some
          { highestSent :=
              ((newMessages t mailbox.outbox).getLast?.map Message.num).getD t.highestSent
            highestAck := mailbox.inboundAck } ∧
        s'.deliveries target = (s.deliveries target).deliver (newMessages t mailbox.outbox)
          mailbox.inboundAck) ∨
      ∃ turn, event = .delivery target turn ∧ s'.known target = s.known target ∧
        (s.deliveries target).step turn = some (s'.deliveries target) := by
  cases event with
  | exported data =>
    cases hstep
    exact Or.inl ⟨by simp, rfl, Or.inl rfl⟩
  | addDeliveryTarget other =>
    obtain ⟨known, hadded, rfl⟩ := Option.map_eq_some_iff.mp hstep
    refine Or.inl ⟨by simp, rfl, ?_⟩
    unfold addDeliveryTarget at hadded
    split at hadded <;> cases hadded
    rename_i hnone
    by_cases hother : other = target
    · subst hother
      exact Or.inr ⟨hnone, Function.update_self _ _ _⟩
    · exact Or.inl (Function.update_of_ne (Ne.symm hother) _ _)
  | deliver =>
    cases hstep
    have hdeliveries := foldl_hand (deliver s.known s.data).2 s.deliveries target
    cases hget : s.data.get target with
    | none =>
      have hnot : ∀ entry ∈ s.data.entries, entry.1 ≠ target := by
        intro entry hentry hname
        have hsome := (s.data.get_eq_some_iff target entry.2).mpr (hname ▸ hentry)
        rw [hget] at hsome
        cases hsome
      obtain ⟨hkept, hnone⟩ := deliverEntries_other s.known hnot
      rw [deliver, hnone] at hdeliveries
      exact Or.inl ⟨by simp, hdeliveries, Or.inl hkept⟩
    | some mailbox =>
      obtain ⟨hentry, hhanded⟩ := deliverEntries_mem s.known s.data.distinct
        ((s.data.get_eq_some_iff target mailbox).mp hget)
      rw [deliver, hhanded] at hdeliveries
      unfold deliverTarget at hentry hdeliveries
      cases hknown : s.known target with
      | none =>
        simp only [hknown] at hentry hdeliveries
        exact Or.inl ⟨by simp, hdeliveries, Or.inl hentry⟩
      | some t =>
        simp only [hknown] at hentry hdeliveries
        split_ifs at hentry hdeliveries with hnew
        · exact Or.inr (Or.inl ⟨rfl, t, mailbox, rfl, rfl,
            hentry.trans (Function.update_self _ _ _), hdeliveries⟩)
        · exact Or.inl ⟨by simp, hdeliveries, Or.inl (hentry.trans hknown)⟩
  | delivery other turn =>
    obtain ⟨deliveries, hturn, rfl⟩ := Option.map_eq_some_iff.mp hstep
    by_cases hother : other = target
    · subst hother
      exact Or.inr (Or.inr ⟨turn, rfl, rfl, by simpa using hturn⟩)
    · exact Or.inl ⟨by simp [hother], Function.update_of_ne (Ne.symm hother) _ _, Or.inl rfl⟩

theorem Sender.grows {s s' : Sender} {event : SenderEvent} (hstep : s.step event = some s')
    (target : String) : (s.deliveries target).Grows (s'.deliveries target) := by
  rcases step_target hstep target with ⟨-, hsame, -⟩ | ⟨-, t, mailbox, -, -, -, hdeliver⟩ |
    ⟨turn, -, -, hturn⟩
  · rw [hsame]
    exact .refl _
  · rw [hdeliver]
    exact Deliveries.grows_deliver _ _ _
  · exact Deliveries.grows_of_step hturn

/-! ### What is on its way -/

/-- The message of a batch. -/
def Account.message (a : Account) (content : List Message × ℕ) : MsgDeliverInbound :=
  newMsgDeliverInbound (encode a.myAddr) (sentMessages content.1 content.2) a.submitter

/-- The call of a batch. -/
def Account.call (a : Account) (content : List Message × ℕ) : DeliverInboundCall :=
  ⟨some (.str a.myAddr), some (messagesJson content.1), some (.num (.ofInt content.2))⟩

variable {a : Account}

theorem Account.submit_eq_some {target : String} {c : Deliveries} {entry : ℕ}
    {msg : MsgDeliverInbound} (h : a.submit target c entry = some msg) :
    ∃ content, c.content entry = some content ∧ msg = a.message content ∧ msg.Valid := by
  unfold Account.submit at h
  split at h
  · rename_i i content hi hcontent
    split at h
    · rename_i broadcast hbroadcast
      obtain rfl := Option.some.inj h
      exact ⟨content, hcontent,
        getCmdDeliver_file (a.tmpPath_ne target i) (if_pos rfl) hbroadcast⟩
    · cases h
    · cases h
  · cases h

theorem Link.step_broadcast {l l' : Link} {target : String} {entry : ℕ}
    (hstep : l.step a (.broadcast target entry) = some l') :
    (l.sender.deliveries target).phase entry = some .running ∧ (target, entry) ∉ l.spoken ∧
      ∃ msg, a.submit target (l.sender.deliveries target) entry = some msg ∧
        l' = { l with
          spoken := (target, entry) :: l.spoken
          pool := l.pool ++ [⟨target, entry, msg⟩] } := by
  simp only [Link.step] at hstep
  split_ifs at hstep with hspeaks
  obtain ⟨msg, hmsg, rfl⟩ := Option.map_eq_some_iff.mp hstep
  exact ⟨hspeaks.1, hspeaks.2, msg, hmsg, rfl⟩

theorem Link.step_included {l l' : Link} {k : ℕ} {blockHeight : ℤ}
    {reply : Except GoString GoString}
    (hstep : l.step a (.included k blockHeight reply) = some l') :
    ∃ s handled call, l.pool[k]? = some s ∧
      handleMsgDeliverInbound (fun _ ↦ reply) blockHeight (l.ports s.target) s.msg = some handled ∧
      fromGo (Json.marshal handled.action.json) = some call ∧
      l' = { l with
        pool := l.pool.eraseIdx k
        ports := Function.update l.ports s.target handled.ports
        log := l.log ++ [⟨s.target, s.entry, call⟩] } := by
  simp only [Link.step] at hstep
  split at hstep
  · cases hstep
  · rename_i s hs
    split at hstep
    · cases hstep
    · rename_i handled hhandled
      obtain ⟨call, hcall, rfl⟩ := Option.map_eq_some_iff.mp hstep
      exact ⟨s, handled, call, hs, hhandled, hcall, rfl⟩

theorem Link.step_dropped {l l' : Link} {k : ℕ} (hstep : l.step a (.dropped k) = some l') :
    l' = { l with pool := l.pool.eraseIdx k } := by
  simp only [Link.step] at hstep
  split_ifs at hstep
  exact (Option.some.inj hstep).symm

theorem Link.step_sender {l l' : Link} {event : SenderEvent}
    (hstep : l.step a (.sender event) = some l') :
    ∃ sender, l.sender.step event = some sender ∧
      l' = { l with sender, spoken := restart l.spoken event } := by
  obtain ⟨sender, hsender, rfl⟩ := Option.map_eq_some_iff.mp hstep
  exact ⟨sender, hsender, rfl⟩

/-- Every transaction and every call is of the batch of its helper call. -/
structure Carried (a : Account) (l : Link) : Prop where
  pool : ∀ s ∈ l.pool, ∃ content, (l.sender.deliveries s.target).content s.entry = some content ∧
    s.msg = a.message content ∧ s.msg.Valid
  log : ∀ x ∈ l.log, ∃ content, (l.sender.deliveries x.target).content x.entry = some content ∧
    x.call = a.call content

theorem carried_start (data : MailboxData) (ports : String → Ports) :
    Carried a (.start data ports) :=
  ⟨nofun, nofun⟩

theorem Carried.step {l l' : Link} (h : Carried a l) {event : LinkEvent}
    (hstep : l.step a event = some l') : Carried a l' := by
  cases event with
  | sender event =>
    obtain ⟨sender, hsender, rfl⟩ := Link.step_sender hstep
    refine ⟨fun s hs ↦ ?_, fun x hx ↦ ?_⟩
    · obtain ⟨content, hcontent, hmsg⟩ := h.pool s hs
      exact ⟨content, (Sender.grows hsender s.target).content hcontent, hmsg⟩
    · obtain ⟨content, hcontent, hcall⟩ := h.log x hx
      exact ⟨content, (Sender.grows hsender x.target).content hcontent, hcall⟩
  | broadcast target entry =>
    obtain ⟨-, -, msg, hmsg, rfl⟩ := Link.step_broadcast hstep
    refine ⟨fun s hs ↦ ?_, h.log⟩
    rcases List.mem_append.mp hs with hold | hlast
    · exact h.pool s hold
    · rw [List.mem_singleton.mp hlast]
      exact Account.submit_eq_some hmsg
  | included k blockHeight reply =>
    obtain ⟨s, handled, call, hs, hhandled, hcall, rfl⟩ := Link.step_included hstep
    refine ⟨fun other hother ↦ h.pool other (List.mem_of_mem_eraseIdx hother), fun x hx ↦ ?_⟩
    rcases List.mem_append.mp hx with hold | hlast
    · exact h.log x hold
    · obtain rfl := List.mem_singleton.mp hlast
      obtain ⟨content, hcontent, hmsg, hvalid⟩ := h.pool s (List.mem_of_getElem? hs)
      refine ⟨content, hcontent, ?_⟩
      -- the handler and the JavaScript side make the call of the batch
      rw [hmsg] at hvalid hhandled
      obtain ⟨handled', hhandled', hcall'⟩ :=
        call_of_submitted hvalid (fun _ ↦ reply) blockHeight (l.ports s.target)
      obtain rfl := Option.some.inj (hhandled.symm.trans hhandled')
      exact Option.some.inj (hcall.symm.trans hcall')
  | dropped k =>
    rw [Link.step_dropped hstep]
    exact ⟨fun s hs ↦ h.pool s (List.mem_of_mem_eraseIdx hs), h.log⟩

/-! ### Where it comes from -/

/-- The mailbox maps of a run. -/
def maps (data : MailboxData) (events : List LinkEvent) : List MailboxData :=
  data :: events.filterMap fun
    | .sender (.exported data) => some data
    | _ => none

/-- The messages are in an outbox for the target in one of the maps, and the acknowledgement is the
one beside this outbox. -/
def FromMailbox (maps : List MailboxData) (target : String) (content : List Message × ℕ) : Prop :=
  ∃ data ∈ maps, ∃ mailbox, data.get target = some mailbox ∧ content.2 = mailbox.inboundAck ∧
    ∀ m ∈ content.1, m ∈ mailbox.outbox

theorem FromMailbox.mono {maps maps' : List MailboxData} {target : String}
    {content : List Message × ℕ} (h : FromMailbox maps target content) (hmaps : maps ⊆ maps') :
    FromMailbox maps' target content := by
  obtain ⟨data, hdata, hmailbox⟩ := h
  exact ⟨data, hmaps hdata, hmailbox⟩

theorem maps_append (data : MailboxData) (events : List LinkEvent) (event : LinkEvent) :
    maps data events ⊆ maps data (events ++ [event]) := by
  rw [maps, maps, List.filterMap_append]
  exact List.cons_subset_cons _ (List.subset_append_left _ _)

/-- The current map is one of the run's, and all that was handed over is from one of them. -/
structure Traced (data : MailboxData) (events : List LinkEvent) (l : Link) : Prop where
  current : l.sender.data ∈ maps data events
  handed : ∀ target, ∀ content ∈ (l.sender.deliveries target).contents,
    FromMailbox (maps data events) target content

theorem traced_start (data : MailboxData) (ports : String → Ports) :
    Traced data [] (.start data ports) :=
  ⟨List.mem_cons_self, fun _ _ h ↦ absurd h List.not_mem_nil⟩

theorem Traced.of_sender_eq {data : MailboxData} {events : List LinkEvent} {l l' : Link}
    (h : Traced data events l) (hsame : l'.sender = l.sender) (event : LinkEvent) :
    Traced data (events ++ [event]) l' := by
  refine ⟨?_, fun target content hcontent ↦ ?_⟩
  · rw [hsame]
    exact maps_append data events event h.current
  · rw [hsame] at hcontent
    exact (h.handed target content hcontent).mono (maps_append data events event)

theorem Traced.step {data : MailboxData} {events : List LinkEvent} {l l' : Link}
    (h : Traced data events l) {event : LinkEvent} (hstep : l.step a event = some l') :
    Traced data (events ++ [event]) l' := by
  cases event with
  | sender event =>
    obtain ⟨sender, hsender, rfl⟩ := Link.step_sender hstep
    refine ⟨?_, fun target content hcontent ↦ ?_⟩
    · change sender.data ∈ _
      cases event with
      | exported data' =>
        cases hsender
        simp [maps]
      | addDeliveryTarget other =>
        obtain ⟨known, -, rfl⟩ := Option.map_eq_some_iff.mp hsender
        exact maps_append data events _ h.current
      | deliver =>
        cases hsender
        exact maps_append data events _ h.current
      | delivery other turn =>
        obtain ⟨deliveries, -, rfl⟩ := Option.map_eq_some_iff.mp hsender
        exact maps_append data events _ h.current
    · refine FromMailbox.mono ?_ (maps_append data events _)
      change content ∈ (sender.deliveries target).contents at hcontent
      rcases Sender.step_target hsender target with ⟨-, hsame, -⟩ |
        ⟨-, t, mailbox, -, hget, -, hdeliver⟩ | ⟨turn, -, -, hturn⟩
      · rw [hsame] at hcontent
        exact h.handed target content hcontent
      · rw [hdeliver, Deliveries.contents_deliver] at hcontent
        rcases List.mem_append.mp hcontent with hold | hlast
        · exact h.handed target content hold
        · rw [List.mem_singleton.mp hlast]
          exact ⟨l.sender.data, h.current, mailbox, hget, rfl,
            fun m hm ↦ (mem_newMessages.mp hm).1⟩
      · rw [(Deliveries.step_spec hturn).1] at hcontent
        exact h.handed target content hcontent
  | broadcast target entry =>
    obtain ⟨-, -, msg, -, rfl⟩ := Link.step_broadcast hstep
    refine h.of_sender_eq ?_ _
    rfl
  | included k blockHeight reply =>
    obtain ⟨s, handled, call, -, -, -, rfl⟩ := Link.step_included hstep
    refine h.of_sender_eq ?_ _
    rfl
  | dropped k =>
    rw [Link.step_dropped hstep]
    refine h.of_sender_eq ?_ _
    rfl

theorem Deliveries.mem_contents {c : Deliveries} {entry : ℕ} {content : List Message × ℕ}
    (h : c.content entry = some content) : content ∈ c.contents := by
  obtain ⟨i, -, hc⟩ := Option.bind_eq_some_iff.mp h
  exact List.mem_of_getElem? hc

/-- In every run of a solo node's outbound side and the transactions on their way, with any failures
of file operations and helper processes, retries, lost transactions and any order of arrival: a
call that a chain's kernel gets is under the node's name, its messages were all in the outbox for
this chain in one of the mailbox maps that the node had, and its acknowledgement was the one
there. -/
theorem delivered_of_run (a : Account) (data : MailboxData) (ports : String → Ports)
    (events : List LinkEvent) (l : Link)
    (hrun : run (Link.step a) (.start data ports) events = some l) :
    ∀ x ∈ l.log, ∃ content, FromMailbox (maps data events) x.target content ∧
      x.call = a.call content := by
  have h : Carried a l ∧ Traced data events l :=
    run_history (I := fun events l ↦ Carried a l ∧ Traced data events l)
      (fun _ _ _ _ h hstep ↦ ⟨h.1.step hstep, h.2.step hstep⟩)
      ⟨carried_start data ports, traced_start data ports⟩ hrun
  intro x hx
  obtain ⟨content, hcontent, hcall⟩ := h.1.log x hx
  exact ⟨content, h.2.handed x.target content (Deliveries.mem_contents hcontent), hcall⟩

/-! ### How often it is sent -/

theorem HelperQueue.phase_modify (q : HelperQueue ℕ) (i : ℕ) (phase : HelperPhase) (j : ℕ) :
    (q.modify i fun c ↦ { c with phase }).phase j =
      if i = j then (q.phase j).map fun _ ↦ phase else q.phase j := by
  simp only [modify, HelperQueue.phase, List.getElem?_modify]
  cases q.calls[j]? <;> by_cases hij : i = j <;> simp [hij]

/-- To the other calls `finish` does nothing but to wake one. -/
theorem HelperQueue.phase_finish (q : HelperQueue ℕ) (i j : ℕ) :
    (q.finish i).phase j = (q.modify i fun c ↦ { c with phase := .finished }).phase j := by
  have hwoken : ∀ (q : HelperQueue ℕ) (k : ℕ),
      (q.modify k fun c ↦ { c with woken := true }).calls.map HelperCall.phase =
        q.calls.map HelperCall.phase := fun q k ↦ map_modify q k fun _ ↦ rfl
  rw [HelperQueue.phase, HelperQueue.phase, ← List.getElem?_map, ← List.getElem?_map]
  unfold finish wakeHead
  split
  · rfl
  · rw [hwoken]
    rfl

theorem HelperQueue.started_finish (q : HelperQueue ℕ) (i : ℕ) :
    (q.finish i).started = q.started := by
  unfold finish wakeHead
  split <;> rfl

/-- A turn starts the process of a call that has waited, or no process. -/
theorem HelperQueue.starts_of_step {q q' : HelperQueue ℕ} {turn : Turn}
    (hstep : q.step turn = some q') :
    (∃ i, turn = .proceed i ∧ q.phase i = some .waiting ∧ q'.started = q.started ++ [i] ∧
        ∀ j, q'.phase j = some .running → j = i ∨ q.phase j = some .running) ∨
      q'.started = q.started ∧ ∀ j, q'.phase j = some .running →
        q.phase j = some .running ∧ turn ≠ .proceed j := by
  have hmoved : ∀ i (phase : HelperPhase), phase ≠ .running → ∀ j,
      (q.modify i fun c ↦ { c with phase }).phase j = some .running →
        q.phase j = some .running ∧ i ≠ j := by
    intro i phase hphase j hj
    rw [phase_modify] at hj
    split_ifs at hj with hij
    · obtain ⟨-, -, rfl⟩ := Option.map_eq_some_iff.mp hj
      exact absurd rfl hphase
    · exact ⟨hj, hij⟩
  have hfinished : ∀ i j, (q.finish i).phase j = some .running →
      q.phase j = some .running ∧ i ≠ j := by
    intro i j hj
    rw [phase_finish] at hj
    exact hmoved i .finished (by simp) j hj
  cases turn with
  | proceed i =>
    simp only [step] at hstep
    split at hstep
    · rename_i job cancelled hcall
      split_ifs at hstep
      · obtain rfl := Option.some.inj hstep
        refine Or.inr ⟨started_finish q i, fun j hj ↦ ?_⟩
        obtain ⟨hbefore, hij⟩ := hfinished i j hj
        exact ⟨hbefore, by simp [hij]⟩
      · obtain rfl := Option.some.inj hstep
        refine Or.inl ⟨i, rfl, by rw [HelperQueue.phase, hcall]; rfl, rfl, fun j hj ↦ ?_⟩
        change (q.modify i fun c ↦ { c with phase := .running }).phase j = _ at hj
        rw [phase_modify] at hj
        split_ifs at hj with hij
        · exact Or.inl hij.symm
        · exact Or.inr hj
    · cases hstep
  | exited i ok =>
    simp only [step] at hstep
    split at hstep
    · split_ifs at hstep
      · obtain rfl := Option.some.inj hstep
        exact Or.inr ⟨started_finish q i, fun j hj ↦ ⟨(hfinished i j hj).1, by simp⟩⟩
      · obtain rfl := Option.some.inj hstep
        exact Or.inr ⟨rfl, fun j hj ↦ ⟨(hmoved i .sleeping (by simp) j hj).1, by simp⟩⟩
    · cases hstep
  | retry i =>
    simp only [step] at hstep
    split at hstep
    · obtain rfl := Option.some.inj hstep
      exact Or.inr ⟨rfl, fun j hj ↦ ⟨(hmoved i .waiting (by simp) j hj).1, by simp⟩⟩
    · cases hstep

/-- While the helper process of a call runs, the calls ahead of it have ended. -/
theorem HelperQueue.Fifo.finished_of_running {q : HelperQueue ℕ} (h : q.Fifo) {i : ℕ}
    (hrunning : q.phase i = some .running) {j : ℕ} (hj : j < i) : q.phase j = some .finished := by
  obtain ⟨call, hcall, hphase⟩ := Option.map_eq_some_iff.mp hrunning
  have hlength : i < q.calls.length := (List.getElem?_eq_some_iff.mp hcall).1
  have hhead : q.queue.head? = some i :=
    h.woken i call hcall (h.started_woken i call hcall (by simp [hphase])) (by simp [hphase])
  have hother : q.calls[j]? = some q.calls[j] := List.getElem?_eq_getElem (hj.trans hlength)
  refine Option.map_eq_some_iff.mpr ⟨_, hother, ?_⟩
  by_contra hlive
  -- otherwise it would be queued behind the head
  have hqueued : j ∈ q.queue := (h.queued j).mpr ⟨_, hother, hlive⟩
  obtain ⟨rest, hqueue⟩ := List.head?_eq_some_iff.mp hhead
  have hascending := h.ascending
  rw [hqueue] at hqueued hascending
  rcases List.mem_cons.mp hqueued with rfl | hrest
  · exact lt_irrefl _ hj
  · exact lt_asymm hj ((List.pairwise_cons.mp hascending).1 j hrest)

/-- A turn of the deliverator is one of its helper queue, or lets at most a call join it. -/
theorem Deliverator.helper_of_step {d d' : Deliverator} {event : DeliveratorEvent}
    (hstep : d.step event = some d') :
    (∃ turn, event = .helper turn ∧ d.helper.step turn = some d'.helper) ∨
      (∀ turn, event ≠ .helper turn) ∧
        (d'.helper = d.helper ∨ ∃ i, d'.helper = d.helper.call none i) := by
  by_cases hevent : ∃ turn, event = .helper turn
  · obtain ⟨turn, rfl⟩ := hevent
    simp only [step] at hstep
    split at hstep <;> cases hstep
    rename_i helper hturn
    exact Or.inl ⟨turn, rfl, hturn⟩
  · refine Or.inr ⟨fun turn heq ↦ hevent ⟨turn, heq⟩, ?_⟩
    rcases step_cases hstep with ⟨_, _, -, rfl⟩ | ⟨i, _, _, -, rfl, -⟩ | ⟨i, -, -, rfl⟩ |
      ⟨turn, -, heq, -⟩
    · exact Or.inl rfl
    · exact Or.inl rfl
    · exact Or.inr ⟨i, rfl⟩
    · exact absurd ⟨turn, heq⟩ hevent

/-- A turn of a call starts its helper process, or none. -/
theorem Deliveries.starts_of_step {c c' : Deliveries} {event : DeliveryEvent}
    (hstep : c.step event = some c') :
    (∃ i, event = .proceed i ∧ c.phase i = some .waiting ∧
        c'.deliverator.helper.started = c.deliverator.helper.started ++ [i] ∧
        ∀ j, c'.phase j = some .running → j = i ∨ c.phase j = some .running) ∨
      c'.deliverator.helper.started = c.deliverator.helper.started ∧
        ∀ j, c'.phase j = some .running → c.phase j = some .running ∧ event ≠ .proceed j := by
  rcases step_turn hstep with ⟨turn, hevent, hturn⟩ | ⟨hevent, hsame⟩
  · rcases Deliverator.helper_of_step hturn with ⟨helperTurn, rfl, hhelper⟩ | ⟨hother, hhelper⟩
    · refine (HelperQueue.starts_of_step hhelper).imp ?_ (And.imp_right fun hnone j hj ↦ ?_)
      · rintro ⟨i, rfl, hwaiting⟩
        cases event <;> cases hevent
        exact ⟨i, rfl, hwaiting⟩
      · refine ⟨(hnone j hj).1, ?_⟩
        rintro rfl
        cases hevent
        exact (hnone j hj).2 rfl
    · have hproceed : ∀ j, event ≠ .proceed j := by
        rintro j rfl
        cases hevent
        exact hother _ rfl
      rcases hhelper with hsame | ⟨i, hjoined⟩
      · exact Or.inr ⟨by rw [hsame], fun j hj ↦ ⟨by rwa [phase, hsame] at hj, hproceed j⟩⟩
      · refine Or.inr ⟨by rw [hjoined]; rfl, fun j hj ↦ ⟨?_, hproceed j⟩⟩
        rw [phase, hjoined] at hj
        obtain ⟨call, hcall, hphase⟩ := Option.map_eq_some_iff.mp hj
        rcases HelperQueue.getElem?_call.mp hcall with hbefore | ⟨-, rfl⟩
        · exact Option.map_eq_some_iff.mpr ⟨call, hbefore, hphase⟩
        · cases hphase
  · refine Or.inr ⟨by rw [hsame], fun j hj ↦ ⟨by rwa [phase, hsame] at hj, ?_⟩⟩
    rintro rfl
    cases hevent

/-- The calls that a chain has made, and the transactions on their way, of one helper call. -/
def Link.made (l : Link) (target : String) (entry : ℕ) : ℕ :=
  l.log.countP fun x ↦ x.target = target ∧ x.entry = entry

def Link.onWay (l : Link) (target : String) (entry : ℕ) : ℕ :=
  l.pool.countP fun s ↦ s.target = target ∧ s.entry = entry

/-- The helper process of the call is under way and has broadcast nothing. -/
def Link.Silent (l : Link) (target : String) (entry : ℕ) : Prop :=
  (l.sender.deliveries target).phase entry = some .running ∧ (target, entry) ∉ l.spoken

instance (l : Link) (target : String) (entry : ℕ) : Decidable (l.Silent target entry) :=
  inferInstanceAs (Decidable (_ ∧ _))

/-- Each start of the helper accounts for one transaction at most. -/
def Counted (l : Link) : Prop :=
  ∀ target entry, l.made target entry + l.onWay target entry +
      (if l.Silent target entry then 1 else 0) ≤
    (l.sender.deliveries target).deliverator.helper.started.count entry

theorem counted_start (data : MailboxData) (ports : String → Ports) :
    Counted (.start data ports) := fun _ _ ↦ Nat.le_refl 0

theorem Link.notMem_of_restart {spoken : List (String × ℕ)} {event : SenderEvent} {target : String}
    {entry : ℕ} (h : (target, entry) ∉ restart spoken event)
    (hevent : event ≠ .delivery target (.proceed entry)) : (target, entry) ∉ spoken := by
  unfold restart at h
  split at h
  · rename_i other i
    refine fun hmem ↦ h (List.mem_filter.mpr ⟨hmem, ?_⟩)
    have hne : (target, entry) ≠ (other, i) := by
      rintro heq
      cases heq
      exact hevent rfl
    exact decide_eq_true hne
  · exact h

/-- What is silent after a turn of the outbound side: a call whose process was started in it, or one
that was silent before. -/
theorem Link.silent_of_step {l : Link} {sender : Sender} {event : SenderEvent}
    (hstep : l.sender.step event = some sender) (target : String) :
    (∃ i, ¬ l.Silent target i ∧ (sender.deliveries target).deliverator.helper.started =
          (l.sender.deliveries target).deliverator.helper.started ++ [i] ∧
        ∀ j, Silent { l with sender, spoken := restart l.spoken event } target j →
          j = i ∨ l.Silent target j) ∨
      (sender.deliveries target).deliverator.helper.started =
          (l.sender.deliveries target).deliverator.helper.started ∧
        ∀ j, Silent { l with sender, spoken := restart l.spoken event } target j →
          l.Silent target j := by
  rcases Sender.step_target hstep target with ⟨hother, hsame, -⟩ |
    ⟨rfl, t, mailbox, -, -, -, hdeliver⟩ | ⟨turn, rfl, -, hturn⟩
  · refine Or.inr ⟨by rw [hsame], fun j hj ↦ ⟨?_, notMem_of_restart hj.2 (hother _)⟩⟩
    rw [← hsame]
    exact hj.1
  · refine Or.inr ⟨by rw [hdeliver]; rfl, fun j hj ↦ ⟨?_, hj.2⟩⟩
    have hphase := hj.1
    simp only [hdeliver] at hphase
    exact hphase
  · rcases Deliveries.starts_of_step hturn with ⟨i, rfl, hwaiting, hstarted, hrunning⟩ |
      ⟨hstarted, hrunning⟩
    · refine Or.inl ⟨i, fun hsilent ↦ ?_, hstarted, fun j hj ↦ ?_⟩
      · have hphase := hsilent.1
        rw [hwaiting] at hphase
        cases hphase
      · by_cases hij : j = i
        · exact Or.inl hij
        · have hspoken : (target, j) ∉ restart l.spoken (.delivery target (.proceed i)) := hj.2
          exact Or.inr ⟨(hrunning j hj.1).resolve_left hij,
            notMem_of_restart hspoken (by simp [Ne.symm hij])⟩
    · refine Or.inr ⟨hstarted, fun j hj ↦ ?_⟩
      obtain ⟨hbefore, hother⟩ := hrunning j hj.1
      exact ⟨hbefore, notMem_of_restart hj.2 (by simp [hother])⟩

theorem Counted.step {l l' : Link} (h : Counted l) {event : LinkEvent}
    (hstep : l.step a event = some l') : Counted l' := by
  intro target entry
  have hbefore := h target entry
  cases event with
  | sender event =>
    obtain ⟨sender, hsender, rfl⟩ := Link.step_sender hstep
    rcases Link.silent_of_step hsender target with ⟨i, hi, hstarted, hsilent⟩ | ⟨hstarted, hsilent⟩
    · change l.made target entry + l.onWay target entry + _ ≤ _
      simp only [hstarted, List.count_append, List.count_singleton, beq_iff_eq]
      by_cases hij : entry = i
      · subst hij
        rw [if_neg hi] at hbefore
        split_ifs <;> omega
      · have := hsilent entry
        split_ifs at hbefore ⊢ <;> first | omega | (exfalso; tauto)
    · change l.made target entry + l.onWay target entry + _ ≤ _
      simp only [hstarted]
      have := hsilent entry
      split_ifs at hbefore ⊢ <;> first | omega | (exfalso; tauto)
  | broadcast other i =>
    obtain ⟨hrunning, hspoken, msg, -, hl⟩ := Link.step_broadcast hstep
    have hmade : l'.made target entry = l.made target entry := by rw [hl]; rfl
    have honWay : l'.onWay target entry =
        l.onWay target entry + if other = target ∧ i = entry then 1 else 0 := by
      simp [hl, Link.onWay, List.countP_append, List.countP_singleton]
    have hsender : l'.sender = l.sender := by rw [hl]
    rw [hmade, honWay, hsender]
    by_cases hsame : other = target ∧ i = entry
    · -- its process has now broadcast
      obtain ⟨rfl, rfl⟩ := hsame
      have hsilent : ¬ l'.Silent other i := fun hsilent ↦ by
        rw [hl] at hsilent
        exact hsilent.2 List.mem_cons_self
      rw [if_pos ⟨hrunning, hspoken⟩] at hbefore
      rw [if_pos ⟨rfl, rfl⟩, if_neg hsilent]
      omega
    · have hsilent : l'.Silent target entry → l.Silent target entry := fun hsilent ↦ by
        rw [hl] at hsilent
        exact ⟨hsilent.1, fun hmem ↦ hsilent.2 (List.mem_cons_of_mem _ hmem)⟩
      rw [if_neg hsame]
      split_ifs at hbefore ⊢ <;> first | omega | (exfalso; tauto)
  | included k blockHeight reply =>
    obtain ⟨s, handled, call, hs, -, -, hl⟩ := Link.step_included hstep
    obtain ⟨hk, rfl⟩ := List.getElem?_eq_some_iff.mp hs
    -- one more call, and one transaction fewer on its way
    have hmade : l'.made target entry = l.made target entry +
        if l.pool[k].target = target ∧ l.pool[k].entry = entry then 1 else 0 := by
      simp [hl, Link.made, List.countP_append, List.countP_singleton]
    have honWay : l.onWay target entry = l'.onWay target entry +
        if l.pool[k].target = target ∧ l.pool[k].entry = entry then 1 else 0 := by
      rw [Link.onWay, ← (List.getElem_cons_eraseIdx_perm hk).countP_eq, List.countP_cons, hl]
      simp [Link.onWay]
    have hsilent : l'.Silent target entry ↔ l.Silent target entry := by rw [hl]; rfl
    have hsender : l'.sender = l.sender := by rw [hl]
    rw [hsender, hmade, if_congr hsilent rfl rfl]
    omega
  | dropped k =>
    rw [Link.step_dropped hstep]
    have hpool : (l.pool.eraseIdx k).countP (fun s ↦ s.target = target ∧ s.entry = entry) ≤
        l.onWay target entry := (List.eraseIdx_sublist _ _).countP_le
    exact (Nat.add_le_add_right (Nat.add_le_add_left hpool _) _).trans hbefore

/-- In every run, whatever fails and is sent again, a chain's kernel gets at most as many calls of a
batch as helper processes were started on it; so a batch whose helper did not fail comes once at
most. -/
theorem delivered_count_of_run (a : Account) (data : MailboxData) (ports : String → Ports)
    (events : List LinkEvent) (l : Link)
    (hrun : run (Link.step a) (.start data ports) events = some l) (target : String) (entry : ℕ) :
    l.made target entry ≤ (l.sender.deliveries target).deliverator.helper.started.count entry := by
  have h : Counted l :=
    run_inductive (fun _ _ _ h hstep ↦ h.step hstep) (counted_start data ports) hrun
  have hcount := h target entry
  omega

/-! ### Runs -/

/-- The helper process of a batch that the chain takes can broadcast it. -/
theorem Link.step_broadcast_of_sendable {l : Link} {target : String} {entry i : ℕ}
    {content : List Message × ℕ} (haddress : a.submitter ≠ [])
    (hsilent : l.Silent target entry) (hi : (l.sender.deliveries target).jobs[entry]? = some i)
    (hcontent : (l.sender.deliveries target).content entry = some content)
    (hsendable : Sendable a.myAddr content.1 content.2) :
    l.step a (.broadcast target entry) =
      some { l with
        spoken := (target, entry) :: l.spoken
        pool := l.pool ++ [⟨target, entry, a.message content⟩] } := by
  have hfile : a.readFile target i content (a.tmpPath target i) =
      some (encode (deliverText content.1 content.2)) := if_pos rfl
  have hsubmit : a.submit target (l.sender.deliveries target) entry =
      some (a.message content) := by
    simp only [Account.submit, hi, hcontent,
      getCmdDeliver_of_sendable (a.tmpPath_ne target i) hfile hsendable haddress]
    rfl
  have hspeaks : (l.sender.deliveries target).phase entry = some .running ∧
      (target, entry) ∉ l.spoken := hsilent
  rw [Link.step, if_pos hspeaks, hsubmit, Option.map_some]

/-- A transaction of such a batch can be taken into a block. -/
theorem Link.step_included_of_sendable {l : Link} {k : ℕ} {s : Submission}
    {content : List Message × ℕ} (haddress : a.submitter ≠ []) (hs : l.pool[k]? = some s)
    (hmsg : s.msg = a.message content) (hsendable : Sendable a.myAddr content.1 content.2)
    (blockHeight : ℤ) (reply : Except GoString GoString) :
    ∃ ports, l.step a (.included k blockHeight reply) =
      some { l with
        pool := l.pool.eraseIdx k
        ports
        log := l.log ++ [⟨s.target, s.entry, a.call content⟩] } := by
  obtain ⟨handled, hhandled, hcall⟩ := call_of_submitted (hsendable.valid haddress)
    (fun _ ↦ reply) blockHeight (l.ports s.target)
  have hmessage : handleMsgDeliverInbound (fun _ ↦ reply) blockHeight (l.ports s.target) s.msg =
      some handled := hmsg ▸ hhandled
  refine ⟨Function.update l.ports s.target handled.ports, ?_⟩
  simp only [Link.step, hs, hmessage, hcall, Option.map_some]
  rfl

section Runs

def agSolo : Account :=
  ⟨cosmosAddress, "alice", [1], fun _ _ ↦ go "/tmp/ag-solo-cosmos-deliver.1", by
    intro _ _
    decide⟩

def noPorts : String → Ports := fun _ ↦ ⟨0, []⟩

/-- A message is handed over, and the helper is started on its file. -/
def started : List LinkEvent :=
  oneMessage.map LinkEvent.sender ++
    [.sender (.delivery "gci" (.opened 0 true)), .sender (.delivery "gci" (.wrote 0 true)),
      .sender (.delivery "gci" (.closed 0 true)), .sender (.delivery "gci" (.proceed 0))]

/-- The helper fails after its broadcast, and is started again. -/
def retried : List LinkEvent :=
  [.sender (.delivery "gci" (.exited 0 .failed)), .sender (.delivery "gci" (.retry 0)),
    .sender (.delivery "gci" (.proceed 0))]

/-- The helper reports that the transaction is in a block. -/
def settled : List LinkEvent :=
  [.sender (.delivery "gci" (.exited 0 (.reported 0))),
    .sender (.delivery "gci" (.unlinked 0 true))]

/-- Both transactions get into a block, the second one first. -/
def resent : List LinkEvent :=
  started ++ .broadcast "gci" 0 :: (retried ++ .broadcast "gci" 0 ::
    .included 1 7 (.ok []) :: (settled ++ [.included 0 8 (.ok [])]))

def hello : List Message × ℕ := ([⟨1, "hello"⟩], 0)

theorem sendable_hello : Sendable agSolo.myAddr hello.1 hello.2 where
  peer := by decide
  bodies := by decide
  nums := by decide
  ack := by decide

theorem submitter_agSolo : agSolo.submitter ≠ [] := by decide

/-- The states that this run goes through. -/
def startedLink : Link := (run (Link.step agSolo) (.start .empty noPorts) started).get rfl

def submission : Submission := ⟨"gci", 0, agSolo.message hello⟩

def spokenLink : Link := { startedLink with spoken := [("gci", 0)], pool := [submission] }

def retriedLink : Link := (run (Link.step agSolo) spokenLink retried).get rfl

def twiceLink : Link :=
  { retriedLink with spoken := [("gci", 0)], pool := [submission, submission] }

def includedLink (ports : String → Ports) : Link :=
  { twiceLink with pool := [submission], ports, log := [⟨"gci", 0, agSolo.call hello⟩] }

def settledLink (ports : String → Ports) : Link :=
  (run (Link.step agSolo) (includedLink ports) settled).get rfl

theorem run_started : run (Link.step agSolo) (.start .empty noPorts) started = some startedLink :=
  rfl

theorem step_spokenLink : startedLink.step agSolo (.broadcast "gci" 0) = some spokenLink :=
  Link.step_broadcast_of_sendable submitter_agSolo ⟨rfl, by decide⟩ rfl rfl sendable_hello

theorem run_retried : run (Link.step agSolo) spokenLink retried = some retriedLink := rfl

theorem step_twiceLink : retriedLink.step agSolo (.broadcast "gci" 0) = some twiceLink :=
  Link.step_broadcast_of_sendable submitter_agSolo ⟨rfl, by decide⟩ rfl rfl sendable_hello

theorem step_includedLink :
    ∃ ports, twiceLink.step agSolo (.included 1 7 (.ok [])) = some (includedLink ports) := by
  obtain ⟨ports, hstep⟩ := Link.step_included_of_sendable (l := twiceLink) (k := 1)
    (s := submission) submitter_agSolo rfl rfl sendable_hello 7 (.ok [])
  exact ⟨ports, hstep⟩

theorem run_settled (ports : String → Ports) :
    run (Link.step agSolo) (includedLink ports) settled = some (settledLink ports) := rfl

/-- However the run goes on after the first call has settled. -/
theorem run_settledLink (events : List LinkEvent) : ∃ ports,
    run (Link.step agSolo) (.start .empty noPorts) (started ++ .broadcast "gci" 0 ::
      (retried ++ .broadcast "gci" 0 :: .included 1 7 (.ok []) :: (settled ++ events))) =
        run (Link.step agSolo) (settledLink ports) events := by
  obtain ⟨ports, hincluded⟩ := step_includedLink
  refine ⟨ports, ?_⟩
  rw [run_append, run_started, Option.bind_some, run, step_spokenLink, Option.bind_some,
    run_append, run_retried, Option.bind_some, run, step_twiceLink, Option.bind_some, run,
    hincluded, Option.bind_some, run_append, run_settled, Option.bind_some]

theorem run_resent : ∃ l, run (Link.step agSolo) (.start .empty noPorts) resent = some l ∧
    l.log = [⟨"gci", 0, agSolo.call hello⟩, ⟨"gci", 0, agSolo.call hello⟩] ∧
    (l.sender.deliveries "gci").deliverator.helper.started = [0, 0] := by
  obtain ⟨ports, hrun⟩ := run_settledLink [.included 0 8 (.ok [])]
  obtain ⟨ports', hlast⟩ := Link.step_included_of_sendable (l := settledLink ports) (k := 0)
    (s := submission) submitter_agSolo rfl rfl sendable_hello 8 (.ok [])
  refine ⟨{ settledLink ports with
    pool := []
    ports := ports'
    log := [⟨"gci", 0, agSolo.call hello⟩, ⟨"gci", 0, agSolo.call hello⟩] }, ?_, rfl, rfl⟩
  rw [resent, hrun, run, hlast]
  rfl

/-- The call comes twice, both times with the message of the outbox. -/
theorem delivered_resent : ∃ l, run (Link.step agSolo) (.start .empty noPorts) resent = some l ∧
    l.log.length = 2 ∧ ∀ x ∈ l.log, ∃ content,
      FromMailbox (maps .empty resent) x.target content ∧ x.call = agSolo.call content := by
  obtain ⟨l, hrun, hlog, -⟩ := run_resent
  exact ⟨l, hrun, by rw [hlog]; rfl, delivered_of_run agSolo .empty noPorts resent l hrun⟩

theorem delivered_count_resent :
    ∃ l, run (Link.step agSolo) (.start .empty noPorts) resent = some l ∧ l.made "gci" 0 = 2 ∧
      l.made "gci" 0 ≤ (l.sender.deliveries "gci").deliverator.helper.started.count 0 := by
  obtain ⟨l, hrun, hlog, -⟩ := run_resent
  exact ⟨l, hrun, by rw [Link.made, hlog]; rfl,
    delivered_count_of_run agSolo .empty noPorts resent l hrun "gci" 0⟩

end Runs

end CosmicSwingset.Solo
