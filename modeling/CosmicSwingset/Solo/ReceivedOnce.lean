import CosmicSwingset.Foundation.Resending
import CosmicSwingset.Solo.DeliveryOrder
import CosmicSwingset.Solo.Submissions

/-!
# Every message reaches the kernel once, in order

Batches may reach a chain more than once, and a transaction of a helper process that failed may come
after those of later batches. The kernel, which drops a message whose number is not above the
highest it has seen, still takes every message that has been sent, once and in order, or the call
that it was sent in has not settled (`received_once`). For this the files of a deliverator's calls
must complete in the order of the calls, calls with messages must meet no failure of a file
operation and no code but 0, and a code of 0 must mean that the transaction is in a block. When the
helper is started on a batch, the batches ahead of it have then arrived, so that no batch arrives
for the first time before those ahead of it (`InOrder`).
-/

set_option autoImplicit false
set_option relaxedAutoImplicit false

namespace CosmicSwingset.Solo

open Foundation SwingSet Chain

/-- The messages that helper call `entry` is for. -/
def Deliveries.carried (c : Deliveries) (entry : ℕ) : List Message :=
  ((c.content entry).map Prod.fst).getD []

/-- The element `[num, body]`. -/
def pairMessage : Json Decimal → Option Message
  | .arr [.num num, .str body] => some ⟨num.value.num.toNat, body⟩
  | _ => none

def callMessages (call : DeliverInboundCall) : List Message :=
  match call.messages with
  | some (.arr elements) => elements.filterMap pairMessage
  | _ => []

namespace Link

/-- The messages that a chain's kernel has been called with, in order. -/
def received (l : Link) (target : String) : List Message :=
  (l.log.filter fun x ↦ x.target = target).flatMap fun x ↦ callMessages x.call

/-- The helper calls that transactions on their way to a chain, and calls that it has made, are
of. -/
def pooled (l : Link) (target : String) : List ℕ :=
  (l.pool.filter fun s ↦ s.target = target).map Submission.entry

def logged (l : Link) (target : String) : List ℕ :=
  (l.log.filter fun x ↦ x.target = target).map Inbound.entry

end Link

/-- The outbox numbers of a new mailbox map differ; the files of calls complete in the order of the
calls; and a code of 0 is reported when a transaction of the call is in a block. -/
def Prompt (l : Link) : SenderEvent → Prop
  | .exported data => ∀ entry ∈ data.entries, (entry.2.outbox.map Message.num).Nodup
  | .delivery target (.closed i ok) =>
    JoinsInOrder (l.sender.deliveries target).deliverator (.closed i ok)
      (l.sender.deliveries target).deliverator
  | .delivery target (.exited entry (.reported 0)) =>
    ∃ x ∈ l.log, x.target = target ∧ x.entry = entry
  | _ => True

/-- What the environment has to do for the outbound side. -/
def Dependable (l : Link) (event : LinkEvent) (l' : Link) : Prop :=
  match event with
  | .sender event => Reliable l.sender event l'.sender ∧ Prompt l event
  | .broadcast _ _ | .included _ _ _ | .dropped _ => True

instance (l : Link) (event : SenderEvent) : Decidable (Prompt l event) :=
  match event with
  | .exported data =>
    inferInstanceAs (Decidable (∀ entry ∈ data.entries, (entry.2.outbox.map Message.num).Nodup))
  | .delivery target (.closed i ok) =>
    inferInstanceAs (Decidable (JoinsInOrder (l.sender.deliveries target).deliverator (.closed i ok)
      (l.sender.deliveries target).deliverator))
  | .delivery target (.exited entry (.reported 0)) =>
    inferInstanceAs (Decidable (∃ x ∈ l.log, x.target = target ∧ x.entry = entry))
  | .addDeliveryTarget _ | .deliver | .delivery _ (.opened _ _) | .delivery _ (.wrote _ _)
  | .delivery _ (.proceed _) | .delivery _ (.retry _) | .delivery _ (.unlinked _ _)
  | .delivery _ (.exited _ .failed) | .delivery _ (.exited _ (.reported (_ + 1))) =>
    .isTrue trivial

instance (l : Link) (event : LinkEvent) (l' : Link) : Decidable (Dependable l event l') :=
  match event with
  | .sender event =>
    inferInstanceAs (Decidable (Reliable l.sender event l'.sender ∧ Prompt l event))
  | .broadcast _ _ | .included _ _ _ | .dropped _ => .isTrue trivial

/-! ### One chain -/

/-- The calls of one deliverator, the transactions on their way and those in blocks: the calls are
queued in order, a code of 0 means that the call's transaction is in a block, and whatever is on its
way or in a block, all messages ahead of it came before. -/
structure InOrder (c : Deliveries) (pool log : List ℕ) : Prop where
  jobs : c.jobs.Pairwise (· < ·)
  reported : ∀ i, (i, 0) ∈ c.reports → ∃ entry ∈ log, c.jobs[entry]? = some i
  ahead : ∀ entry ∈ pool, entry < c.jobs.length ∧ Ahead c.carried log entry
  justified : Justified (Ahead c.carried) log
  made : ∀ entry ∈ log, entry < c.jobs.length

theorem inOrder_empty : InOrder .empty [] [] :=
  ⟨List.Pairwise.nil, nofun, nofun, justified_nil, nofun⟩

theorem Deliveries.length_contents (c : Deliveries) :
    c.contents.length = c.deliverator.batches.length := by
  simp [contents]

/-- A helper call is for the same messages as before. -/
theorem Deliveries.Grows.carried {c c' : Deliveries} (h : c.Grows c') (hsettles : c.Settles)
    {entry : ℕ} (hentry : entry < c.jobs.length) : c'.carried entry = c.carried entry := by
  have hjob : c.jobs[entry] < c.contents.length := by
    rw [length_contents]
    exact hsettles.jobs _ (List.getElem_mem hentry)
  have hcontent : c.content entry = some c.contents[c.jobs[entry]] := by
    rw [Deliveries.content, List.getElem?_eq_getElem hentry, Option.bind_some,
      List.getElem?_eq_getElem hjob]
  rw [Deliveries.carried, Deliveries.carried, h.content hcontent, hcontent]

theorem Deliveries.Grows.ahead {c c' : Deliveries} (h : c.Grows c') (hsettles : c.Settles)
    {log : List ℕ} {entry : ℕ} (hentry : entry < c.jobs.length)
    (hahead : Ahead c.carried log entry) : Ahead c'.carried log entry := by
  intro j hj
  rw [h.carried hsettles (hj.trans hentry)]
  exact hahead j hj

/-- The deliverator takes calls, queues them and gets reports. -/
theorem InOrder.grows {c c' : Deliveries} {pool log : List ℕ} (h : InOrder c pool log)
    (hgrows : c.Grows c') (hsettles : c.Settles) (hjobs : c'.jobs.Pairwise (· < ·))
    (hreports : ∀ i, (i, 0) ∈ c'.reports →
      (i, 0) ∈ c.reports ∨ ∃ entry ∈ log, c.jobs[entry]? = some i) : InOrder c' pool log := by
  have hlength : c.jobs.length ≤ c'.jobs.length := hgrows.jobs.length_le
  refine ⟨hjobs, fun i hi ↦ ?_, fun entry hentry ↦ ?_, fun before entry after hsplit ↦ ?_,
    fun entry hentry ↦ (h.made entry hentry).trans_le hlength⟩
  · obtain ⟨entry, hentry, hjob⟩ := (hreports i hi).elim (h.reported i) id
    exact ⟨entry, hentry, getElem?_of_prefix hgrows.jobs hjob⟩
  · obtain ⟨hlt, hahead⟩ := h.ahead entry hentry
    exact ⟨hlt.trans_le hlength, hgrows.ahead hsettles hlt hahead⟩
  · have hmem : entry ∈ log := hsplit ▸ List.mem_append_right _ List.mem_cons_self
    exact hgrows.ahead hsettles (h.made entry hmem) (h.justified before entry after hsplit)

/-- When a helper process runs, all messages ahead of its batch are in blocks. -/
theorem InOrder.ahead_of_running {c : Deliveries} {pool log : List ℕ} (h : InOrder c pool log)
    (hsettles : c.Settles) {entry : ℕ} (hrunning : c.phase entry = some .running) :
    entry < c.jobs.length ∧ Ahead c.carried log entry := by
  have hlength : entry < c.jobs.length := by
    obtain ⟨call, hcall, -⟩ := Option.map_eq_some_iff.mp hrunning
    simpa [Deliveries.jobs, HelperQueue.jobs] using (List.getElem?_eq_some_iff.mp hcall).1
  refine ⟨hlength, fun j hj ↦ ?_⟩
  obtain ⟨other, hother, hfinished⟩ :=
    Option.map_eq_some_iff.mp (hsettles.fifo.finished_of_running hrunning hj)
  have hjob : c.jobs[j]? = some other.job := by
    rw [Deliveries.jobs, HelperQueue.jobs, List.getElem?_map, hother, Option.map_some]
  obtain ⟨b, hb, hbare | hreported⟩ := hsettles.finished j other.job other hjob hother hfinished
  · left
    have hcontent : c.content j = some (b.newMessages, b.acknum) := by
      rw [Deliveries.content, hjob, Option.bind_some, Deliveries.contents, List.getElem?_map, hb]
      rfl
    rw [Deliveries.carried, hcontent]
    exact hbare
  · right
    obtain ⟨entry', hmem, hjob'⟩ := h.reported other.job hreported
    -- the calls are queued once each
    obtain ⟨hlt, heq⟩ := List.getElem?_eq_some_iff.mp hjob
    obtain ⟨hlt', heq'⟩ := List.getElem?_eq_some_iff.mp hjob'
    have hnodup : c.jobs.Nodup := h.jobs.imp fun hlt ↦ hlt.ne
    rwa [(hnodup.getElem_inj_iff).mp (heq.trans heq'.symm)]

/-- A turn of a call. -/
theorem InOrder.step {c c' : Deliveries} {pool log : List ℕ} (h : InOrder c pool log)
    (hsettles : c.Settles) {event : DeliveryEvent} (hstep : c.step event = some c')
    (hjoin : ∀ i, event = .closed i true → c.deliverator.phase i = some (.closing true) →
      ∀ job ∈ c.jobs, job < i)
    (hreport : ∀ entry, event = .exited entry (.reported 0) → entry ∈ log) :
    InOrder c' pool log := by
  refine h.grows (Deliveries.grows_of_step hstep) hsettles ?_ fun i hi ↦ ?_
  · rcases (Deliveries.step_spec hstep).2 with hsame | ⟨i, rfl, hphase, hjoined⟩
    · exact hsame ▸ h.jobs
    · rw [hjoined, List.pairwise_append]
      refine ⟨h.jobs, List.pairwise_singleton _ _, fun job hjob other hother ↦ ?_⟩
      rw [List.mem_singleton.mp hother]
      exact hjoin i rfl hphase job hjob
  · rcases Deliveries.reports_of_step hstep with hsame | ⟨entry, job, code, rfl, hjob, hreports⟩
    · exact Or.inl (hsame ▸ hi)
    · rw [hreports] at hi
      rcases List.mem_append.mp hi with hold | hlast
      · exact Or.inl hold
      · cases List.mem_singleton.mp hlast
        exact Or.inr ⟨entry, hreport entry rfl, hjob⟩

/-- What the deliverator was handed ascends, up to `highestSent`. -/
structure Rising (c : Deliveries) (entry : Option Target) : Prop where
  ascending : (c.contents.flatMap Prod.fst).Pairwise fun m m' ↦ m.num < m'.num
  le : ∀ t, entry = some t → ∀ m ∈ c.contents.flatMap Prod.fst, m.num ≤ t.highestSent
  unknown : entry = none → c.contents = []

theorem rising_empty : Rising .empty none :=
  ⟨List.Pairwise.nil, nofun, fun _ ↦ rfl⟩

theorem le_getLast?_num {messages : List Message}
    (hascending : messages.Pairwise fun m m' ↦ m.num < m'.num) {m : Message} (hm : m ∈ messages)
    (highest : ℕ) : m.num ≤ (messages.getLast?.map Message.num).getD highest := by
  rcases messages.eq_nil_or_concat with rfl | ⟨before, last, rfl⟩
  · exact absurd hm List.not_mem_nil
  · rw [List.concat_eq_append] at hm hascending ⊢
    rw [List.getLast?_append, List.getLast?_singleton, Option.some_or, Option.map_some,
      Option.getD_some]
    rcases List.mem_append.mp hm with hbefore | hlast
    · exact ((List.pairwise_append.mp hascending).2.2 m hbefore last (List.mem_singleton_self _)).le
    · rw [List.mem_singleton.mp hlast]

/-- `deliver(mbs)` hands the deliverator what is new in an outbox. -/
theorem Rising.deliver {c : Deliveries} {t : Target} (h : Rising c (some t)) {outbox : List Message}
    (hdistinct : (outbox.map Message.num).Nodup) (acknum : ℕ) :
    Rising (c.deliver (newMessages t outbox) acknum) (some
      { highestSent := ((newMessages t outbox).getLast?.map Message.num).getD t.highestSent
        highestAck := acknum }) := by
  have hnew := newMessages_ascending t hdistinct
  have habove : ∀ m ∈ newMessages t outbox, t.highestSent < m.num := fun m hm ↦
    (mem_newMessages.mp hm).2
  have hcontents : (c.deliver (newMessages t outbox) acknum).contents.flatMap Prod.fst =
      c.contents.flatMap Prod.fst ++ newMessages t outbox := by
    rw [Deliveries.contents_deliver, List.flatMap_append]
    simp
  refine ⟨?_, fun t' ht' m hm ↦ ?_, nofun⟩
  · rw [hcontents, List.pairwise_append]
    exact ⟨h.ascending, hnew, fun m hm m' hm' ↦ (h.le t rfl m hm).trans_lt (habove m' hm')⟩
  · obtain rfl := Option.some.inj ht'
    rw [hcontents] at hm
    rcases List.mem_append.mp hm with hold | hfresh
    · have hle := h.le t rfl m hold
      cases hlast : (newMessages t outbox).getLast? with
      | none => exact hle
      | some last => exact hle.trans (habove last (List.mem_of_getLast? hlast)).le
    · exact le_getLast?_num hnew hfresh _

theorem Rising.of_contents {c c' : Deliveries} {entry entry' : Option Target} (h : Rising c entry)
    (hcontents : c'.contents = c.contents)
    (hentry : entry' = entry ∨ entry = none ∧ entry' = some ⟨0, 0⟩) : Rising c' entry' := by
  rcases hentry with rfl | ⟨rfl, rfl⟩
  · exact ⟨hcontents ▸ h.ascending, hcontents ▸ h.le, hcontents ▸ h.unknown⟩
  · rw [h.unknown rfl] at hcontents
    refine ⟨by rw [hcontents]; exact List.Pairwise.nil, fun t ht m hm ↦ ?_, nofun⟩
    rw [hcontents] at hm
    exact absurd hm List.not_mem_nil

theorem Deliveries.mem_carried {c : Deliveries} {entry : ℕ} {m : Message}
    (hm : m ∈ c.carried entry) :
    ∃ i content, c.jobs[entry]? = some i ∧ c.contents[i]? = some content ∧ m ∈ content.1 := by
  unfold carried at hm
  cases hcontent : c.content entry with
  | none =>
    rw [hcontent] at hm
    exact absurd hm List.not_mem_nil
  | some content =>
    rw [hcontent] at hm
    obtain ⟨i, hi, hc⟩ := Option.bind_eq_some_iff.mp hcontent
    exact ⟨i, content, hi, hc, hm⟩

/-- The helper calls, in the order of the queue, are for ascending messages. -/
theorem Rising.batches {c : Deliveries} {entry : Option Target} (h : Rising c entry)
    (hjobs : c.jobs.Pairwise (· < ·)) : AscendingBatches Message.num c.carried := by
  obtain ⟨hwithin, hacross⟩ := List.pairwise_flatMap.mp h.ascending
  constructor
  · intro i
    unfold Deliveries.carried
    cases hcontent : c.content i with
    | none => exact List.Pairwise.nil
    | some content => exact hwithin content (Deliveries.mem_contents hcontent)
  · intro i j hij m hm m' hm'
    obtain ⟨k, content, hk, hcontent, hm⟩ := Deliveries.mem_carried hm
    obtain ⟨k', content', hk', hcontent', hm'⟩ := Deliveries.mem_carried hm'
    obtain ⟨hi, rfl⟩ := List.getElem?_eq_some_iff.mp hk
    obtain ⟨hj, rfl⟩ := List.getElem?_eq_some_iff.mp hk'
    have hlt : c.jobs[i] < c.jobs[j] := List.pairwise_iff_getElem.mp hjobs i j hi hj hij
    obtain ⟨hlt₁, rfl⟩ := List.getElem?_eq_some_iff.mp hcontent
    obtain ⟨hlt₂, rfl⟩ := List.getElem?_eq_some_iff.mp hcontent'
    exact List.pairwise_iff_getElem.mp hacross _ _ hlt₁ hlt₂ hlt m hm m' hm'

/-! ### All chains -/

/-- A transaction is broadcast. -/
theorem InOrder.broadcast {c : Deliveries} {pool log : List ℕ} (h : InOrder c pool log) {entry : ℕ}
    (hentry : entry < c.jobs.length ∧ Ahead c.carried log entry) :
    InOrder c (pool ++ [entry]) log := by
  refine ⟨h.jobs, h.reported, fun other hother ↦ ?_, h.justified, h.made⟩
  rcases List.mem_append.mp hother with hold | hlast
  · exact h.ahead other hold
  · exact List.mem_singleton.mp hlast ▸ hentry

theorem InOrder.subset {c : Deliveries} {pool pool' log : List ℕ} (h : InOrder c pool log)
    (hsubset : pool' ⊆ pool) : InOrder c pool' log :=
  ⟨h.jobs, h.reported, fun entry hentry ↦ h.ahead entry (hsubset hentry), h.justified, h.made⟩

/-- A transaction is taken into a block. -/
theorem InOrder.included {c : Deliveries} {pool log : List ℕ} (h : InOrder c pool log) {entry : ℕ}
    (hentry : entry ∈ pool) : InOrder c pool (log ++ [entry]) := by
  obtain ⟨hlt, hahead⟩ := h.ahead entry hentry
  refine ⟨h.jobs, fun i hi ↦ ?_, fun other hother ↦ ?_, h.justified.concat hahead,
    fun other hother ↦ ?_⟩
  · obtain ⟨made, hmade, hjob⟩ := h.reported i hi
    exact ⟨made, List.mem_append_left _ hmade, hjob⟩
  · obtain ⟨hother, hbefore⟩ := h.ahead other hother
    exact ⟨hother, fun j hj ↦ (hbefore j hj).imp id fun hmem ↦ List.mem_append_left _ hmem⟩
  · rcases List.mem_append.mp hother with hold | hlast
    · exact h.made other hold
    · exact List.mem_singleton.mp hlast ▸ hlt

variable {a : Account}

/-- What holds of a link whose environment is dependable. -/
structure Orderly (a : Account) (l : Link) : Prop where
  accounting : Accounting l.sender
  distinct : ∀ entry ∈ l.sender.data.entries, (entry.2.outbox.map Message.num).Nodup
  carried : Carried a l
  inOrder : ∀ target, InOrder (l.sender.deliveries target) (l.pooled target) (l.logged target)
  rising : ∀ target, Rising (l.sender.deliveries target) (l.sender.known target)

theorem orderly_start {data : MailboxData}
    (hdistinct : ∀ entry ∈ data.entries, (entry.2.outbox.map Message.num).Nodup)
    (ports : String → Ports) : Orderly a (.start data ports) :=
  ⟨accounting_start data, hdistinct, carried_start data ports, fun _ ↦ inOrder_empty,
    fun _ ↦ rising_empty⟩

theorem Sender.data_of_step {s s' : Sender} {event : SenderEvent} (hstep : s.step event = some s') :
    event = .exported s'.data ∨ s'.data = s.data := by
  cases event with
  | exported data =>
    cases hstep
    exact Or.inl rfl
  | addDeliveryTarget target =>
    obtain ⟨known, -, rfl⟩ := Option.map_eq_some_iff.mp hstep
    exact Or.inr rfl
  | deliver =>
    cases hstep
    exact Or.inr rfl
  | delivery target turn =>
    obtain ⟨deliveries, -, rfl⟩ := Option.map_eq_some_iff.mp hstep
    exact Or.inr rfl

/-- A turn of the outbound side. -/
theorem Orderly.sender {l : Link} (h : Orderly a l) {event : SenderEvent} {sender : Sender}
    (hstep : l.sender.step event = some sender) (hreliable : Reliable l.sender event sender)
    (hprompt : Prompt l event) (hcarried : Carried a { l with
      sender, spoken := Link.restart l.spoken event }) :
    Orderly a { l with sender, spoken := Link.restart l.spoken event } := by
  refine ⟨h.accounting.step hreliable hstep, ?_, hcarried, fun target ↦ ?_, fun target ↦ ?_⟩
  · rcases Sender.data_of_step hstep with rfl | hsame
    · exact hprompt
    · change ∀ entry ∈ sender.data.entries, _
      rw [hsame]
      exact h.distinct
  · change InOrder (sender.deliveries target) (l.pooled target) (l.logged target)
    have hinOrder := h.inOrder target
    have hsettles := h.accounting.settles target
    rcases Sender.step_target hstep target with ⟨-, hsame, -⟩ |
      ⟨-, t, mailbox, -, -, -, hdeliver⟩ | ⟨turn, rfl, -, hturn⟩
    · rw [hsame]
      exact hinOrder
    · rw [hdeliver]
      exact hinOrder.grows (Deliveries.grows_deliver _ _ _) hsettles hinOrder.jobs fun _ ↦ Or.inl
    · refine hinOrder.step hsettles hturn ?_ ?_
      · rintro i rfl hphase
        exact hprompt hphase
      · rintro entry rfl
        obtain ⟨x, hx, rfl, rfl⟩ := hprompt
        exact List.mem_map.mpr ⟨x, List.mem_filter.mpr ⟨hx, decide_eq_true rfl⟩, rfl⟩
  · change Rising (sender.deliveries target) (sender.known target)
    have hrising := h.rising target
    rcases Sender.step_target hstep target with ⟨-, hsame, hknown⟩ |
      ⟨-, t, mailbox, ht, hget, hknown, hdeliver⟩ | ⟨turn, -, hknown, hturn⟩
    · exact hrising.of_contents (by rw [hsame]) hknown
    · rw [ht] at hrising
      rw [hknown, hdeliver]
      exact hrising.deliver
        (h.distinct _ ((l.sender.data.get_eq_some_iff target mailbox).mp hget)) _
    · exact hrising.of_contents (Deliveries.step_spec hturn).1 (Or.inl hknown)

theorem Orderly.step {l l' : Link} (h : Orderly a l) {event : LinkEvent}
    (hdependable : Dependable l event l') (hstep : l.step a event = some l') : Orderly a l' := by
  have hcarried := h.carried.step hstep
  cases event with
  | sender event =>
    obtain ⟨sender, hsender, rfl⟩ := Link.step_sender hstep
    exact h.sender hsender hdependable.1 hdependable.2 hcarried
  | broadcast other entry =>
    obtain ⟨hrunning, -, msg, -, rfl⟩ := Link.step_broadcast hstep
    refine ⟨h.accounting, h.distinct, hcarried, fun target ↦ ?_, h.rising⟩
    change InOrder (l.sender.deliveries target) (List.map _ (List.filter _ (_ ++ _)))
      (l.logged target)
    rw [List.filter_append, List.map_append]
    by_cases hother : other = target
    · subst hother
      have hahead := (h.inOrder other).ahead_of_running (h.accounting.settles other) hrunning
      simpa [Link.pooled] using (h.inOrder other).broadcast hahead
    · simpa [Link.pooled, hother] using h.inOrder target
  | included k blockHeight reply =>
    obtain ⟨s, handled, call, hs, -, -, rfl⟩ := Link.step_included hstep
    refine ⟨h.accounting, h.distinct, hcarried, fun target ↦ ?_, h.rising⟩
    have hsubset : (l.pool.eraseIdx k).filter (fun s ↦ s.target = target) |>.map Submission.entry
        |>.Subset (l.pooled target) :=
      (((List.eraseIdx_sublist l.pool k).filter _).map _).subset
    refine InOrder.subset ?_ hsubset
    change InOrder (l.sender.deliveries target) (l.pooled target)
      (List.map _ (List.filter _ (_ ++ _)))
    rw [List.filter_append, List.map_append]
    by_cases hother : s.target = target
    · have hpooled : s.entry ∈ l.pooled target :=
        List.mem_map.mpr ⟨s, List.mem_filter.mpr
          ⟨List.mem_of_getElem? hs, decide_eq_true hother⟩, rfl⟩
      simpa [Link.logged, hother] using (h.inOrder target).included hpooled
    · simpa [Link.logged, hother] using h.inOrder target
  | dropped k =>
    rw [Link.step_dropped hstep] at hcarried ⊢
    refine ⟨h.accounting, h.distinct, hcarried, fun target ↦ (h.inOrder target).subset ?_, h.rising⟩
    exact (((List.eraseIdx_sublist l.pool k).filter _).map _).subset

/-! ### What the kernel takes -/

theorem callMessages_call (content : List Message × ℕ) :
    callMessages (a.call content) = content.1 := by
  have hpair : ∀ message, pairMessage (pairJson message) = some message := by
    intro message
    simp [pairJson, pairMessage, Decimal.value_ofInt]
  change (content.1.map pairJson).filterMap pairMessage = content.1
  rw [List.filterMap_map]
  simp [hpair]

theorem Carried.received {l : Link} (h : Carried a l) (target : String) :
    l.received target = (l.logged target).flatMap (l.sender.deliveries target).carried := by
  rw [Link.received, Link.logged, List.flatMap_map]
  refine List.flatMap_congr fun x hx ↦ ?_
  obtain ⟨hmem, htarget⟩ := List.mem_filter.mp hx
  obtain rfl := of_decide_eq_true htarget
  obtain ⟨content, hcontent, hcall⟩ := h.log x hmem
  rw [hcall, callMessages_call, Deliveries.carried, hcontent]
  rfl

/-- The message is in a call of the deliverator that has not settled. -/
def Deliveries.UnderWay (c : Deliveries) (m : Message) : Prop :=
  ∃ i, ∃ b ∈ c.deliverator.batches[i]?, m ∈ b.newMessages ∧ i ∉ c.settled

/-- In every run in which the environment is dependable, with helper processes that fail at any time
and transactions that come late, twice or never: the messages that a chain's kernel takes, each
above all that it has got before, ascend and have all been handed to the deliverator; each message
that was handed over is taken, or is in a call that has not settled; and all messages in the outbox
up to `highestSent` were handed over. -/
theorem received_once (a : Account) (data : MailboxData)
    (hdistinct : ∀ entry ∈ data.entries, (entry.2.outbox.map Message.num).Nodup)
    (ports : String → Ports) (events : List LinkEvent) (l : Link)
    (hdependable : AllSteps (Link.step a) Dependable (.start data ports) events)
    (hrun : run (Link.step a) (.start data ports) events = some l) (target : String) :
    let c := l.sender.deliveries target
    let taken := fresh Message.num [] (l.received target)
    (taken.Pairwise fun m m' ↦ m.num < m'.num) ∧ (∀ m ∈ taken, c.Held m) ∧
      (∀ m, c.Held m → m ∈ taken ∨ c.UnderWay m) ∧
      ∀ t, l.sender.known target = some t → ∀ m ∈ outboxFor l.sender.data target,
        m.num ≤ t.highestSent → c.Held m := by
  intro c taken
  have h : Orderly a l :=
    run_invariant (fun _ _ _ h hguard hstep ↦ h.step hguard hstep) (orderly_start hdistinct ports)
      hdependable hrun
  have hinOrder := h.inOrder target
  have hsettles := h.accounting.settles target
  have hreceived := h.carried.received target
  have htaken : taken = (List.range (width (l.logged target))).flatMap c.carried := by
    change fresh Message.num [] (l.received target) = _
    rw [hreceived]
    exact fresh_flatMap ((h.rising target).batches hinOrder.jobs) hinOrder.justified
  have hheld : ∀ entry, ∀ m ∈ c.carried entry, c.Held m := by
    intro entry m hm
    obtain ⟨i, content, -, hcontent, hm⟩ := Deliveries.mem_carried hm
    rw [Deliveries.contents, List.getElem?_map] at hcontent
    obtain ⟨b, hb, rfl⟩ := Option.map_eq_some_iff.mp hcontent
    exact ⟨i, b, hb, hm⟩
  refine ⟨(fresh_ascending _).1, fun m hm ↦ ?_, fun m hm ↦ ?_, fun t ht m hm hle ↦
    h.accounting.held target t ht m hm hle⟩
  · rw [htaken] at hm
    obtain ⟨entry, -, hm⟩ := List.mem_flatMap.mp hm
    exact hheld entry m hm
  · obtain ⟨i, b, hb, hm⟩ := hm
    by_cases hi : i ∈ c.settled
    · -- a call with messages settles when its transaction is in a block
      obtain ⟨b', hb', hspent⟩ := hsettles.settled i hi
      obtain rfl : b = b' := Option.some.inj (hb.symm.trans hb')
      have hreported := hspent.resolve_left (List.ne_nil_of_mem hm)
      obtain ⟨entry, hentry, hjob⟩ := hinOrder.reported i hreported
      have hcontent : c.content entry = some (b.newMessages, b.acknum) := by
        rw [Deliveries.content, hjob, Option.bind_some, Deliveries.contents, List.getElem?_map, hb]
        rfl
      left
      rw [htaken]
      refine List.mem_flatMap.mpr ⟨entry, List.mem_range.mpr (lt_width hentry), ?_⟩
      rw [Deliveries.carried, hcontent]
      exact hm
    · exact Or.inr ⟨i, b, hb, hm, hi⟩

section Runs

/-- A second message is handed over, and the helper is started on its batch. -/
def secondBatch : List LinkEvent :=
  [.sender (.exported (outboxOf [⟨1, "hello"⟩, ⟨2, "again"⟩] 0)), .sender .deliver,
    .sender (.delivery "gci" (.opened 1 true)), .sender (.delivery "gci" (.wrote 1 true)),
    .sender (.delivery "gci" (.closed 1 true)), .sender (.delivery "gci" (.proceed 1))]

/-- The first batch is sent twice, and its earlier transaction gets into a block after that of the
second batch. -/
def interleaved : List LinkEvent :=
  started ++ .broadcast "gci" 0 :: (retried ++ .broadcast "gci" 0 ::
    .included 1 7 (.ok []) :: (settled ++ (secondBatch ++ .broadcast "gci" 1 ::
      .included 1 8 (.ok []) :: [.included 0 9 (.ok [])])))

def again : List Message × ℕ := ([⟨2, "again"⟩], 0)

theorem sendable_again : Sendable agSolo.myAddr again.1 again.2 where
  peer := by decide
  bodies := by decide
  nums := by decide
  ack := by decide

/-- The states that this run goes through after those of `resent`. -/
def secondLink (ports : String → Ports) : Link :=
  (run (Link.step agSolo) (settledLink ports) secondBatch).get rfl

def secondSubmission : Submission := ⟨"gci", 1, agSolo.message again⟩

def bothLink (ports : String → Ports) : Link :=
  { secondLink ports with
    spoken := ("gci", 1) :: (secondLink ports).spoken
    pool := [submission, secondSubmission] }

def earlierLink (before after : String → Ports) : Link :=
  { bothLink before with
    pool := [submission]
    ports := after
    log := [⟨"gci", 0, agSolo.call hello⟩, ⟨"gci", 1, agSolo.call again⟩] }

def lastLink (before after : String → Ports) : Link :=
  { bothLink before with
    pool := []
    ports := after
    log := [⟨"gci", 0, agSolo.call hello⟩, ⟨"gci", 1, agSolo.call again⟩,
      ⟨"gci", 0, agSolo.call hello⟩] }

theorem run_secondBatch (ports : String → Ports) :
    run (Link.step agSolo) (settledLink ports) secondBatch = some (secondLink ports) := rfl

theorem step_bothLink (ports : String → Ports) :
    (secondLink ports).step agSolo (.broadcast "gci" 1) = some (bothLink ports) :=
  Link.step_broadcast_of_sendable submitter_agSolo ⟨rfl, of_decide_eq_true rfl⟩ rfl rfl
    sendable_again

theorem step_earlierLink (ports : String → Ports) : ∃ after,
    (bothLink ports).step agSolo (.included 1 8 (.ok [])) = some (earlierLink ports after) :=
  Link.step_included_of_sendable (l := bothLink ports) (k := 1) (s := secondSubmission)
    submitter_agSolo rfl rfl sendable_again 8 (.ok [])

theorem step_lastLink (before ports : String → Ports) : ∃ after,
    (earlierLink before ports).step agSolo (.included 0 9 (.ok [])) =
      some (lastLink before after) :=
  Link.step_included_of_sendable (l := earlierLink before ports) (k := 0) (s := submission)
    submitter_agSolo rfl rfl sendable_hello 9 (.ok [])

theorem run_interleaved : ∃ before after,
    run (Link.step agSolo) (.start .empty noPorts) interleaved = some (lastLink before after) := by
  obtain ⟨before, hrun⟩ := run_settledLink
    (secondBatch ++ .broadcast "gci" 1 :: .included 1 8 (.ok []) :: [.included 0 9 (.ok [])])
  obtain ⟨ports, hearlier⟩ := step_earlierLink before
  obtain ⟨after, hlast⟩ := step_lastLink before ports
  refine ⟨before, after, ?_⟩
  rw [interleaved, hrun, run_append, run_secondBatch, Option.bind_some, run, step_bothLink,
    Option.bind_some, run, hearlier, Option.bind_some, run, hlast]
  rfl

/-- The files of the second call are written in their turn. -/
theorem dependable_secondBatch (ports : String → Ports) :
    AllSteps (Link.step agSolo) Dependable (settledLink ports) secondBatch :=
  of_decide_eq_true rfl

theorem dependable_interleaved :
    AllSteps (Link.step agSolo) Dependable (.start .empty noPorts) interleaved := by
  obtain ⟨ports, hincluded⟩ := step_includedLink
  rw [interleaved, allSteps_append, run_started]
  refine ⟨by decide, fun l hl ↦ ?_⟩
  cases hl
  rw [allSteps_cons, step_spokenLink]
  intro l hl
  cases hl
  refine ⟨trivial, ?_⟩
  rw [allSteps_append, run_retried]
  refine ⟨by decide, fun l hl ↦ ?_⟩
  cases hl
  rw [allSteps_cons, step_twiceLink]
  intro l hl
  cases hl
  refine ⟨trivial, ?_⟩
  rw [allSteps_cons, hincluded]
  intro l hl
  cases hl
  refine ⟨trivial, ?_⟩
  rw [allSteps_append, run_settled]
  refine ⟨?_, fun l hl ↦ ?_⟩
  · rw [settled, allSteps_cons]
    refine fun l _ ↦ ⟨⟨Or.inl rfl, _, List.mem_singleton_self _, rfl, rfl⟩, ?_⟩
    exact allSteps_cons.mpr fun _ _ ↦ ⟨⟨trivial, trivial⟩, trivial⟩
  cases hl
  rw [allSteps_append]
  refine ⟨dependable_secondBatch ports, fun l _ ↦ allSteps_of_forall_mem fun event hevent _ _ ↦ ?_⟩
  rcases List.mem_cons.mp hevent with rfl | hevent
  · trivial
  rcases List.mem_cons.mp hevent with rfl | hevent
  · trivial
  rw [List.mem_singleton.mp hevent]
  trivial

/-- The first message comes before the second one and again after it, and each is taken once. -/
theorem received_interleaved : ∃ l,
    run (Link.step agSolo) (.start .empty noPorts) interleaved = some l ∧
    l.received "gci" = [⟨1, "hello"⟩, ⟨2, "again"⟩, ⟨1, "hello"⟩] ∧
    fresh Message.num [] (l.received "gci") = [⟨1, "hello"⟩, ⟨2, "again"⟩] ∧
    ((fresh Message.num [] (l.received "gci")).Pairwise fun m m' ↦ m.num < m'.num) ∧
    ∀ m ∈ fresh Message.num [] (l.received "gci"), (l.sender.deliveries "gci").Held m := by
  obtain ⟨before, after, hrun⟩ := run_interleaved
  have hreceived : (lastLink before after).received "gci" =
      [⟨1, "hello"⟩, ⟨2, "again"⟩, ⟨1, "hello"⟩] := by
    change callMessages (agSolo.call hello) ++ (callMessages (agSolo.call again) ++
      (callMessages (agSolo.call hello) ++ [])) = _
    rw [callMessages_call, callMessages_call]
    rfl
  obtain ⟨hascending, hheld, -⟩ := received_once agSolo .empty (by decide) noPorts interleaved _
    dependable_interleaved hrun "gci"
  exact ⟨_, hrun, hreceived, by rw [hreceived]; decide, hascending, hheld⟩

end Runs

end CosmicSwingset.Solo
