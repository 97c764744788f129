import CosmicSwingset.Solo.Outbound
import Mathlib.Data.List.Induction
import Mathlib.Data.List.TakeWhile
import Mathlib.Order.Basic

/-!
# Every message once, in order

Runs of the two functions that `outbound.js` exports, over any targets and any mailbox data. What
such a run hands one target is determined by the calls as that target sees them: its own
registration and its own mailbox (`Outbound.sending_run`). On a target's own run the numbering of
SwingSet, in which whatever newly appears in an outbox has a number above all that appeared before,
makes `highestSent` an exact record of what has been sent (`Sent`), so that nothing is lost or
repeated (`sent_once`).
-/

set_option autoImplicit false
set_option relaxedAutoImplicit false

namespace CosmicSwingset.Solo

open SwingSet

/-- A call of a function that `outbound.js` exports. -/
inductive OutboundCall
  | addDeliveryTarget (target : String)
  | deliver (data : MailboxData)
  deriving DecidableEq

/-- The map `knownTargets` and the deliverator calls made so far. -/
structure Outbound where
  known : KnownTargets
  handed : List Handed

namespace Outbound

def empty : Outbound := ⟨fun _ ↦ none, []⟩

def call (o : Outbound) : OutboundCall → Outbound
  | .addDeliveryTarget target =>
    match addDeliveryTarget o.known target with
    | some known => { o with known }
    -- the call throws
    | none => o
  | .deliver data =>
    { known := (Solo.deliver o.known data).1
      handed := o.handed ++ (Solo.deliver o.known data).2 }

/-- The state after a list of calls. -/
def run (o : Outbound) (calls : List OutboundCall) : Outbound :=
  calls.foldl call o

/-- The deliverator calls of one target. -/
def handedTo (o : Outbound) (target : String) : List Handed :=
  o.handed.filter fun h ↦ h.target = target

end Outbound

/-- A call as one target sees it: its own registration, or the mailbox that the data has for it. -/
inductive TargetCall
  | added
  | delivered (mailbox : Option Mailbox)
  deriving DecidableEq

/-- What a call is to a target; the registration of another target is nothing. -/
def OutboundCall.view (target : String) : OutboundCall → Option TargetCall
  | .addDeliveryTarget other => if other = target then some .added else none
  | .deliver data => some (.delivered (data.get target))

/-! ### One target -/

/-- The entry of one target in `knownTargets` and the calls of its deliverator so far. -/
structure Sending where
  entry : Option Target
  handed : List Handed
  deriving DecidableEq

namespace Sending

def empty : Sending := ⟨none, []⟩

def call (target : String) (s : Sending) : TargetCall → Sending
  | .added => { s with entry := some (s.entry.getD ⟨0, 0⟩) }
  | .delivered none => s
  | .delivered (some mailbox) =>
    let turn := deliverTarget (fun _ ↦ s.entry) target mailbox
    ⟨turn.1 target, s.handed ++ turn.2⟩

def run (target : String) (s : Sending) (calls : List TargetCall) : Sending :=
  calls.foldl (call target) s

/-- The batches handed to the deliverator, one after the other. -/
def sent (s : Sending) : List Message :=
  s.handed.flatMap Handed.newMessages

/-- The last acknowledgement passed to the deliverator, 0 before any. -/
def lastAck (s : Sending) : ℕ :=
  (s.handed.getLast?.map Handed.acknum).getD 0

end Sending

/-- What a run has made of one target. -/
def Outbound.sending (o : Outbound) (target : String) : Sending :=
  ⟨o.known target, o.handedTo target⟩

/-! ### Targets do not see each other -/

/-- A turn of the loop reads and writes the entry of its own target only. -/
theorem deliverTarget_other (known : KnownTargets) (mailbox : Mailbox) {target other : String}
    (hother : other ≠ target) :
    (deliverTarget known other mailbox).1 target = known target ∧
      (deliverTarget known other mailbox).2.filter (fun h ↦ h.target = target) = [] := by
  unfold deliverTarget
  cases known other with
  | none => exact ⟨rfl, rfl⟩
  | some t =>
    dsimp only
    split_ifs with hnew
    · exact ⟨Function.update_of_ne (Ne.symm hother) _ _, by simp [hother]⟩
    · exact ⟨rfl, rfl⟩

theorem deliverTarget_congr {known known' : KnownTargets} {target : String}
    (hknown : known target = known' target) (mailbox : Mailbox) :
    (deliverTarget known target mailbox).1 target = (deliverTarget known' target mailbox).1 target ∧
      (deliverTarget known target mailbox).2 = (deliverTarget known' target mailbox).2 := by
  unfold deliverTarget
  rw [hknown]
  cases hentry : known' target with
  | none => exact ⟨hknown, rfl⟩
  | some t =>
    dsimp only
    split_ifs with hnew
    · simp only [Function.update_self, and_self]
    · exact ⟨hknown, rfl⟩

/-- Everything a turn hands out goes to its own target. -/
theorem deliverTarget_filter (known : KnownTargets) (target : String) (mailbox : Mailbox) :
    (deliverTarget known target mailbox).2.filter (fun h ↦ h.target = target) =
      (deliverTarget known target mailbox).2 := by
  apply List.filter_eq_self.mpr
  intro h hmem
  simpa using (mem_deliverTarget hmem).1

/-- The turns of a loop in which a target does not come up. -/
theorem deliverEntries_other (known : KnownTargets) {target : String}
    {entries : List (String × Mailbox)} (hother : ∀ entry ∈ entries, entry.1 ≠ target) :
    (deliverEntries known entries).1 target = known target ∧
      (deliverEntries known entries).2.filter (fun h ↦ h.target = target) = [] := by
  induction entries generalizing known with
  | nil => exact ⟨rfl, rfl⟩
  | cons entry rest ih =>
    obtain ⟨hkept, hnone⟩ := deliverTarget_other known entry.2 (hother entry List.mem_cons_self)
    obtain ⟨hrest, hnone'⟩ := ih (deliverTarget known entry.1 entry.2).1
      fun other hmem ↦ hother other (List.mem_cons_of_mem _ hmem)
    refine ⟨hrest.trans hkept, ?_⟩
    change List.filter _ (_ ++ _) = []
    rw [List.filter_append, hnone, hnone', List.append_nil]

/-- A loop over distinct targets does for one of them what its own turn does. -/
theorem deliverEntries_mem (known : KnownTargets) {target : String} {mailbox : Mailbox}
    {entries : List (String × Mailbox)} (hdistinct : (entries.map Prod.fst).Nodup)
    (hmem : (target, mailbox) ∈ entries) :
    (deliverEntries known entries).1 target = (deliverTarget known target mailbox).1 target ∧
      (deliverEntries known entries).2.filter (fun h ↦ h.target = target) =
        (deliverTarget known target mailbox).2 := by
  induction entries generalizing known with
  | nil => cases hmem
  | cons entry rest ih =>
    rw [List.map_cons, List.nodup_cons] at hdistinct
    obtain ⟨hfirst, hrest⟩ := hdistinct
    rcases List.mem_cons.mp hmem with rfl | hlater
    · have hnot : ∀ other ∈ rest, other.1 ≠ target := fun other hother hname ↦
        hfirst (List.mem_map.mpr ⟨other, hother, hname⟩)
      obtain ⟨hkept, hnone⟩ := deliverEntries_other (deliverTarget known target mailbox).1 hnot
      refine ⟨hkept, ?_⟩
      change List.filter _ (_ ++ _) = _
      rw [List.filter_append, hnone, deliverTarget_filter, List.append_nil]
    · have hne : entry.1 ≠ target := fun hname ↦
        hfirst (hname ▸ List.mem_map_of_mem (f := Prod.fst) hlater)
      obtain ⟨hkept, hnone⟩ := deliverTarget_other known entry.2 hne
      obtain ⟨hentry, hhanded⟩ := ih (deliverTarget known entry.1 entry.2).1 hrest hlater
      obtain ⟨hentry', hhanded'⟩ := deliverTarget_congr hkept mailbox
      refine ⟨hentry.trans hentry', ?_⟩
      change List.filter _ (_ ++ _) = _
      rw [List.filter_append, hnone, List.nil_append, hhanded, hhanded']

/-- A call changes a target's part of the state as its own view of the call says. -/
theorem Outbound.sending_call (o : Outbound) (target : String) (c : OutboundCall) :
    (o.call c).sending target =
      ((c.view target).map (Sending.call target (o.sending target))).getD (o.sending target) := by
  cases c with
  | addDeliveryTarget other =>
    simp only [OutboundCall.view, Outbound.call, addDeliveryTarget]
    by_cases hother : other = target
    · subst hother
      rw [if_pos rfl]
      cases hentry : o.known other with
      | none => simp [Outbound.sending, Outbound.handedTo, Sending.call, hentry]
      | some t => simp [Outbound.sending, Sending.call, hentry]
    · rw [if_neg hother]
      cases hentry : o.known other with
      | none =>
        simp only [Outbound.sending, Function.update_of_ne (Ne.symm hother)]
        rfl
      | some t => rfl
  | deliver data =>
    change Sending.mk ((deliverEntries o.known data.entries).1 target)
      (List.filter _ (o.handed ++ (deliverEntries o.known data.entries).2)) = _
    rw [List.filter_append]
    cases hget : data.get target with
    | none =>
      have hnot : ∀ entry ∈ data.entries, entry.1 ≠ target := by
        intro entry hentry hname
        have hsome := (data.get_eq_some_iff target entry.2).mpr (hname ▸ hentry)
        rw [hget] at hsome
        cases hsome
      obtain ⟨hkept, hnone⟩ := deliverEntries_other o.known hnot
      rw [hkept, hnone, List.append_nil, OutboundCall.view, hget]
      rfl
    | some mailbox =>
      obtain ⟨hentry, hhanded⟩ := deliverEntries_mem o.known data.distinct
        ((data.get_eq_some_iff target mailbox).mp hget)
      obtain ⟨hentry', hhanded'⟩ :=
        @deliverTarget_congr o.known (fun _ ↦ o.known target) target rfl mailbox
      rw [hentry, hhanded, hentry', hhanded', OutboundCall.view, hget]
      rfl

/-- What a run makes of a target is a run of that target alone, on its own view of the calls. -/
theorem Outbound.sending_run (o : Outbound) (target : String) (calls : List OutboundCall) :
    (o.run calls).sending target =
      (o.sending target).run target (calls.filterMap (OutboundCall.view target)) := by
  induction calls generalizing o with
  | nil => rfl
  | cons c rest ih =>
    change ((o.call c).run rest).sending target = _
    rw [ih, Outbound.sending_call, List.filterMap_cons]
    cases c.view target with
    | none => rfl
    | some turn => rfl

/-! ### The numbering of an outbox -/

/-- The mailbox that a call finds for the target. -/
def TargetCall.mailbox? : TargetCall → Option Mailbox
  | .added => none
  | .delivered mailbox => mailbox

/-- The mailboxes of the target at the successive `deliver` calls. -/
def mailboxes (calls : List TargetCall) : List Mailbox :=
  calls.filterMap TargetCall.mailbox?

/-- The calls made while the target is known. -/
def whileKnown (calls : List TargetCall) : List TargetCall :=
  calls.dropWhile fun c ↦ c ≠ .added

/-- The numbering of SwingSet, on the outboxes of a target at the successive calls: numbers are at
least 1, those in an outbox differ, and a message that was not there before has a number above all
that were there at any time before. -/
structure Numbered (outboxes : List (List Message)) : Prop where
  positive : ∀ outbox ∈ outboxes, ∀ m ∈ outbox, 1 ≤ m.num
  distinct : ∀ outbox ∈ outboxes, (outbox.map Message.num).Nodup
  rising : ∀ n < outboxes.length, ∀ m ∈ outboxes.getD n [],
    m ∈ (outboxes.take n).getLast?.getD [] ∨
      ∀ earlier ∈ outboxes.take n, ∀ m' ∈ earlier, m'.num < m.num

/-- The numbering of a run is that of its beginning, with what its last outbox must satisfy. -/
theorem Numbered.of_append {outboxes : List (List Message)} {outbox : List Message}
    (h : Numbered (outboxes ++ [outbox])) :
    Numbered outboxes ∧ (∀ m ∈ outbox, 1 ≤ m.num) ∧ (outbox.map Message.num).Nodup ∧
      ∀ m ∈ outbox, m ∈ outboxes.getLast?.getD [] ∨
        ∀ earlier ∈ outboxes, ∀ m' ∈ earlier, m'.num < m.num := by
  have hlast : outbox ∈ outboxes ++ [outbox] := by simp
  refine ⟨⟨?_, ?_, ?_⟩, h.positive outbox hlast, h.distinct outbox hlast, ?_⟩
  · exact fun earlier hearlier ↦ h.positive earlier (List.mem_append_left _ hearlier)
  · exact fun earlier hearlier ↦ h.distinct earlier (List.mem_append_left _ hearlier)
  · intro n hn m hm
    have hrising := h.rising n (by simp; omega) m
    rw [List.take_append_of_le_length hn.le] at hrising
    apply hrising
    rwa [List.getD_eq_getElem?_getD, List.getElem?_append_left hn, ← List.getD_eq_getElem?_getD]
  · intro m hm
    have hrising := h.rising outboxes.length (by simp) m
    rw [List.take_append_of_le_length le_rfl, List.take_length] at hrising
    apply hrising
    simpa [List.getD] using hm

/-! ### What a target has been sent -/

/-- The messages chosen from an outbox of distinct numbers are in strictly ascending order. -/
theorem newMessages_ascending (t : Target) {outbox : List Message}
    (hdistinct : (outbox.map Message.num).Nodup) :
    (newMessages t outbox).Pairwise fun m m' ↦ m.num < m'.num := by
  have htotal : Std.Total fun a b : Message ↦ a.num ≤ b.num := ⟨fun a b ↦ le_total a.num b.num⟩
  have htrans : IsTrans Message fun a b ↦ a.num ≤ b.num := ⟨fun _ _ _ ↦ le_trans⟩
  have hsorted : (newMessages t outbox).Pairwise fun a b ↦ a.num ≤ b.num :=
    List.pairwise_insertionSort _ _
  have hnodup : ((newMessages t outbox).map Message.num).Nodup := by
    refine ((List.perm_insertionSort _ _).map _).nodup_iff.mpr ?_
    exact hdistinct.sublist (List.filter_sublist.map _)
  rw [List.nodup_iff_pairwise_ne, List.pairwise_map] at hnodup
  exact hsorted.imp₂ (fun _ _ hle hne ↦ lt_of_le_of_ne hle hne) hnodup

/-- A known target's part in one `deliver` call, when `highestAck` is the last acknowledgement
passed: whether or not the deliverator is called, the fresh messages and the acknowledgement are
what the target has afterwards. -/
theorem Sending.call_delivered (target : String) {s : Sending} {t : Target}
    (hentry : s.entry = some t) (hack : t.highestAck = s.lastAck) (mailbox : Mailbox) :
    let s' := s.call target (.delivered (some mailbox))
    s'.entry = some
        { highestSent :=
            ((newMessages t mailbox.outbox).getLast?.map Message.num).getD t.highestSent
          highestAck := mailbox.inboundAck } ∧
      s'.sent = s.sent ++ newMessages t mailbox.outbox ∧ s'.lastAck = mailbox.inboundAck := by
  simp only [Sending.call, deliverTarget, hentry]
  split_ifs with hnew
  · simp [Sending.sent, Sending.lastAck]
  · simp only [not_or, not_not] at hnew
    obtain ⟨hnone, hsame⟩ := hnew
    rw [hnone, hsame]
    simp only [List.append_nil]
    exact ⟨rfl, rfl, hack.symm⟩

/-- After the calls so far a known target has been sent, in ascending order, what its outbox had at
some call made while it was known, `highestSent` is the number of the last of these messages, and
`highestAck` is the last acknowledgement passed. -/
structure Sent (calls : List TargetCall) (s : Sending) : Prop where
  unknown : s.entry = none → .added ∉ calls ∧ s.handed = []
  known : ∀ t, s.entry = some t → .added ∈ calls ∧
    t.highestSent = (s.sent.getLast?.map Message.num).getD 0 ∧ t.highestAck = s.lastAck
  ascending : s.sent.Pairwise fun m m' ↦ m.num < m'.num
  exact : ∀ m, m ∈ s.sent ↔ ∃ mailbox ∈ mailboxes (whileKnown calls), m ∈ mailbox.outbox
  lastAck : s.lastAck =
    ((mailboxes (whileKnown calls)).getLast?.map Mailbox.inboundAck).getD 0

theorem mailboxes_append (calls : List TargetCall) (c : TargetCall) :
    mailboxes (calls ++ [c]) = mailboxes calls ++ c.mailbox?.toList := by
  rw [mailboxes, List.filterMap_append]
  cases hc : c.mailbox? <;> simp [mailboxes, hc]

/-- A target stays known. -/
theorem whileKnown_append {calls : List TargetCall} (hadded : .added ∈ calls) (c : TargetCall) :
    whileKnown (calls ++ [c]) = whileKnown calls ++ [c] := by
  unfold whileKnown
  rw [List.dropWhile_append, if_neg]
  simpa [List.dropWhile_eq_nil_iff] using hadded

theorem whileKnown_eq_nil {calls : List TargetCall} (hadded : .added ∉ calls) :
    whileKnown calls = [] := by
  rw [whileKnown, List.dropWhile_eq_nil_iff]
  intro c hc
  simpa using ne_of_mem_of_not_mem hc hadded

/-- A mailbox found while the target was known is the last one found at all. -/
theorem getLast?_mailboxes {calls : List TargetCall} {mailbox : Mailbox}
    (hlast : (mailboxes (whileKnown calls)).getLast? = some mailbox) :
    (mailboxes calls).getLast? = some mailbox := by
  obtain ⟨before, hbefore⟩ := List.dropWhile_suffix (l := calls) fun c ↦ decide (c ≠ .added)
  have hsplit : mailboxes calls = mailboxes before ++ mailboxes (whileKnown calls) := by
    conv_lhs => rw [← hbefore]
    exact List.filterMap_append
  rw [hsplit, List.getLast?_append, hlast, Option.some_or]

theorem mem_mailboxes_whileKnown {calls : List TargetCall} {mailbox : Mailbox}
    (hmem : mailbox ∈ mailboxes (whileKnown calls)) : mailbox ∈ mailboxes calls :=
  (List.dropWhile_suffix _).sublist.filterMap _ |>.subset hmem

/-- No message sent has a number above `highestSent`. -/
theorem Sent.le_highestSent {calls : List TargetCall} {s : Sending} (h : Sent calls s) {t : Target}
    (hentry : s.entry = some t) {m : Message} (hm : m ∈ s.sent) : m.num ≤ t.highestSent := by
  obtain ⟨-, hhighest, -⟩ := h.known t hentry
  have hascending := h.ascending
  rw [hhighest]
  rcases s.sent.eq_nil_or_concat with hnil | ⟨before, last, hsplit⟩
  · rw [hnil] at hm
    cases hm
  · rw [hsplit, List.concat_eq_append] at hm hascending ⊢
    rw [List.getLast?_append, List.getLast?_singleton, Option.some_or, Option.map_some,
      Option.getD_some]
    rcases List.mem_append.mp hm with hbefore | hlast
    · exact ((List.pairwise_append.mp hascending).2.2 m hbefore last (List.mem_singleton_self _)).le
    · rw [List.mem_singleton.mp hlast]

/-- A message found in the outbox with a number up to `highestSent` has been sent: by the numbering
it was there at the call before, and that call was made while the target was known. -/
theorem Sent.sent_of_le {calls : List TargetCall} {s : Sending} (h : Sent calls s) {t : Target}
    (hentry : s.entry = some t) {m : Message} (hpositive : 1 ≤ m.num)
    (hrising : m ∈ ((mailboxes calls).getLast?.map Mailbox.outbox).getD [] ∨
      ∀ mailbox ∈ mailboxes calls, ∀ m' ∈ mailbox.outbox, m'.num < m.num)
    (hle : m.num ≤ t.highestSent) : m ∈ s.sent := by
  obtain ⟨-, hhighest, -⟩ := h.known t hentry
  cases hsent : s.sent.getLast? with
  | none =>
    -- nothing has been sent, so `highestSent` is 0
    rw [hsent] at hhighest
    exact absurd (hle.trans_eq hhighest) (by simp; omega)
  | some last =>
    rw [hsent] at hhighest
    obtain ⟨mailbox, hmailbox, hlast⟩ := (h.exact last).mp (List.mem_of_getLast? hsent)
    rcases hrising with hbefore | habove
    · -- some call was made while the target was known, so the last one was
      cases hfound : (mailboxes (whileKnown calls)).getLast? with
      | none =>
        rw [List.getLast?_eq_none_iff.mp hfound] at hmailbox
        cases hmailbox
      | some found =>
        rw [getLast?_mailboxes hfound] at hbefore
        exact (h.exact m).mpr ⟨found, List.mem_of_getLast? hfound, hbefore⟩
    · have hlt := habove mailbox (mem_mailboxes_whileKnown hmailbox) last hlast
      exact absurd (hle.trans_eq hhighest) (not_le.mpr hlt)

/-- A `deliver` call that finds a mailbox for a known target. -/
theorem Sent.delivered {calls : List TargetCall} {s : Sending} (h : Sent calls s) (target : String)
    {t : Target} (hentry : s.entry = some t) (mailbox : Mailbox)
    (hpositive : ∀ m ∈ mailbox.outbox, 1 ≤ m.num)
    (hdistinct : (mailbox.outbox.map Message.num).Nodup)
    (hrising : ∀ m ∈ mailbox.outbox,
      m ∈ ((mailboxes calls).getLast?.map Mailbox.outbox).getD [] ∨
        ∀ earlier ∈ mailboxes calls, ∀ m' ∈ earlier.outbox, m'.num < m.num) :
    Sent (calls ++ [.delivered (some mailbox)]) (s.call target (.delivered (some mailbox))) := by
  obtain ⟨hadded, hhighest, hack⟩ := h.known t hentry
  obtain ⟨hentry', hsent', hack'⟩ := Sending.call_delivered target hentry hack mailbox
  have hmailboxes : mailboxes (whileKnown (calls ++ [.delivered (some mailbox)])) =
      mailboxes (whileKnown calls) ++ [mailbox] := by
    rw [whileKnown_append hadded, mailboxes_append]
    rfl
  refine ⟨fun hnone ↦ ?_, fun t' ht' ↦ ?_, ?_, fun m ↦ ?_, ?_⟩
  · rw [hentry'] at hnone
    cases hnone
  · rw [hentry', Option.some.injEq] at ht'
    subst ht'
    refine ⟨List.mem_append_left _ hadded, ?_, hack'.symm⟩
    rw [hsent', List.getLast?_append, hhighest]
    cases (newMessages t mailbox.outbox).getLast? <;> rfl
  · rw [hsent', List.pairwise_append]
    refine ⟨h.ascending, newMessages_ascending t hdistinct, fun m hm m' hm' ↦ ?_⟩
    exact (h.le_highestSent hentry hm).trans_lt (mem_newMessages.mp hm').2
  · rw [hsent', hmailboxes, List.mem_append, mem_newMessages, h.exact m]
    constructor
    · rintro (⟨earlier, hearlier, hm⟩ | ⟨hm, -⟩)
      · exact ⟨earlier, List.mem_append_left _ hearlier, hm⟩
      · exact ⟨mailbox, by simp, hm⟩
    · rintro ⟨found, hfound, hm⟩
      rcases List.mem_append.mp hfound with hearlier | hnow
      · exact Or.inl ⟨found, hearlier, hm⟩
      · rw [List.mem_singleton.mp hnow] at hm
        by_cases hle : m.num ≤ t.highestSent
        · exact Or.inl ((h.exact m).mp (h.sent_of_le hentry (hpositive m hm) (hrising m hm) hle))
        · exact Or.inr ⟨hm, not_le.mp hle⟩
  · rw [hack', hmailboxes, List.getLast?_append, List.getLast?_singleton]
    rfl

/-- A call that neither registers an unknown target nor finds a mailbox for a known one. -/
theorem Sent.skip {calls : List TargetCall} {s : Sending} (h : Sent calls s) {c : TargetCall}
    (hskip : if s.entry = none then c ≠ .added else c.mailbox? = none) :
    Sent (calls ++ [c]) s := by
  cases hentry : s.entry with
  | none =>
    obtain ⟨hadded, hhanded⟩ := h.unknown hentry
    rw [if_pos hentry] at hskip
    have hadded' : .added ∉ calls ++ [c] := by simpa [hadded] using Ne.symm hskip
    have hexact := h.exact
    have hlastAck := h.lastAck
    rw [whileKnown_eq_nil hadded] at hexact hlastAck
    refine ⟨fun _ ↦ ⟨hadded', hhanded⟩, fun t ht ↦ ?_, h.ascending, ?_, ?_⟩
    · rw [hentry] at ht
      cases ht
    · rwa [whileKnown_eq_nil hadded']
    · rwa [whileKnown_eq_nil hadded']
  | some t =>
    obtain ⟨hadded, hhighest⟩ := h.known t hentry
    rw [if_neg (by simp [hentry])] at hskip
    have hmailboxes : mailboxes (whileKnown (calls ++ [c])) = mailboxes (whileKnown calls) := by
      rw [whileKnown_append hadded, mailboxes_append, hskip, Option.toList_none, List.append_nil]
    refine ⟨fun hnone ↦ ?_, fun t' ht' ↦ ?_, h.ascending, ?_, ?_⟩
    · rw [hentry] at hnone
      cases hnone
    · exact ⟨List.mem_append_left _ hadded, (h.known t' ht').2⟩
    · rw [hmailboxes]
      exact h.exact
    · rw [hmailboxes]
      exact h.lastAck

/-- The registration of an unknown target. -/
theorem Sent.added {calls : List TargetCall} {s : Sending} (h : Sent calls s)
    (hentry : s.entry = none) : Sent (calls ++ [.added]) ⟨some ⟨0, 0⟩, s.handed⟩ := by
  obtain ⟨hadded, hhanded⟩ := h.unknown hentry
  have hmailboxes : mailboxes (whileKnown (calls ++ [.added])) = [] := by
    have hbefore : ∀ c ∈ calls, decide (c ≠ .added) = true := by
      intro c hc
      simpa using ne_of_mem_of_not_mem hc hadded
    rw [whileKnown, List.dropWhile_append_of_pos hbefore]
    rfl
  rw [hhanded]
  refine ⟨nofun, fun t ht ↦ ?_, List.Pairwise.nil, fun m ↦ ?_, ?_⟩
  · obtain rfl := Option.some.inj ht
    exact ⟨by simp, rfl, rfl⟩
  · rw [hmailboxes]
    simp [Sending.sent]
  · rw [hmailboxes]
    rfl

/-- The mailboxes before the last call are numbered if those of all calls are. -/
theorem numbered_before {calls : List TargetCall} {c : TargetCall}
    (hnumbered : Numbered ((mailboxes (calls ++ [c])).map Mailbox.outbox)) :
    Numbered ((mailboxes calls).map Mailbox.outbox) := by
  rw [mailboxes_append, List.map_append] at hnumbered
  cases hfound : c.mailbox? with
  | none => simpa [hfound] using hnumbered
  | some mailbox =>
    rw [hfound] at hnumbered
    exact (Numbered.of_append hnumbered).1

/-- One more call. -/
theorem Sent.call {calls : List TargetCall} {s : Sending} (h : Sent calls s) (target : String)
    (c : TargetCall) (hnumbered : Numbered ((mailboxes (calls ++ [c])).map Mailbox.outbox)) :
    Sent (calls ++ [c]) (s.call target c) := by
  cases c with
  | added =>
    cases hentry : s.entry with
    | none =>
      rw [Sending.call, hentry]
      exact h.added hentry
    | some t =>
      have hsame : s.call target .added = s := by
        rw [Sending.call, hentry, Option.getD_some, ← hentry]
      rw [hsame]
      exact h.skip (by simp [hentry, TargetCall.mailbox?])
  | delivered found =>
    cases found with
    | none =>
      refine h.skip ?_
      split_ifs
      · exact TargetCall.noConfusion
      · rfl
    | some mailbox =>
      rw [mailboxes_append, List.map_append] at hnumbered
      obtain ⟨-, hpositive, hdistinct, hrising⟩ := Numbered.of_append hnumbered
      cases hentry : s.entry with
      | none =>
        have hsame : s.call target (.delivered (some mailbox)) = s := by
          simp only [Sending.call, deliverTarget, hentry, List.append_nil]
          rw [← hentry]
        rw [hsame]
        exact h.skip (by simp [hentry])
      | some t =>
        refine h.delivered target hentry mailbox hpositive hdistinct fun m hm ↦ ?_
        rw [← List.getLast?_map]
        exact (hrising m hm).imp id fun habove earlier hearlier ↦
          habove _ (List.mem_map_of_mem hearlier)

theorem sent_run (target : String) (calls : List TargetCall)
    (hnumbered : Numbered ((mailboxes calls).map Mailbox.outbox)) :
    Sent calls (Sending.empty.run target calls) := by
  induction calls using List.reverseRecOn with
  | nil =>
    refine ⟨fun _ ↦ ⟨List.not_mem_nil, rfl⟩, nofun, List.Pairwise.nil, fun m ↦ ?_, rfl⟩
    simp [Sending.run, Sending.empty, Sending.sent, whileKnown, mailboxes]
  | append_singleton calls c ih =>
    have hrun : Sending.empty.run target (calls ++ [c]) =
        (Sending.empty.run target calls).call target c := by
      rw [Sending.run, List.foldl_append]
      rfl
    rw [hrun]
    exact (ih (numbered_before hnumbered)).call target c hnumbered

/-- In every run of the two functions in which the outboxes of a target are numbered as SwingSet
numbers them: the batches passed to its deliverator, one after the other, ascend strictly; they are
made of exactly the messages that were in its outbox at some `deliver` call made while it was known;
the last acknowledgement passed is that of its mailbox at the last of these calls; and any run that
is the same to this target hands it the same. -/
theorem sent_once (target : String) (calls : List OutboundCall)
    (hnumbered : Numbered
      ((mailboxes (calls.filterMap (OutboundCall.view target))).map Mailbox.outbox)) :
    let sending := (Outbound.empty.run calls).sending target
    let found := mailboxes (whileKnown (calls.filterMap (OutboundCall.view target)))
    (sending.sent.Pairwise fun m m' ↦ m.num < m'.num) ∧
      (∀ m, m ∈ sending.sent ↔ ∃ mailbox ∈ found, m ∈ mailbox.outbox) ∧
      sending.lastAck = (found.getLast?.map Mailbox.inboundAck).getD 0 ∧
      ∀ others : List OutboundCall,
        others.filterMap (OutboundCall.view target) = calls.filterMap (OutboundCall.view target) →
        (Outbound.empty.run others).handedTo target =
        (Outbound.empty.run calls).handedTo target := by
  intro sending found
  have hsending : sending =
      Sending.empty.run target (calls.filterMap (OutboundCall.view target)) :=
    Outbound.sending_run .empty target calls
  have h := sent_run target _ hnumbered
  rw [← hsending] at h
  refine ⟨h.ascending, h.exact, h.lastAck, fun others hothers ↦ ?_⟩
  have hsame : (Outbound.empty.run others).sending target = sending := by
    rw [hsending, Outbound.sending_run, hothers]
    rfl
  exact congrArg Sending.handed hsame

section Runs

/-- A mailbox map with one outbox, in the order in which the map has it. -/
def outboxOf (messages : List Message) (inboundAck : ℕ) : MailboxData :=
  ⟨[("gci", ⟨messages, inboundAck⟩)], List.nodup_singleton _⟩

/-- A target becomes known after its first messages, one of which is acknowledged and goes; the
outbox is not sorted, and the last call has only an acknowledgement to pass. -/
def lateRegistration : List OutboundCall :=
  [.deliver (outboxOf [⟨2, "b"⟩, ⟨1, "a"⟩] 0), .addDeliveryTarget "gci", .addDeliveryTarget "other",
    .deliver (outboxOf [⟨3, "c"⟩, ⟨2, "b"⟩] 1), .addDeliveryTarget "gci",
    .deliver (outboxOf [⟨3, "c"⟩] 1), .deliver (outboxOf [⟨4, "d"⟩, ⟨3, "c"⟩] 1),
    .deliver (outboxOf [] 2)]

theorem sent_lateRegistration :
    (((Outbound.empty.run lateRegistration).sending "gci").sent.map Message.num = [2, 3, 4] ∧
      ((Outbound.empty.run lateRegistration).sending "gci").lastAck = 2) ∧
    (((Outbound.empty.run lateRegistration).sending "gci").sent.Pairwise
      fun m m' ↦ m.num < m'.num) :=
  ⟨by decide, (sent_once "gci" lateRegistration
    ⟨by decide, by decide, by decide⟩).1⟩

end Runs

end CosmicSwingset.Solo
