import CosmicSwingset.SwingSet.Mailbox
import Mathlib.Data.List.Sort
import Mathlib.Logic.Function.Basic

/-!
# Outbound delivery of the solo node

`outbound.js`: `deliver` walks the exported mailbox data and hands each known target's deliverator
the messages above the highest number it was sent before, in ascending order, with the current
acknowledgement. A target is named by the GCI of its chain.
-/

set_option autoImplicit false
set_option relaxedAutoImplicit false

namespace CosmicSwingset.Solo

open SwingSet

/-- The value of `knownTargets` at a target. Its `deliverator` is known by the target's name. -/
structure Target where
  highestSent : ℕ
  highestAck : ℕ
  deriving DecidableEq

/-- The map `knownTargets`. -/
abbrev KnownTargets := String → Option Target

/-- One call `t.deliverator(newMessages, acknum)`. -/
structure Handed where
  target : String
  newMessages : List Message
  acknum : ℕ
  deriving DecidableEq

/-- `addDeliveryTarget`, which throws (`none`) for a target already added. -/
def addDeliveryTarget (known : KnownTargets) (target : String) : Option KnownTargets :=
  match known target with
  | some _ => none
  | none => some (Function.update known target (some ⟨0, 0⟩))

/-- The messages of an outbox that the target has not been sent, sorted by number. -/
def newMessages (t : Target) (outbox : List Message) : List Message :=
  (outbox.filter fun m ↦ t.highestSent < m.num).insertionSort fun a b ↦ a.num ≤ b.num

/-- One turn of the loop of `deliver`. -/
def deliverTarget (known : KnownTargets) (target : String) (mailbox : Mailbox) :
    KnownTargets × List Handed :=
  match known target with
  | none => (known, [])
  | some t =>
    let fresh := newMessages t mailbox.outbox
    if fresh ≠ [] ∨ mailbox.inboundAck ≠ t.highestAck then
      (Function.update known target (some
          { highestSent := (fresh.getLast?.map Message.num).getD t.highestSent
            highestAck := mailbox.inboundAck }),
        [⟨target, fresh, mailbox.inboundAck⟩])
    else (known, [])

/-- The loop of `deliver` over the properties of the exported data: the map afterwards and the
deliverator calls made, in order. -/
def deliverEntries : KnownTargets → List (String × Mailbox) → KnownTargets × List Handed
  | known, [] => (known, [])
  | known, (target, mailbox) :: rest =>
    let turn := deliverTarget known target mailbox
    let others := deliverEntries turn.1 rest
    (others.1, turn.2 ++ others.2)

/-- `deliver(mbs)`, on the data that `mbs.exportToData()` returns. -/
def deliver (known : KnownTargets) (data : MailboxData) : KnownTargets × List Handed :=
  deliverEntries known data.entries

theorem mem_newMessages {t : Target} {outbox : List Message} {m : Message} :
    m ∈ newMessages t outbox ↔ m ∈ outbox ∧ t.highestSent < m.num := by
  simp [newMessages, List.mem_insertionSort]

theorem mem_deliverTarget {known : KnownTargets} {target : String} {mailbox : Mailbox} {h : Handed}
    (hmem : h ∈ (deliverTarget known target mailbox).2) :
    h.target = target ∧ h.acknum = mailbox.inboundAck ∧
      ∀ m ∈ h.newMessages, m ∈ mailbox.outbox := by
  unfold deliverTarget at hmem
  cases hknown : known target with
  | none => simp [hknown] at hmem
  | some t =>
    simp only [hknown] at hmem
    split_ifs at hmem with hnew
    · obtain rfl := List.mem_singleton.mp hmem
      exact ⟨rfl, rfl, fun m hm ↦ (mem_newMessages.mp hm).1⟩
    · simp at hmem

theorem mem_deliverEntries {known : KnownTargets} {entries : List (String × Mailbox)} {h : Handed}
    (hmem : h ∈ (deliverEntries known entries).2) :
    ∃ mailbox, (h.target, mailbox) ∈ entries ∧ h.acknum = mailbox.inboundAck ∧
      ∀ m ∈ h.newMessages, m ∈ mailbox.outbox := by
  induction entries generalizing known with
  | nil => simp [deliverEntries] at hmem
  | cons entry rest ih =>
    obtain ⟨target, mailbox⟩ := entry
    rcases List.mem_append.mp hmem with hturn | hothers
    · obtain ⟨rfl, hack, hmessages⟩ := mem_deliverTarget hturn
      exact ⟨mailbox, List.mem_cons_self, hack, hmessages⟩
    · obtain ⟨other, hentry, hrest⟩ := ih hothers
      exact ⟨other, List.mem_cons_of_mem _ hentry, hrest⟩

/-- Everything `deliver` hands a target comes from that target's mailbox in the exported data. -/
theorem mem_deliver {known : KnownTargets} {data : MailboxData} {h : Handed}
    (hmem : h ∈ (deliver known data).2) :
    ∃ mailbox, data.get h.target = some mailbox ∧ h.acknum = mailbox.inboundAck ∧
      ∀ m ∈ h.newMessages, m ∈ mailbox.outbox := by
  obtain ⟨mailbox, hentry, hrest⟩ := mem_deliverEntries hmem
  exact ⟨mailbox, (data.get_eq_some_iff _ _).mpr hentry, hrest⟩

end CosmicSwingset.Solo
