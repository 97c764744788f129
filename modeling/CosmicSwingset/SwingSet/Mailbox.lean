import Mathlib.Data.List.Nodup

/-!
# The mailbox state map

What the mailbox device of a SwingSet machine holds for each peer, as `mbs.exportToData()` hands
it to `outbound.js`, `start.js` and `launch-chain.js`: an outbox of numbered messages and the
number of the last inbound message acknowledged. The exported JavaScript object is the list of its
own properties in the order `Object.getOwnPropertyNames` gives them; `MailboxData` carries the
proof that no property occurs twice.
-/

set_option autoImplicit false
set_option relaxedAutoImplicit false

namespace CosmicSwingset.SwingSet

/-- An outbox entry `[num, body]`. -/
structure Message where
  num : ℕ
  body : String
  deriving DecidableEq

/-- The value of one property of `mbs.exportToData()`. -/
structure Mailbox where
  outbox : List Message
  inboundAck : ℕ
  deriving DecidableEq

/-- The object `mbs.exportToData()`. -/
@[ext] structure MailboxData where
  entries : List (String × Mailbox)
  distinct : (entries.map Prod.fst).Nodup
  deriving DecidableEq

namespace MailboxData

/-- `data[peer]`. -/
def get (data : MailboxData) (peer : String) : Option Mailbox :=
  data.entries.lookup peer

/-- The object `{}`. -/
def empty : MailboxData := ⟨[], List.nodup_nil⟩

private theorem lookup_eq_some_iff {entries : List (String × Mailbox)}
    (hdistinct : (entries.map Prod.fst).Nodup) (peer : String) (mailbox : Mailbox) :
    entries.lookup peer = some mailbox ↔ (peer, mailbox) ∈ entries := by
  induction entries with
  | nil => simp
  | cons entry rest ih =>
    obtain ⟨name, value⟩ := entry
    simp only [List.map_cons, List.nodup_cons] at hdistinct
    obtain ⟨hname, hrest⟩ := hdistinct
    by_cases h : peer = name
    · subst h
      have hnot : (peer, mailbox) ∉ rest := fun hmem ↦
        hname (List.mem_map.mpr ⟨_, hmem, rfl⟩)
      simp [hnot, eq_comm]
    · have hne : (peer == name) = false := by simpa using h
      simp [List.lookup_cons, hne, ih hrest, h]

theorem get_eq_some_iff (data : MailboxData) (peer : String) (mailbox : Mailbox) :
    data.get peer = some mailbox ↔ (peer, mailbox) ∈ data.entries :=
  lookup_eq_some_iff data.distinct peer mailbox

end MailboxData

/-- The two halves of a SwingSet machine that its host saves: the mailbox state map and the kernel
state `storage.getState()`, of whatever type `K` the kernel makes it. -/
structure Machine (K : Type*) where
  mailbox : MailboxData
  kernel : K
  deriving DecidableEq

end CosmicSwingset.SwingSet
