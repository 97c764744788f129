import CosmicSwingset.Foundation.SortedJson
import CosmicSwingset.SwingSet.Mailbox

/-!
# The JSON of mailboxes

`launch-chain.js` stores the exported mailbox map and the mailbox of each peer as the text that
`deterministic-json` makes of them, and restores the map with `JSON.parse`. The package is a
parameter of the model, a `DeterministicJson`, of which the code relies on one law: the text of a
map parses to the map, its peers perhaps in another order. `djson` is the one that sorts the keys.
-/

set_option autoImplicit false
set_option relaxedAutoImplicit false

namespace CosmicSwingset.Chain

open Foundation SwingSet

/-- `djson.stringify` on the exported map (`stringify`) and on a published `{ outbox, ack }`
(`stringifyPeer`), and `JSON.parse` of a text as an exported map. -/
structure DeterministicJson where
  stringify : MailboxData → String
  stringifyPeer : Mailbox → String
  parse : String → Option MailboxData
  parse_stringify : ∀ data, ∃ parsed, parse (stringify data) = some parsed ∧
    parsed.entries.Perm data.entries

/-- Maps with one text have the same mailboxes. -/
theorem DeterministicJson.perm_of_stringify_eq (json : DeterministicJson)
    {data data' : MailboxData} (h : json.stringify data = json.stringify data') :
    data.entries.Perm data'.entries := by
  obtain ⟨parsed, hparsed, hperm⟩ := json.parse_stringify data
  obtain ⟨parsed', hparsed', hperm'⟩ := json.parse_stringify data'
  have hsame : parsed = parsed' := by
    rw [h, hparsed', Option.some.injEq] at hparsed
    exact hparsed.symm
  rw [hsame] at hperm
  exact hperm.symm.trans hperm'

/-! ### Sorted keys -/

def messageJson (message : Message) : Json ℕ := .arr [.num message.num, .str message.body]

def outboxJson (mailbox : Mailbox) : Json ℕ := .arr (mailbox.outbox.map messageJson)

/-- The value of one property of the exported map. -/
def mailboxJson (mailbox : Mailbox) : Json ℕ :=
  .obj [("outbox", outboxJson mailbox), ("inboundAck", .num mailbox.inboundAck)]

def exportJson (data : MailboxData) : Json ℕ :=
  .obj (data.entries.map fun entry ↦ (entry.1, mailboxJson entry.2))

/-- The object published for one peer. -/
def peerJson (mailbox : Mailbox) : Json ℕ :=
  .obj [("outbox", outboxJson mailbox), ("ack", .num mailbox.inboundAck)]

def messageOfJson : Json ℕ → Option Message
  | .arr [.num num, .str body] => some ⟨num, body⟩
  | _ => none

def mailboxOfJson : Json ℕ → Option Mailbox
  | .obj members =>
    match Json.member "outbox" members, Json.member "inboundAck" members with
    | some (.arr outbox), some (.num ack) => (outbox.mapM messageOfJson).map (⟨·, ack⟩)
    | _, _ => none
  | _ => none

def dataOfJson : Json ℕ → Option MailboxData
  | .obj members => do
    let entries ← members.mapM fun m ↦ (mailboxOfJson m.2).map (m.1, ·)
    if distinct : (entries.map Prod.fst).Nodup then some ⟨entries, distinct⟩ else none
  | _ => none

theorem mapM_map_eq_some {α β : Type*} {f : α → β} {g : β → Option α}
    (h : ∀ a, g (f a) = some a) (l : List α) : (l.map f).mapM g = some l := by
  induction l with
  | nil => rfl
  | cons a l ih =>
    rw [List.map_cons, List.mapM_cons, h, ih]
    rfl

theorem sortKeys_outboxJson (mailbox : Mailbox) :
    (outboxJson mailbox).sortKeys = outboxJson mailbox := by
  rw [outboxJson, Json.sortKeys, Json.sortKeysElements_eq_map, List.map_map]
  rfl

theorem mailboxOfJson_sortKeys (mailbox : Mailbox) :
    mailboxOfJson (mailboxJson mailbox).sortKeys = some mailbox := by
  have hkeys : ¬ utf16 "outbox".toList ≤ utf16 "inboundAck".toList := by decide
  have hsorted : (mailboxJson mailbox).sortKeys =
      .obj [("inboundAck", .num mailbox.inboundAck), ("outbox", outboxJson mailbox)] := by
    simp only [mailboxJson, Json.sortKeys, Json.sortKeysMembers_eq_map, List.map_cons, List.map_nil,
      sortKeys_outboxJson, List.insertionSort_cons, List.insertionSort_nil, List.orderedInsert_nil,
      List.orderedInsert_cons, Json.keyLe, decide_eq_true_eq, if_neg hkeys]
  rw [hsorted, mailboxOfJson]
  have houtbox :=
    mapM_map_eq_some (f := messageJson) (g := messageOfJson) (fun _ ↦ rfl) mailbox.outbox
  change ((mailbox.outbox.map messageJson).mapM messageOfJson).map _ = _
  rw [houtbox]
  rfl

/-- The exported map with its peers in the order of their keys. -/
def sortedEntries (data : MailboxData) : List (String × Mailbox) :=
  data.entries.insertionSort fun a b ↦ utf16 a.1.toList ≤ utf16 b.1.toList

theorem sortKeys_exportJson (data : MailboxData) :
    (exportJson data).sortKeys =
      .obj ((sortedEntries data).map fun entry ↦ (entry.1, (mailboxJson entry.2).sortKeys)) := by
  have hmap := List.map_insertionSort
    (fun a b ↦ utf16 a.1.toList ≤ utf16 b.1.toList) (Json.keyLe (ν := ℕ) · ·)
    (fun entry : String × Mailbox ↦ (entry.1, (mailboxJson entry.2).sortKeys)) data.entries
    (fun a _ b _ ↦ by simp [Json.keyLe])
  rw [exportJson, Json.sortKeys, Json.sortKeysMembers_eq_map, List.map_map, sortedEntries, hmap]
  rfl

theorem dataOfJson_sortKeys (data : MailboxData) :
    ∃ parsed, dataOfJson (exportJson data).sortKeys = some parsed ∧
      parsed.entries.Perm data.entries := by
  have hperm : (sortedEntries data).Perm data.entries := List.perm_insertionSort _ _
  have hdistinct : ((sortedEntries data).map Prod.fst).Nodup :=
    (hperm.map Prod.fst).nodup_iff.mpr data.distinct
  refine ⟨⟨sortedEntries data, hdistinct⟩, ?_, hperm⟩
  have hentries := mapM_map_eq_some
    (f := fun entry : String × Mailbox ↦ (entry.1, (mailboxJson entry.2).sortKeys))
    (g := fun m ↦ (mailboxOfJson m.2).map (m.1, ·))
    (fun entry ↦ by rw [mailboxOfJson_sortKeys]; rfl) (sortedEntries data)
  rw [sortKeys_exportJson, dataOfJson, hentries, Option.bind_eq_bind, Option.bind_some,
    dif_pos hdistinct]

/-- Texts with sorted keys. -/
def djson : DeterministicJson where
  stringify := fun data ↦ Json.stringifySorted .nat (exportJson data)
  stringifyPeer := fun mailbox ↦ Json.stringifySorted .nat (peerJson mailbox)
  parse := fun text ↦ (Json.parseString .nat text).bind dataOfJson
  parse_stringify := fun data ↦ by
    rw [Json.parseString_stringifySorted, Option.bind_some]
    exact dataOfJson_sortKeys data

example : djson.stringifyPeer ⟨[⟨1, "hi"⟩], 2⟩ = "\x7b\"ack\":2,\"outbox\":[[1,\"hi\"]]\x7d" := by
  decide

end CosmicSwingset.Chain
