import CosmicSwingset.Chain.PublishedMaps
import CosmicSwingset.Chain.StoredNode
import CosmicSwingset.Solo.GetMailbox

/-!
# What a solo node reads of the chain

`getMailbox` queries the committed store of the chain node. Whatever the chain node goes through
before (transactions that fail or are only simulated, calls that a write cuts short, crashes), a
round yields the mailbox that the peer has in the last map that was published whole in a committed
transaction, and the empty mailbox if there is none. The maps that later rounds read are later ones
(`getMailbox_committed`).
-/

set_option autoImplicit false
set_option relaxedAutoImplicit false

namespace CosmicSwingset.Solo

open Foundation SwingSet Chain

variable {K : Type*}

/-- Every round over the store yields the mailbox of its peer in the last of the maps that has the
peer, if the helper's output fits in its buffer, and an empty one if none of the maps has it. -/
def ReadsOf (json : PublishedJson) (stable : StableStringify) (k : Keeper) (sdk : CosmosSdk)
    (store : KVStore) (maps : List MailboxData) : Prop :=
  ∀ peer, Addressable peer →
    (∀ mailbox, lastMailbox maps peer = some mailbox →
      (sdk.printOutput
        (encode (stable.stringify (.str (json.stringifyPeer mailbox))))).length ≤ maxBufferSize →
      Yields k sdk store peer mailbox.outbox mailbox.inboundAck) ∧
    (lastMailbox maps peer = none → Yields k sdk store peer [] 0)

/-- A store that holds the copies of some maps is read as these. -/
theorem readsOf_copiesOf {json : PublishedJson} {stable : StableStringify} {k : Keeper}
    {sdk : CosmosSdk} {store : KVStore} {storage : MailboxStorage} {maps : List MailboxData}
    (hstores : Stores stable k store storage)
    (hcopies : CopiesOf json.toDeterministicJson storage maps) :
    ReadsOf json stable k sdk store maps := by
  intro peer hpeer
  have hvalue := hstores.value (peerKey peer)
  rw [hcopies peer] at hvalue
  constructor
  · intro mailbox hmailbox hfits
    rw [hmailbox] at hvalue
    have hstored := mt encode_eq_nil_iff.mp
      (stable.stringify_ne_empty (json.stringifyPeer mailbox))
    exact yields_published json hpeer (getMailbox_of_getStorage hstored hvalue) hfits
  · intro hnone
    rw [hnone] at hvalue
    exact yields_empty hpeer (hstores.readable.eq_none hvalue)

/-- The node over raw stores and the one that records what is published go through the same
events. -/
theorem recorded_step (stable : StableStringify) (k : Keeper) (json : DeterministicJson) (empty : K)
    {n : StoredNode K} {r : RecordedNode K} (h : Implements stable k n r.node ∧ Recorded json r)
    {e : StoredEvent K} (hport : e.Registered) :
    Option.Rel (fun n r ↦ Implements stable k n r.node ∧ Recorded json r)
      (n.step stable k json e) (r.step json empty e.event) := by
  have hstep := h.1.step json empty hport
  cases hn : n.step stable k json e with
  | none =>
    rw [hn] at hstep
    cases ha : r.node.step json empty e.event with
    | none =>
      rw [RecordedNode.step, ha]
      exact .none
    | some a' => rw [ha] at hstep; cases hstep
  | some n' =>
    obtain ⟨a', ha, himplements⟩ := exists_of_rel hstep hn
    have hr : r.step json empty e.event =
        some ⟨a', r.maps.record json empty r.node e.event⟩ := by
      rw [RecordedNode.step, ha, Option.map_some]
    rw [hr]
    exact .some ⟨himplements, h.2.step empty hr⟩

theorem reads_committed {json : PublishedJson} {stable : StableStringify} {k : Keeper}
    (sdk : CosmosSdk) {n : StoredNode K} {r : RecordedNode K}
    (h : Implements stable k n r.node ∧ Recorded json.toDeterministicJson r) :
    ReadsOf json stable k sdk n.committed r.maps.committed :=
  readsOf_copiesOf h.1.committed.stores h.2.committed

/-- Over the raw stores of the keeper, in every run in which the port of each message is registered,
the rounds after some events read the maps that were published in the committed store, and the
rounds after some more events read these and perhaps further ones. -/
theorem getMailbox_committed (json : PublishedJson) (stable : StableStringify) (k : Keeper)
    (sdk : CosmosSdk) (empty : K) {events later : List (StoredEvent K)}
    (hports : ∀ e ∈ events ++ later, e.Registered) {n n' : StoredNode K}
    (hrun : run (StoredNode.step stable k json.toDeterministicJson) StoredNode.genesis events =
      some n)
    (hlater : run (StoredNode.step stable k json.toDeterministicJson) n later = some n') :
    ∃ r r', run (RecordedNode.step json.toDeterministicJson empty) RecordedNode.genesis
        (events.map StoredEvent.event) = some r ∧
      run (RecordedNode.step json.toDeterministicJson empty) r
        (later.map StoredEvent.event) = some r' ∧
      ReadsOf json stable k sdk n.committed r.maps.committed ∧
      ReadsOf json stable k sdk n'.committed r'.maps.committed ∧
      r.maps.committed <+: r'.maps.committed := by
  have hfirst : ∀ e ∈ events, e.Registered := fun e he ↦ hports e (List.mem_append_left later he)
  have hrest : ∀ e ∈ later, e.Registered := fun e he ↦ hports e (List.mem_append_right events he)
  have hgenesis :
      Implements stable k StoredNode.genesis (RecordedNode.genesis : RecordedNode K).node ∧
      Recorded json.toDeterministicJson (RecordedNode.genesis : RecordedNode K) :=
    ⟨implements_genesis stable k, recorded_genesis json.toDeterministicJson⟩
  obtain ⟨r, hr, hstate⟩ := exists_of_rel (run_rel
    (fun _ _ _ h ↦ recorded_step stable k json.toDeterministicJson empty h) hgenesis hfirst) hrun
  obtain ⟨r', hr', hstate'⟩ := exists_of_rel (run_rel
    (fun _ _ _ h ↦ recorded_step stable k json.toDeterministicJson empty h) hstate hrest) hlater
  refine ⟨r, r', hr, hr', reads_committed sdk hstate, reads_committed sdk hstate', ?_⟩
  exact (committed_prefix_of_run json.toDeterministicJson empty hstate.2 hr').2

/-- Alice's outbox is published in a first block. -/
def sentBlock : List (Event ℕ) :=
  [.beginTx false, .launch (some ⟨.empty, 1⟩) .completed,
    .deliverInbound (.ran ⟨sending, 2⟩) .completed, .endTx true, .commit]

/-- A call that empties it is cut short before it saves, and another one is not committed before a
crash. -/
def lostBlocks : List (Event ℕ) :=
  [.beginTx false, .deliverInbound (.ran ⟨quiet, 3⟩) (.threw 1), .endTx false, .commit,
    .beginTx false, .deliverInbound (.ran ⟨quiet, 4⟩) .completed, .endTx true, .crash]

theorem getMailbox_committed_alice :
    ∃ n n', run (StoredNode.step sortedStringify aminoKeeper djson) StoredNode.genesis
        (storedEvents .forward ⟨1, [1]⟩ 1 sentBlock) = some n ∧
      run (StoredNode.step sortedStringify aminoKeeper djson) n
        (storedEvents .backward ⟨2, [2]⟩ 2 lostBlocks) = some n' ∧
      Yields aminoKeeper aminoSdk n.committed "alice" [⟨1, "hello"⟩] 0 ∧
      Yields aminoKeeper aminoSdk n'.committed "alice" [⟨1, "hello"⟩] 0 := by
  have hports : ∀ e ∈ storedEvents .forward ⟨1, [1]⟩ 1 sentBlock ++
      storedEvents .backward ⟨2, [2]⟩ 2 lostBlocks, e.Registered :=
    List.forall_mem_append.mpr ⟨registered_storedEvents (by decide) .forward sentBlock,
      registered_storedEvents (by decide) .backward lostBlocks⟩
  have hlockstep := isSome_eq_of_rel (run_storedNode sortedStringify aminoKeeper djson 0 _ hports)
  rw [List.map_append, event_storedEvents, event_storedEvents] at hlockstep
  have henabled : (run (Node.step djson 0) Node.genesis (sentBlock ++ lostBlocks)).isSome := by
    decide +kernel
  obtain ⟨n', hn'⟩ := Option.isSome_iff_exists.mp (hlockstep.trans henabled)
  rw [run_append] at hn'
  obtain ⟨n, hn, hlater⟩ := Option.bind_eq_some_iff.mp hn'
  obtain ⟨r, r', hr, hr', hreads, hafter, -⟩ := getMailbox_committed djsonPublished sortedStringify
    aminoKeeper aminoSdk 0 hports hn hlater
  rw [event_storedEvents] at hr hr'
  have hmaps : (run (RecordedNode.step djson 0) RecordedNode.genesis sentBlock).map
      (fun r ↦ r.maps.committed) = some [sending] := by
    decide +kernel
  have hmaps' : (run (RecordedNode.step djson 0) RecordedNode.genesis (sentBlock ++ lostBlocks)).map
      (fun r ↦ r.maps.committed) = some [sending] := by
    decide +kernel
  have hpublished : r.maps.committed = [sending] := by
    change run (RecordedNode.step djson 0) _ _ = _ at hr
    rw [hr] at hmaps
    exact Option.some.inj hmaps
  have hpublished' : r'.maps.committed = [sending] := by
    change run (RecordedNode.step djson 0) _ _ = _ at hr hr'
    rw [run_append, hr, Option.bind_some, hr'] at hmaps'
    exact Option.some.inj hmaps'
  have halice : Addressable "alice" := ⟨by decide, by decide, by decide⟩
  have hmailbox : lastMailbox [sending] "alice" = some ⟨[⟨1, "hello"⟩], 0⟩ := by decide +kernel
  have hfits : (aminoSdk.printOutput (encode (sortedStringify.stringify
      (.str (djson.stringifyPeer ⟨[⟨1, "hello"⟩], 0⟩))))).length ≤ maxBufferSize := by
    decide +kernel
  rw [hpublished] at hreads
  rw [hpublished'] at hafter
  exact ⟨n, n', hn, hlater, (hreads "alice" halice).1 _ hmailbox hfits,
    (hafter "alice" halice).1 _ hmailbox hfits⟩

end CosmicSwingset.Solo
