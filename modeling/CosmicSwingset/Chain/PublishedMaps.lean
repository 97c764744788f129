import CosmicSwingset.Chain.Application

/-!
# The maps published in the stores of the chain node

`deliverInbound` writes the copies for the peers one at a time, the call may end after any of them,
and the transaction, the block or the whole process may be lost. Beside each store of the node stand
here the maps that were published in it, whole and in order (`PublishedMaps`): a call adds one when
it completes after a run that changed the map, and what happens to the store happens to the list.

In every run the committed store and the store of the block have, for each peer, the copy that the
last of their maps with that peer has, and nothing for a peer that is in none of them: copies of a
call that was cut short do not get there (`Recorded.step`). The maps of the committed store are
never taken back (`committed_prefix_of_run`).
-/

set_option autoImplicit false
set_option relaxedAutoImplicit false

namespace CosmicSwingset.Chain

open Foundation SwingSet

variable {K : Type*}

/-- The maps that were published in each store of the node, oldest first. -/
structure PublishedMaps where
  committed : List MailboxData
  block : List MailboxData
  view : List MailboxData

/-- The chain node with the maps that were published in its stores. -/
structure RecordedNode (K : Type*) where
  node : Node K
  maps : PublishedMaps

/-- The mailbox of a peer in the last map that has the peer. -/
def lastMailbox (maps : List MailboxData) (peer : String) : Option Mailbox :=
  maps.reverse.findSome? fun data ↦ data.get peer

section Code

variable (json : DeterministicJson) (empty : K)

/-- The map that a call of `deliverInbound` publishes when it completes. -/
def publishedMap (live : Option (Machine K)) : Work K → List MailboxData
  | .nothing | .threw _ => []
  | .ran after => if ∃ m ∈ live, Changed json m after then [after.mailbox] else []

namespace PublishedMaps

def crash (maps : PublishedMaps) : PublishedMaps :=
  ⟨maps.committed, maps.committed, maps.committed⟩

/-- What an event that the node goes through does to the lists. -/
def record (maps : PublishedMaps) (n : Node K) : Event K → PublishedMaps
  | .beginTx simulate => { maps with view := if simulate then maps.committed else maps.block }
  | .launch buildSwingset (.crashed _) =>
    if (launch json empty n.file n.view buildSwingset).isSome then maps.crash else maps
  | .launch _ _ => maps
  | .deliverInbound work .completed =>
    { maps with view := maps.view ++ publishedMap json n.live work }
  | .deliverInbound _ (.threw _) => maps
  | .deliverInbound _ (.crashed _) => maps.crash
  | .endTx keep =>
    if keep then { maps with block := maps.view } else { maps with view := maps.block }
  | .commit => { maps with committed := maps.block, view := maps.block }
  | .crash => maps.crash

end PublishedMaps

namespace RecordedNode

def step (r : RecordedNode K) (event : Event K) : Option (RecordedNode K) :=
  (r.node.step json empty event).map fun node ↦ ⟨node, r.maps.record json empty r.node event⟩

def genesis : RecordedNode K := ⟨.genesis, ⟨[], [], []⟩⟩

end RecordedNode

end Code

/-- The copy of every peer is that of the last map that has the peer. -/
def CopiesOf (json : DeterministicJson) (storage : MailboxStorage) (maps : List MailboxData) :
    Prop :=
  ∀ peer, storage (peerKey peer) = (lastMailbox maps peer).map json.stringifyPeer

/-- The stores are those of their maps, that of the open transaction unless a message has failed.
The maps of the committed store come first in the block, and those of the block in the transaction,
if it may be kept. -/
structure Recorded (json : DeterministicJson) (r : RecordedNode K) : Prop where
  committed : CopiesOf json r.node.committed r.maps.committed
  block : CopiesOf json r.node.block r.maps.block
  view : ∀ tx ∈ r.node.tx, tx.failed = false → CopiesOf json r.node.view r.maps.view
  inBlock : r.maps.committed <+: r.maps.block
  inTx : ∀ tx ∈ r.node.tx, tx.failed = false → tx.simulate = false → r.maps.block <+: r.maps.view

/-! ### Copies -/

variable {json : DeterministicJson} {storage : MailboxStorage} {maps : List MailboxData}

theorem lastMailbox_concat (maps : List MailboxData) (data : MailboxData) (peer : String) :
    lastMailbox (maps ++ [data]) peer = (data.get peer).or (lastMailbox maps peer) := by
  rw [lastMailbox, List.reverse_append, List.reverse_singleton, List.singleton_append,
    List.findSome?_cons]
  cases data.get peer <;> rfl

theorem copiesOf_nil (json : DeterministicJson) : CopiesOf json (fun _ ↦ none) [] := fun _ ↦ rfl

/-- A save leaves the copies alone. -/
theorem CopiesOf.saveState (h : CopiesOf json storage maps) (live : Machine K) :
    CopiesOf json ((saveState json live).foldl Effect.onStorage storage) maps := by
  intro peer
  rw [storage_saveState, Function.update_of_ne (peerKey_ne_mailbox peer)]
  exact h peer

/-- The copies of a map that is published whole. -/
theorem CopiesOf.publish (h : CopiesOf json storage maps) (data : MailboxData) :
    CopiesOf json ((publish json data : List (Effect K)).foldl Effect.onStorage storage)
      (maps ++ [data]) := by
  intro peer
  rw [lastMailbox_concat]
  cases hget : data.get peer with
  | some mailbox =>
    exact storage_publish json data ((data.get_eq_some_iff peer mailbox).mp hget)
  | none =>
    rw [Option.none_or, ← h peer]
    refine storage_other fun effect heffect value hset ↦ ?_
    obtain ⟨entry, hentry, rfl⟩ := List.mem_map.mp heffect
    obtain rfl := peerKey_injective (Effect.set.inj hset).1
    have hsome := (data.get_eq_some_iff entry.1 entry.2).mpr hentry
    exact absurd (hget.symm.trans hsome) (Option.some_ne_none _).symm

/-- All the writes of a call of `deliverInbound`. -/
theorem CopiesOf.deliverInbound (h : CopiesOf json storage maps) (live : Machine K)
    (work : Work K) :
    CopiesOf json ((deliverInbound json live work).effects.foldl Effect.onStorage storage)
      (maps ++ publishedMap json (some live) work) := by
  cases work with
  | nothing =>
    rw [publishedMap, List.append_nil]
    exact h
  | threw after =>
    rw [publishedMap, List.append_nil]
    exact h
  | ran after =>
    simp only [Chain.deliverInbound, publishedMap, Option.mem_some_iff, exists_eq_left',
      List.foldl_append]
    by_cases hchanged : Changed json live after
    · rw [if_pos hchanged, if_pos hchanged]
      exact (h.publish after.mailbox).saveState after
    · rw [if_neg hchanged, if_neg hchanged, List.append_nil]
      exact h.saveState after

/-! ### The invariant -/

theorem recorded_genesis (json : DeterministicJson) :
    Recorded json (RecordedNode.genesis : RecordedNode K) where
  committed := copiesOf_nil json
  block := copiesOf_nil json
  view := fun _ htx ↦ absurd htx (by simp [RecordedNode.genesis, Node.genesis])
  inBlock := List.prefix_rfl
  inTx := fun _ htx ↦ absurd htx (by simp [RecordedNode.genesis, Node.genesis])

namespace Recorded

variable {n n' : Node K} {published : PublishedMaps}

theorem crash (h : Recorded json ⟨n, published⟩) : Recorded json ⟨n.crash, published.crash⟩ where
  committed := h.committed
  block := h.committed
  view := fun _ htx ↦ absurd htx (by simp [Node.crash])
  inBlock := List.prefix_rfl
  inTx := fun _ htx ↦ absurd htx (by simp [Node.crash])

/-- What is in a transaction that has failed does not matter. -/
theorem of_failed (h : Recorded json ⟨n, published⟩) (hcommitted : n'.committed = n.committed)
    (hblock : n'.block = n.block) {tx : Tx K} (htx : n'.tx = some tx) (hfailed : tx.failed = true) :
    Recorded json ⟨n', published⟩ where
  committed := hcommitted ▸ h.committed
  block := hblock ▸ h.block
  view := fun tx' htx' hkept ↦ by
    obtain rfl := Option.some.inj (htx.symm.trans htx')
    exact absurd (hfailed.symm.trans hkept) (by decide)
  inBlock := h.inBlock
  inTx := fun tx' htx' hkept _ ↦ by
    obtain rfl := Option.some.inj (htx.symm.trans htx')
    exact absurd (hfailed.symm.trans hkept) (by decide)

/-- A call that completes. -/
theorem completed (h : Recorded json ⟨n, published⟩) (old : Tx K) (hold : n.tx = some old)
    {tx : Tx K} (hfailed : old.failed = false) (hsimulate : tx.simulate = old.simulate)
    {call : Call K} {added : List MailboxData}
    (hcopies : CopiesOf json n.view published.view →
      CopiesOf json (call.effects.foldl Effect.onStorage n.view) (published.view ++ added))
    {launching : Bool} (hstep : n.perform tx launching call .completed = some n') :
    Recorded json ⟨n', { published with view := published.view ++ added }⟩ := by
  obtain rfl := Option.some.inj hstep
  refine ⟨h.committed, h.block, fun _ _ _ ↦ hcopies (h.view old hold hfailed), h.inBlock, ?_⟩
  intro tx' htx' _ hkept
  obtain rfl := Option.some.inj htx'
  have hblock := h.inTx old hold hfailed (hsimulate ▸ hkept)
  exact hblock.trans (List.prefix_append _ _)

theorem threw (h : Recorded json ⟨n, published⟩) {tx : Tx K} {launching : Bool} {call : Call K}
    {i : ℕ} (hstep : n.perform tx launching call (.threw i) = some n') :
    Recorded json ⟨n', published⟩ := by
  simp only [Node.perform] at hstep
  split at hstep <;> cases hstep
  exact h.of_failed rfl rfl rfl rfl

theorem crashed (h : Recorded json ⟨n, published⟩) {tx : Tx K} {launching : Bool} {call : Call K}
    {i : ℕ} (hstep : n.perform tx launching call (.crashed i) = some n') :
    Recorded json ⟨n', published.crash⟩ := by
  obtain rfl := Option.some.inj hstep
  exact ⟨h.committed, h.committed, by simp [Node.crash], List.prefix_rfl, by simp [Node.crash]⟩

variable (empty : K)

theorem launch (h : Recorded json ⟨n, published⟩) {buildSwingset : Option (Machine K)} {fate : Fate}
    (hstep : n.step json empty (.launch buildSwingset fate) = some n') :
    Recorded json ⟨n', published.record json empty n (.launch buildSwingset fate)⟩ := by
  obtain ⟨tx, htx, hlive, hfailed, -⟩ := Node.step_launch hstep
  simp only [Node.step, htx, hlive, hfailed, Bool.false_eq_true, if_false] at hstep
  cases hcall : Chain.launch json empty n.file n.view buildSwingset with
  | none =>
    -- nothing was written, whatever the fate
    simp only [hcall, Option.some.injEq] at hstep
    have hrejected : published.record json empty n (.launch buildSwingset fate) = published := by
      cases fate <;> simp [PublishedMaps.record, hcall]
    rw [hrejected, ← hstep]
    exact h.of_failed rfl rfl rfl rfl
  | some call =>
    simp only [hcall] at hstep
    cases fate with
    | completed =>
      have hnone : published.record json empty n (.launch buildSwingset .completed) =
          { published with view := published.view ++ [] } := by
        simp only [PublishedMaps.record, List.append_nil]
      rw [hnone]
      refine h.completed tx htx hfailed ?_ (fun hcopies ↦ ?_) hstep
      · rfl
      rw [effects_of_launch json hcall, List.append_nil]
      exact hcopies.saveState call.live
    | threw i => exact h.threw hstep
    | crashed i =>
      rw [PublishedMaps.record, hcall, Option.isSome_some, if_pos rfl]
      exact h.crashed hstep

theorem deliverInbound (h : Recorded json ⟨n, published⟩) {work : Work K} {fate : Fate}
    (hstep : n.step json empty (.deliverInbound work fate) = some n') :
    Recorded json ⟨n', published.record json empty n (.deliverInbound work fate)⟩ := by
  obtain ⟨old, live, hold, hlive, hfailed, hperform⟩ := Node.step_deliverInbound hstep
  obtain ⟨tx, hsimulate, hperform⟩ : ∃ tx, tx.simulate = old.simulate ∧
      n.perform tx false (Chain.deliverInbound json live work) fate = some n' := by
    rcases hperform with ⟨-, hperform⟩ | ⟨-, hperform⟩
    · exact ⟨old, rfl, hperform⟩
    · exact ⟨{ old with idle := false }, rfl, hperform⟩
  cases fate with
  | completed =>
    rw [PublishedMaps.record, hlive]
    exact h.completed old hold hfailed hsimulate (fun hcopies ↦ hcopies.deliverInbound live work)
      hperform
  | threw i => exact h.threw hperform
  | crashed i => exact h.crashed hperform

theorem step {r r' : RecordedNode K} (h : Recorded json r) {event : Event K}
    (hstep : r.step json empty event = some r') : Recorded json r' := by
  obtain ⟨n, published⟩ := r
  obtain ⟨n', hn', rfl⟩ := Option.map_eq_some_iff.mp hstep
  cases event with
  | beginTx simulate =>
    obtain ⟨-, rfl⟩ := Node.step_beginTx hn'
    refine ⟨h.committed, h.block, fun _ _ _ ↦ ?_, h.inBlock, ?_⟩
    · cases simulate with
      | true => exact h.committed
      | false => exact h.block
    · intro tx htx _ hkept
      obtain rfl := Option.some.inj htx
      obtain rfl : simulate = false := hkept
      exact List.prefix_rfl
  | launch buildSwingset fate => exact h.launch empty hn'
  | deliverInbound work fate => exact h.deliverInbound empty hn'
  | endTx keep =>
    obtain ⟨tx, htx, ⟨rfl, hfailed, hsimulate, rfl⟩ | ⟨rfl, rfl⟩⟩ := Node.step_endTx hn'
    · have hkept := h.inTx tx htx hfailed hsimulate
      exact ⟨h.committed, h.view tx htx hfailed, by simp, h.inBlock.trans hkept, by simp⟩
    · exact ⟨h.committed, h.block, by simp, h.inBlock, by simp⟩
  | commit =>
    obtain ⟨-, rfl⟩ := Node.step_commit hn'
    exact ⟨h.block, h.block, fun _ _ _ ↦ h.block, List.prefix_rfl, fun _ _ _ _ ↦ List.prefix_rfl⟩
  | crash =>
    obtain rfl := Option.some.inj hn'
    exact h.crash

/-- No event takes back what is in the committed store. -/
theorem committed_prefix {r r' : RecordedNode K} (h : Recorded json r) {event : Event K}
    (hstep : r.step json empty event = some r') : r.maps.committed <+: r'.maps.committed := by
  obtain ⟨n', -, rfl⟩ := Option.map_eq_some_iff.mp hstep
  cases event with
  | beginTx simulate => exact List.prefix_rfl
  | launch buildSwingset fate =>
    cases fate with
    | completed => exact List.prefix_rfl
    | threw i => exact List.prefix_rfl
    | crashed i =>
      simp only [PublishedMaps.record]
      split_ifs <;> exact List.prefix_rfl
  | deliverInbound work fate => cases fate <;> exact List.prefix_rfl
  | endTx keep => cases keep <;> exact List.prefix_rfl
  | commit => exact h.inBlock
  | crash => exact List.prefix_rfl

end Recorded

/-- In every run, and from any of its states on, the maps of the committed store only grow. -/
theorem committed_prefix_of_run (json : DeterministicJson) (empty : K) {r r' : RecordedNode K}
    (h : Recorded json r) {events : List (Event K)}
    (hrun : run (RecordedNode.step json empty) r events = some r') :
    Recorded json r' ∧ r.maps.committed <+: r'.maps.committed := by
  refine run_inductive (I := fun s ↦ Recorded json s ∧ r.maps.committed <+: s.maps.committed)
    ?_ ⟨h, List.prefix_rfl⟩ hrun
  rintro s event s' ⟨hs, hprefix⟩ hstep
  exact ⟨hs.step empty hstep, hprefix.trans (hs.committed_prefix empty hstep)⟩

end CosmicSwingset.Chain
