import CosmicSwingset.Chain.Application
import CosmicSwingset.Chain.KeeperRefinement
import CosmicSwingset.Chain.MailboxStorage

/-!
# The chain node over the keeper's stores

In `Chain.Application` a store of the chain node is a map from strings to strings. Here it is the
raw key-value store of the keeper: `launch` reads the mailbox state with two calls of `has` and one
of `get`, and every write to `mailboxStorage` is a call of `set`, all of them through the port that
Node has kept from the message in hand (`sPort`). The rest of the process is as it was.

The two are in lockstep as long as the port of each message is registered: in every state the same
events are enabled, whatever order Go's loops take, and no call of `mailboxStorage` throws
(`run_storedNode`).
-/

set_option autoImplicit false
set_option relaxedAutoImplicit false

namespace CosmicSwingset.Chain

open Foundation SwingSet

variable {K : Type*}

/-- The chain node with the raw stores of the keeper. -/
structure StoredNode (K : Type*) where
  live : Option (Machine K)
  file : StateFile K
  committed : KVStore
  block : KVStore
  view : KVStore
  tx : Option (Tx K)

/-- An event with what the storage calls in it depend on: the ports registered while it lasts, the
one that Node uses, and the order of the loop in each of the calls. -/
structure StoredEvent (K : Type*) where
  event : Event K
  ports : Ports
  sPort : ℕ
  orders : ℕ → RangeOrder

/-- The port that Node uses is registered. -/
def StoredEvent.Registered (e : StoredEvent K) : Prop := e.sPort ∈ e.ports.portToHandler

section Code

variable (stable : StableStringify) (k : Keeper) (ports : Ports) (sPort : ℕ)

/-- A write of a call, which `set` carries to the store if it is one to `mailboxStorage`. -/
def Effect.onStore (order : RangeOrder) (store : KVStore) : Effect K → Option KVStore
  | .truncateFile | .writeFile _ => some store
  | .set key value => MailboxStorage.set stable k ports sPort order store key value

/-- The writes of a call one after the other. -/
def writeAll (orders : ℕ → RangeOrder) (store : KVStore) : List (Effect K) → Option KVStore
  | [] => some store
  | effect :: effects => (effect.onStore stable k ports sPort (orders 0) store).bind fun store ↦
      writeAll (fun i ↦ orders (i + 1)) store effects

/-- The mailbox state that `launch` reads: the entry is looked up for the log, looked up again, and
fetched and parsed if it is there. -/
def readMailboxState (json : DeterministicJson) (orders : ℕ → RangeOrder) (store : KVStore) :
    Option (MailboxData × KVStore) := do
  let (_, store) ← MailboxStorage.has stable k ports sPort (orders 0) store "mailbox"
  let (saved, store) ← MailboxStorage.has stable k ports sPort (orders 1) store "mailbox"
  if saved then
    let (value, store) ← MailboxStorage.get stable k ports sPort (orders 2) store "mailbox"
    return (← json.parse (← toText value), store)
  else return (.empty, store)

/-- `launch`, and the store that its lookups leave. -/
def launchStored (json : DeterministicJson) (orders : ℕ → RangeOrder) (store : KVStore)
    (buildSwingset : Option (Machine K)) : Option (Call K × KVStore) :=
  match readMailboxState stable k ports sPort json orders store, buildSwingset with
  | some (_, store), some live => some (⟨live, saveState json live, true⟩, store)
  | _, _ => none

end Code

namespace StoredNode

variable (stable : StableStringify) (k : Keeper)

def crash (n : StoredNode K) : StoredNode K :=
  { n with
    live := none
    block := n.committed
    view := n.committed
    tx := none }

/-- The node after some writes of a call. -/
def performed (e : StoredEvent K) (n : StoredNode K) (done : List (Effect K)) :
    Option (StoredNode K) :=
  (writeAll stable k e.ports e.sPort e.orders n.view done).map fun view ↦
    { n with file := done.foldl Effect.onFile n.file, view }

/-- A call in the transaction `tx`. -/
def perform (e : StoredEvent K) (n : StoredNode K) (tx : Tx K) (launching : Bool) (call : Call K) :
    Fate → Option (StoredNode K)
  | .completed => (performed stable k e n call.effects).map fun n ↦
      { n with
        live := some call.live
        tx := some { tx with failed := !call.resolves } }
  | .threw i =>
    if i < call.effects.length then
      (performed stable k e n (call.effects.take i)).map fun n ↦
        { n with
          live := if launching then none else some call.live
          tx := some { tx with failed := true } }
    else none
  | .crashed i => (performed stable k e n (call.effects.take i)).map crash

variable (json : DeterministicJson)

def step (n : StoredNode K) (e : StoredEvent K) : Option (StoredNode K) :=
  match e.event with
  | .beginTx simulate =>
    match n.tx with
    | some _ => none
    | none => some
        { n with
          view := if simulate then n.committed else n.block
          tx := some ⟨simulate, false, n.live, n.file, true⟩ }
  | .launch buildSwingset fate =>
    match n.tx, n.live with
    | some tx, none =>
      if tx.failed then none
      else match launchStored stable k e.ports e.sPort json e.orders n.view buildSwingset with
        | none => some { n with tx := some { tx with failed := true } }
        | some (call, view) =>
          perform stable k e { n with view } { tx with idle := false } true call fate
    | _, _ => none
  | .deliverInbound work fate =>
    match n.tx, n.live with
    | some tx, some live =>
      if tx.failed then none
      else
        let idle := match work with
          | .nothing => tx.idle
          | _ => false
        perform stable k e n { tx with idle } false (deliverInbound json live work) fate
    | _, _ => none
  | .endTx keep =>
    match n.tx with
    | none => none
    | some tx =>
      if keep then
        if tx.failed || tx.simulate then none
        else some { n with block := n.view, tx := none }
      else some { n with view := n.block, tx := none }
  | .commit =>
    match n.tx with
    | some _ => none
    | none => some { n with committed := n.block, view := n.block }
  | .crash => some n.crash

/-- A node that has never run. -/
def genesis : StoredNode K where
  live := none
  file := .absent
  committed := .empty
  block := .empty
  view := .empty
  tx := none

end StoredNode

/-! ### Raw stores of a map -/

/-- What Go has at a path for a map of `mailboxStorage`. -/
def goValues (stable : StableStringify) (m : MailboxStorage) : ValueMap := fun path ↦
  if encode (decode path) = path then storedValue stable (m (decode path)) else []

theorem goValues_encode (stable : StableStringify) (m : MailboxStorage) (key : String) :
    goValues stable m (encode key) = storedValue stable (m key) := by
  rw [goValues, decode_encode, if_pos rfl]

theorem goValues_update (stable : StableStringify) (m : MailboxStorage) (key value : String) :
    goValues stable (Function.update m key (some value)) =
      Function.update (goValues stable m) (encode key) (storedValue stable (some value)) := by
  funext path
  by_cases hpath : path = encode key
  · rw [hpath, goValues_encode, Function.update_self, Function.update_self]
  · rw [Function.update_of_ne hpath, goValues, goValues]
    by_cases htext : encode (decode path) = path
    · have hkey : decode path ≠ key := fun heq ↦ hpath (heq ▸ htext.symm)
      rw [if_pos htext, if_pos htext, Function.update_of_ne hkey]
    · rw [if_neg htext, if_neg htext]

/-- The raw store that the map has, and no other. -/
structure Canonical (stable : StableStringify) (k : Keeper) (store : KVStore)
    (m : MailboxStorage) : Prop where
  stores : Stores stable k store m
  refines : Chain.Refines k store (goValues stable m)

theorem canonical_empty (stable : StableStringify) (k : Keeper) :
    Canonical stable k .empty fun _ ↦ none := by
  have hempty : goValues stable (fun _ ↦ none) = fun _ ↦ [] := by
    funext path
    exact ite_self []
  exact ⟨stores_empty stable k, hempty ▸ refines_empty k⟩

/-- A write to `mailboxStorage` is under a key that does not begin with a dot. -/
def Effect.Rooted (effect : Effect K) : Prop :=
  ∀ key value, effect = .set key value → Chain.Rooted (encode key)

theorem rooted_mailbox : Chain.Rooted (encode "mailbox") := by decide +kernel

theorem rooted_peerKey (peer : String) : Chain.Rooted (encode (peerKey peer)) := by
  have hstart : encode "mailbox." = 109 :: (encode "mailbox.").tail := by decide +kernel
  rw [peerKey, encode_append, hstart]
  exact fun hdot ↦ absurd (Option.some.inj hdot) (by decide)

theorem rooted_saveState (json : DeterministicJson) (live : Machine K) :
    ∀ effect ∈ saveState json live, effect.Rooted := by
  intro effect heffect key value hset
  subst hset
  simp only [saveState, List.mem_cons, List.not_mem_nil, reduceCtorEq, false_or, or_false,
    Effect.set.injEq] at heffect
  rw [heffect.1]
  exact rooted_mailbox

theorem rooted_publish (json : DeterministicJson) (data : MailboxData) :
    ∀ effect ∈ (publish json data : List (Effect K)), effect.Rooted := by
  intro effect heffect key value hset
  obtain ⟨entry, -, rfl⟩ := List.mem_map.mp heffect
  rw [← (Effect.set.inj hset).1]
  exact rooted_peerKey entry.1

theorem rooted_deliverInbound (json : DeterministicJson) (live : Machine K) (work : Work K) :
    ∀ effect ∈ (deliverInbound json live work).effects, effect.Rooted := by
  cases work with
  | nothing => exact List.forall_mem_nil _
  | threw after => exact List.forall_mem_nil _
  | ran after =>
    intro effect heffect
    rcases List.mem_append.mp heffect with hcopy | hsave
    · by_cases hchanged : Changed json live after
      · rw [if_pos hchanged] at hcopy
        exact rooted_publish json after.mailbox effect hcopy
      · rw [if_neg hchanged] at hcopy
        exact absurd hcopy List.not_mem_nil
    · exact rooted_saveState json after effect hsave

/-! ### Lockstep -/

/-- The node and its abstraction agree, and each raw store is that of its map. -/
structure Implements (stable : StableStringify) (k : Keeper) (n : StoredNode K) (a : Node K) :
    Prop where
  live : n.live = a.live
  file : n.file = a.file
  tx : n.tx = a.tx
  committed : Canonical stable k n.committed a.committed
  block : Canonical stable k n.block a.block
  view : Canonical stable k n.view a.view

section Lockstep

variable {stable : StableStringify} {k : Keeper} {ports : Ports} {sPort : ℕ} {store : KVStore}
  {m : MailboxStorage}

theorem implements_genesis (stable : StableStringify) (k : Keeper) :
    Implements stable k (StoredNode.genesis : StoredNode K) Node.genesis :=
  ⟨rfl, rfl, rfl, canonical_empty stable k, canonical_empty stable k, canonical_empty stable k⟩

namespace Canonical

theorem set (h : Canonical stable k store m) (hport : sPort ∈ ports.portToHandler)
    (order : RangeOrder) {key : String} (hrooted : Chain.Rooted (encode key)) (value : String) :
    ∃ store', MailboxStorage.set stable k ports sPort order store key value = some store' ∧
      Canonical stable k store' (Function.update m key (some value)) := by
  obtain ⟨store', hset, hstores⟩ := h.stores.set hport order key value
  obtain ⟨next, hnext, hrefines⟩ :=
    h.refines.setStorage order hrooted ⟨encode (stable.stringify (.str value))⟩
  obtain rfl : store' = next :=
    Option.some.inj (hset.symm.trans (set_eq stable hport order key value hnext))
  refine ⟨store', hset, hstores, ?_⟩
  rw [goValues_update]
  exact hrefines

theorem onStore (h : Canonical stable k store m) (hport : sPort ∈ ports.portToHandler)
    (order : RangeOrder) {effect : Effect K} (hrooted : effect.Rooted) :
    ∃ store', effect.onStore stable k ports sPort order store = some store' ∧
      Canonical stable k store' (Effect.onStorage m effect) := by
  cases effect with
  | truncateFile => exact ⟨store, rfl, h⟩
  | writeFile kernel => exact ⟨store, rfl, h⟩
  | set key value => exact h.set hport order (hrooted key value rfl) value

/-- No write throws. -/
theorem writeAll (h : Canonical stable k store m) (hport : sPort ∈ ports.portToHandler)
    (orders : ℕ → RangeOrder) {effects : List (Effect K)}
    (hrooted : ∀ effect ∈ effects, effect.Rooted) :
    ∃ store', Chain.writeAll stable k ports sPort orders store effects = some store' ∧
      Canonical stable k store' (effects.foldl Effect.onStorage m) := by
  induction effects generalizing store m orders with
  | nil => exact ⟨store, rfl, h⟩
  | cons effect effects ih =>
    rw [List.forall_mem_cons] at hrooted
    obtain ⟨next, hnext, hcanonical⟩ := h.onStore hport (orders 0) hrooted.1
    obtain ⟨store', hrest, hfinal⟩ := ih hcanonical (fun i ↦ orders (i + 1)) hrooted.2
    refine ⟨store', ?_, hfinal⟩
    rw [Chain.writeAll, hnext, Option.bind_some, hrest]

/-- A map has one raw store. -/
theorem unique {store' : KVStore} (h : Canonical stable k store m)
    (h' : Canonical stable k store' m) : store = store' :=
  h.refines.unique h'.refines

end Canonical

/-- `launch` reads the mailbox state of the map and leaves the store alone. -/
theorem Stores.readMailboxState (h : Stores stable k store m) (hport : sPort ∈ ports.portToHandler)
    (json : DeterministicJson) (orders : ℕ → RangeOrder) (empty : K) (file : StateFile K) :
    Chain.readMailboxState stable k ports sPort json orders store =
      (initialState json empty file m).map fun start ↦ (start.mailbox, store) := by
  simp only [Chain.readMailboxState, h.has hport, h.get hport, Option.bind_eq_bind,
    Option.bind_some, initialState]
  cases hentry : m "mailbox" with
  | none => rfl
  | some text =>
    simp only [Option.isSome_some, if_true, valueJson, toText, Option.bind_some]
    cases json.parse text <;> rfl

theorem Stores.launchStored (h : Stores stable k store m) (hport : sPort ∈ ports.portToHandler)
    (json : DeterministicJson) (orders : ℕ → RangeOrder) (empty : K) (file : StateFile K)
    (buildSwingset : Option (Machine K)) :
    Chain.launchStored stable k ports sPort json orders store buildSwingset =
      (launch json empty file m buildSwingset).map (·, store) := by
  unfold Chain.launchStored launch
  rw [h.readMailboxState hport json orders empty file]
  cases initialState json empty file m with
  | none => rfl
  | some start => cases buildSwingset <;> rfl

namespace Implements

variable {n : StoredNode K} {a : Node K}

theorem crash (h : Implements stable k n a) : Implements stable k n.crash a.crash :=
  ⟨rfl, h.file, rfl, h.committed, h.committed, h.committed⟩

theorem performed (h : Implements stable k n a) {e : StoredEvent K} (hport : e.Registered)
    (machine : Machine K) {done : List (Effect K)} (hrooted : ∀ effect ∈ done, effect.Rooted) :
    ∃ n', StoredNode.performed stable k e n done = some n' ∧
      Implements stable k n' (a.performed machine done) := by
  obtain ⟨view, hview, hcanonical⟩ := h.view.writeAll hport e.orders hrooted
  refine ⟨{ n with file := done.foldl Effect.onFile n.file, view }, ?_, ?_⟩
  · rw [StoredNode.performed, hview, Option.map_some]
  · exact ⟨h.live, congrArg (done.foldl Effect.onFile) h.file, h.tx, h.committed, h.block,
      hcanonical⟩

theorem perform (h : Implements stable k n a) {e : StoredEvent K} (hport : e.Registered) (tx : Tx K)
    (launching : Bool) {call : Call K} (hrooted : ∀ effect ∈ call.effects, effect.Rooted)
    (fate : Fate) :
    Option.Rel (Implements stable k) (StoredNode.perform stable k e n tx launching call fate)
      (a.perform tx launching call fate) := by
  cases fate with
  | completed =>
    obtain ⟨n', hn', hnext⟩ := h.performed hport call.live hrooted
    simp only [StoredNode.perform, Node.perform, hn', Option.map_some]
    exact .some ⟨rfl, hnext.file, rfl, hnext.committed, hnext.block, hnext.view⟩
  | threw i =>
    have htake : ∀ effect ∈ call.effects.take i, effect.Rooted := fun effect heffect ↦
      hrooted effect (List.mem_of_mem_take heffect)
    obtain ⟨n', hn', hnext⟩ := h.performed hport call.live htake
    simp only [StoredNode.perform, Node.perform, hn', Option.map_some]
    by_cases hi : i < call.effects.length
    · rw [if_pos hi, if_pos hi]
      exact .some ⟨rfl, hnext.file, rfl, hnext.committed, hnext.block, hnext.view⟩
    · rw [if_neg hi, if_neg hi]
      exact .none
  | crashed i =>
    have htake : ∀ effect ∈ call.effects.take i, effect.Rooted := fun effect heffect ↦
      hrooted effect (List.mem_of_mem_take heffect)
    obtain ⟨n', hn', hnext⟩ := h.performed hport call.live htake
    simp only [StoredNode.perform, Node.perform, hn', Option.map_some]
    exact .some hnext.crash

variable (json : DeterministicJson) (empty : K)

/-- The same events are enabled, and lead to states that agree. -/
theorem step (h : Implements stable k n a) {e : StoredEvent K} (hport : e.Registered) :
    Option.Rel (Implements stable k) (n.step stable k json e) (a.step json empty e.event) := by
  obtain ⟨live, file, committed, block, view, tx⟩ := n
  obtain ⟨live', file', committed', block', view', tx', saves, saving⟩ := a
  obtain ⟨hlive, hfile, htx, hcommitted, hblock, hview⟩ := id h
  obtain rfl : live = live' := hlive
  obtain rfl : file = file' := hfile
  obtain rfl : tx = tx' := htx
  unfold StoredNode.step Node.step
  cases e.event with
  | beginTx simulate =>
    cases tx with
    | some tx => exact .none
    | none =>
      cases simulate with
      | true => exact .some ⟨rfl, rfl, rfl, hcommitted, hblock, hcommitted⟩
      | false => exact .some ⟨rfl, rfl, rfl, hcommitted, hblock, hblock⟩
  | launch buildSwingset fate =>
    cases tx with
    | none => exact .none
    | some tx =>
      cases live with
      | some live => exact .none
      | none =>
        simp only [hview.stores.launchStored hport json e.orders empty file]
        cases tx.failed with
        | true => exact .none
        | false =>
          cases hcall : launch json empty file view' buildSwingset with
          | none => exact .some ⟨rfl, rfl, rfl, hcommitted, hblock, hview⟩
          | some call =>
            refine h.perform hport _ true ?_ fate
            rw [effects_of_launch json hcall]
            exact rooted_saveState json call.live
  | deliverInbound work fate =>
    cases tx with
    | none => exact .none
    | some tx =>
      cases live with
      | none => exact .none
      | some live =>
        simp only
        cases tx.failed with
        | true => exact .none
        | false => exact h.perform hport _ false (rooted_deliverInbound json live work) fate
  | endTx keep =>
    cases tx with
    | none => exact .none
    | some tx =>
      cases keep with
      | false => exact .some ⟨rfl, rfl, rfl, hcommitted, hblock, hblock⟩
      | true =>
        simp only
        cases tx.failed || tx.simulate with
        | true => exact .none
        | false => exact .some ⟨rfl, rfl, rfl, hcommitted, hview, hview⟩
  | commit =>
    cases tx with
    | some tx => exact .none
    | none => exact .some ⟨rfl, rfl, rfl, hblock, hblock, hblock⟩
  | crash => exact .some h.crash

/-- A node over maps has one node over raw stores. -/
theorem unique {n' : StoredNode K} (h : Implements stable k n a) (h' : Implements stable k n' a) :
    n = n' := by
  obtain ⟨live, file, committed, block, view, tx⟩ := n
  obtain ⟨live', file', committed', block', view', tx'⟩ := n'
  obtain rfl : live = live' := h.live.trans h'.live.symm
  obtain rfl : file = file' := h.file.trans h'.file.symm
  obtain rfl : tx = tx' := h.tx.trans h'.tx.symm
  obtain rfl : committed = committed' := h.committed.unique h'.committed
  obtain rfl : block = block' := h.block.unique h'.block
  obtain rfl : view = view' := h.view.unique h'.view
  rfl

end Implements

/-- Events in which Go's loops take one order and Node uses one port. -/
def storedEvents (order : RangeOrder) (ports : Ports) (sPort : ℕ) (events : List (Event K)) :
    List (StoredEvent K) :=
  events.map fun event ↦ ⟨event, ports, sPort, fun _ ↦ order⟩

theorem event_storedEvents (order : RangeOrder) (ports : Ports) (sPort : ℕ)
    (events : List (Event K)) :
    (storedEvents order ports sPort events).map StoredEvent.event = events := by
  rw [storedEvents, List.map_map]
  exact List.map_id events

theorem registered_storedEvents (hport : sPort ∈ ports.portToHandler) (order : RangeOrder)
    (events : List (Event K)) : ∀ e ∈ storedEvents order ports sPort events, e.Registered := by
  intro e he
  obtain ⟨event, -, rfl⟩ := List.mem_map.mp he
  exact hport

/-- As long as the port of each message is registered, the node over the raw stores of the keeper
and the node over maps have the same runs: the machines in memory, the state file and the
transactions are the same, and each raw store is the one that its map has. -/
theorem run_storedNode (stable : StableStringify) (k : Keeper) (json : DeterministicJson)
    (empty : K) (events : List (StoredEvent K)) (hports : ∀ e ∈ events, e.Registered) :
    Option.Rel (Implements stable k)
      (run (StoredNode.step stable k json) StoredNode.genesis events)
      (run (Node.step json empty) Node.genesis (events.map StoredEvent.event)) := by
  refine run_rel (fun n a e h hport ↦ ?_) (implements_genesis stable k) hports
  exact h.step json empty hport

/-- A block whose transaction launches the SwingSet and publishes its mailboxes, a transaction that
fails after its first write, and a crash. -/
def publishingBlock : List (Event ℕ) :=
  [.beginTx false, .launch (some ⟨.empty, 1⟩) .completed,
    .deliverInbound (.ran ⟨sending, 2⟩) .completed, .endTx true, .commit, .beginTx false,
    .deliverInbound (.ran ⟨quiet, 3⟩) (.threw 1), .endTx false, .crash]

theorem run_storedNode_publishingBlock :
    (run (Node.step djson 0) Node.genesis publishingBlock).isSome ∧
      Option.Rel (Implements sortedStringify aminoKeeper)
        (run (StoredNode.step sortedStringify aminoKeeper djson) StoredNode.genesis
          (storedEvents .forward ⟨1, [1]⟩ 1 publishingBlock))
        (run (Node.step djson 0) Node.genesis publishingBlock) := by
  have hport : 1 ∈ (⟨1, [1]⟩ : Ports).portToHandler := by decide
  have hlockstep := run_storedNode sortedStringify aminoKeeper djson 0
    (storedEvents .forward ⟨1, [1]⟩ 1 publishingBlock)
    (registered_storedEvents hport .forward publishingBlock)
  rw [event_storedEvents] at hlockstep
  exact ⟨by decide +kernel, hlockstep⟩

/-- Two nodes that go through the same events have the same raw stores, and so the same hash of the
application, whatever orders Go's loops take in each of them and whatever their ports are. -/
theorem run_storedNode_congr [Nonempty K] (stable : StableStringify) (k : Keeper)
    (json : DeterministicJson) {events events' : List (StoredEvent K)}
    (hports : ∀ e ∈ events, e.Registered)
    (hports' : ∀ e ∈ events', e.Registered)
    (hevents : events.map StoredEvent.event = events'.map StoredEvent.event) :
    run (StoredNode.step stable k json) StoredNode.genesis events =
      run (StoredNode.step stable k json) StoredNode.genesis events' := by
  obtain ⟨empty⟩ := ‹Nonempty K›
  have hfirst := run_storedNode stable k json empty events hports
  have hsecond := run_storedNode stable k json empty events' hports'
  rw [hevents] at hfirst
  exact eq_of_rel (fun _ _ _ h h' ↦ h.unique h') hfirst hsecond

theorem run_storedNode_congr_publishingBlock :
    run (StoredNode.step sortedStringify aminoKeeper djson) StoredNode.genesis
        (storedEvents .forward ⟨1, [1]⟩ 1 publishingBlock) =
      run (StoredNode.step sortedStringify aminoKeeper djson) StoredNode.genesis
        (storedEvents .backward ⟨7, [7]⟩ 7 publishingBlock) := by
  have hport : 1 ∈ (⟨1, [1]⟩ : Ports).portToHandler := by decide
  have hport' : 7 ∈ (⟨7, [7]⟩ : Ports).portToHandler := by decide
  refine run_storedNode_congr sortedStringify aminoKeeper djson
    (registered_storedEvents hport .forward publishingBlock)
    (registered_storedEvents hport' .backward publishingBlock) ?_
  rw [event_storedEvents, event_storedEvents]

end Lockstep

end CosmicSwingset.Chain
