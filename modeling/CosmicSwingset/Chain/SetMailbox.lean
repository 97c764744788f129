import CosmicSwingset.Chain.KeeperRefinement
import CosmicSwingset.Foundation.Transition

/-!
# The two ways to write a mailbox

`SetMailbox` writes the data entry of `mailbox.PEER` and nothing else. `SetStorage` at that path
also keeps the list of keys of the parent, and deletes what is empty. So the two leave the same raw
store exactly when the mailbox is not empty and the peer is in the list already
(`setMailbox_agrees_iff`).

That holds in every store that calls of the two can make, at any paths: whatever they write, the
list of keys of a path is there only if it is not empty, ascends, and has its encoding for its bytes
(`Listed`). A peer with dots in it has its list elsewhere, under the path without the last segment.
-/

set_option autoImplicit false
set_option relaxedAutoImplicit false

namespace CosmicSwingset.Chain

open Foundation

/-- `SetMailbox`. -/
def Keeper.setMailbox (k : Keeper) (store : KVStore) (peer : GoString) (mailbox : Storage) :
    KVStore :=
  store.set (go "data:mailbox." ++ peer) (k.storage.marshal mailbox)

/-- A call that writes to the store; `SetStorage` has the order of its loop over `keyMap`. -/
inductive KeeperCall
  | setStorage (order : RangeOrder) (path : GoString) (storage : Storage)
  | setMailbox (peer : GoString) (mailbox : Storage)

def Keeper.call (k : Keeper) (store : KVStore) : KeeperCall → Option KVStore
  | .setStorage order path storage => k.setStorage order store path storage
  | .setMailbox peer mailbox => some (k.setMailbox store peer mailbox)

/-- The path under which `SetStorage` writes the mailbox of a peer. -/
def mailboxPath (peer : GoString) : GoString := go "mailbox." ++ peer

/-- Both ways lead to the same raw store. -/
def WritesAgree (k : Keeper) (order : RangeOrder) (store : KVStore) (peer : GoString)
    (mailbox : Storage) : Prop :=
  k.setStorage order store (mailboxPath peer) mailbox = some (k.setMailbox store peer mailbox)

/-- The last segment of the path is in the list of keys of its parent. -/
def IsListed (k : Keeper) (store : KVStore) (path : GoString) : Prop :=
  ∃ keyNode, k.getKeys store (parent dot path) = some keyNode ∧ leaf dot path ∈ keyNode.keys

/-- Every list of keys is as `SetStorage` writes it. -/
def Listed (k : Keeper) (store : KVStore) : Prop :=
  ∀ path, ∃ names : List GoString, names.Pairwise (· < ·) ∧
    store (keysPath path) = if names = [] then none else some (k.keys.marshal ⟨names⟩)

section Agree

variable {k : Keeper} {store : KVStore}

theorem setMailbox_eq (store : KVStore) (peer : GoString) (mailbox : Storage) :
    k.setMailbox store peer mailbox =
      Function.update store (dataPath (mailboxPath peer)) (some (k.storage.marshal mailbox)) := by
  have hstart : go "data:mailbox." = go "data:" ++ go "mailbox." := by decide
  rw [Keeper.setMailbox, hstart, List.append_assoc]
  rfl

theorem listed_empty (k : Keeper) : Listed k .empty :=
  fun _ ↦ ⟨[], List.Pairwise.nil, rfl⟩

/-- `GetKeys` where the list of keys has this encoding. -/
theorem getKeys_of_listed {path : GoString} {names : List GoString}
    (hraw : store (keysPath path) = if names = [] then none else some (k.keys.marshal ⟨names⟩)) :
    k.getKeys store path = some ⟨names⟩ := by
  rw [Keeper.getKeys, hraw]
  by_cases hempty : names = []
  · rw [if_pos hempty, hempty]
  · rw [if_neg hempty]
    exact k.keys.unmarshal_marshal _

/-- A data entry is no list of keys. -/
theorem Listed.update_data (h : Listed k store) (path : GoString) (value : Option Bytes) :
    Listed k (Function.update store (dataPath path) value) := by
  intro other
  rw [Function.update_of_ne (dataPath_ne_keysPath path other).symm]
  exact h other

theorem nodup_range_keyMap (order : RangeOrder) (names : List GoString) (lastKey value : GoString) :
    (order.range (Keeper.keyMap names lastKey value)).Nodup :=
  (order.perm _).nodup_iff.mpr (keyMap_nodup names lastKey value)

theorem Listed.setStorage (h : Listed k store) {order : RangeOrder} {path : GoString}
    {storage : Storage} {store' : KVStore}
    (hset : k.setStorage order store path storage = some store') : Listed k store' := by
  obtain ⟨names, -, hraw⟩ := h (parent dot path)
  rw [setStorage_eq order path storage (getKeys_of_listed hraw)] at hset
  obtain rfl := Option.some.inj hset
  intro other
  by_cases hother : other = parent dot path
  · subst hother
    have hnodup := nodup_range_keyMap order names (leaf dot path) storage.value
    refine ⟨_, sortStrings_ascending hnodup, ?_⟩
    rw [Function.update_self]
    simp only [sortStrings_eq_nil_iff]
  · rw [Function.update_of_ne fun heq ↦ hother (keysPath_injective heq)]
    exact h.update_data path _ other

theorem Listed.call (h : Listed k store) {c : KeeperCall} {store' : KVStore}
    (hcall : k.call store c = some store') : Listed k store' := by
  cases c with
  | setStorage order path storage => exact h.setStorage hcall
  | setMailbox peer mailbox =>
    obtain rfl := Option.some.inj hcall
    rw [setMailbox_eq]
    exact h.update_data _ _

theorem listed_of_run {calls : List KeeperCall} (hrun : run k.call .empty calls = some store) :
    Listed k store :=
  run_inductive (fun _ _ _ h hcall ↦ h.call hcall) (listed_empty k) hrun

/-- The list that `SetStorage` makes of a list with the last segment in it is that list. -/
theorem sortStrings_range_keyMap {names : List GoString} (hascending : names.Pairwise (· < ·))
    {lastKey value : GoString} (hmem : lastKey ∈ names) (hvalue : value ≠ [])
    (order : RangeOrder) :
    sortStrings (order.range (Keeper.keyMap names lastKey value)) = names := by
  have hsorted := sortStrings_ascending (nodup_range_keyMap order names lastKey value)
  refine eq_of_ascending hsorted hascending fun name ↦ ?_
  rw [(sortStrings_perm _).mem_iff, (order.perm _).mem_iff, mem_keyMap]
  split_ifs with hname
  · exact iff_of_true hvalue (hname ▸ hmem)
  · rfl

theorem mem_range_keyMap (order : RangeOrder) (names : List GoString) (lastKey : GoString)
    {value : GoString} (hvalue : value ≠ []) :
    lastKey ∈ order.range (Keeper.keyMap names lastKey value) := by
  rw [(order.perm _).mem_iff, mem_keyMap, if_pos rfl]
  exact hvalue

theorem Listed.writesAgree_iff (h : Listed k store) (order : RangeOrder) (peer : GoString)
    (mailbox : Storage) :
    WritesAgree k order store peer mailbox ↔
      mailbox.value ≠ [] ∧ IsListed k store (mailboxPath peer) := by
  obtain ⟨names, hascending, hraw⟩ := h (parent dot (mailboxPath peer))
  have hget := getKeys_of_listed hraw
  rw [WritesAgree, setStorage_eq order _ mailbox hget, setMailbox_eq, Option.some.injEq, IsListed,
    hget]
  simp only [Option.some.injEq, exists_eq_left']
  constructor
  · intro hsame
    -- the data entry tells whether the mailbox is empty, the list of keys all the rest
    have hdata := congrFun hsame (dataPath (mailboxPath peer))
    rw [Function.update_of_ne (dataPath_ne_keysPath _ _), Function.update_self,
      Function.update_self] at hdata
    have hvalue : mailbox.value ≠ [] := by
      intro hempty
      rw [if_pos hempty] at hdata
      exact absurd hdata (by simp)
    refine ⟨hvalue, ?_⟩
    have hmem := mem_range_keyMap order names (leaf dot (mailboxPath peer)) hvalue
    have hkeys := congrFun hsame (keysPath (parent dot (mailboxPath peer)))
    rw [Function.update_self, Function.update_of_ne (dataPath_ne_keysPath _ _).symm, hraw,
      if_neg (List.ne_nil_of_mem hmem)] at hkeys
    split_ifs at hkeys
    have hnames := congrArg k.keys.unmarshal (Option.some.inj hkeys)
    rw [k.keys.unmarshal_marshal, k.keys.unmarshal_marshal, Option.some.injEq,
      Keys.mk.injEq] at hnames
    rw [← hnames, (sortStrings_perm _).mem_iff]
    exact hmem
  · rintro ⟨hvalue, hmem⟩
    have hlist := sortStrings_range_keyMap hascending hmem hvalue order
    have hne := List.ne_nil_of_mem
      (mem_range_keyMap order names (leaf dot (mailboxPath peer)) hvalue)
    rw [if_neg hvalue, if_neg hne, hlist, Function.update_eq_self_iff,
      Function.update_of_ne (dataPath_ne_keysPath _ _).symm, hraw, if_neg (List.ne_nil_of_mem hmem)]

end Agree

/-- In every store that calls of the two have made, `SetMailbox` and `SetStorage` at the path of the
mailbox leave the same raw store exactly when the mailbox is not empty and its last segment is in
the list of keys of the parent before. -/
theorem setMailbox_agrees_iff (k : Keeper) (calls : List KeeperCall) {store : KVStore}
    (hrun : run k.call .empty calls = some store) (order : RangeOrder) (peer : GoString)
    (mailbox : Storage) :
    WritesAgree k order store peer mailbox ↔
      mailbox.value ≠ [] ∧ IsListed k store (mailboxPath peer) :=
  (listed_of_run hrun).writesAgree_iff order peer mailbox

/-- The mailbox of a peer that has one already. -/
theorem setMailbox_agrees_alice :
    ∃ store, run aminoKeeper.call .empty
        [.setStorage .forward (go "mailbox.alice") ⟨go "x"⟩] = some store ∧
      WritesAgree aminoKeeper .backward store (go "alice") ⟨go "y"⟩ := by
  obtain ⟨store, hset, hrefines⟩ := (refines_empty aminoKeeper).setStorage .forward
    (show Rooted (go "mailbox.alice") by decide) ⟨go "x"⟩
  have hrun : run aminoKeeper.call .empty
      [.setStorage .forward (go "mailbox.alice") ⟨go "x"⟩] = some store := by
    simp only [run, Keeper.call, hset, Option.bind_some]
  obtain ⟨names, hget, -, hmem⟩ := hrefines.getKeys (parent dot (mailboxPath (go "alice")))
  refine ⟨store, hrun, (setMailbox_agrees_iff aminoKeeper _ hrun _ _ _).mpr ⟨by decide, ?_⟩⟩
  refine ⟨⟨names⟩, hget, (hmem _).mpr ⟨by decide, ?_⟩⟩
  have hpath : childPath (parent dot (mailboxPath (go "alice")))
      (leaf dot (mailboxPath (go "alice"))) = go "mailbox.alice" := by decide
  rw [hpath, Function.update_self]
  decide

/-- In an empty store, `SetMailbox` leaves the keys of `mailbox` without the peer. -/
theorem not_setMailbox_agrees_empty :
    run aminoKeeper.call .empty [] = some .empty ∧
      ¬ WritesAgree aminoKeeper .forward .empty (go "alice") ⟨go "x"⟩ := by
  refine ⟨rfl, fun hsame ↦ ?_⟩
  obtain ⟨-, keyNode, hget, hmem⟩ := ((listed_empty aminoKeeper).writesAgree_iff _ _ _).mp hsame
  have hnone : aminoKeeper.getKeys .empty (parent dot (mailboxPath (go "alice"))) = some ⟨[]⟩ := rfl
  obtain rfl := Option.some.inj (hnone.symm.trans hget)
  exact absurd hmem List.not_mem_nil

end CosmicSwingset.Chain
