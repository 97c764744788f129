import CosmicSwingset.Chain.Amino
import Mathlib.Data.List.Induction

/-!
# The keeper's storage is a map

The abstract view of the keeper is a map from paths to values, where the empty string stands for no
value; the children of a path are the names whose child path has one. `Refines` ties a raw store to
such a map: the data entries are the encoded values, the keys entries are the encoded lists of
children in ascending order, neither is there when it would be empty, and there is nothing else.

`Refines.setStorage` is the step: `SetStorage` on a path that does not begin with a dot does not
panic and updates the map at that path alone, whatever order it ranges over its `keyMap` in. Over a
sequence of calls `GetStorage` and `GetKeys` are then the map's value and children
(`setAll_refines_map`), and since `Refines` determines every raw entry, two sequences that leave
the same map leave the same raw store (`setAll_canonical`).

Paths that begin with a dot are left out: `.k` and `k` have the same parent and the same last
segment, so the keys entry of the root cannot tell them apart.
-/

set_option autoImplicit false
set_option relaxedAutoImplicit false

namespace CosmicSwingset.Chain

open Foundation

/-- The abstract store: the value at each path, empty where there is none. -/
abbrev ValueMap := GoString → GoString

/-- The path of the child `name` of `path`. -/
abbrev childPath (path name : GoString) : GoString := child dot path name

/-- `name` is the name of a child of `path` that has a value. -/
def ValueMap.HasChild (m : ValueMap) (path name : GoString) : Prop :=
  dot ∉ name ∧ m (childPath path name) ≠ []

/-- The path does not begin with a dot. -/
def Rooted (path : GoString) : Prop := path.head? ≠ some dot

instance (path : GoString) : Decidable (Rooted path) :=
  inferInstanceAs (Decidable (path.head? ≠ some dot))

/-- The raw store that the keeper `k` makes of the map `m`. -/
structure Refines (k : Keeper) (store : KVStore) (m : ValueMap) : Prop where
  data : ∀ path, store (dataPath path) =
    if m path = [] then none else some (k.storage.marshal ⟨m path⟩)
  keys : ∀ path, ∃ names : List GoString, names.Pairwise (· < ·) ∧
    (∀ name, name ∈ names ↔ m.HasChild path name) ∧
    store (keysPath path) = if names = [] then none else some (k.keys.marshal ⟨names⟩)
  nothingElse : ∀ raw, (∀ path, raw ≠ dataPath path) → (∀ path, raw ≠ keysPath path) →
    store raw = none
  rooted : ∀ path, ¬ Rooted path → m path = []

variable {k : Keeper} {store : KVStore} {m : ValueMap}

theorem refines_empty (k : Keeper) : Refines k .empty fun _ ↦ [] where
  data := by simp [KVStore.empty]
  keys := fun path ↦ ⟨[], List.Pairwise.nil, by simp [ValueMap.HasChild], by simp [KVStore.empty]⟩
  nothingElse := fun _ _ _ ↦ rfl
  rooted := fun _ _ ↦ rfl

/-- Two ascending lists with the same members are the same list. -/
theorem eq_of_ascending {names names' : List GoString} (h : names.Pairwise (· < ·))
    (h' : names'.Pairwise (· < ·)) (hmem : ∀ name, name ∈ names ↔ name ∈ names') :
    names = names' := by
  have hperm : names.Perm names' :=
    (List.perm_ext_iff_of_nodup (h.imp ne_of_lt) (h'.imp ne_of_lt)).mpr hmem
  exact hperm.eq_of_pairwise (fun _ _ _ _ hab hba ↦ absurd hab (lt_asymm hba)) h h'

theorem Refines.getStorage (h : Refines k store m) (path : GoString) :
    k.getStorage store path = some ⟨m path⟩ := by
  rw [Keeper.getStorage, h.data path]
  by_cases hempty : m path = []
  · rw [if_pos hempty, hempty]
  · rw [if_neg hempty]
    exact k.storage.unmarshal_marshal _

theorem Refines.getKeys (h : Refines k store m) (path : GoString) :
    ∃ names, k.getKeys store path = some ⟨names⟩ ∧ names.Pairwise (· < ·) ∧
      ∀ name, name ∈ names ↔ m.HasChild path name := by
  obtain ⟨names, hascending, hmem, hraw⟩ := h.keys path
  refine ⟨names, ?_, hascending, hmem⟩
  rw [Keeper.getKeys, hraw]
  by_cases hempty : names = []
  · rw [if_pos hempty, hempty]
  · rw [if_neg hempty]
    exact k.keys.unmarshal_marshal _

/-- The children of a path after the map is updated at a rooted path: only the list of that path's
parent changes, and there only in its last segment. -/
theorem hasChild_update (m : ValueMap) {path : GoString} (hrooted : Rooted path)
    (value base name : GoString) :
    ValueMap.HasChild (Function.update m path value) base name ↔
      if base = parent dot path ∧ name = leaf dot path then value ≠ []
      else m.HasChild base name := by
  by_cases hdot : dot ∈ name
  · have hleaf : name ≠ leaf dot path := fun heq ↦ not_mem_leaf dot path (heq ▸ hdot)
    simp [ValueMap.HasChild, hdot, hleaf]
  · simp only [ValueMap.HasChild, hdot, not_false_eq_true, true_and, Function.update_apply,
      childPath, child_eq_iff dot hrooted hdot]
    split_ifs <;> rfl

theorem mem_keyMap {keyList : List GoString} {lastKey value name : GoString} :
    name ∈ Keeper.keyMap keyList lastKey value ↔
      if name = lastKey then value ≠ [] else name ∈ keyList := by
  unfold Keeper.keyMap
  by_cases hvalue : value = [] <;> by_cases hname : name = lastKey <;> simp [hvalue, hname]

theorem keyMap_nodup (keyList : List GoString) (lastKey value : GoString) :
    (Keeper.keyMap keyList lastKey value).Nodup := by
  unfold Keeper.keyMap
  split_ifs
  · exact (List.nodup_dedup keyList).filter _
  · exact (List.nodup_dedup keyList).insert

/-- The keys entry that `SetStorage` writes: the children of the parent after the update. -/
theorem sorted_range_keyMap (order : RangeOrder) {path : GoString} (value : GoString)
    (hrooted : Rooted path)
    {names : List GoString} (hnames : ∀ name, name ∈ names ↔ m.HasChild (parent dot path) name) :
    let keyList := order.range (Keeper.keyMap names (leaf dot path) value)
    (sortStrings keyList).Pairwise (· < ·) ∧ (sortStrings keyList = [] ↔ keyList = []) ∧
      ∀ name, name ∈ sortStrings keyList ↔
        ValueMap.HasChild (Function.update m path value) (parent dot path) name := by
  intro keyList
  have hperm := order.perm (Keeper.keyMap names (leaf dot path) value)
  refine ⟨?_, sortStrings_eq_nil_iff keyList, fun name ↦ ?_⟩
  · exact sortStrings_ascending (hperm.nodup_iff.mpr (keyMap_nodup _ _ _))
  · rw [(sortStrings_perm keyList).mem_iff, hperm.mem_iff, mem_keyMap, hasChild_update m hrooted]
    simp only [true_and]
    split_ifs
    · rfl
    · exact hnames name

/-- The two raw entries that `SetStorage` writes, where it finds the children `names`. -/
theorem setStorage_eq (order : RangeOrder) (path : GoString) (storage : Storage)
    {names : List GoString} (hget : k.getKeys store (parent dot path) = some ⟨names⟩) :
    let keyList := order.range (Keeper.keyMap names (leaf dot path) storage.value)
    k.setStorage order store path storage = some (Function.update
      (Function.update store (dataPath path)
        (if storage.value = [] then none else some (k.storage.marshal storage)))
      (keysPath (parent dot path))
      (if keyList = [] then none else some (k.keys.marshal ⟨sortStrings keyList⟩))) := by
  intro keyList
  simp only [Keeper.setStorage, hget, Option.bind_eq_bind, Option.bind_some]
  change (if keyList = [] then _ else _) = _
  split_ifs <;> rfl

/-- `SetStorage` on a rooted path updates the map at that path. -/
theorem Refines.setStorage (h : Refines k store m) (order : RangeOrder) {path : GoString}
    (hrooted : Rooted path) (storage : Storage) :
    ∃ store', k.setStorage order store path storage = some store' ∧
      Refines k store' (Function.update m path storage.value) := by
  obtain ⟨names, hget, -, hnames⟩ := h.getKeys (parent dot path)
  obtain ⟨hascending, hnil, hmem⟩ :=
    sorted_range_keyMap order storage.value hrooted hnames
  refine ⟨_, setStorage_eq order path storage hget, ?_, ?_, ?_, ?_⟩
  · intro p
    rw [Function.update_of_ne (dataPath_ne_keysPath p _)]
    by_cases hp : p = path
    · subst hp
      rw [Function.update_self, Function.update_self]
    · rw [Function.update_of_ne (fun heq ↦ hp (dataPath_injective heq)), Function.update_of_ne hp]
      exact h.data p
  · intro p
    by_cases hp : p = parent dot path
    · subst hp
      refine ⟨_, hascending, hmem, ?_⟩
      rw [Function.update_self]
      simp only [hnil]
    · obtain ⟨others, hothers, hchildren, hraw⟩ := h.keys p
      refine ⟨others, hothers, fun name ↦ ?_, ?_⟩
      · rw [hchildren, hasChild_update m hrooted, if_neg (fun heq ↦ hp heq.1)]
      · rw [Function.update_of_ne (fun heq ↦ hp (keysPath_injective heq)),
          Function.update_of_ne (dataPath_ne_keysPath path p).symm, hraw]
  · intro raw hdata hkeys
    rw [Function.update_of_ne (hkeys _), Function.update_of_ne (hdata _)]
    exact h.nothingElse raw hdata hkeys
  · intro p hp
    have hne : p ≠ path := fun heq ↦ hp (heq ▸ hrooted)
    rw [Function.update_of_ne hne]
    exact h.rooted p hp

/-! ### Sequences of calls -/

/-- The value of the last write at a path, empty if there is none. -/
def lastValue (writes : List Write) (path : GoString) : GoString :=
  match writes.reverse.find? fun w ↦ w.path = path with
  | some w => w.storage.value
  | none => []

/-- The map after a sequence of writes. -/
def ValueMap.setAll (m : ValueMap) (writes : List Write) : ValueMap :=
  writes.foldl (fun m w ↦ Function.update m w.path w.storage.value) m

theorem setAll_empty (writes : List Write) :
    ValueMap.setAll (fun _ ↦ []) writes = lastValue writes := by
  funext path
  induction writes using List.reverseRecOn with
  | nil => rfl
  | append_singleton writes w ih =>
    rw [ValueMap.setAll, List.foldl_append, List.foldl_cons, List.foldl_nil, lastValue,
      List.reverse_append, List.reverse_singleton, List.singleton_append, List.find?_cons]
    by_cases hpath : w.path = path
    · simp [hpath]
    · rw [Function.update_of_ne (Ne.symm hpath)]
      simpa [hpath, lastValue, ValueMap.setAll] using ih

/-- Writes at rooted paths keep the store a refinement of the map. -/
theorem Refines.setAll (h : Refines k store m) {writes : List Write}
    (hrooted : ∀ w ∈ writes, Rooted w.path) :
    ∃ store', k.setAll store writes = some store' ∧ Refines k store' (m.setAll writes) := by
  induction writes generalizing store m with
  | nil => exact ⟨store, rfl, h⟩
  | cons w writes ih =>
    rw [List.forall_mem_cons] at hrooted
    obtain ⟨next, hnext, hrefines⟩ := h.setStorage w.order hrooted.1 w.storage
    obtain ⟨store', hrest, hfinal⟩ := ih hrefines hrooted.2
    refine ⟨store', ?_, hfinal⟩
    rw [Keeper.setAll, hnext]
    exact hrest

/-- A refinement determines the raw store. -/
theorem Refines.unique {store' : KVStore} (h : Refines k store m) (h' : Refines k store' m) :
    store = store' := by
  funext raw
  by_cases hdata : ∃ path, raw = dataPath path
  · obtain ⟨path, rfl⟩ := hdata
    rw [h.data, h'.data]
  · by_cases hkeys : ∃ path, raw = keysPath path
    · obtain ⟨path, rfl⟩ := hkeys
      obtain ⟨names, hascending, hmem, hraw⟩ := h.keys path
      obtain ⟨names', hascending', hmem', hraw'⟩ := h'.keys path
      have hnames : names = names' := eq_of_ascending hascending hascending' fun name ↦
        (hmem name).trans (hmem' name).symm
      rw [hraw, hraw', hnames]
    · push Not at hdata hkeys
      rw [h.nothingElse raw hdata hkeys, h'.nothingElse raw hdata hkeys]

/-- After any sequence of `SetStorage` calls from the empty store at paths that do not begin with a
dot, `GetStorage` is the last value set, `GetKeys` is the ascending list of the children that have a
value, and one more such call changes no other path's value and no other parent's list. -/
theorem setAll_refines_map (k : Keeper) (writes : List Write)
    (hrooted : ∀ w ∈ writes, Rooted w.path) :
    ∃ store, k.setAll .empty writes = some store ∧
      (∀ path, k.getStorage store path = some ⟨lastValue writes path⟩) ∧
      (∀ path, ∃ names, k.getKeys store path = some ⟨names⟩ ∧ names.Pairwise (· < ·) ∧
        ∀ name, name ∈ names ↔ dot ∉ name ∧ lastValue writes (childPath path name) ≠ []) ∧
      ∀ w : Write, Rooted w.path →
        ∃ store', k.setStorage w.order store w.path w.storage = some store' ∧
          (∀ path, path ≠ w.path → k.getStorage store' path = k.getStorage store path) ∧
          ∀ path, path ≠ parent dot w.path → k.getKeys store' path = k.getKeys store path := by
  obtain ⟨store, hstore, hrefines⟩ := (refines_empty k).setAll hrooted
  rw [setAll_empty] at hrefines
  refine ⟨store, hstore, hrefines.getStorage, hrefines.getKeys, fun w hw ↦ ?_⟩
  obtain ⟨store', hset, hnext⟩ := hrefines.setStorage w.order hw w.storage
  refine ⟨store', hset, fun path hpath ↦ ?_, fun path hpath ↦ ?_⟩
  · rw [hnext.getStorage, hrefines.getStorage, Function.update_of_ne hpath]
  · obtain ⟨names, hget, hascending, hmem⟩ := hrefines.getKeys path
    obtain ⟨names', hget', hascending', hmem'⟩ := hnext.getKeys path
    have hnames : names' = names := eq_of_ascending hascending' hascending fun name ↦ by
      rw [hmem, hmem', hasChild_update _ hw, if_neg (fun heq ↦ hpath heq.1)]
    rw [hget, hget', hnames]

/-- A loop that yields the keys in the order of the list. -/
def RangeOrder.forward : RangeOrder := ⟨id, List.Perm.refl⟩

/-- A loop that yields the keys in the reverse order. -/
def RangeOrder.backward : RangeOrder := ⟨List.reverse, List.reverse_perm⟩

/-- A mailbox published for two peers, then emptied for one of them. -/
def publishing : List Write :=
  [⟨.forward, go "mailbox", ⟨go "{}"⟩⟩, ⟨.backward, go "mailbox.p2", ⟨go "b"⟩⟩,
    ⟨.backward, go "mailbox.p1", ⟨go "a"⟩⟩, ⟨.forward, go "mailbox.p2", ⟨[]⟩⟩]

theorem setAll_refines_map_publishing :
    ∃ store, aminoKeeper.setAll .empty publishing = some store ∧
      ∀ path, aminoKeeper.getStorage store path = some ⟨lastValue publishing path⟩ := by
  obtain ⟨store, hstore, hvalues, -, -⟩ :=
    setAll_refines_map aminoKeeper publishing (by decide)
  exact ⟨store, hstore, hvalues⟩

/-- Two sequences of `SetStorage` calls at paths that do not begin with a dot that leave the same
value at every path leave the same raw store, whatever the order of their writes, the values between
and the orders in which their loops range over `keyMap`. -/
theorem setAll_canonical (k : Keeper) (writes writes' : List Write)
    (hrooted : ∀ w ∈ writes, Rooted w.path) (hrooted' : ∀ w ∈ writes', Rooted w.path)
    (hvalues : ∀ path, lastValue writes path = lastValue writes' path) :
    ∃ store, k.setAll .empty writes = some store ∧ k.setAll .empty writes' = some store := by
  obtain ⟨store, hstore, hrefines⟩ := (refines_empty k).setAll hrooted
  obtain ⟨store', hstore', hrefines'⟩ := (refines_empty k).setAll hrooted'
  rw [setAll_empty] at hrefines hrefines'
  have hmap : lastValue writes' = lastValue writes := funext fun path ↦ (hvalues path).symm
  rw [hmap] at hrefines'
  obtain rfl := hrefines.unique hrefines'
  exact ⟨store, hstore, hstore'⟩

/-- The mailboxes that `publishing` leaves, written once each and in another order. -/
def republishing : List Write :=
  [⟨.backward, go "mailbox.p1", ⟨go "a"⟩⟩, ⟨.forward, go "mailbox", ⟨go "{}"⟩⟩]

theorem setAll_canonical_publishing :
    ∃ store, aminoKeeper.setAll .empty publishing = some store ∧
      aminoKeeper.setAll .empty republishing = some store := by
  refine setAll_canonical aminoKeeper publishing republishing (by decide) (by decide) fun path ↦ ?_
  have hne : go "mailbox.p2" ≠ go "mailbox.p1" ∧ go "mailbox.p2" ≠ go "mailbox" ∧
      go "mailbox.p1" ≠ go "mailbox" := by decide
  obtain ⟨hp, hroot, hroot'⟩ := hne
  by_cases h₂ : go "mailbox.p2" = path
  · subst h₂
    simp [lastValue, publishing, republishing, hp.symm, hroot.symm]
  · by_cases h₁ : go "mailbox.p1" = path
    · subst h₁
      simp [lastValue, publishing, republishing, hp, hroot'.symm]
    · simp [lastValue, publishing, republishing, List.find?_cons, h₁, h₂]

end CosmicSwingset.Chain
