import CosmicSwingset.Chain.KeeperRefinement
import CosmicSwingset.Foundation.GoJson

/-!
# The storage handler

`storageHandler` of `storage.go` answers requests for the keeper's storage: `Receive` reads a
`storageMessage` from a JSON text and replies with a JSON text. A member of the request's object is
matched with a field as `encoding/json` does it, without regard to case; the last one counts, and
`null` leaves the field as it is. A request `null` leaves the message itself nil, and a nil message,
or an entry of the store that does not decode, panics. Only `set` changes the store. The handler of
a delivery has no limit on gas, so the recovery from `ErrorOutOfGas` is left out.

The switch of `Receive` is `receiveMessage`, with a function for each method that replies with more
than a literal. Whatever paths are written, the store stays readable (`Readable.setAll`), so that
no request for it panics.
-/

set_option autoImplicit false
set_option relaxedAutoImplicit false

namespace CosmicSwingset.Chain

open Foundation

/-- `storageMessage`. -/
structure StorageMessage where
  method : GoString
  key : GoString
  value : GoString
  deriving DecidableEq

/-! ### Reading a request -/

/-- The case folding of member names; the other character that folds to `k` is the Kelvin sign. -/
def foldChar (c : Char) : Char := if c.toNat = 0x212A then 'k' else c.toLower

/-- The member is matched with the field. -/
def names (field member : String) : Bool := member.toList.map foldChar = field.toList

/-- The value of a field of type `string` after a member. -/
def setField (field : String) (value : GoString) (member : String × Json Decimal) :
    Except GoError GoString :=
  if names field member.1 then
    match member.2 with
    | .str s => .ok (encode s)
    | .null => .ok value
    | _ => .error .json
  else .ok value

/-- The value of a field of type `string`. -/
def stringField (field : String) (members : List (String × Json Decimal)) :
    Except GoError GoString :=
  members.foldlM (setField field) []

/-- The message after `json.Unmarshal([]byte(str), &msg)`, `none` when it is nil. -/
def readStorageMessage (str : GoString) : Except GoError (Option StorageMessage) :=
  match Json.unmarshal str with
  | some .null => .ok none
  | some (.obj members) => do
    let method ← stringField "method" members
    let key ← stringField "key" members
    let value ← stringField "value" members
    return some ⟨method, key, value⟩
  | _ => .error .json

/-! ### Replies -/

/-- The cases of the switch on `msg.Method`. -/
inductive StorageMethod
  | set
  | get
  | has
  | keys
  | entries
  | values
  | size
  deriving DecidableEq

namespace StorageMethod

def name : StorageMethod → GoString
  | set => go "set"
  | get => go "get"
  | has => go "has"
  | keys => go "keys"
  | entries => go "entries"
  | values => go "values"
  | size => go "size"

def ofName (method : GoString) : Option StorageMethod :=
  [set, get, has, keys, entries, values, size].find? (·.name = method)

theorem ofName_name (method : StorageMethod) : ofName method.name = some method := by
  cases method <;> decide

end StorageMethod

namespace Keeper

variable (k : Keeper)

def receiveGet (store : KVStore) (key : GoString) : Option GoString := do
  let storage ← k.getStorage store key
  return if storage.value = [] then go "null" else Json.marshal (stringJson storage.value)

def receiveHas (store : KVStore) (key : GoString) : Option GoString := do
  let storage ← k.getStorage store key
  return if storage.value = [] then go "false" else go "true"

def receiveKeys (store : KVStore) (key : GoString) : Option GoString := do
  let keys ← k.getKeys store key
  return if keys.keys = [] then go "[]" else Json.marshal (.arr (keys.keys.map stringJson))

/-- The value at the path that `fmt.Sprintf("%s.%s", msg.Key, key)` makes. -/
def valueBelow (store : KVStore) (path key : GoString) : Option GoString :=
  (k.getStorage store (path ++ dot :: key)).map Storage.value

/-- The slice `ents`. -/
def ents (store : KVStore) (path : GoString) : Option (List (GoString × GoString)) := do
  let keys ← k.getKeys store path
  keys.keys.mapM fun key ↦ (k.valueBelow store path key).map (key, ·)

def receiveEntries (store : KVStore) (path : GoString) : Option GoString := do
  let ents ← k.ents store path
  return Json.marshal (.arr (ents.map fun ent ↦ .arr [stringJson ent.1, stringJson ent.2]))

/-- The slice `vals`. -/
def vals (store : KVStore) (path : GoString) : Option (List GoString) := do
  let keys ← k.getKeys store path
  keys.keys.mapM (k.valueBelow store path)

def receiveValues (store : KVStore) (path : GoString) : Option GoString := do
  let vals ← k.vals store path
  return Json.marshal (.arr (vals.map stringJson))

def receiveSize (store : KVStore) (key : GoString) : Option GoString := do
  let keys ← k.getKeys store key
  -- `string(n)` is the character with the number `n`
  return if keys.keys = [] then go "0"
    else encode (String.ofList [runeChar keys.keys.length])

/-- A case of the switch: its reply and the store after it, `none` where it panics. -/
def reply (order : RangeOrder) (store : KVStore) (method : StorageMethod) (key value : GoString) :
    Option (GoString × KVStore) :=
  match method with
  | .set => (k.setStorage order store key ⟨value⟩).map (go "true", ·)
  | .get => (k.receiveGet store key).map (·, store)
  | .has => (k.receiveHas store key).map (·, store)
  | .keys => (k.receiveKeys store key).map (·, store)
  | .entries => (k.receiveEntries store key).map (·, store)
  | .values => (k.receiveValues store key).map (·, store)
  | .size => (k.receiveSize store key).map (·, store)

/-- The switch of `Receive`. -/
def receiveMessage (order : RangeOrder) (store : KVStore) (msg : StorageMessage) :
    Outcome (GoString × KVStore) :=
  match StorageMethod.ofName msg.method with
  | none => .failed (.text (go "Unrecognized msg.Method " ++ msg.method))
  | some method => .ofOption (k.reply order store method msg.key msg.value)

def receive (order : RangeOrder) (store : KVStore) (str : GoString) :
    Outcome (GoString × KVStore) :=
  match readStorageMessage str with
  | .error err => .failed err
  | .ok none => .panicked
  | .ok (some msg) => k.receiveMessage order store msg

theorem receiveMessage_name (order : RangeOrder) (store : KVStore) (method : StorageMethod)
    (key value : GoString) :
    k.receiveMessage order store ⟨method.name, key, value⟩ =
      .ofOption (k.reply order store method key value) := by
  simp only [receiveMessage, StorageMethod.ofName_name]

/-- What is returned comes from a case of the switch. -/
theorem reply_of_returned {order : RangeOrder} {store : KVStore} {msg : StorageMessage}
    {ret : GoString × KVStore} (h : k.receiveMessage order store msg = .returned ret) :
    ∃ method, k.reply order store method msg.key msg.value = some ret := by
  unfold receiveMessage at h
  split at h
  · cases h
  · rename_i method _
    exact ⟨method, Outcome.ofOption_eq_returned.mp h⟩

end Keeper

/-! ### Readable stores -/

/-- Every entry that the keeper can look up decodes, and no value is empty. -/
structure Readable (k : Keeper) (store : KVStore) : Prop where
  data : ∀ path bz, store (dataPath path) = some bz →
    ∃ storage, k.storage.unmarshal bz = some storage ∧ storage.value ≠ []
  keys : ∀ path, ∃ keys, k.getKeys store path = some keys

variable {k : Keeper} {store : KVStore}

theorem readable_empty (k : Keeper) : Readable k .empty :=
  ⟨fun _ _ h ↦ absurd h.symm (Option.some_ne_none _), fun _ ↦ ⟨_, rfl⟩⟩

theorem Readable.getStorage (h : Readable k store) (path : GoString) :
    ∃ storage, k.getStorage store path = some storage := by
  unfold Keeper.getStorage
  cases hraw : store (dataPath path) with
  | none => exact ⟨⟨[]⟩, rfl⟩
  | some bz =>
    obtain ⟨storage, hdecode, -⟩ := h.data path bz hraw
    exact ⟨storage, hdecode⟩

/-- There is no entry where the value is empty. -/
theorem Readable.eq_none (h : Readable k store) {path : GoString}
    (hget : k.getStorage store path = some ⟨[]⟩) : store (dataPath path) = none := by
  cases hraw : store (dataPath path) with
  | none => rfl
  | some bz =>
    obtain ⟨storage, hdecode, hvalue⟩ := h.data path bz hraw
    rw [Keeper.getStorage, hraw] at hget
    have hempty : some storage = some ⟨[]⟩ := hdecode.symm.trans hget
    exact absurd (congrArg Storage.value (Option.some.inj hempty)) hvalue

/-- `SetStorage` does not panic, and `GetStorage` then finds the value there and the old values
elsewhere, whatever the path is. -/
theorem Readable.setStorage (h : Readable k store) (order : RangeOrder) (path : GoString)
    (storage : Storage) :
    ∃ store', k.setStorage order store path storage = some store' ∧ Readable k store' ∧
      ∀ p, k.getStorage store' p = if p = path then some storage else k.getStorage store p := by
  obtain ⟨⟨names⟩, hget⟩ := h.keys (parent dot path)
  have hraw : ∀ keyList p, Function.update (Function.update store (dataPath path)
      (if storage.value = [] then none else some (k.storage.marshal storage)))
      (keysPath (parent dot path)) keyList (dataPath p) =
        if p = path then if storage.value = [] then none else some (k.storage.marshal storage)
        else store (dataPath p) := by
    intro keyList p
    rw [Function.update_of_ne (dataPath_ne_keysPath p _)]
    by_cases hp : p = path
    · rw [hp, Function.update_self, if_pos rfl]
    · rw [Function.update_of_ne (fun heq ↦ hp (dataPath_injective heq)), if_neg hp]
  refine ⟨_, setStorage_eq order path storage hget, ⟨fun p bz hbz ↦ ?_, fun p ↦ ?_⟩, fun p ↦ ?_⟩
  · rw [hraw] at hbz
    split_ifs at hbz with hp hempty
    · exact ⟨storage, Option.some.inj hbz ▸ k.storage.unmarshal_marshal storage, hempty⟩
    · exact h.data p bz hbz
  · rw [Keeper.getKeys]
    by_cases hp : p = parent dot path
    · subst hp
      rw [Function.update_self]
      split_ifs
      · exact ⟨_, rfl⟩
      · exact ⟨_, k.keys.unmarshal_marshal _⟩
    · rw [Function.update_of_ne (fun heq ↦ hp (keysPath_injective heq)),
        Function.update_of_ne (dataPath_ne_keysPath path p).symm]
      exact h.keys p
  · rw [Keeper.getStorage, hraw]
    by_cases hp : p = path
    · rw [if_pos hp, if_pos hp]
      obtain ⟨value⟩ := storage
      by_cases hempty : value = []
      · rw [if_pos hempty, hempty]
      · rw [if_neg hempty]
        exact k.storage.unmarshal_marshal ⟨value⟩
    · rw [if_neg hp, if_neg hp]
      rfl

/-- Every sequence of `SetStorage` calls leaves a readable store. -/
theorem Readable.setAll (h : Readable k store) (writes : List Write) :
    ∃ store', k.setAll store writes = some store' ∧ Readable k store' := by
  induction writes generalizing store with
  | nil => exact ⟨store, rfl, h⟩
  | cons w writes ih =>
    obtain ⟨next, hnext, hreadable, -⟩ := h.setStorage w.order w.path w.storage
    obtain ⟨store', hrest, hfinal⟩ := ih hreadable
    refine ⟨store', ?_, hfinal⟩
    rw [Keeper.setAll, hnext]
    exact hrest

end CosmicSwingset.Chain
