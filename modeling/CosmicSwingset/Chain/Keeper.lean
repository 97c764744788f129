import CosmicSwingset.Foundation.Codec
import CosmicSwingset.Foundation.SeparatedPath
import Mathlib.Data.List.Dedup
import Mathlib.Data.List.Lex
import Mathlib.Data.List.Sort
import Mathlib.Logic.Function.Basic

/-!
# The keeper's generic storage

`keeper.go` keeps a tree of strings in the module's key/value store. A path is a string with
segments separated by dots; the value at `path` is a `Storage` under the raw key `data:path`, and
the names of the children of `path` are a `Keys` under `keys:path`. `setStorage` writes both, and
deletes the entries that would be empty.

Go strings are sequences of bytes and are sorted bytewise. A Go map is ranged over in no fixed
order: every call of `setStorage` is given the order in which it finds the keys of its `keyMap`.
Encoding is amino's, and a value that does not decode panics (`none`).
-/

set_option autoImplicit false
set_option relaxedAutoImplicit false

namespace CosmicSwingset.Chain

open Foundation

/-- A Go `string`. -/
abbrev GoString := Bytes

/-- A Go string literal. -/
def go (literal : String) : GoString :=
  literal.toUTF8.data.toList.map UInt8.toFin

/-- The separator of `strings.Split(path, ".")`. -/
def dot : Byte := 46

/-- `types.Storage`. -/
structure Storage where
  value : GoString
  deriving DecidableEq

/-- `types.Keys`. A nil slice and an empty one are both the empty list. -/
structure Keys where
  keys : List GoString
  deriving DecidableEq

/-- The module's store. -/
abbrev KVStore := Bytes → Option Bytes

def KVStore.empty : KVStore := fun _ ↦ none

def KVStore.set (store : KVStore) (key value : Bytes) : KVStore :=
  Function.update store key (some value)

def KVStore.delete (store : KVStore) (key : Bytes) : KVStore :=
  Function.update store key none

/-- The order in which one `for key := range keyMap` yields the keys of a map. -/
structure RangeOrder where
  range : List GoString → List GoString
  perm : ∀ keyMap, (range keyMap).Perm keyMap

/-- The keeper's `cdc`, at the two types it encodes. -/
structure Keeper where
  storage : Codec Storage
  keys : Codec Keys

def dataPath (path : GoString) : Bytes := go "data:" ++ path

def keysPath (path : GoString) : Bytes := go "keys:" ++ path

/-- `sort.Strings`. -/
def sortStrings (keyList : List GoString) : List GoString :=
  keyList.insertionSort (· ≤ ·)

namespace Keeper

variable (k : Keeper)

def getStorage (store : KVStore) (path : GoString) : Option Storage :=
  match store (dataPath path) with
  | none => some ⟨[]⟩
  | some bz => k.storage.unmarshal bz

def getKeys (store : KVStore) (path : GoString) : Option Keys :=
  match store (keysPath path) with
  | none => some ⟨[]⟩
  | some bz => k.keys.unmarshal bz

/-- The keys of `keyMap` after the value at `lastKey` is set: a Go map is a list of its keys
without repetition, in an order of no meaning. -/
def keyMap (keyList : List GoString) (lastKey value : GoString) : List GoString :=
  if value = [] then keyList.dedup.filter (· ≠ lastKey) else keyList.dedup.insert lastKey

def setStorage (order : RangeOrder) (store : KVStore) (path : GoString) (storage : Storage) :
    Option KVStore := do
  let oneUp := parent dot path
  let lastKey := leaf dot path
  let keyNode ← k.getKeys store oneUp
  let keyList := order.range (keyMap keyNode.keys lastKey storage.value)
  let store :=
    if storage.value = [] then store.delete (dataPath path)
    else store.set (dataPath path) (k.storage.marshal storage)
  if keyList = [] then return store.delete (keysPath oneUp)
  else return store.set (keysPath oneUp) (k.keys.marshal ⟨sortStrings keyList⟩)

end Keeper

/-- One call `SetStorage(path, storage)`, with the order its loop over `keyMap` takes. -/
structure Write where
  order : RangeOrder
  path : GoString
  storage : Storage

/-- The store after a sequence of calls. -/
def Keeper.setAll (k : Keeper) : KVStore → List Write → Option KVStore
  | store, [] => some store
  | store, w :: ws => (k.setStorage w.order store w.path w.storage).bind fun store' ↦
      k.setAll store' ws

/-! ### Raw keys -/

theorem dataPath_injective {p q : GoString} (h : dataPath p = dataPath q) : p = q :=
  List.append_cancel_left h

theorem keysPath_injective {p q : GoString} (h : keysPath p = keysPath q) : p = q :=
  List.append_cancel_left h

theorem dataPath_ne_keysPath (p q : GoString) : dataPath p ≠ keysPath q := by
  have hdata : go "data:" = [100, 97, 116, 97, 58] := by decide
  have hkeys : go "keys:" = [107, 101, 121, 115, 58] := by decide
  simp [dataPath, keysPath, hdata, hkeys]

theorem sortStrings_perm (keyList : List GoString) : (sortStrings keyList).Perm keyList :=
  List.perm_insertionSort _ _

theorem sortStrings_eq_nil_iff (keyList : List GoString) :
    sortStrings keyList = [] ↔ keyList = [] := by
  rw [← List.length_eq_zero_iff, (sortStrings_perm keyList).length_eq, List.length_eq_zero_iff]

theorem sortStrings_ascending {keyList : List GoString} (h : keyList.Nodup) :
    (sortStrings keyList).Pairwise (· < ·) := by
  have hle := List.pairwise_insertionSort (· ≤ ·) keyList
  have hne : (sortStrings keyList).Nodup := (sortStrings_perm keyList).nodup_iff.mpr h
  exact (hle.and hne).imp fun hpair ↦ lt_of_le_of_ne hpair.1 hpair.2

end CosmicSwingset.Chain
