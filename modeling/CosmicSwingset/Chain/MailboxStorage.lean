import CosmicSwingset.Chain.Handler
import CosmicSwingset.Chain.StorageReplies

/-!
# The mailbox storage of the Node side

`mailboxStorage` of `ag-chain-cosmos` reaches the keeper's storage through a registered port: a
request is a JSON text that `agcc.send` hands to `ReceiveFromNode` as a C string, and the reply
comes back as a C string, which is empty when there is an error. `set` encodes its value as a JSON
text once more, so that what Go stores is never the empty string, and `get` undoes this; where
nothing is stored, Go replies `null`, and `JSON.parse(null)` is `null`.

Over a registered port these three functions are a map from strings to strings
(`mailboxStorage_isMap`): keys and values are any Unicode strings, and keys that begin with a dot
are no exception, because only the keys entries of the store mix them up with others.
-/

set_option autoImplicit false
set_option relaxedAutoImplicit false

namespace CosmicSwingset.Chain

open Foundation

/-- The members of a JSON object with strings. -/
def stringMembers (members : List (String × String)) : List (String × Json Decimal) :=
  members.map fun member ↦ (member.1, .str member.2)

/-- `json-stable-stringify` of `@agoric/swingset-vat`. The text of a string parses to the string and
the text of an object of strings to the object, with its members in some order; control characters
are escaped. -/
structure StableStringify where
  stringify : Json Decimal → String
  parse_str : ∀ s, Json.parseString .decimal (stringify (.str s)) = some (.str s)
  parse_obj : ∀ members : List (String × String), ∃ sorted, sorted.Perm members ∧
    Json.parseString .decimal (stringify (.obj (stringMembers members))) =
      some (.obj (stringMembers sorted))
  printed : ∀ v, Json.Printed (stringify v).toList

theorem StableStringify.stringify_ne_empty (stable : StableStringify) (s : String) :
    stable.stringify (.str s) ≠ "" := by
  intro hempty
  have hparse := stable.parse_str s
  rw [hempty] at hparse
  cases hparse

/-! ### The boundary -/

/-- `ReceiveFromNode`. -/
def receiveFromNode (k : Keeper) (ports : Ports) (order : RangeOrder) (store : KVStore)
    (portNum : ℕ) (msg : GoString) : Outcome (GoString × KVStore) :=
  if portNum ∈ ports.portToHandler then k.receive order store msg
  else .failed (.text (go "Unregistered port " ++ encode (toString portNum)))

/-- `SendToGo`: the reply, empty if there is an error, and the store after it. -/
def sendToGo (k : Keeper) (ports : Ports) (order : RangeOrder) (store : KVStore) (port : ℕ)
    (str : Bytes) : Option (Bytes × KVStore) :=
  match receiveFromNode k ports order store port (cString str) with
  | .returned (outstr, store) => some (cString outstr, store)
  | .failed _ => some ([], store)
  | .panicked => none

/-- `agcc.send`. -/
def agccSend (k : Keeper) (ports : Ports) (order : RangeOrder) (store : KVStore) (port : ℕ)
    (str : String) : Option (String × KVStore) :=
  (sendToGo k ports order store port (encode str)).map fun ret ↦ (decode ret.1, ret.2)

/-! ### The three functions -/

/-- The text that `JSON.parse` makes of its argument, which is a string or null in the replies of
`get`. -/
def toText : Json Decimal → Option String
  | .str s => some s
  | .null => some "null"
  | _ => none

namespace MailboxStorage

variable (stable : StableStringify) (k : Keeper) (ports : Ports) (sPort : ℕ)

/-- A call that throws, or takes the process down, is `none`. -/
def has (order : RangeOrder) (store : KVStore) (key : String) : Option (Bool × KVStore) := do
  let (retStr, store) ← agccSend k ports order store sPort
    (stable.stringify (.obj (stringMembers [("method", "has"), ("key", key)])))
  match Json.parseString .decimal retStr with
  | some (.bool ret) => return (ret, store)
  | _ => none

def set (order : RangeOrder) (store : KVStore) (key value : String) : Option KVStore := do
  let encodedValue := stable.stringify (.str value)
  let (_, store) ← agccSend k ports order store sPort (stable.stringify
    (.obj (stringMembers [("method", "set"), ("key", key), ("value", encodedValue)])))
  return store

def get (order : RangeOrder) (store : KVStore) (key : String) :
    Option (Json Decimal × KVStore) := do
  let (retStr, store) ← agccSend k ports order store sPort
    (stable.stringify (.obj (stringMembers [("method", "get"), ("key", key)])))
  let encodedValue ← Json.parseString .decimal retStr
  let value ← Json.parseString .decimal (← toText encodedValue)
  return (value, store)

end MailboxStorage

/-- A call of one of the functions, with the order of the loop that it may take in Go. -/
inductive MailboxCall
  | set (order : RangeOrder) (key value : String)
  | get (order : RangeOrder) (key : String)
  | has (order : RangeOrder) (key : String)

/-- The store after a call that does not throw. -/
def MailboxCall.perform (stable : StableStringify) (k : Keeper) (ports : Ports) (sPort : ℕ)
    (store : KVStore) : MailboxCall → Option KVStore
  | .set order key value => MailboxStorage.set stable k ports sPort order store key value
  | .get order key => (MailboxStorage.get stable k ports sPort order store key).map Prod.snd
  | .has order key => (MailboxStorage.has stable k ports sPort order store key).map Prod.snd

/-- The store after a sequence of calls. -/
def performAll (stable : StableStringify) (k : Keeper) (ports : Ports) (sPort : ℕ) :
    KVStore → List MailboxCall → Option KVStore
  | store, [] => some store
  | store, call :: calls => (call.perform stable k ports sPort store).bind fun store' ↦
      performAll stable k ports sPort store' calls

/-- The value last set for the key. -/
def lastSet (calls : List MailboxCall) (key : String) : Option String :=
  calls.reverse.findSome? fun
    | .set _ key' value => if key' = key then some value else none
    | _ => none

/-- A value that `get` returns. -/
def valueJson : Option String → Json Decimal
  | none => .null
  | some value => .str value

/-! ### Requests -/

/-- A member names the field. -/
def named (field : String) (members : List (String × String)) : Bool :=
  members.any fun member ↦ names field member.1

theorem named_cons (field : String) (member : String × String) (members : List (String × String)) :
    named field (member :: members) = (names field member.1 || named field members) :=
  List.any_cons

/-- A field takes the value of the members that name it, if these have one value. -/
theorem stringField_of_names {field v : String} {members : List (String × String)}
    (hvalue : ∀ member ∈ members, names field member.1 → member.2 = v) :
    stringField field (stringMembers members) =
      .ok (if named field members then encode v else []) := by
  have hfold : ∀ acc, (stringMembers members).foldlM (setField field) acc =
      .ok (if named field members then encode v else acc) := by
    induction members with
    | nil => exact fun acc ↦ rfl
    | cons member members ih =>
      intro acc
      rw [List.forall_mem_cons] at hvalue
      have hrest := ih hvalue.2
      rw [stringMembers, List.map_cons, List.foldlM_cons]
      by_cases hname : names field member.1
      · have hset : setField field acc (member.1, .str member.2) = .ok (encode v) := by
          rw [setField, if_pos hname, hvalue.1 hname]
        rw [hset]
        change List.foldlM _ (encode v) (stringMembers members) = _
        simp [hrest, named_cons, hname]
      · have hset : setField field acc (member.1, .str member.2) = .ok acc := if_neg hname
        rw [hset]
        change List.foldlM _ acc (stringMembers members) = _
        simp [hrest, named_cons, hname]
  exact hfold []

/-- Go reads a request whatever the order of its members is. -/
theorem readStorageMessage_request (stable : StableStringify) {members : List (String × String)}
    (method key value : String)
    (hmethod : ∀ member ∈ members, names "method" member.1 → member.2 = method)
    (hkey : ∀ member ∈ members, names "key" member.1 → member.2 = key)
    (hvalue : ∀ member ∈ members, names "value" member.1 → member.2 = value) :
    readStorageMessage (cString (encode (stable.stringify (.obj (stringMembers members))))) =
      .ok (some
        { method := if named "method" members then encode method else []
          key := if named "key" members then encode key else []
          value := if named "value" members then encode value else [] }) := by
  obtain ⟨sorted, hperm, hparse⟩ := stable.parse_obj members
  have hread : Json.unmarshal (cString (encode (stable.stringify (.obj (stringMembers members))))) =
      some (.obj (stringMembers sorted)) := by
    have hprinted := Json.cString_encode_of_printed
      (stable.printed (.obj (stringMembers members)))
    rw [String.ofList_toList] at hprinted
    rw [hprinted, Json.unmarshal, decode_encode, hparse]
  have hmem : ∀ member ∈ sorted, member ∈ members := fun _ ↦ hperm.mem_iff.mp
  have hnamed : ∀ field, named field sorted = named field members := fun _ ↦ hperm.any_eq
  simp only [readStorageMessage, hread,
    stringField_of_names fun member hmember ↦ hmethod member (hmem member hmember),
    stringField_of_names fun member hmember ↦ hkey member (hmem member hmember),
    stringField_of_names fun member hmember ↦ hvalue member (hmem member hmember), hnamed]
  rfl

/-! ### One call -/

section Calls

variable {stable : StableStringify} {k : Keeper} {ports : Ports} {sPort : ℕ} {store : KVStore}

/-- What comes back from a registered port whose handler replies with the text of a value. -/
theorem agccSend_of_returned (hport : sPort ∈ ports.portToHandler) {order : RangeOrder}
    {text : String} {msg : StorageMessage} {v : Json Decimal} {store' : KVStore}
    (hread : readStorageMessage (cString (encode text)) = .ok (some msg))
    (hreply : k.receiveMessage order store msg = .returned (Json.marshal v, store')) :
    ∃ retStr, agccSend k ports order store sPort text = some (retStr, store') ∧
      Json.parseString .decimal retStr = some v := by
  refine ⟨decode (cString (Json.marshal v)), ?_, Json.parseCString_marshal v⟩
  rw [agccSend, sendToGo, receiveFromNode, if_pos hport, Keeper.receive, hread]
  simp only [hreply, Option.map_some]

theorem names_method : names "method" "method" = true ∧ names "method" "key" = false ∧
    names "method" "value" = false := by decide

theorem names_key : names "key" "method" = false ∧ names "key" "key" = true ∧
    names "key" "value" = false := by decide

theorem names_value : names "value" "method" = false ∧ names "value" "key" = false ∧
    names "value" "value" = true := by decide

/-- The request of `has` and `get`. -/
theorem read_lookup (stable : StableStringify) (name key : String) :
    readStorageMessage (cString (encode
      (stable.stringify (.obj (stringMembers [("method", name), ("key", key)]))))) =
        .ok (some ⟨encode name, encode key, []⟩) := by
  rw [readStorageMessage_request stable name key ""]
  all_goals simp [named, names_method, names_key, names_value]

/-- The request of `set`. -/
theorem read_update (stable : StableStringify) (key value : String) :
    readStorageMessage (cString (encode (stable.stringify
      (.obj (stringMembers [("method", "set"), ("key", key), ("value", value)]))))) =
        .ok (some ⟨encode "set", encode key, encode value⟩) := by
  rw [readStorageMessage_request stable "set" key value]
  all_goals simp [named, names_method, names_key, names_value]

theorem has_eq (stable : StableStringify) (hport : sPort ∈ ports.portToHandler)
    (order : RangeOrder) {key : String} {storage : Storage}
    (hget : k.getStorage store (encode key) = some storage) :
    MailboxStorage.has stable k ports sPort order store key =
      some (decide (storage.value ≠ []), store) := by
  have hreply : k.receiveMessage order store ⟨encode "has", encode key, []⟩ =
      .returned (Json.marshal (.bool (decide (storage.value ≠ []))), store) := by
    rw [← go_eq_encode "has"]
    refine (k.receiveMessage_name order store .has (encode key) []).trans ?_
    rw [Keeper.reply, receiveHas_eq, hget]
    rfl
  obtain ⟨retStr, hsend, hparse⟩ := agccSend_of_returned hport (read_lookup stable "has" key) hreply
  simp only [MailboxStorage.has, hsend, Option.bind_eq_bind, Option.bind_some, hparse]
  rfl

theorem get_eq (stable : StableStringify) (hport : sPort ∈ ports.portToHandler)
    (order : RangeOrder) {key : String} {storage : Storage}
    (hget : k.getStorage store (encode key) = some storage) :
    MailboxStorage.get stable k ports sPort order store key =
      (Json.parseString .decimal (if storage.value = [] then "null" else decode storage.value)).map
        (·, store) := by
  have hreply : k.receiveMessage order store ⟨encode "get", encode key, []⟩ = .returned
      (Json.marshal (if storage.value = [] then .null else stringJson storage.value), store) := by
    rw [← go_eq_encode "get"]
    refine (k.receiveMessage_name order store .get (encode key) []).trans ?_
    rw [Keeper.reply, receiveGet_eq, hget]
    rfl
  obtain ⟨retStr, hsend, hparse⟩ := agccSend_of_returned hport (read_lookup stable "get" key) hreply
  have htext : toText (if storage.value = [] then .null else stringJson storage.value) =
      some (if storage.value = [] then "null" else decode storage.value) := by
    split_ifs <;> rfl
  simp only [MailboxStorage.get, hsend, Option.bind_eq_bind, Option.bind_some, hparse, htext]
  cases Json.parseString .decimal (if storage.value = [] then "null" else decode storage.value) <;>
    rfl

theorem set_eq (stable : StableStringify) (hport : sPort ∈ ports.portToHandler)
    (order : RangeOrder) (key value : String) {store' : KVStore}
    (hset : k.setStorage order store (encode key) ⟨encode (stable.stringify (.str value))⟩ =
      some store') :
    MailboxStorage.set stable k ports sPort order store key value = some store' := by
  have hreply : k.receiveMessage order store
      ⟨encode "set", encode key, encode (stable.stringify (.str value))⟩ =
        .returned (Json.marshal (.bool true), store') := by
    rw [← go_eq_encode "set", ← go_true]
    refine (k.receiveMessage_name order store .set (encode key) _).trans ?_
    rw [Keeper.reply, hset]
    rfl
  obtain ⟨retStr, hsend, -⟩ := agccSend_of_returned hport
    (read_update stable key (stable.stringify (.str value))) hreply
  simp only [MailboxStorage.set, hsend, Option.bind_eq_bind, Option.bind_some]
  rfl

end Calls

/-! ### Sequences of calls -/

/-- What Go stores for a value. -/
def storedValue (stable : StableStringify) : Option String → GoString
  | none => []
  | some value => encode (stable.stringify (.str value))

theorem storedValue_eq_nil_iff (stable : StableStringify) (value : Option String) :
    storedValue stable value = [] ↔ value = none := by
  cases value with
  | none => simp [storedValue]
  | some value => simp [storedValue, stable.stringify_ne_empty value]

/-- The store holds the texts of the map's values, and nothing that does not decode. -/
structure Stores (stable : StableStringify) (k : Keeper) (store : KVStore)
    (m : String → Option String) : Prop where
  readable : Readable k store
  value : ∀ key, k.getStorage store (encode key) = some ⟨storedValue stable (m key)⟩

section Stores

variable {stable : StableStringify} {k : Keeper} {ports : Ports} {sPort : ℕ} {store : KVStore}
  {m : String → Option String}

theorem parseString_null : Json.parseString .decimal "null" = some .null := by
  rw [← Json.unmarshal_marshal .null, ← go_null, Json.unmarshal, go_eq_encode, decode_encode]

theorem stores_empty (stable : StableStringify) (k : Keeper) :
    Stores stable k .empty fun _ ↦ none :=
  ⟨readable_empty k, fun _ ↦ rfl⟩

theorem Stores.get (h : Stores stable k store m) (hport : sPort ∈ ports.portToHandler)
    (order : RangeOrder) (key : String) :
    MailboxStorage.get stable k ports sPort order store key =
      some (valueJson (m key), store) := by
  rw [get_eq stable hport order (h.value key)]
  simp only [storedValue_eq_nil_iff]
  cases hvalue : m key with
  | none =>
    rw [if_pos rfl]
    exact congrArg (Option.map (·, store)) parseString_null
  | some value =>
    rw [if_neg (Option.some_ne_none value), storedValue, decode_encode, stable.parse_str]
    rfl

theorem Stores.has (h : Stores stable k store m) (hport : sPort ∈ ports.portToHandler)
    (order : RangeOrder) (key : String) :
    MailboxStorage.has stable k ports sPort order store key = some ((m key).isSome, store) := by
  rw [has_eq stable hport order (h.value key)]
  simp only [ne_eq, storedValue_eq_nil_iff]
  cases m key <;> rfl

/-- `set` updates the map at its key alone. -/
theorem Stores.set (h : Stores stable k store m) (hport : sPort ∈ ports.portToHandler)
    (order : RangeOrder) (key value : String) :
    ∃ store', MailboxStorage.set stable k ports sPort order store key value = some store' ∧
      Stores stable k store' (Function.update m key (some value)) := by
  obtain ⟨store', hset, hreadable, hvalue⟩ := h.readable.setStorage order (encode key)
    ⟨encode (stable.stringify (.str value))⟩
  refine ⟨store', set_eq stable hport order key value hset, hreadable, fun key' ↦ ?_⟩
  rw [hvalue]
  by_cases hkey : key' = key
  · rw [hkey, if_pos rfl, Function.update_self]
    rfl
  · rw [if_neg (fun heq ↦ hkey (encode_injective heq)), Function.update_of_ne hkey]
    exact h.value key'

/-- The map after one more call. -/
def MailboxCall.update (m : String → Option String) : MailboxCall → String → Option String
  | .set _ key value => Function.update m key (some value)
  | _ => m

theorem Stores.perform (h : Stores stable k store m) (hport : sPort ∈ ports.portToHandler)
    (call : MailboxCall) :
    ∃ store', call.perform stable k ports sPort store = some store' ∧
      Stores stable k store' (call.update m) := by
  cases call with
  | set order key value => exact h.set hport order key value
  | get order key =>
    refine ⟨store, ?_, h⟩
    rw [MailboxCall.perform, h.get hport order key, Option.map_some]
  | has order key =>
    refine ⟨store, ?_, h⟩
    rw [MailboxCall.perform, h.has hport order key, Option.map_some]

theorem Stores.performAll (h : Stores stable k store m) (hport : sPort ∈ ports.portToHandler)
    (calls : List MailboxCall) :
    ∃ store', performAll stable k ports sPort store calls = some store' ∧
      Stores stable k store' (calls.foldl MailboxCall.update m) := by
  induction calls generalizing store m with
  | nil => exact ⟨store, rfl, h⟩
  | cons call calls ih =>
    obtain ⟨next, hnext, hstores⟩ := h.perform hport call
    obtain ⟨store', hrest, hfinal⟩ := ih hstores
    refine ⟨store', ?_, hfinal⟩
    rw [Chain.performAll, hnext]
    exact hrest

end Stores

theorem foldl_update_empty (calls : List MailboxCall) :
    calls.foldl MailboxCall.update (fun _ ↦ none) = lastSet calls := by
  funext key
  induction calls using List.reverseRecOn with
  | nil => rfl
  | append_singleton calls call ih =>
    rw [List.foldl_append, List.foldl_cons, List.foldl_nil, lastSet, List.reverse_append,
      List.reverse_singleton, List.singleton_append, List.findSome?_cons]
    cases call with
    | set order key' value =>
      by_cases hkey : key' = key
      · simp [MailboxCall.update, hkey]
      · simp only [MailboxCall.update, Function.update_of_ne (Ne.symm hkey), if_neg hkey]
        exact ih
    | get order key' => exact ih
    | has order key' => exact ih

/-- Over a registered port no sequence of calls throws; after it `get` returns the value last set
for its key, or null if none was, `has` is true exactly when some value was set, and one more `set`
changes what these two return for no other key. -/
theorem mailboxStorage_isMap (stable : StableStringify) (k : Keeper) (ports : Ports) {sPort : ℕ}
    (hport : sPort ∈ ports.portToHandler) (calls : List MailboxCall) :
    ∃ store, performAll stable k ports sPort .empty calls = some store ∧
      (∀ order key, MailboxStorage.get stable k ports sPort order store key =
        some (valueJson (lastSet calls key), store)) ∧
      (∀ order key, MailboxStorage.has stable k ports sPort order store key =
        some ((lastSet calls key).isSome, store)) ∧
      ∀ order key value,
        ∃ store', MailboxStorage.set stable k ports sPort order store key value = some store' ∧
          ∀ order' key', key' ≠ key →
            MailboxStorage.get stable k ports sPort order' store' key' =
              some (valueJson (lastSet calls key'), store') ∧
            MailboxStorage.has stable k ports sPort order' store' key' =
              some ((lastSet calls key').isSome, store') := by
  obtain ⟨store, hstore, hstores⟩ := (stores_empty stable k).performAll hport calls
  rw [foldl_update_empty] at hstores
  refine ⟨store, hstore, hstores.get hport, hstores.has hport, fun order key value ↦ ?_⟩
  obtain ⟨store', hset, hnext⟩ := hstores.set hport order key value
  refine ⟨store', hset, fun order' key' hkey ↦ ?_⟩
  rw [hnext.get hport, hnext.has hport, Function.update_of_ne hkey]
  exact ⟨rfl, rfl⟩

/-- Texts with sorted keys. -/
def sortedStringify : StableStringify where
  stringify := Json.stringifySorted .decimal
  parse_str := fun s ↦ Json.parseString_stringifySorted .decimal (.str s)
  parse_obj := fun members ↦ by
    refine ⟨members.insertionSort fun a b ↦ utf16 a.1.toList ≤ utf16 b.1.toList,
      List.perm_insertionSort _ _, ?_⟩
    have hkeys : Json.sortKeysMembers (stringMembers members) = stringMembers members := by
      rw [Json.sortKeysMembers_eq_map, stringMembers, List.map_map]
      exact List.map_congr_left fun member _ ↦ rfl
    rw [Json.parseString_stringifySorted, Json.sortKeys, hkeys, stringMembers, stringMembers]
    refine congrArg (some ∘ Json.obj) (Eq.symm ?_)
    exact List.map_insertionSort _ _ _ _ fun a _ b _ ↦ by simp [Json.keyLe]
  printed := fun v ↦ by
    rw [Json.stringifySorted, String.toList_ofList, Json.render_eq_write]
    exact Json.printed_write Decimal.printed_write _

/-- The keys of `launch-chain.js`, one of them set to the empty string, and one that begins with a
dot. -/
def mailboxCalls : List MailboxCall :=
  [.set .forward "mailbox" "{}", .set .backward "mailbox.alice" "", .has .forward "mailbox.alice",
    .set .forward ".mailbox" "\x00", .get .forward "mailbox"]

theorem mailboxStorage_isMap_mailboxCalls :
    ∃ store, performAll sortedStringify aminoKeeper (registerPortHandler ⟨0, []⟩).1 1 .empty
        mailboxCalls = some store ∧
      ∀ order key, MailboxStorage.get sortedStringify aminoKeeper (registerPortHandler ⟨0, []⟩).1 1
        order store key = some (valueJson (lastSet mailboxCalls key), store) := by
  have hport : 1 ∈ (registerPortHandler ⟨0, []⟩).1.portToHandler := by decide
  obtain ⟨store, hstore, hget, -, -⟩ :=
    mailboxStorage_isMap sortedStringify aminoKeeper _ hport mailboxCalls
  exact ⟨store, hstore, hget⟩

end CosmicSwingset.Chain
