import CosmicSwingset.Chain.MailboxStorage
import CosmicSwingset.Foundation.Transition

/-!
# Errors of the storage

An error of the Go side reaches the functions of `mailboxStorage` as an empty reply. There are two
sources of errors for what these functions send: the port may have no handler, and the gas may run
out, from which `Receive` recovers with what was written until then left in the store. `has` and
`get` give the reply to `JSON.parse`, which throws for the empty text; `set` does not look at it.

So every call of `has` and `get` throws or returns what the store holds, and a call of `set`, which
never throws, does what it says exactly when the port has a handler and the gas lasts until the
value is written, or when the store holds the value already (`surfaces_iff`).
-/

set_option autoImplicit false
set_option relaxedAutoImplicit false

namespace CosmicSwingset.Chain

open Foundation

/-- The gas meter of a handler's context, as the number of operations on the store that it still
allows. That of a delivery is infinite. -/
inductive GasMeter
  | infinite
  | limit (operations : ℕ)

def GasMeter.Allows (operations : ℕ) : GasMeter → Prop
  | infinite => True
  | limit gas => operations ≤ gas

instance (operations : ℕ) : DecidablePred (GasMeter.Allows operations)
  | .infinite => inferInstanceAs (Decidable True)
  | .limit gas => inferInstanceAs (Decidable (operations ≤ gas))

/-! ### Running out of gas -/

namespace Keeper

variable (k : Keeper)

/-- The operations on the store that a case of the switch makes, in their order: whether what the
operation reads decodes. -/
def operations (store : KVStore) (key : GoString) : StorageMethod → List Bool
  | .set => [(k.getKeys store (parent dot key)).isSome, true, true]
  | .get | .has => [(k.getStorage store key).isSome]
  | .keys | .size => [(k.getKeys store key).isSome]
  | .entries | .values =>
    match k.getKeys store key with
    | none => [false]
    | some keys => true :: keys.keys.map fun key' ↦ (k.valueBelow store key key').isSome

/-- The store where the gas runs out after some of the operations: the second one of `set` writes
the value, the third one the keys. -/
def interrupted (store : KVStore) (key value : GoString) (method : StorageMethod)
    (operations : ℕ) : KVStore :=
  if method = .set ∧ 2 ≤ operations then
    if value = [] then store.delete (dataPath key)
    else store.set (dataPath key) (k.storage.marshal ⟨value⟩)
  else store

/-- The store when `Receive` recovers from `ErrorOutOfGas`, `none` if the gas does not run out. -/
def outOfGas (meter : GasMeter) (store : KVStore) (str : GoString) : Option KVStore :=
  match meter, readStorageMessage str with
  | .limit gas, .ok (some msg) => do
    let method ← StorageMethod.ofName msg.method
    let operations := k.operations store msg.key method
    -- what does not decode panics before the gas runs out at a later operation
    if gas < operations.length ∧ (operations.take gas).all id = true then
      return k.interrupted store msg.key msg.value method gas
    else none
  | _, _ => none

end Keeper

/-- `SendToGo` to a handler with this gas meter: the reply, empty if there is an error, and the
store after it. -/
def meteredSendToGo (k : Keeper) (meter : GasMeter) (ports : Ports) (order : RangeOrder)
    (store : KVStore) (port : ℕ) (str : Bytes) : Option (Bytes × KVStore) :=
  if port ∈ ports.portToHandler then
    match k.outOfGas meter store (cString str) with
    | some store => some ([], store)
    | none => sendToGo k ports order store port str
  else sendToGo k ports order store port str

/-- `agcc.send` to a handler with this gas meter. -/
def meteredSend (k : Keeper) (meter : GasMeter) (ports : Ports) (order : RangeOrder)
    (store : KVStore) (port : ℕ) (str : String) : Option (String × KVStore) :=
  (meteredSendToGo k meter ports order store port (encode str)).map fun ret ↦ (decode ret.1, ret.2)

/-! ### The three functions over any `agcc.send` -/

namespace MailboxStorage

variable (stable : StableStringify) (send : String → Option (String × KVStore))

def hasVia (key : String) : Option (Bool × KVStore) := do
  let (retStr, store) ← send
    (stable.stringify (.obj (stringMembers [("method", "has"), ("key", key)])))
  match Json.parseString .decimal retStr with
  | some (.bool ret) => return (ret, store)
  | _ => none

def setVia (key value : String) : Option KVStore := do
  let encodedValue := stable.stringify (.str value)
  let (_, store) ← send (stable.stringify
    (.obj (stringMembers [("method", "set"), ("key", key), ("value", encodedValue)])))
  return store

def getVia (key : String) : Option (Json Decimal × KVStore) := do
  let (retStr, store) ← send
    (stable.stringify (.obj (stringMembers [("method", "get"), ("key", key)])))
  let encodedValue ← Json.parseString .decimal retStr
  let value ← Json.parseString .decimal (← toText encodedValue)
  return (value, store)

variable (k : Keeper) (ports : Ports) (sPort : ℕ) (order : RangeOrder) (store : KVStore)

theorem has_eq_hasVia (key : String) :
    has stable k ports sPort order store key =
      hasVia stable (agccSend k ports order store sPort) key := rfl

theorem set_eq_setVia (key value : String) :
    set stable k ports sPort order store key value =
      setVia stable (agccSend k ports order store sPort) key value := rfl

theorem get_eq_getVia (key : String) :
    get stable k ports sPort order store key =
      getVia stable (agccSend k ports order store sPort) key := rfl

end MailboxStorage

/-! ### Calls -/

/-- A call of one of the functions, with the ports and the gas meter that its request meets. -/
structure StorageCall where
  call : MailboxCall
  ports : Ports
  sPort : ℕ
  meter : GasMeter

namespace StorageCall

variable (stable : StableStringify) (k : Keeper) (store : KVStore)

/-- The order of the loop that the call may take in Go. -/
def order (c : StorageCall) : RangeOrder :=
  match c.call with
  | .set order _ _ | .get order _ | .has order _ => order

def send (c : StorageCall) (str : String) : Option (String × KVStore) :=
  meteredSend k c.meter c.ports c.order store c.sPort str

/-- The text that the call sends. -/
def request (c : StorageCall) : String :=
  stable.stringify (.obj (stringMembers (match c.call with
    | .set _ key value =>
      [("method", "set"), ("key", key), ("value", stable.stringify (.str value))]
    | .get _ key => [("method", "get"), ("key", key)]
    | .has _ key => [("method", "has"), ("key", key)])))

/-- The store after the call, whether it returns or throws. -/
def leaves (stable : StableStringify) (k : Keeper) (store : KVStore) (c : StorageCall) :
    Option KVStore :=
  (c.send k store (c.request stable)).map Prod.snd

/-- A call that returns has done what it says: `set` leaves its value in the store, `get` and `has`
return what the store holds. -/
def Surfaces (c : StorageCall) : Prop :=
  match c.call with
  | .set _ key value => ∀ store', MailboxStorage.setVia stable (c.send k store) key value =
      some store' → k.getStorage store' (encode key) = some ⟨encode (stable.stringify (.str value))⟩
  | .get _ key => ∀ value store', MailboxStorage.getVia stable (c.send k store) key =
      some (value, store') → ∃ storage, k.getStorage store' (encode key) = some storage ∧
        Json.parseString .decimal (if storage.value = [] then "null" else decode storage.value) =
          some value
  | .has _ key => ∀ ret store', MailboxStorage.hasVia stable (c.send k store) key =
      some (ret, store') → ∃ storage, k.getStorage store' (encode key) = some storage ∧
        ret = decide (storage.value ≠ [])

/-- The port has a handler, and the gas lasts until the value is written. -/
def Written (c : StorageCall) : Prop :=
  c.sPort ∈ c.ports.portToHandler ∧ c.meter.Allows 2

/-- The call is no `set`, or its value gets written, or the store holds the value already. -/
def Effective (c : StorageCall) : Prop :=
  match c.call with
  | .set _ key value =>
    c.Written ∨ k.getStorage store (encode key) = some ⟨encode (stable.stringify (.str value))⟩
  | _ => True

end StorageCall

/-! ### What comes back -/

section Sending

variable {k : Keeper} {meter : GasMeter} {ports : Ports} {order : RangeOrder} {store : KVStore}
  {port : ℕ} {text : String}

theorem decode_nil : decode [] = "" := decode_encode ""

theorem meteredSend_unregistered (hport : port ∉ ports.portToHandler) :
    meteredSend k meter ports order store port text = some ("", store) := by
  simp only [meteredSend, meteredSendToGo, if_neg hport, sendToGo, receiveFromNode, Option.map_some,
    decode_nil]

/-- A request that is not out of gas goes to the handler. -/
theorem meteredSend_of_none (h : k.outOfGas meter store (cString (encode text)) = none) :
    meteredSend k meter ports order store port text =
      agccSend k ports order store port text := by
  simp only [meteredSend, meteredSendToGo, h, ite_self, agccSend]

theorem meteredSend_of_some (hport : port ∈ ports.portToHandler) {store' : KVStore}
    (h : k.outOfGas meter store (cString (encode text)) = some store') :
    meteredSend k meter ports order store port text = some ("", store') := by
  simp only [meteredSend, meteredSendToGo, if_pos hport, h, Option.map_some, decode_nil]

theorem outOfGas_limit {gas : ℕ} {str key value : GoString} {method : StorageMethod}
    (hread : readStorageMessage str = .ok (some ⟨method.name, key, value⟩)) :
    k.outOfGas (.limit gas) store str =
      if gas < (k.operations store key method).length ∧
          ((k.operations store key method).take gas).all id = true then
        some (k.interrupted store key value method gas)
      else none := by
  simp only [Keeper.outOfGas, hread, StorageMethod.ofName_name]
  rfl

/-- A request that changes nothing gets the reply of the handler or an empty one. -/
theorem meteredSend_lookup {key value : GoString} {method : StorageMethod} (hmethod : method ≠ .set)
    (hread : readStorageMessage (cString (encode text)) = .ok (some ⟨method.name, key, value⟩)) :
    meteredSend k meter ports order store port text = some ("", store) ∨
      (port ∈ ports.portToHandler ∧ meteredSend k meter ports order store port text =
        agccSend k ports order store port text) := by
  by_cases hport : port ∈ ports.portToHandler
  · cases hgas : k.outOfGas meter store (cString (encode text)) with
    | none => exact Or.inr ⟨hport, meteredSend_of_none hgas⟩
    | some store' =>
      left
      have hstore : store' = store := by
        cases meter with
        | infinite => cases hgas
        | limit gas =>
          rw [outOfGas_limit hread] at hgas
          split_ifs at hgas
          rw [← Option.some.inj hgas, Keeper.interrupted, if_neg fun h ↦ hmethod h.1]
      rw [meteredSend_of_some hport hgas, hstore]
  · exact Or.inl (meteredSend_unregistered hport)

/-- Only `set` changes the store. -/
theorem agccSend_lookup {key value : GoString} {method : StorageMethod} (hmethod : method ≠ .set)
    (hread : readStorageMessage (cString (encode text)) = .ok (some ⟨method.name, key, value⟩))
    {ret : String × KVStore} (hsend : agccSend k ports order store port text = some ret) :
    ret.2 = store := by
  have hreply : ∀ reply, k.reply order store method key value = some reply → reply.2 = store := by
    intro reply hreply
    cases method with
    | set => exact absurd rfl hmethod
    | _ =>
      obtain ⟨text, -, rfl⟩ := Option.map_eq_some_iff.mp hreply
      rfl
  obtain ⟨sent, hsent, rfl⟩ := Option.map_eq_some_iff.mp hsend
  unfold sendToGo receiveFromNode Keeper.receive at hsent
  rw [hread] at hsent
  simp only [k.receiveMessage_name] at hsent
  split at hsent
  · rename_i outstr store' houtcome
    obtain rfl := Option.some.inj hsent
    split_ifs at houtcome
    exact hreply _ (Outcome.ofOption_eq_returned.mp houtcome)
  · obtain rfl := Option.some.inj hsent
    rfl
  · cases hsent

end Sending

/-! ### Stores -/

section Stores

variable {stable : StableStringify} {k : Keeper} {store : KVStore}

/-- A value written without its keys leaves the store readable. -/
theorem Readable.setData (h : Readable k store) (path value : GoString) (hvalue : value ≠ []) :
    Readable k (store.set (dataPath path) (k.storage.marshal ⟨value⟩)) := by
  refine ⟨fun p bz hbz ↦ ?_, fun p ↦ ?_⟩
  · by_cases hp : p = path
    · rw [hp, KVStore.set, Function.update_self] at hbz
      exact ⟨⟨value⟩, Option.some.inj hbz ▸ k.storage.unmarshal_marshal ⟨value⟩, hvalue⟩
    · rw [KVStore.set, Function.update_of_ne fun heq ↦ hp (dataPath_injective heq)] at hbz
      exact h.data p bz hbz
  · rw [Keeper.getKeys, KVStore.set, Function.update_of_ne (dataPath_ne_keysPath path p).symm]
    exact h.keys p

theorem getStorage_setData (path value : GoString) :
    k.getStorage (store.set (dataPath path) (k.storage.marshal ⟨value⟩)) path = some ⟨value⟩ := by
  rw [Keeper.getStorage, KVStore.set, Function.update_self]
  exact k.storage.unmarshal_marshal ⟨value⟩

/-- In a readable store the gas for a `set` runs out at one of its three operations. -/
theorem Readable.outOfGas_set (h : Readable k store) {gas : ℕ} {str key value : GoString}
    (hread : readStorageMessage str = .ok (some ⟨StorageMethod.set.name, key, value⟩)) :
    k.outOfGas (.limit gas) store str =
      if gas < 3 then some (k.interrupted store key value .set gas) else none := by
  obtain ⟨keys, hkeys⟩ := h.keys (parent dot key)
  have hoperations : k.operations store key .set = List.replicate 3 true := by
    rw [Keeper.operations, hkeys]
    rfl
  have hall : ((List.replicate 3 true).take gas).all id = true := by
    rw [List.take_replicate, List.all_replicate]
    simp
  rw [outOfGas_limit hread, hoperations, List.length_replicate]
  simp only [hall, and_true]

/-- `set` returns whatever it leaves, because it does not look at the reply. -/
theorem setVia_eq_map (send : String → Option (String × KVStore)) (key value : String) :
    MailboxStorage.setVia stable send key value =
      (send (stable.stringify (.obj (stringMembers [("method", "set"), ("key", key),
        ("value", stable.stringify (.str value))])))).map Prod.snd :=
  Option.map_eq_bind.symm

/-- What a `set` leaves: its value if the value gets written, else the store as it was. -/
theorem setVia_spec (stable : StableStringify) (h : Readable k store) (meter : GasMeter)
    (ports : Ports) (sPort : ℕ) (order : RangeOrder) (key value : String) :
    ∃ store', MailboxStorage.setVia stable (meteredSend k meter ports order store sPort) key value =
        some store' ∧ Readable k store' ∧
      if sPort ∈ ports.portToHandler ∧ meter.Allows 2 then
        k.getStorage store' (encode key) = some ⟨encode (stable.stringify (.str value))⟩
      else store' = store := by
  have hread := read_update stable key (stable.stringify (.str value))
  rw [← go_eq_encode "set"] at hread
  rw [setVia_eq_map]
  by_cases hport : sPort ∈ ports.portToHandler
  · simp only [hport, true_and]
    cases hgas : k.outOfGas meter store (cString (encode (stable.stringify (.obj (stringMembers
        [("method", "set"), ("key", key), ("value", stable.stringify (.str value))]))))) with
    | none =>
      -- the handler's own `SetStorage`
      obtain ⟨store', hset, hreadable, hget⟩ := h.setStorage order (encode key)
        ⟨encode (stable.stringify (.str value))⟩
      have hallows : meter.Allows 2 := by
        cases meter with
        | infinite => trivial
        | limit gas =>
          rw [h.outOfGas_set hread] at hgas
          split_ifs at hgas with hfew
          exact (Nat.le_succ 2).trans (not_lt.mp hfew)
      refine ⟨store', ?_, hreadable, ?_⟩
      · rw [meteredSend_of_none hgas, ← setVia_eq_map, ← MailboxStorage.set_eq_setVia]
        exact set_eq stable hport order key value hset
      · rw [if_pos hallows, hget, if_pos rfl]
    | some left =>
      rw [meteredSend_of_some hport hgas]
      refine ⟨left, rfl, ?_⟩
      cases meter with
      | infinite => cases hgas
      | limit gas =>
        rw [h.outOfGas_set hread] at hgas
        split_ifs at hgas with hfew
        rw [← Option.some.inj hgas, Keeper.interrupted]
        have hvalue : encode (stable.stringify (.str value)) ≠ [] := fun hnil ↦
          stable.stringify_ne_empty value (encode_injective hnil)
        by_cases hwritten : GasMeter.Allows 2 (.limit gas)
        · rw [if_pos ⟨rfl, hwritten⟩, if_neg hvalue, if_pos hwritten]
          exact ⟨h.setData _ _ hvalue, getStorage_setData _ _⟩
        · rw [if_neg fun hset ↦ hwritten hset.2, if_neg hwritten]
          exact ⟨h, rfl⟩
  · refine ⟨store, ?_, h, ?_⟩
    · rw [meteredSend_unregistered hport, Option.map_some]
    · rw [if_neg fun hwritten ↦ hport hwritten.1]

section Lookups

variable (stable k store) (meter : GasMeter) (ports : Ports) (sPort : ℕ) (order : RangeOrder)
  (key : String)

/-- A lookup whose reply is empty is none, and any other reply is the handler's. -/
theorem bind_lookup {α : Type} (method : StorageMethod) (hmethod : method ≠ .set) {name : String}
    (hname : method.name = encode name) {reply : String × KVStore → Option α}
    (hempty : reply ("", store) = none) :
    let text := stable.stringify (.obj (stringMembers [("method", name), ("key", key)]))
    (meteredSend k meter ports order store sPort text >>= reply) = none ∨
      (sPort ∈ ports.portToHandler ∧ (meteredSend k meter ports order store sPort text >>= reply) =
        (agccSend k ports order store sPort text >>= reply)) := by
  have hread := read_lookup stable name key
  rw [← hname] at hread
  apply (meteredSend_lookup hmethod hread).imp
  · intro hsend
    rw [hsend]
    exact hempty
  · rintro ⟨hport, hsend⟩
    rw [hsend]
    exact ⟨hport, rfl⟩

/-- `has` throws for the empty reply, and any other one is the handler's. -/
theorem hasVia_eq :
    MailboxStorage.hasVia stable (meteredSend k meter ports order store sPort) key = none ∨
      (sPort ∈ ports.portToHandler ∧
        MailboxStorage.hasVia stable (meteredSend k meter ports order store sPort) key =
          MailboxStorage.has stable k ports sPort order store key) :=
  bind_lookup stable k store meter ports sPort order key .has nofun (go_eq_encode "has") rfl

/-- `get` throws for the empty reply, and any other one is the handler's. -/
theorem getVia_eq :
    MailboxStorage.getVia stable (meteredSend k meter ports order store sPort) key = none ∨
      (sPort ∈ ports.portToHandler ∧
        MailboxStorage.getVia stable (meteredSend k meter ports order store sPort) key =
          MailboxStorage.get stable k ports sPort order store key) :=
  bind_lookup stable k store meter ports sPort order key .get nofun (go_eq_encode "get") rfl

end Lookups

end Stores

/-! ### Every call -/

section Calls

variable {stable : StableStringify} {k : Keeper} {store : KVStore}

/-- A call leaves a readable store, whether it returns or throws. -/
theorem StorageCall.readable_of_leaves (h : Readable k store) {c : StorageCall} {store' : KVStore}
    (hleaves : c.leaves stable k store = some store') : Readable k store' := by
  obtain ⟨call, ports, sPort, meter⟩ := c
  obtain ⟨ret, hsend, rfl⟩ := Option.map_eq_some_iff.mp hleaves
  have hlookup : ∀ {key value : GoString} {method : StorageMethod} {order : RangeOrder}
      {text : String}, method ≠ .set →
      readStorageMessage (cString (encode text)) = .ok (some ⟨method.name, key, value⟩) →
      meteredSend k meter ports order store sPort text = some ret → Readable k ret.2 := by
    intro key value method order text hmethod hread hsend
    rcases meteredSend_lookup hmethod hread with hempty | ⟨-, hagcc⟩
    · obtain rfl := Option.some.inj (hempty.symm.trans hsend)
      exact h
    · rw [agccSend_lookup hmethod hread (hagcc.symm.trans hsend)]
      exact h
  cases call with
  | set order key value =>
    obtain ⟨left, hreturn, hreadable, -⟩ := setVia_spec stable h meter ports sPort order key value
    rw [setVia_eq_map] at hreturn
    obtain rfl := Option.some.inj (hleaves.symm.trans hreturn)
    exact hreadable
  | get order key =>
    have hread := read_lookup stable "get" key
    have hmethod : StorageMethod.get ≠ .set := nofun
    rw [← go_eq_encode "get"] at hread
    exact hlookup hmethod hread hsend
  | has order key =>
    have hread := read_lookup stable "has" key
    have hmethod : StorageMethod.has ≠ .set := nofun
    rw [← go_eq_encode "has"] at hread
    exact hlookup hmethod hread hsend

/-- Every sequence of calls leaves a readable store. -/
theorem StorageCall.readable_of_run {calls : List StorageCall}
    (hrun : run (StorageCall.leaves stable k) .empty calls = some store) : Readable k store := by
  have hkeep : ∀ (s : KVStore) (c : StorageCall) (s' : KVStore), Readable k s →
      c.leaves stable k s = some s' → Readable k s' := fun s c s' hs hleaves ↦
    StorageCall.readable_of_leaves hs hleaves
  exact run_inductive hkeep (readable_empty k) hrun

/-- After every sequence of calls, at any ports, with any gas, a further call throws or does what it
says if and only if it is a `get` or a `has`, or a `set` at a port with a handler whose gas lasts
until the value is written, or a `set` of the value that the store holds. -/
theorem surfaces_iff (stable : StableStringify) (k : Keeper) {calls : List StorageCall}
    {store : KVStore} (hrun : run (StorageCall.leaves stable k) .empty calls = some store)
    (c : StorageCall) : c.Surfaces stable k store ↔ c.Effective stable k store := by
  have hreadable := StorageCall.readable_of_run hrun
  obtain ⟨call, ports, sPort, meter⟩ := c
  cases call with
  | set order key value =>
    obtain ⟨left, hreturn, -, hleft⟩ :=
      setVia_spec stable hreadable meter ports sPort order key value
    have hsurfaces :
        StorageCall.Surfaces stable k store ⟨.set order key value, ports, sPort, meter⟩ ↔
        k.getStorage left (encode key) = some ⟨encode (stable.stringify (.str value))⟩ := by
      refine ⟨fun h ↦ h left hreturn, fun h store' hstore' ↦ ?_⟩
      obtain rfl := Option.some.inj (hreturn.symm.trans hstore')
      exact h
    rw [hsurfaces]
    by_cases hwritten : sPort ∈ ports.portToHandler ∧ meter.Allows 2
    · rw [if_pos hwritten] at hleft
      exact iff_of_true hleft (Or.inl hwritten)
    · rw [if_neg hwritten] at hleft
      rw [hleft]
      exact (or_iff_right hwritten).symm
  | get order key =>
    refine iff_of_true (fun value store' hget ↦ ?_) trivial
    obtain ⟨storage, hstorage⟩ := hreadable.getStorage (encode key)
    rcases getVia_eq stable k store meter ports sPort order key with hnone | ⟨hport, hhandler⟩
    · exact absurd (hnone.symm.trans hget) (Option.some_ne_none _).symm
    · have hvalue := (get_eq stable hport order hstorage).symm.trans (hhandler.symm.trans hget)
      obtain ⟨parsed, hparse, hpair⟩ := Option.map_eq_some_iff.mp hvalue
      obtain ⟨rfl, rfl⟩ := Prod.mk.inj hpair
      exact ⟨storage, hstorage, hparse⟩
  | has order key =>
    refine iff_of_true (fun ret store' hhas ↦ ?_) trivial
    obtain ⟨storage, hstorage⟩ := hreadable.getStorage (encode key)
    rcases hasVia_eq stable k store meter ports sPort order key with hnone | ⟨hport, hhandler⟩
    · exact absurd (hnone.symm.trans hhas) (Option.some_ne_none _).symm
    · have hpair := (has_eq stable hport order hstorage).symm.trans (hhandler.symm.trans hhas)
      obtain ⟨rfl, rfl⟩ := Prod.mk.inj (Option.some.inj hpair)
      exact ⟨storage, hstorage, rfl⟩

end Calls

/-- A `set` of the mailbox at a port that has no handler any more. -/
def staleSet : StorageCall where
  call := .set .forward "mailbox" "{}"
  ports := ⟨1, []⟩
  sPort := 1
  meter := .infinite

/-- It returns, and the store holds nothing. -/
theorem staleSet_not_surfaces : ¬ staleSet.Surfaces sortedStringify aminoKeeper .empty := by
  intro h
  have hreturn : MailboxStorage.setVia sortedStringify (staleSet.send aminoKeeper .empty) "mailbox"
      "{}" = some .empty := by
    rw [setVia_eq_map, StorageCall.send, meteredSend_unregistered (by decide), Option.map_some]
  have hvalue := congrArg Storage.value (Option.some.inj (h _ hreturn))
  have hempty : encode (sortedStringify.stringify (.str "{}")) = encode "" := hvalue.symm
  exact sortedStringify.stringify_ne_empty "{}" (encode_injective hempty)

/-- A `set` of the mailbox while its port has a handler. -/
def publishSet : StorageCall where
  call := .set .forward "mailbox" "[]"
  ports := ⟨1, [1]⟩
  sPort := 1
  meter := .infinite

/-- A value is published, and then the port is closed. -/
theorem surfaces_iff_staleSet :
    ∃ store, run (StorageCall.leaves sortedStringify aminoKeeper) .empty [publishSet] = some store ∧
      aminoKeeper.getStorage store (encode "mailbox") =
        some ⟨encode (sortedStringify.stringify (.str "[]"))⟩ ∧
      (staleSet.Surfaces sortedStringify aminoKeeper store ↔
        staleSet.Effective sortedStringify aminoKeeper store) := by
  obtain ⟨store, hset, -, hvalue⟩ := setVia_spec sortedStringify (readable_empty aminoKeeper)
    .infinite ⟨1, [1]⟩ 1 .forward "mailbox" "[]"
  rw [if_pos ⟨List.mem_singleton_self 1, trivial⟩] at hvalue
  have hleaves : publishSet.leaves sortedStringify aminoKeeper .empty = some store := by
    rw [setVia_eq_map] at hset
    exact hset
  have hrun :
      run (StorageCall.leaves sortedStringify aminoKeeper) .empty [publishSet] = some store := by
    rw [run_cons_eq_some]
    exact ⟨store, hleaves, rfl⟩
  exact ⟨store, hrun, hvalue, surfaces_iff sortedStringify aminoKeeper hrun staleSet⟩

end CosmicSwingset.Chain
