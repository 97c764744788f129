import CosmicSwingset.Chain.MailboxStorage
import CosmicSwingset.Chain.Querier
import CosmicSwingset.Foundation.Transition

/-!
# Routes of queries

The commands of `client/cli/query.go` and the handlers of `client/rest/query.go` each build the path
of a query, which the SDK takes apart at the slashes: the first segment is `custom`, the second is
the route of a module, and what follows goes to the querier of the module. `NewQuerier` joins the
segments of a storage or keys query together again, but takes the first one for the peer of a
mailbox query; and `RegisterRoutes` gives the name of the keys variable, instead of that of the
store, to the REST handlers of keys.

In every store that requests of the Node side make, all queries but these two give what the keeper
holds, and these do where the defect does not show (`routes_agree_iff`). The store of the module
starts empty, and `SetMailbox` is never called.

The queriers of the other modules are a parameter of the model. The text of a query is UTF-8, as
the SDK sends it in JSON, and the handlers are taken for themselves: which texts the router of REST
lets through to them is left out.
-/

set_option autoImplicit false
set_option relaxedAutoImplicit false

namespace CosmicSwingset.Chain

open Foundation

/-- A `CosmosSdk` with `cdc.MustUnmarshalJSON` of `QueryResKeys`. -/
structure KeysSdk extends CosmosSdk where
  unmarshalKeysJSON : Bytes → Option (List GoString)
  unmarshal_marshalKeys : ∀ keys : List String,
    unmarshalKeysJSON (marshalKeysIndent (keys.map encode)) = some (keys.map encode)

/-! ### Routing -/

/-- The names of the other modules of `app.go`, under which they register their queriers. -/
def moduleRoutes : List GoString :=
  [go "genaccounts", go "genutil", go "acc", go "bank", go "supply", go "distribution",
    go "slashing", go "staking"]

/-- `StoreKey`. -/
def storeKey : GoString := go "swingset"

/-- `keysName`. -/
def keysName : GoString := go "keys"

section Routing

variable (k : Keeper) (sdk : KeysSdk) (modules : GoString → List GoString → QueryResult)
  (store : KVStore)

/-- What the SDK does with the segments after `custom`. -/
def handleQueryCustom : List GoString → QueryResult
  | [] => some (.error (.unknownRequest (go "No route for custom query specified")))
  | route :: path =>
    if route = [] then
      some (.error (.unknownRequest (go "No route for custom query specified")))
    else if route = storeKey then newQuerier k sdk.toCosmosSdk store path
    else if moduleRoutes.contains route then modules route path
    else some (.error (.unknownRequest (go "no custom querier found for route " ++ route)))

/-- `cliCtx.QueryWithData`, of the paths that begin with `custom`. -/
def queryPath (path : GoString) : QueryResult :=
  match path.splitOn slash with
  | name :: segments =>
    if name = go "custom" then handleQueryCustom k sdk modules store segments
    else some (.error (.unknownRequest (go "unknown query path")))
  | [] => some (.error (.unknownRequest (go "unknown query path")))

/-- `fmt.Sprintf("custom/%s/ENDPOINT/%s", storeName, param)`. -/
def customPath (storeName endpoint param : GoString) : GoString :=
  go "custom" ++ slash :: (storeName ++ slash :: (endpoint ++ slash :: param))

/-! ### The front ends -/

def getCmdGetStorage (queryRoute path : GoString) : GoString :=
  customPath queryRoute (go "storage") path

/-- The path of the command's argument is empty if there is none. -/
def getCmdGetKeys (queryRoute : GoString) (path : Option GoString) : GoString :=
  customPath queryRoute (go "keys") (path.getD [])

def getCmdMailbox (queryRoute peer : GoString) : GoString :=
  customPath queryRoute (go "mailbox") peer

def getStorageHandler (storeName paramType : GoString) : GoString :=
  customPath storeName (go "storage") paramType

def getKeysHandler (storeName : GoString) (paramType : Option GoString) : GoString :=
  match paramType with
  | some paramType => customPath storeName (go "keys") paramType
  | none => customPath storeName (go "keys") []

def getMailboxHandler (storeName paramType : GoString) : GoString :=
  customPath storeName (go "mailbox") paramType

inductive FrontEnd
  | cli
  | rest
  deriving DecidableEq

/-- A query as it is asked; the path of a keys query may be left out. -/
inductive Query
  | storage (path : String)
  | keys (path : Option String)
  | mailbox (peer : String)
  deriving DecidableEq

/-- The path that a front end builds: `GetQueryCmd` and `RegisterRoutes`. -/
def Query.path (fe : FrontEnd) (q : Query) : GoString :=
  match fe, q with
  | .cli, storage path => getCmdGetStorage storeKey (encode path)
  | .cli, keys path => getCmdGetKeys storeKey (path.map encode)
  | .cli, mailbox peer => getCmdMailbox storeKey (encode peer)
  | .rest, storage path => getStorageHandler storeKey (encode path)
  | .rest, keys path => getKeysHandler keysName (path.map encode)
  | .rest, mailbox peer => getMailboxHandler storeKey (encode peer)

/-- `QueryResStorage` and `QueryResKeys`. -/
inductive Value
  | storage (value : GoString)
  | keys (keys : List GoString)
  deriving DecidableEq

def Value.marshal (sdk : KeysSdk) : Value → Bytes
  | storage value => sdk.marshalJSONIndent value
  | keys names => sdk.marshalKeysIndent names

/-- What a command gives to `PrintOutput`, or the body of a response. -/
inductive Answer
  | out (value : Value)
  | body (res : Bytes)
  deriving DecidableEq

/-- What a front end makes of an answer. -/
def Query.receive (sdk : KeysSdk) (res : Bytes) (fe : FrontEnd) (q : Query) : Option Answer :=
  match fe, q with
  | .cli, storage _ | .cli, mailbox _ =>
    (sdk.unmarshalJSON res).map fun value ↦ .out (.storage value)
  | .cli, keys _ => (sdk.unmarshalKeysJSON res).map fun names ↦ .out (.keys names)
  | .rest, _ => some (.body res)

/-- The answer of a front end to a query, or its error; `none` is a panic. -/
def Query.answer (fe : FrontEnd) (q : Query) : Option (Except SdkError Answer) :=
  match queryPath k sdk modules store (q.path fe) with
  | none => none
  | some (.error err) => some (.error err)
  | some (.ok res) => (q.receive sdk res fe).map .ok

/-! ### What the keeper holds -/

/-- The value that the keeper holds for the path or peer of a query, if it holds one. -/
def Query.held : Query → Option (Option Value)
  | storage path => (k.getStorage store (encode path)).map fun storage ↦
      if storage.value = [] then none else some (.storage storage.value)
  | keys path => (k.getKeys store (encode (path.getD ""))).map fun keys ↦
      if keys.keys = [] then none else some (.keys keys.keys)
  | mailbox peer => (k.getMailbox store (encode peer)).map fun mailbox ↦
      if mailbox.value = [] then none else some (.storage mailbox.value)

def FrontEnd.answerOf (sdk : KeysSdk) (fe : FrontEnd) (value : Value) : Answer :=
  match fe with
  | cli => .out value
  | rest => .body (value.marshal sdk)

/-- The answer shows the value, or it is an error if there is none. -/
def Shows (fe : FrontEnd) (held : Option Value)
    (answer : Option (Except SdkError Answer)) : Prop :=
  match held with
  | some value => answer = some (.ok (fe.answerOf sdk value))
  | none => ∃ err, answer = some (.error err)

/-- A front end answers a query with what the keeper holds. -/
def Agrees (fe : FrontEnd) (q : Query) : Prop :=
  ∃ held, q.held k store = some held ∧ Shows sdk fe held (q.answer k sdk modules store fe)

/-- What the querier takes for the peer. -/
def firstSegment (path : GoString) : GoString := path.takeWhile fun b ↦ b ≠ slash

/-- The keeper holds no keys for the path of a keys query over REST, and the same mailbox for the
peer of a mailbox query and for the peer's first segment. -/
def Routed : FrontEnd → Query → Prop
  | .rest, .keys path => (Query.keys path).held k store = some none
  | _, .mailbox peer =>
    k.getMailbox store (firstSegment (encode peer)) = k.getMailbox store (encode peer)
  | _, _ => True

end Routing

/-! ### Reachable stores -/

/-- One request of the Node side at a registered port, with the order of the loop that it may take.
The process does not outlive a panic. -/
def requestStep (k : Keeper) (store : KVStore) (request : RangeOrder × GoString) : Option KVStore :=
  match k.receive request.1 store request.2 with
  | .returned (_, store) => some store
  | .failed _ => some store
  | .panicked => none

/-- The UTF-8 of some text. -/
def IsText (s : GoString) : Prop := ∃ text, s = encode text

/-- A readable store of texts. -/
structure Textual (k : Keeper) (store : KVStore) : Prop where
  readable : Readable k store
  value : ∀ path storage, k.getStorage store path = some storage → IsText storage.value
  names : ∀ path keys, k.getKeys store path = some keys → ∀ name ∈ keys.keys, IsText name

theorem isText_nil : IsText [] := ⟨"", rfl⟩

/-- The segments of a text are texts, because the separator is a character of its own. -/
theorem isText_of_mem_splitOn {path : GoString} (h : IsText path) {segment : GoString}
    (hsegment : segment ∈ path.splitOn dot) : IsText segment := by
  obtain ⟨text, rfl⟩ := h
  rw [encode] at hsegment
  generalize text.toList = chars at hsegment
  induction chars generalizing segment with
  | nil =>
    rw [List.flatMap_nil, List.splitOn_nil, List.mem_singleton] at hsegment
    exact hsegment ▸ isText_nil
  | cons c chars ih =>
    obtain ⟨first, rest, hsplit⟩ :=
      List.exists_cons_of_ne_nil (List.splitOn_ne_nil dot (chars.flatMap encodeChar))
    rw [List.flatMap_cons] at hsegment
    by_cases hc : c = '.'
    · have hdot : encodeChar c = [] ++ [dot] := by
        rw [hc]
        decide
      rw [hdot, List.append_assoc, List.singleton_append, List.splitOn_append_cons_self,
        List.splitOn_nil] at hsegment
      rcases List.mem_cons.mp hsegment with rfl | hrest
      · exact isText_nil
      · exact ih hrest
    · have hdot : dot ∉ encodeChar c := fun hmem ↦
        hc (Char.toNat_inj.mp (toNat_of_mem_encodeChar (by decide) hmem))
      rw [splitOn_append_of_not_mem dot hdot, hsplit, List.modifyHead_cons] at hsegment
      rcases List.mem_cons.mp hsegment with rfl | hrest
      · obtain ⟨text, htext⟩ := ih (hsplit ▸ List.mem_cons_self)
        refine ⟨String.ofList [c] ++ text, ?_⟩
        rw [encode_append, ← htext, encode, String.toList_ofList, List.flatMap_singleton]
      · exact ih (hsplit ▸ List.mem_cons_of_mem first hrest)

theorem textual_empty (k : Keeper) : Textual k .empty where
  readable := readable_empty k
  value := fun path storage hget ↦ by
    rw [← Option.some.inj hget]
    exact isText_nil
  names := fun path keys hget ↦ by
    rw [← Option.some.inj hget]
    exact fun name hname ↦ nomatch hname

/-- `SetStorage` of texts keeps a store of texts. -/
theorem Textual.setStorage {k : Keeper} {store : KVStore} (h : Textual k store)
    (order : RangeOrder) {path value : GoString} (hpath : IsText path) (hvalue : IsText value)
    {store' : KVStore} (hset : k.setStorage order store path ⟨value⟩ = some store') :
    Textual k store' := by
  obtain ⟨next, hnext, hreadable, hstorage⟩ := h.readable.setStorage order path ⟨value⟩
  obtain rfl := Option.some.inj (hset.symm.trans hnext)
  obtain ⟨⟨names⟩, hnames⟩ := h.readable.keys (parent dot path)
  refine ⟨hreadable, fun p storage hget ↦ ?_, fun p keys hget ↦ ?_⟩
  · rw [hstorage] at hget
    split_ifs at hget with hp
    · exact Option.some.inj hget ▸ hvalue
    · exact h.value p storage hget
  · have hraw := Option.some.inj ((setStorage_eq order path ⟨value⟩ hnames).symm.trans hset)
    rw [Keeper.getKeys, ← hraw] at hget
    by_cases hp : p = parent dot path
    · rw [hp, Function.update_self] at hget
      split_ifs at hget with hempty
      · rw [← Option.some.inj hget]
        exact List.forall_mem_nil _
      · have hkeys := (k.keys.unmarshal_marshal _).symm.trans hget
        rw [← Option.some.inj hkeys]
        intro name hname
        have hmem := (order.perm _).mem_iff.mp ((sortStrings_perm _).mem_iff.mp hname)
        rw [mem_keyMap] at hmem
        split_ifs at hmem with hleaf
        · exact hleaf ▸ isText_of_mem_splitOn hpath (List.getLast_mem _)
        · exact h.names _ _ hnames name hmem
    · rw [Function.update_of_ne fun heq ↦ hp (keysPath_injective heq),
        Function.update_of_ne (dataPath_ne_keysPath path p).symm] at hget
      exact h.names p keys hget

theorem isText_stringField {field : String} {members : List (String × Json Decimal)}
    {v : GoString} (h : stringField field members = .ok v) : IsText v := by
  have hfold : ∀ acc, IsText acc → members.foldlM (setField field) acc = .ok v → IsText v := by
    clear h
    induction members with
    | nil =>
      intro acc hacc h
      exact Except.ok.inj h ▸ hacc
    | cons member members ih =>
      intro acc hacc h
      rw [List.foldlM_cons] at h
      cases hset : setField field acc member with
      | error err =>
        rw [hset] at h
        cases h
      | ok next =>
        rw [hset] at h
        refine ih next ?_ h
        unfold setField at hset
        split_ifs at hset
        · split at hset
          · exact Except.ok.inj hset ▸ ⟨_, rfl⟩
          · exact Except.ok.inj hset ▸ hacc
          · cases hset
        · exact Except.ok.inj hset ▸ hacc
  exact hfold [] isText_nil h

/-- JSON has no other strings than texts. -/
theorem isText_of_readStorageMessage {str : GoString} {msg : StorageMessage}
    (h : readStorageMessage str = .ok (some msg)) : IsText msg.key ∧ IsText msg.value := by
  unfold readStorageMessage at h
  split at h
  · cases h
  · rename_i members _
    cases hmethod : stringField "method" members with
    | error err =>
      rw [hmethod] at h
      cases h
    | ok method =>
      cases hkey : stringField "key" members with
      | error err =>
        rw [hmethod, hkey] at h
        cases h
      | ok key =>
        cases hvalue : stringField "value" members with
        | error err =>
          rw [hmethod, hkey, hvalue] at h
          cases h
        | ok value =>
          rw [hmethod, hkey, hvalue] at h
          obtain rfl : ⟨method, key, value⟩ = msg := Option.some.inj (Except.ok.inj h)
          exact ⟨isText_stringField hkey, isText_stringField hvalue⟩
  · cases h

/-- A request keeps a store of texts. -/
theorem Textual.requestStep {k : Keeper} {store : KVStore} (h : Textual k store)
    {request : RangeOrder × GoString} {store' : KVStore}
    (hstep : requestStep k store request = some store') : Textual k store' := by
  obtain ⟨order, str⟩ := request
  unfold Chain.requestStep Keeper.receive at hstep
  cases hread : readStorageMessage str with
  | error err =>
    rw [hread] at hstep
    exact Option.some.inj hstep ▸ h
  | ok msg =>
    rw [hread] at hstep
    cases msg with
    | none => cases hstep
    | some msg =>
      change (match k.receiveMessage order store msg with
        | .returned (_, store) => some store
        | .failed _ => some store
        | .panicked => none) = some store' at hstep
      cases hreply : k.receiveMessage order store msg with
      | failed err =>
        rw [hreply] at hstep
        exact Option.some.inj hstep ▸ h
      | panicked =>
        rw [hreply] at hstep
        cases hstep
      | returned ret =>
        rw [hreply] at hstep
        obtain rfl : ret.2 = store' := Option.some.inj hstep
        obtain ⟨method, hmethod⟩ := Keeper.reply_of_returned k hreply
        cases method with
        | set =>
          obtain ⟨next, hset, rfl⟩ := Option.map_eq_some_iff.mp hmethod
          obtain ⟨hkey, hvalue⟩ := isText_of_readStorageMessage hread
          exact h.setStorage order hkey hvalue hset
        | _ =>
          obtain ⟨text, -, rfl⟩ := Option.map_eq_some_iff.mp hmethod
          exact h

theorem textual_of_run {k : Keeper} {requests : List (RangeOrder × GoString)} {store : KVStore}
    (hrun : run (requestStep k) .empty requests = some store) : Textual k store := by
  have hkeep : ∀ (s : KVStore) (request : RangeOrder × GoString) (s' : KVStore), Textual k s →
      requestStep k s request = some s' → Textual k s' := fun _ _ _ hs hstep ↦
    hs.requestStep hstep
  exact run_inductive hkeep (textual_empty k) hrun

/-- The keeper's mailbox of a peer is what the storage handler has at the key `mailbox.PEER`, or the
default if that is nothing. -/
theorem Readable.getMailbox_eq {k : Keeper} {store : KVStore} (h : Readable k store)
    (peer : GoString) :
    k.getMailbox store peer = (k.getStorage store (go "mailbox." ++ peer)).map fun storage ↦
      if storage.value = [] then newMailbox else storage := by
  have hpath : go "data:mailbox." ++ peer = dataPath (go "mailbox." ++ peer) := by
    have hstart : go "data:mailbox." = go "data:" ++ go "mailbox." := by decide
    rw [dataPath, hstart, List.append_assoc]
  rw [Keeper.getMailbox, Keeper.getStorage, hpath]
  cases hraw : store (dataPath (go "mailbox." ++ peer)) with
  | none => rfl
  | some bz =>
    obtain ⟨storage, hdecode, hvalue⟩ := h.data _ bz hraw
    simp only [hdecode, Option.map_some, if_neg hvalue]

theorem Readable.getMailbox {k : Keeper} {store : KVStore} (h : Readable k store)
    (peer : GoString) : ∃ mailbox, k.getMailbox store peer = some mailbox := by
  obtain ⟨storage, hget⟩ := h.getStorage (go "mailbox." ++ peer)
  rw [h.getMailbox_eq, hget]
  exact ⟨_, rfl⟩

/-! ### Routing a path -/

theorem splitOn_eq_firstSegment (path : GoString) :
    ∃ rest, path.splitOn slash = firstSegment path :: rest := by
  induction path with
  | nil => exact ⟨[], rfl⟩
  | cons b path ih =>
    obtain ⟨rest, hrest⟩ := ih
    rw [List.splitOn_cons_eq_if_modifyHead, hrest]
    by_cases hb : b = slash
    · have hfirst : firstSegment (b :: path) = [] := by simp [firstSegment, hb]
      rw [if_pos (beq_iff_eq.mpr hb), hfirst]
      exact ⟨_, rfl⟩
    · have hfirst : firstSegment (b :: path) = b :: firstSegment path := by simp [firstSegment, hb]
      rw [if_neg fun h ↦ hb (beq_iff_eq.mp h), List.modifyHead_cons, hfirst]
      exact ⟨rest, rfl⟩

section Routes

variable {k : Keeper} {sdk : KeysSdk} {modules : GoString → List GoString → QueryResult}
  {store : KVStore}

theorem queryPath_customPath {storeName endpoint : GoString} (hname : slash ∉ storeName)
    (hendpoint : slash ∉ endpoint) (param : GoString) :
    queryPath k sdk modules store (customPath storeName endpoint param) =
      handleQueryCustom k sdk modules store (storeName :: endpoint :: param.splitOn slash) := by
  have hcustom : slash ∉ go "custom" := by decide
  rw [queryPath, customPath]
  simp only [List.splitOn_append_cons_self, List.splitOn_eq_singleton hcustom,
    List.splitOn_eq_singleton hname, List.splitOn_eq_singleton hendpoint, List.singleton_append,
    if_true]

/-- What follows the route of the module goes to its querier. -/
theorem queryPath_storeKey {endpoint : GoString} (hendpoint : slash ∉ endpoint)
    (param : GoString) :
    queryPath k sdk modules store (customPath storeKey endpoint param) =
      newQuerier k sdk.toCosmosSdk store (endpoint :: param.splitOn slash) := by
  have hname : slash ∉ storeKey := by decide
  have hne : storeKey ≠ [] := by decide
  rw [queryPath_customPath hname hendpoint, handleQueryCustom, if_neg hne, if_pos rfl]

/-- No module has the route `keys`. -/
theorem queryPath_keysName (param : GoString) :
    ∃ err, queryPath k sdk modules store (customPath keysName (go "keys") param) =
      some (.error err) := by
  have hname : slash ∉ keysName := by decide
  have hne : keysName ≠ [] := by decide
  have hstore : keysName ≠ storeKey := by decide
  have hmodules : ¬ moduleRoutes.contains keysName := by decide
  have hendpoint : slash ∉ go "keys" := hname
  rw [queryPath_customPath hname hendpoint, handleQueryCustom, if_neg hne, if_neg hstore,
    if_neg hmodules]
  exact ⟨_, rfl⟩

theorem queryPath_storage (path : GoString) :
    queryPath k sdk modules store (customPath storeKey (go "storage") path) =
      queryStorage k sdk.toCosmosSdk store path := by
  rw [queryPath_storeKey (by decide), newQuerier, if_pos rfl, List.intercalate_splitOn]

theorem queryPath_keys (path : GoString) :
    queryPath k sdk modules store (customPath storeKey (go "keys") path) =
      queryKeys k sdk.toCosmosSdk store path := by
  have hstorage : go "keys" ≠ go "storage" := by decide
  rw [queryPath_storeKey (by decide), newQuerier, if_neg hstorage, if_pos rfl,
    List.intercalate_splitOn]

theorem queryPath_mailbox (peer : GoString) :
    queryPath k sdk modules store (customPath storeKey (go "mailbox") peer) =
      queryMailbox k sdk.toCosmosSdk store [firstSegment peer] := by
  have hstorage : go "mailbox" ≠ go "storage" := by decide
  have hkeys : go "mailbox" ≠ go "keys" := by decide
  obtain ⟨rest, hrest⟩ := splitOn_eq_firstSegment peer
  rw [queryPath_storeKey (by decide), newQuerier, if_neg hstorage, if_neg hkeys, if_pos rfl,
    hrest]
  rfl

/-! ### Answers -/

/-- A storage value or keys of texts. -/
def Value.IsText : Value → Prop
  | storage value => Chain.IsText value
  | keys names => ∀ name ∈ names, Chain.IsText name

/-- What a front end makes of the text of a value shows the value. -/
theorem receive_storage {value : GoString} (hvalue : IsText value) (fe : FrontEnd) (q : Query)
    (hq : ∀ path, q ≠ .keys path) :
    q.receive sdk ((Value.storage value).marshal sdk) fe =
      some (fe.answerOf sdk (.storage value)) := by
  obtain ⟨text, rfl⟩ := hvalue
  have hread := sdk.unmarshal_marshal text
  cases fe with
  | rest => rfl
  | cli =>
    cases q with
    | keys path => exact absurd rfl (hq path)
    | _ =>
      rw [Query.receive, Value.marshal, hread]
      rfl

theorem receive_keys {names : List GoString} (hnames : ∀ name ∈ names, IsText name)
    (fe : FrontEnd) (path : Option String) :
    (Query.keys path).receive sdk ((Value.keys names).marshal sdk) fe =
      some (fe.answerOf sdk (.keys names)) := by
  have htexts : names = (names.map decode).map encode := by
    have hdecode : ∀ name ∈ names, (encode ∘ decode) name = id name := fun name hname ↦ by
      obtain ⟨text, rfl⟩ := hnames name hname
      rw [Function.comp_apply, decode_encode, id]
    rw [List.map_map, List.map_congr_left hdecode, List.map_id]
  cases fe with
  | rest => rfl
  | cli =>
    have hread := sdk.unmarshal_marshalKeys (names.map decode)
    rw [← htexts] at hread
    rw [Query.receive, Value.marshal, hread]
    rfl

/-- A query shows what its path is answered with. -/
theorem Query.shows {fe : FrontEnd} {q : Query} {held : Option Value}
    (hsome : ∀ value ∈ held, queryPath k sdk modules store (q.path fe) =
        some (.ok (value.marshal sdk)) ∧
      q.receive sdk (value.marshal sdk) fe = some (fe.answerOf sdk value))
    (hnone : held = none → ∃ err, queryPath k sdk modules store (q.path fe) = some (.error err)) :
    Shows sdk fe held (q.answer k sdk modules store fe) := by
  cases held with
  | none =>
    obtain ⟨err, herr⟩ := hnone rfl
    refine ⟨err, ?_⟩
    rw [answer, herr]
  | some value =>
    obtain ⟨hquery, hreceive⟩ := hsome value rfl
    change q.answer k sdk modules store fe = some (.ok (fe.answerOf sdk value))
    rw [answer, hquery]
    simp only [hreceive, Option.map_some]

/-- An answer shows one storage value only. -/
theorem Shows.storage_unique {fe : FrontEnd} {value value' : GoString} (hvalue : IsText value)
    (hvalue' : IsText value') {answer : Option (Except SdkError Answer)}
    (h : Shows sdk fe (some (.storage value)) answer)
    (h' : Shows sdk fe (some (.storage value')) answer) : value = value' := by
  have hanswer : fe.answerOf sdk (.storage value) = fe.answerOf sdk (.storage value') :=
    Except.ok.inj (Option.some.inj (h.symm.trans h'))
  cases fe with
  | cli => exact Value.storage.inj (Answer.out.inj hanswer)
  | rest =>
    obtain ⟨text, rfl⟩ := hvalue
    obtain ⟨text', rfl⟩ := hvalue'
    have hres : sdk.marshalJSONIndent (encode text) = sdk.marshalJSONIndent (encode text') :=
      Answer.body.inj hanswer
    have hread := congrArg sdk.unmarshalJSON hres
    rw [sdk.unmarshal_marshal, sdk.unmarshal_marshal] at hread
    exact Option.some.inj hread

/-- A query that is answered with a storage value shows it, or an error if it is empty. -/
theorem shows_value {fe : FrontEnd} {q : Query} {value : GoString} {err : SdkError}
    (hvalue : IsText value) (hq : ∀ path, q ≠ .keys path)
    (hquery : queryPath k sdk modules store (q.path fe) =
      some (if value = [] then .error err else .ok (sdk.marshalJSONIndent value))) :
    Shows sdk fe (if value = [] then none else some (.storage value))
      (q.answer k sdk modules store fe) := by
  by_cases hempty : value = []
  · rw [if_pos hempty] at hquery ⊢
    exact Query.shows (fun _ hnone ↦ nomatch hnone) fun _ ↦ ⟨err, hquery⟩
  · rw [if_neg hempty] at hquery ⊢
    refine Query.shows (fun held hheld ↦ ?_) nofun
    rw [← Option.some.inj hheld]
    exact ⟨hquery, receive_storage hvalue fe q hq⟩

/-- A storage query shows the value that the keeper holds. -/
theorem Textual.agrees_storage (h : Textual k store) (fe : FrontEnd) (path : String) :
    Agrees k sdk modules store fe (.storage path) := by
  obtain ⟨storage, hget⟩ := h.readable.getStorage (encode path)
  have hquery : queryPath k sdk modules store ((Query.storage path).path fe) =
      queryStorage k sdk.toCosmosSdk store (encode path) := by
    cases fe with
    | cli => exact queryPath_storage (encode path)
    | rest => exact queryPath_storage (encode path)
  have hresult : queryStorage k sdk.toCosmosSdk store (encode path) =
      some (if storage.value = [] then .error (.unknownRequest (go "could not get storage"))
        else .ok (sdk.marshalJSONIndent storage.value)) := by
    rw [queryStorage, hget]
    rfl
  exact ⟨_, congrArg (Option.map _) hget,
    shows_value (h.value _ _ hget) nofun (hquery.trans hresult)⟩

theorem Textual.getMailbox (h : Textual k store) (peer : GoString) :
    ∃ value, k.getMailbox store peer = some ⟨value⟩ ∧ value ≠ [] ∧ IsText value := by
  obtain ⟨storage, hget⟩ := h.readable.getStorage (go "mailbox." ++ peer)
  rw [h.readable.getMailbox_eq, hget, Option.map_some]
  by_cases hempty : storage.value = []
  · rw [if_pos hempty]
    exact ⟨emptyMailboxValue, rfl, by decide, _, go_eq_encode _⟩
  · rw [if_neg hempty]
    exact ⟨storage.value, rfl, hempty, h.value _ _ hget⟩

variable (sdk modules) in
/-- A mailbox query shows the mailbox of the first segment of its peer. -/
theorem shows_mailbox (fe : FrontEnd) (peer : String) {value : GoString} (hvalue : value ≠ [])
    (htext : IsText value)
    (hget : k.getMailbox store (firstSegment (encode peer)) = some ⟨value⟩) :
    Shows sdk fe (some (.storage value))
      ((Query.mailbox peer).answer k sdk modules store fe) := by
  have hquery : queryPath k sdk modules store ((Query.mailbox peer).path fe) =
      queryMailbox k sdk.toCosmosSdk store [firstSegment (encode peer)] := by
    cases fe with
    | cli => exact queryPath_mailbox (encode peer)
    | rest => exact queryPath_mailbox (encode peer)
  have hresult : queryMailbox k sdk.toCosmosSdk store [firstSegment (encode peer)] =
      some (if value = [] then .error (.unknownRequest (go "could not get peer mailbox"))
        else .ok (sdk.marshalJSONIndent value)) := by
    rw [queryMailbox, hget]
    rfl
  have hmailbox : ∀ path, Query.mailbox peer ≠ .keys path := by
    intro path h
    contradiction
  have hshows := shows_value htext hmailbox (hquery.trans hresult)
  rw [if_neg hvalue] at hshows
  exact hshows

theorem Textual.agrees_mailbox_iff (h : Textual k store) (fe : FrontEnd) (peer : String) :
    Agrees k sdk modules store fe (.mailbox peer) ↔
      k.getMailbox store (firstSegment (encode peer)) = k.getMailbox store (encode peer) := by
  obtain ⟨value, hget, hvalue, htext⟩ := h.getMailbox (encode peer)
  obtain ⟨first, hfirst, hne, hfirstText⟩ := h.getMailbox (firstSegment (encode peer))
  have hheld : (Query.mailbox peer).held k store = some (some (.storage value)) := by
    rw [Query.held, hget, Option.map_some, if_neg hvalue]
  have hshows := shows_mailbox sdk modules fe peer hne hfirstText hfirst
  rw [hget, hfirst, Option.some.injEq, Storage.mk.injEq]
  constructor
  · rintro ⟨held, hheld', hanswer⟩
    obtain rfl := Option.some.inj (hheld.symm.trans hheld')
    exact hshows.storage_unique hfirstText htext hanswer
  · rintro rfl
    exact ⟨_, hheld, hshows⟩

/-- Over the command line a keys query shows the keys that the keeper holds. -/
theorem Textual.agrees_keys (h : Textual k store) (path : Option String) :
    Agrees k sdk modules store .cli (.keys path) := by
  obtain ⟨⟨names⟩, hget⟩ := h.readable.keys (encode (path.getD ""))
  have hpath : (path.map encode).getD [] = encode (path.getD "") := by
    cases path <;> rfl
  have hquery : queryPath k sdk modules store ((Query.keys path).path .cli) =
      queryKeys k sdk.toCosmosSdk store (encode (path.getD "")) := by
    rw [← hpath]
    exact queryPath_keys _
  have hresult : queryKeys k sdk.toCosmosSdk store (encode (path.getD "")) =
      some (if names = [] then .error (.unknownRequest (go "could not get keys"))
        else .ok (sdk.marshalKeysIndent names)) := by
    rw [queryKeys, hget]
    rfl
  have hheld : (Query.keys path).held k store =
      some (if names = [] then none else some (.keys names)) := congrArg (Option.map _) hget
  refine ⟨_, hheld, ?_⟩
  by_cases hempty : names = []
  · rw [if_pos hempty] at hresult ⊢
    exact Query.shows (fun _ hnone ↦ nomatch hnone) fun _ ↦ ⟨_, hquery.trans hresult⟩
  · rw [if_neg hempty] at hresult ⊢
    refine Query.shows (fun held hheld ↦ ?_) nofun
    rw [← Option.some.inj hheld]
    exact ⟨hquery.trans hresult, receive_keys (h.names _ _ hget) .cli path⟩

/-- Over REST a keys query is an error whatever the keeper holds. -/
theorem agrees_restKeys_iff (path : Option String) :
    Agrees k sdk modules store .rest (.keys path) ↔
      (Query.keys path).held k store = some none := by
  have hquery : ∃ err, queryPath k sdk modules store ((Query.keys path).path .rest) =
      some (.error err) := by
    cases path with
    | none => exact queryPath_keysName []
    | some path => exact queryPath_keysName (encode path)
  obtain ⟨err, herr⟩ := hquery
  have hanswer : (Query.keys path).answer k sdk modules store .rest = some (.error err) := by
    rw [Query.answer, herr]
  constructor
  · rintro ⟨held, hheld, hshows⟩
    cases held with
    | none => exact hheld
    | some value =>
      have hcontra := hanswer.symm.trans hshows
      simp at hcontra
  · exact fun hheld ↦ ⟨none, hheld, err, hanswer⟩

variable (sdk) in
/-- A list of segments is answered or refused unless it has no first segment, or begins a mailbox
query and has no second one. -/
theorem Textual.newQuerier_ne_none_iff (h : Textual k store) (segments : List GoString) :
    newQuerier k sdk.toCosmosSdk store segments ≠ none ↔
      segments ≠ [] ∧ segments ≠ [go "mailbox"] := by
  have hmailbox : go "mailbox" ≠ go "storage" ∧ go "mailbox" ≠ go "keys" := by decide
  match segments with
  | [] => simp [newQuerier]
  | endpoint :: path =>
    rw [newQuerier]
    split_ifs with hstorage hkeys hbox
    · obtain ⟨storage, hget⟩ := h.readable.getStorage ([slash].intercalate path)
      have hne : endpoint :: path ≠ [go "mailbox"] := fun heq ↦
        hmailbox.1 ((List.cons.inj heq).1.symm.trans hstorage)
      simp [queryStorage, hget, hne]
    · obtain ⟨keys, hget⟩ := h.readable.keys ([slash].intercalate path)
      have hne : endpoint :: path ≠ [go "mailbox"] := fun heq ↦
        hmailbox.2 ((List.cons.inj heq).1.symm.trans hkeys)
      simp [queryKeys, hget, hne]
    · cases path with
      | nil => simp [queryMailbox, hbox]
      | cons peer rest =>
        obtain ⟨value, hget, -⟩ := h.getMailbox peer
        simp [queryMailbox, hget]
    · have hne : endpoint :: path ≠ [go "mailbox"] := fun heq ↦ hbox (List.cons.inj heq).1
      simp [hne]

/-- In every store that requests of the Node side make, a front end answers a query with what the
keeper holds if and only if it is no keys query over REST for which the keeper holds keys, and no
mailbox query whose peer has another mailbox than its first segment; and the querier answers or
refuses a list of segments, without a panic, if and only if it is neither empty nor `mailbox`
alone. -/
theorem routes_agree_iff (k : Keeper) (sdk : KeysSdk)
    (modules : GoString → List GoString → QueryResult) {requests : List (RangeOrder × GoString)}
    {store : KVStore} (hrun : run (requestStep k) .empty requests = some store) :
    (∀ fe q, Agrees k sdk modules store fe q ↔ Routed k store fe q) ∧
      ∀ segments, newQuerier k sdk.toCosmosSdk store segments ≠ none ↔
        segments ≠ [] ∧ segments ≠ [go "mailbox"] := by
  have htextual := textual_of_run hrun
  refine ⟨fun fe q ↦ ?_, htextual.newQuerier_ne_none_iff sdk⟩
  cases q with
  | storage path =>
    refine iff_of_true (htextual.agrees_storage fe path) ?_
    cases fe <;> trivial
  | mailbox peer =>
    rw [htextual.agrees_mailbox_iff]
    cases fe <;> rfl
  | keys path =>
    cases fe with
    | cli => exact iff_of_true (htextual.agrees_keys path) trivial
    | rest => exact agrees_restKeys_iff path

end Routes

/-! ### Amino -/

/-- What follows a key in the text of an answer. -/
def keysTail : List String → List Char
  | [] => ['\n', ' ', ' '] ++ [']', '\n', '}']
  | key :: keys => ',' :: (['\n', ' ', ' ', ' ', ' '] ++
      '"' :: (Json.Escapes.go.literalTail key ++ keysTail keys))

/-- Keys are read one by one, the first one after any white space. -/
theorem parseElements_keys {ws : List Char} (hws : Spaces ws) (key : String) (keys : List String)
    {fuel : ℕ} (hfuel : keys.length + 2 ≤ fuel) :
    Json.parseElements .decimal fuel
        (ws ++ '"' :: (Json.Escapes.go.literalTail key ++ keysTail keys)) =
      some ((key :: keys).map Json.str, ['\n', '}']) := by
  have hquote : Json.isSpace '"' = false := by decide
  have hvalue : ∀ {ws : List Char} (hws : Spaces ws) (fuel : ℕ) (key : String) (rest : List Char),
      Json.parseValue .decimal (fuel + 1)
        (ws ++ '"' :: (Json.Escapes.go.literalTail key ++ rest)) = some (.str key, rest) := by
    intro ws hws fuel key rest
    rw [Json.parseValue.eq_def]
    simp only [skipSpace_append hws hquote, Json.Escapes.readString_literalTail, Option.map_some]
  induction keys generalizing ws key fuel with
  | nil =>
    obtain ⟨fuel, rfl⟩ := Nat.exists_eq_add_of_le' (show 2 ≤ fuel from hfuel)
    rw [Json.parseElements.eq_def]
    have hend : Json.skipSpace (keysTail []) = [']', '\n', '}'] :=
      skipSpace_append (show Spaces ['\n', ' ', ' '] from rfl) (by decide) _
    simp only [hvalue hws, hend]
    rfl
  | cons next keys ih =>
    rw [List.length_cons] at hfuel
    obtain ⟨fuel, rfl⟩ := Nat.exists_eq_add_of_le' (show 2 ≤ fuel by omega)
    rw [Json.parseElements.eq_def]
    have hrest := ih (show Spaces ['\n', ' ', ' ', ' ', ' '] from rfl) next
      (show keys.length + 2 ≤ fuel + 1 by omega)
    have hcomma : Json.skipSpace (keysTail (next :: keys)) = keysTail (next :: keys) :=
      Json.skipSpace_cons (by decide) _
    simp only [hvalue hws, hcomma]
    rw [keysTail]
    simp only [hrest, Option.map_some]
    rfl

/-- The keys in the text of an answer, and its end. -/
def keysBody : List String → List Char
  | [] => keysTail []
  | key :: keys => ['\n', ' ', ' ', ' ', ' '] ++
      '"' :: (Json.Escapes.go.literalTail key ++ keysTail keys)

/-- The indented text of an answer with keys. -/
def keysText (keys : List String) : List Char :=
  '{' :: (['\n', ' ', ' '] ++ '"' :: (Json.Escapes.go.literalTail "keys" ++ ':' ::
    ([' '] ++ '[' :: keysBody keys)))

theorem length_le_keysTail (keys : List String) : keys.length ≤ (keysTail keys).length := by
  induction keys with
  | nil => exact Nat.zero_le _
  | cons key keys ih =>
    simp only [keysTail, List.length_cons, List.length_append]
    omega

theorem length_le_keysBody (keys : List String) : keys.length ≤ (keysBody keys).length := by
  cases keys with
  | nil => exact Nat.zero_le _
  | cons key keys =>
    have htail := length_le_keysTail keys
    simp only [keysBody, List.length_append, List.length_cons]
    omega

/-- The list of keys is read up to the end of the object. -/
theorem parseValue_keysBody (keys : List String) {fuel : ℕ} (hfuel : keys.length + 2 ≤ fuel) :
    Json.parseValue .decimal (fuel + 1) ([' '] ++ '[' :: keysBody keys) =
      some (.arr (keys.map .str), ['\n', '}']) := by
  have hspace : Spaces [' '] := rfl
  rw [Json.parseValue.eq_def]
  simp only [skipSpace_append hspace (show Json.isSpace '[' = false by decide)]
  cases keys with
  | nil => rfl
  | cons key keys =>
    have hspaces : Spaces ['\n', ' ', ' ', ' ', ' '] := rfl
    rw [List.length_cons] at hfuel
    have hkeys := parseElements_keys (show Spaces [] from rfl) key keys
      (show keys.length + 2 ≤ fuel by omega)
    rw [List.nil_append] at hkeys
    simp only [keysBody, skipSpace_append hspaces (show Json.isSpace '"' = false by decide)]
    change Option.map (fun p ↦ (Json.arr p.1, p.2))
      (Json.parseElements .decimal fuel
        ('"' :: (Json.Escapes.go.literalTail key ++ keysTail keys))) = _
    rw [hkeys, Option.map_some]

theorem parse_keysText (keys : List String) :
    Json.parse .decimal (keysText keys) = some (.obj [("keys", .arr (keys.map .str))]) := by
  have hbody := length_le_keysBody keys
  obtain ⟨fuel, hlength, hfuel⟩ : ∃ fuel, keys.length + 2 ≤ fuel ∧
      (keysText keys).length + 1 = fuel + 3 := by
    refine ⟨(keysText keys).length - 2, ?_⟩
    simp only [keysText, List.length_cons, List.length_append, List.length_nil]
    omega
  have hspaces : Spaces ['\n', ' ', ' '] := rfl
  have hquote : Json.isSpace '"' = false := by decide
  have hend : Json.skipSpace ['\n', '}'] = ['}'] := rfl
  have hmembers : Json.parseMembers .decimal (fuel + 2) ('"' ::
      (Json.Escapes.go.literalTail "keys" ++ ':' :: ([' '] ++ '[' :: keysBody keys))) =
        some ([("keys", .arr (keys.map .str))], []) := by
    rw [Json.parseMembers.eq_def]
    simp only [Json.skipSpace_cons hquote, Json.Escapes.readString_literalTail,
      Json.skipSpace_cons (show Json.isSpace ':' = false by decide),
      parseValue_keysBody keys hlength, hend]
  have hobject : Json.parseValue .decimal (fuel + 3) (keysText keys) =
      some (.obj [("keys", .arr (keys.map .str))], []) := by
    rw [Json.parseValue.eq_def]
    simp only [keysText, Json.skipSpace_cons (show Json.isSpace '{' = false by decide),
      skipSpace_append hspaces hquote]
    change Option.map (fun p ↦ (Json.obj p.1, p.2))
      (Json.parseMembers .decimal (fuel + 2) ('"' :: _)) = _
    rw [hmembers, Option.map_some]
  rw [Json.parse, hfuel, hobject]
  rfl

/-- The bytes of a key on a line of its own. -/
theorem encode_keyLine (key : String) :
    encode "\n    " ++ Json.marshal (stringJson (encode key)) =
      encode (String.ofList (['\n', ' ', ' ', ' ', ' '] ++
        '"' :: Json.Escapes.go.literalTail key)) := by
  rw [Json.marshal, stringJson, decode_encode, Json.write, ← encode_append]
  refine congrArg encode (String.toList_injective ?_)
  simp only [String.toList_append, String.toList_ofList]
  rfl

theorem encode_keysTail (key : String) (keys : List String) :
    (encode ",").intercalate ((key :: keys).map fun key ↦
      encode "\n    " ++ Json.marshal (stringJson (encode key))) ++ encode "\n  ]\n\x7d" =
        encode (String.ofList (['\n', ' ', ' ', ' ', ' '] ++
          '"' :: (Json.Escapes.go.literalTail key ++ keysTail keys))) := by
  induction keys generalizing key with
  | nil =>
    rw [List.map_singleton, List.intercalate_singleton, encode_keyLine, ← encode_append]
    refine congrArg encode (String.toList_injective ?_)
    simp only [String.toList_append, String.toList_ofList, List.append_assoc, List.cons_append]
    rfl
  | cons next keys ih =>
    rw [List.map_cons, List.intercalate_cons_of_ne_nil (by simp), List.append_assoc,
      List.append_assoc, ih next, encode_keyLine, ← encode_append, ← encode_append]
    refine congrArg encode (String.toList_injective ?_)
    simp only [String.toList_append, String.toList_ofList, List.append_assoc, List.cons_append]
    rfl

/-- The bytes that `codec.MarshalJSONIndent` makes of keys are their indented text. -/
theorem marshalKeysIndent_eq (keys : List String) :
    aminoSdk.marshalKeysIndent (keys.map encode) = encode (String.ofList (keysText keys)) := by
  simp only [aminoSdk, List.map_map]
  cases keys with
  | nil =>
    rw [List.map_nil, List.intercalate_nil, List.append_nil, ← encode_append]
    refine congrArg encode (String.toList_injective ?_)
    simp only [String.toList_append, String.toList_ofList]
    decide
  | cons key keys =>
    rw [List.append_assoc]
    change _ ++ ((encode ",").intercalate ((key :: keys).map fun key ↦
      encode "\n    " ++ Json.marshal (stringJson (encode key))) ++ encode "\n  ]\n\x7d") = _
    rw [encode_keysTail, ← encode_append]
    refine congrArg encode (String.toList_injective ?_)
    simp only [String.toList_append, String.toList_ofList]
    rfl

/-- The keys of an answer's JSON text. -/
def readKeys (text : Bytes) : Option (List GoString) :=
  match (Json.unmarshal text).bind (Json.property "keys") with
  | some (.arr keys) => keys.mapM fun
    | .str key => some (encode key)
    | _ => none
  | _ => none

def aminoKeysSdk : KeysSdk where
  toCosmosSdk := aminoSdk
  unmarshalKeysJSON := readKeys
  unmarshal_marshalKeys := fun keys ↦ by
    rw [marshalKeysIndent_eq, readKeys, Json.unmarshal, decode_encode, Json.parseString,
      String.toList_ofList, parse_keysText]
    change (keys.map Json.str).mapM _ = _
    rw [List.mapM_map]
    exact List.mapM_pure

/-! ### A published mailbox -/

/-- The request that `mailboxStorage` sends to set a text. -/
def setRequest (stable : StableStringify) (key value : String) : RangeOrder × GoString :=
  (.forward, cString (encode (stable.stringify
    (.obj (stringMembers [("method", "set"), ("key", key), ("value", value)])))))

theorem requestStep_setRequest (stable : StableStringify) {k : Keeper} {store store' : KVStore}
    {key value : String}
    (hset : k.setStorage .forward store (encode key) ⟨encode value⟩ = some store') :
    requestStep k store (setRequest stable key value) = some store' := by
  have hread := read_update stable key value
  rw [← go_eq_encode "set"] at hread
  have hreceive : k.receive .forward store (setRequest stable key value).2 =
      .returned (go "true", store') := by
    rw [setRequest, Keeper.receive, hread]
    refine (k.receiveMessage_name .forward store .set _ _).trans ?_
    rw [Keeper.reply, hset]
    rfl
  unfold requestStep
  rw [show (setRequest stable key value).1 = RangeOrder.forward from rfl, hreceive]

/-- The text `x` for the peer `a`. -/
def publishMailbox : RangeOrder × GoString := setRequest sortedStringify "mailbox.a" "x"

theorem run_publishMailbox : ∃ store,
    run (requestStep aminoKeeper) .empty [publishMailbox] = some store ∧
    aminoKeeper.setStorage .forward .empty (encode "mailbox.a") ⟨encode "x"⟩ = some store := by
  obtain ⟨store, hset, -⟩ := (readable_empty aminoKeeper).setStorage .forward (encode "mailbox.a")
    ⟨encode "x"⟩
  refine ⟨store, ?_, hset⟩
  rw [run, publishMailbox, requestStep_setRequest sortedStringify hset, Option.bind_some, run_nil]

/-- No module but `swingset`. -/
def noModules : GoString → List GoString → QueryResult :=
  fun _ _ ↦ some (.error (.unknownRequest []))

/-- The keys below `mailbox` are there, but an error over REST; the peer `a/b` gets the mailbox of
the peer `a`; and the querier panics on two lists of segments. -/
theorem publishMailbox_not_agrees :
    ∃ store, run (requestStep aminoKeeper) .empty [publishMailbox] = some store ∧
      ¬ Agrees aminoKeeper aminoKeysSdk noModules store .rest (.keys (some "mailbox")) ∧
      ¬ Agrees aminoKeeper aminoKeysSdk noModules store .cli (.mailbox "a/b") ∧
      newQuerier aminoKeeper aminoSdk store [] = none ∧
      newQuerier aminoKeeper aminoSdk store [go "mailbox"] = none := by
  obtain ⟨store, hrun, hset⟩ := run_publishMailbox
  have hkeys : (aminoKeeper.setStorage .forward .empty (encode "mailbox.a") ⟨encode "x"⟩).bind
      (aminoKeeper.getKeys · (encode "mailbox")) = some ⟨[encode "a"]⟩ := by decide
  have hfirst : (aminoKeeper.setStorage .forward .empty (encode "mailbox.a") ⟨encode "x"⟩).bind
      (aminoKeeper.getMailbox · (firstSegment (encode "a/b"))) = some ⟨encode "x"⟩ := by
    decide
  have hpeer : (aminoKeeper.setStorage .forward .empty (encode "mailbox.a") ⟨encode "x"⟩).bind
      (aminoKeeper.getMailbox · (encode "a/b")) = some newMailbox := by decide
  rw [hset, Option.bind_some] at hkeys hfirst hpeer
  refine ⟨store, hrun, ?_, ?_, ?_, ?_⟩
  · rw [agrees_restKeys_iff]
    intro hheld
    have hvalue : (Query.keys (some "mailbox")).held aminoKeeper store =
        some (some (.keys [encode "a"])) := by
      rw [Query.held, Option.getD_some, hkeys]
      rfl
    rw [hvalue] at hheld
    simp at hheld
  · rw [(textual_of_run hrun).agrees_mailbox_iff, hfirst, hpeer]
    decide
  · rw [newQuerier]
  · have hiff := (textual_of_run hrun).newQuerier_ne_none_iff aminoKeysSdk [go "mailbox"]
    exact not_not.mp fun hsome ↦ (hiff.mp hsome).2 rfl

theorem routes_agree_iff_publishMailbox :
    ∃ store, run (requestStep aminoKeeper) .empty [publishMailbox] = some store ∧
      (∀ fe q, Agrees aminoKeeper aminoKeysSdk noModules store fe q ↔
        Routed aminoKeeper store fe q) ∧
      ∀ segments, newQuerier aminoKeeper aminoSdk store segments ≠ none ↔
        segments ≠ [] ∧ segments ≠ [go "mailbox"] := by
  obtain ⟨store, hrun, -⟩ := run_publishMailbox
  exact ⟨store, hrun, routes_agree_iff aminoKeeper aminoKeysSdk noModules hrun⟩

end CosmicSwingset.Chain
