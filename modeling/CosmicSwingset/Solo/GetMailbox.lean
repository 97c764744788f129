import CosmicSwingset.Chain.DeliverEncoding
import CosmicSwingset.Chain.LaunchChain
import CosmicSwingset.Chain.MailboxStorage
import CosmicSwingset.Chain.Querier

/-!
# A mailbox from kernel to solo node

`getMailbox` of `chain-cosmos-sdk.js` runs the helper to query the mailbox of the solo node and
parses its output three times over: the answer to the query is JSON, its value is the JSON text that
`mailboxStorage` made of a text, and that text is the JSON of the mailbox. A round that fails, or
that gives nothing, is followed by another one after five seconds; while the store stays as it is,
all rounds are alike.

What `launch-chain.js` publishes for a peer comes out as it was put in, and the default mailbox
where nothing was published (`getMailbox_published`). Two guards of the process stand in between:
the helper's output is limited to `MAX_BUFFER_SIZE` bytes, and the peer is a command-line argument,
which may contain no NUL and is taken for a flag if it begins with a dash and is longer
(`getMailbox_unreadable`).
-/

set_option autoImplicit false
set_option relaxedAutoImplicit false

namespace CosmicSwingset.Solo

open Foundation SwingSet Chain

/-- A `DeterministicJson` whose text of a published mailbox parses to its two properties, in some
order. -/
structure PublishedJson extends DeterministicJson where
  parse_peer : ∀ mailbox : Mailbox, ∃ members : List (String × Json Decimal),
    members.Perm [("outbox", messagesJson mailbox.outbox),
      ("ack", .num (.ofInt mailbox.inboundAck))] ∧
    Json.parseString .decimal (stringifyPeer mailbox) = some (.obj members)

/-! ### The helper -/

/-- `MAX_BUFFER_SIZE`. -/
def maxBufferSize : ℕ := 10 * 1024 * 1024

section Rounds

variable (k : Keeper) (sdk : CosmosSdk) (store : KVStore)

/-- The standard output of `ag-cosmos-helper query swingset mailbox myAddr`, unless `execFile`
throws or reports an error. -/
def execMailbox (myAddr : String) : Option String := do
  let peer ← sdk.arg myAddr
  let stdout ← cmdMailbox k sdk store peer
  if maxBufferSize < stdout.length then none else return decode stdout

/-- A round of `getMailbox`: what it resolves to, or `none` if another round follows. -/
def getMailbox (myAddr : String) : Option (Json Decimal) := do
  let stdout ← execMailbox k sdk store myAddr
  let ret ← Json.parseString .decimal stdout
  let value ← Json.property "value" ret
  let text ← Json.parseString .decimal (← toText value)
  Json.parseString .decimal (← toText text)

/-- The round yields this outbox and ack. -/
def Yields (myAddr : String) (outbox : List Message) (ack : ℕ) : Prop :=
  ∃ v, getMailbox k sdk store myAddr = some v ∧
    Json.property "outbox" v = some (messagesJson outbox) ∧
    Json.property "ack" v = some (.num (.ofInt ack))

end Rounds

/-- The peer is one segment of a path and can be an argument of the helper. -/
structure Addressable (peer : String) : Prop where
  slash : '/' ∉ peer.toList
  nul : Char.ofNat 0 ∉ peer.toList
  dash : peer.toList.head? = some '-' → peer = "-"

/-- JavaScript has the numbers of the mailbox exactly. -/
structure Exact (mailbox : Mailbox) : Prop where
  nums : ∀ message ∈ mailbox.outbox, message.num < 2 ^ 53
  ack : mailbox.inboundAck < 2 ^ 53

/-! ### One round -/

variable {k : Keeper} {sdk : CosmosSdk} {store : KVStore}

theorem dataPath_mailbox (peer : String) :
    go "data:mailbox." ++ encode peer = dataPath (encode (peerKey peer)) := by
  have hstart : go "data:mailbox." = go "data:" ++ encode "mailbox." := by decide +kernel
  rw [dataPath, hstart, peerKey, encode_append, List.append_assoc]

/-- `GetMailbox` finds what `mailboxStorage` has set for the peer. -/
theorem getMailbox_of_getStorage {peer : String} {value : GoString} (hvalue : value ≠ [])
    (hget : k.getStorage store (encode (peerKey peer)) = some ⟨value⟩) :
    k.getMailbox store (encode peer) = some ⟨value⟩ := by
  rw [Keeper.getMailbox, dataPath_mailbox]
  rw [Keeper.getStorage] at hget
  cases hraw : store (dataPath (encode (peerKey peer))) with
  | none =>
    rw [hraw] at hget
    have hempty : [] = value := congrArg Storage.value (Option.some.inj hget)
    exact absurd hempty.symm hvalue
  | some bz =>
    rw [hraw] at hget
    exact hget

/-- The helper prints what `GetMailbox` finds. -/
theorem cmdMailbox_peer {peer value : String} (hpeer : Addressable peer) (hvalue : value ≠ "")
    (hget : k.getMailbox store (encode peer) = some ⟨encode value⟩) :
    cmdMailbox k sdk store (encode peer) = some (sdk.printOutput (encode value)) := by
  have hslash : Chain.slash ∉ encode peer := by
    refine not_mem_encode (by decide) fun c hc hslash ↦ hpeer.slash ?_
    have hchar : c = '/' := Char.toNat_inj.mp hslash
    exact hchar ▸ hc
  exact cmdMailbox_eq hslash hvalue hget

/-- A round parses what `GetMailbox` finds. -/
theorem getMailbox_eq {peer value : String} (hpeer : Addressable peer) (hvalue : value ≠ "")
    (hget : k.getMailbox store (encode peer) = some ⟨encode value⟩)
    (hfits : (sdk.printOutput (encode value)).length ≤ maxBufferSize) :
    getMailbox k sdk store peer =
      (Json.parseString .decimal value).bind fun text ↦
        (toText text).bind (Json.parseString .decimal) := by
  have hstdout : execMailbox k sdk store peer = some (decode (sdk.printOutput (encode value))) := by
    rw [execMailbox, sdk.arg_eq peer hpeer.nul hpeer.dash, Option.bind_eq_bind, Option.bind_some,
      cmdMailbox_peer hpeer hvalue hget, Option.bind_some, if_neg (not_lt.mpr hfits)]
    rfl
  have hparse : Json.parseString .decimal (decode (sdk.printOutput (encode value))) =
      some (.obj [("value", .str value)]) := sdk.parse_printOutput value
  simp only [getMailbox, hstdout, Option.bind_eq_bind, Option.bind_some, hparse]
  rfl

/-- A round gives nothing if the helper says more than the buffer holds. -/
theorem getMailbox_eq_none_of_length {peer value : String} (hpeer : Addressable peer)
    (hvalue : value ≠ "") (hget : k.getMailbox store (encode peer) = some ⟨encode value⟩)
    (hlong : maxBufferSize < (sdk.printOutput (encode value)).length) :
    getMailbox k sdk store peer = none := by
  have hexec : execMailbox k sdk store peer = none := by
    rw [execMailbox, sdk.arg_eq peer hpeer.nul hpeer.dash, Option.bind_eq_bind, Option.bind_some,
      cmdMailbox_peer hpeer hvalue hget, Option.bind_some, if_pos hlong]
  rw [getMailbox, hexec]
  rfl

/-- A round gives nothing if the helper does not run. -/
theorem getMailbox_eq_none_of_arg {myAddr : String} (harg : sdk.arg myAddr = none) :
    getMailbox k sdk store myAddr = none := by
  rw [getMailbox, execMailbox, harg]
  rfl

theorem not_yields {myAddr : String} (h : getMailbox k sdk store myAddr = none)
    (outbox : List Message) (ack : ℕ) : ¬ Yields k sdk store myAddr outbox ack := by
  rintro ⟨v, hv, -, -⟩
  rw [h] at hv
  exact absurd hv (Option.some_ne_none v).symm

/-! ### What was published -/

/-- `EmptyMailboxValue` as a text. -/
def emptyMailbox : String := "\"\x7b\\\"outbox\\\":[], \\\"ack\\\":0\x7d\""

theorem parse_emptyMailbox : Json.parseString .decimal emptyMailbox =
    some (.str "\x7b\"outbox\":[], \"ack\":0\x7d") :=
  Json.parseString_of_render (by decide +kernel)

theorem parse_emptyMailboxText :
    Json.parseString .decimal "\x7b\"outbox\":[], \"ack\":0\x7d" =
      some (.obj [("outbox", messagesJson []), ("ack", .num (.ofInt 0))]) :=
  Json.parseString_of_render (by decide +kernel)

theorem length_printOutput_empty (sdk : CosmosSdk) :
    (sdk.printOutput (encode emptyMailbox)).length ≤ maxBufferSize := by
  have hlength : (Json.marshal (.obj [("value", stringJson (encode emptyMailbox))])).length + 1 ≤
      maxBufferSize := by
    decide +kernel
  exact (sdk.length_printOutput (encode emptyMailbox)).trans hlength

/-- Where nothing was set, a round yields the default. -/
theorem yields_empty {peer : String} (hpeer : Addressable peer)
    (hraw : store (dataPath (encode (peerKey peer))) = none) : Yields k sdk store peer [] 0 := by
  have hget : k.getMailbox store (encode peer) = some ⟨encode emptyMailbox⟩ := by
    rw [Keeper.getMailbox, dataPath_mailbox, hraw]
    exact congrArg (fun value ↦ some (Storage.mk value)) (go_eq_encode emptyMailbox)
  have hvalue : emptyMailbox ≠ "" := by decide
  refine ⟨.obj [("outbox", messagesJson []), ("ack", .num (.ofInt 0))], ?_, rfl, rfl⟩
  rw [getMailbox_eq hpeer hvalue hget (length_printOutput_empty sdk), parse_emptyMailbox,
    Option.bind_some, toText, Option.bind_some, parse_emptyMailboxText]

/-- Where a mailbox was set, a round yields it. -/
theorem yields_published (json : PublishedJson) {stable : StableStringify} {peer : String}
    (hpeer : Addressable peer) {mailbox : Mailbox}
    (hget : k.getMailbox store (encode peer) =
      some ⟨encode (stable.stringify (.str (json.stringifyPeer mailbox)))⟩)
    (hfits : (sdk.printOutput
      (encode (stable.stringify (.str (json.stringifyPeer mailbox))))).length ≤ maxBufferSize) :
    Yields k sdk store peer mailbox.outbox mailbox.inboundAck := by
  obtain ⟨members, hperm, hparse⟩ := json.parse_peer mailbox
  have hdistinct : (members.map Prod.fst).Nodup := by
    have hkeys : ["outbox", "ack"].Nodup := by decide
    exact (hperm.map Prod.fst).nodup_iff.mpr hkeys
  refine ⟨.obj members, ?_, ?_, ?_⟩
  · rw [getMailbox_eq hpeer (stable.stringify_ne_empty _) hget hfits, stable.parse_str,
      Option.bind_some, toText, Option.bind_some, hparse]
  · exact Json.member_of_mem hdistinct (hperm.mem_iff.mpr List.mem_cons_self)
  · exact Json.member_of_mem hdistinct
      (hperm.mem_iff.mpr (List.mem_cons_of_mem _ List.mem_cons_self))

/-- After any sequence of `mailboxStorage` calls over a registered port, `getMailbox` yields the
mailbox last published for its peer, if the helper's output fits in its buffer, and an empty outbox
with ack 0 if nothing was published for it, for every peer that has no slash and no NUL and is not
taken for a flag. -/
theorem getMailbox_published (json : PublishedJson) (stable : StableStringify) (k : Keeper)
    (sdk : CosmosSdk) (ports : Ports) {sPort : ℕ} (hport : sPort ∈ ports.portToHandler)
    (calls : List MailboxCall) :
    ∃ store, performAll stable k ports sPort .empty calls = some store ∧
      ∀ peer, Addressable peer →
        (∀ mailbox, Exact mailbox →
          lastSet calls (peerKey peer) = some (json.stringifyPeer mailbox) →
          (sdk.printOutput
            (encode (stable.stringify (.str (json.stringifyPeer mailbox))))).length ≤
              maxBufferSize →
          Yields k sdk store peer mailbox.outbox mailbox.inboundAck) ∧
        (lastSet calls (peerKey peer) = none → Yields k sdk store peer [] 0) := by
  obtain ⟨store, hstore, hstores⟩ := (stores_empty stable k).performAll hport calls
  rw [foldl_update_empty] at hstores
  refine ⟨store, hstore, fun peer hpeer ↦ ⟨fun mailbox _ hset hfits ↦ ?_, fun hnone ↦ ?_⟩⟩
  · have hvalue := hstores.value (peerKey peer)
    rw [hset] at hvalue
    have hstored := mt encode_eq_nil_iff.mp
      (stable.stringify_ne_empty (json.stringifyPeer mailbox))
    exact yields_published json hpeer (getMailbox_of_getStorage hstored hvalue) hfits
  · have hvalue := hstores.value (peerKey peer)
    rw [hnone] at hvalue
    exact yields_empty hpeer (hstores.readable.eq_none hvalue)

/-! ### Texts with sorted keys -/

theorem write_natCast (n : ℕ) : Numerals.nat.write n = Numerals.decimal.write (.ofInt n) :=
  (Decimal.write_ofInt_natCast n).symm

/-- The chain and the solo node have one text for an outbox. -/
theorem render_outboxJson (mailbox : Mailbox) :
    Json.render .nat (outboxJson mailbox) = Json.render .decimal (messagesJson mailbox.outbox) := by
  have hmessage (message : Message) : Json.render .nat (messageJson message) =
      Json.render .decimal (pairJson message) := by
    rw [messageJson, pairJson, Json.render, Json.render, write_natCast]
    rfl
  have helements (messages : List Message) :
      Json.renderElements .nat (messages.map messageJson) =
        Json.renderElements .decimal (messages.map pairJson) := by
    induction messages with
    | nil => rfl
    | cons message messages ih =>
      rw [List.map_cons, List.map_cons, Json.renderElements, Json.renderElements, hmessage, ih]
  rw [outboxJson, messagesJson]
  cases mailbox.outbox with
  | nil => rfl
  | cons message messages =>
    rw [List.map_cons, List.map_cons, Json.render, Json.render, hmessage, helements]

theorem sortKeys_peerJson (mailbox : Mailbox) : (peerJson mailbox).sortKeys =
    .obj [("ack", .num mailbox.inboundAck), ("outbox", outboxJson mailbox)] := by
  have hkeys : ¬ utf16 "outbox".toList ≤ utf16 "ack".toList := by decide +kernel
  simp only [peerJson, Json.sortKeys, Json.sortKeysMembers_eq_map, List.map_cons, List.map_nil,
    sortKeys_outboxJson, List.insertionSort_cons, List.insertionSort_nil, List.orderedInsert_nil,
    List.orderedInsert_cons, Json.keyLe, decide_eq_true_eq, if_neg hkeys]

/-- `djson` writes what the solo node would. -/
theorem djson_stringifyPeer (mailbox : Mailbox) : djson.stringifyPeer mailbox =
    String.ofList (Json.render .decimal (.obj [("ack", .num (.ofInt mailbox.inboundAck)),
      ("outbox", messagesJson mailbox.outbox)])) := by
  change String.ofList (Json.render .nat (peerJson mailbox).sortKeys) = _
  rw [sortKeys_peerJson, Json.render, Json.render, write_natCast, Json.renderMembers,
    Json.renderMembers, render_outboxJson]
  rfl

/-- `djson` as the package of the chain node. -/
def djsonPublished : PublishedJson where
  toDeterministicJson := djson
  parse_peer := fun mailbox ↦ by
    refine ⟨_, List.Perm.swap _ _ _, ?_⟩
    rw [djson_stringifyPeer, Json.parseString, String.toList_ofList, Json.parse_render]

theorem length_le_stringifyPeer (num : ℕ) (body : String) (ack : ℕ) :
    body.toList.length ≤ (djson.stringifyPeer ⟨[⟨num, body⟩], ack⟩).toList.length := by
  have hbody := Json.Escapes.plain.length_lt_literalTail body
  rw [djson_stringifyPeer, String.toList_ofList, Json.render_eq_write]
  simp only [Json.write, Json.writeMembers, Json.writeElements, messagesJson, pairJson,
    List.map_cons, List.map_nil, List.length_cons, List.length_append]
  omega

theorem length_le_stringify (s : String) :
    s.toList.length ≤ (sortedStringify.stringify (.str s)).toList.length := by
  have hliteral := Json.Escapes.plain.length_lt_literalTail s
  change _ ≤ (String.ofList (Json.render .decimal (.str s))).toList.length
  rw [String.toList_ofList, Json.render_eq_write, Json.write, List.length_cons]
  omega

/-- The helper's output is longer than the body of a message in the mailbox. -/
theorem body_lt_printOutput (num : ℕ) (body : String) (ack : ℕ) :
    body.toList.length < (aminoSdk.printOutput (encode (sortedStringify.stringify
      (.str (djson.stringifyPeer ⟨[⟨num, body⟩], ack⟩))))).length :=
  calc body.toList.length
      ≤ (djson.stringifyPeer ⟨[⟨num, body⟩], ack⟩).toList.length :=
        length_le_stringifyPeer num body ack
    _ ≤ (sortedStringify.stringify
          (.str (djson.stringifyPeer ⟨[⟨num, body⟩], ack⟩))).toList.length :=
        length_le_stringify _
    _ < _ := length_lt_printOutput _

/-- A mailbox whose message has characters that Go escapes and one that every encoder does. -/
def aliceMailbox : Mailbox := ⟨[⟨3, "<&\x00>"⟩], 7⟩

def aliceCalls : List MailboxCall :=
  [.set .forward (peerKey "alice") (djson.stringifyPeer aliceMailbox)]

theorem getMailbox_published_alice :
    ∃ store, performAll sortedStringify aminoKeeper (registerPortHandler ⟨0, []⟩).1 1 .empty
        aliceCalls = some store ∧
      Yields aminoKeeper aminoSdk store "alice" aliceMailbox.outbox aliceMailbox.inboundAck ∧
      Yields aminoKeeper aminoSdk store "bob" [] 0 := by
  have hport : 1 ∈ (registerPortHandler ⟨0, []⟩).1.portToHandler := by decide
  obtain ⟨store, hstore, hyields⟩ := getMailbox_published djsonPublished sortedStringify
    aminoKeeper aminoSdk _ hport aliceCalls
  have halice : Addressable "alice" := ⟨by decide, by decide, by decide⟩
  have hbob : Addressable "bob" := ⟨by decide, by decide, by decide⟩
  have hexact : Exact aliceMailbox := ⟨by simp [aliceMailbox], by norm_num [aliceMailbox]⟩
  have hset : lastSet aliceCalls (peerKey "alice") = some (djson.stringifyPeer aliceMailbox) := by
    decide +kernel
  have hfits : (aminoSdk.printOutput (encode (sortedStringify.stringify
      (.str (djson.stringifyPeer aliceMailbox))))).length ≤ maxBufferSize := by
    decide +kernel
  have hnone : lastSet aliceCalls (peerKey "bob") = none := by decide +kernel
  exact ⟨store, hstore, (hyields "alice" halice).1 aliceMailbox hexact hset hfits,
    (hyields "bob" hbob).2 hnone⟩

/-- A mailbox whose message does not fit in the buffer. -/
def longMailbox (length : ℕ) : Mailbox := ⟨[⟨1, String.ofList (List.replicate length 'x')⟩], 0⟩

def longCalls (length : ℕ) : List MailboxCall :=
  [.set .forward (peerKey "alice") (djson.stringifyPeer (longMailbox length))]

theorem lastSet_longCalls (length : ℕ) (peer : String) : lastSet (longCalls length) (peerKey peer) =
    if peerKey "alice" = peerKey peer then some (djson.stringifyPeer (longMailbox length))
    else none := by
  rw [lastSet, longCalls, List.reverse_singleton, List.findSome?_singleton]

theorem getMailbox_longMailbox {length : ℕ} (hlength : maxBufferSize ≤ length) :
    ∃ store, performAll sortedStringify aminoKeeper (registerPortHandler ⟨0, []⟩).1 1 .empty
        (longCalls length) = some store ∧
      getMailbox aminoKeeper aminoSdk store "alice" = none := by
  have hport : 1 ∈ (registerPortHandler ⟨0, []⟩).1.portToHandler := by decide
  obtain ⟨store, hstore, hstores⟩ :=
    (stores_empty sortedStringify aminoKeeper).performAll hport (longCalls length)
  rw [foldl_update_empty] at hstores
  have hvalue := hstores.value (peerKey "alice")
  rw [lastSet_longCalls, if_pos rfl] at hvalue
  have hnonempty := sortedStringify.stringify_ne_empty (djson.stringifyPeer (longMailbox length))
  have hget := getMailbox_of_getStorage (mt encode_eq_nil_iff.mp hnonempty) hvalue
  have hlong := body_lt_printOutput 1 (String.ofList (List.replicate length 'x')) 0
  rw [String.toList_ofList, List.length_replicate] at hlong
  have halice : Addressable "alice" := ⟨by decide, by decide, by decide⟩
  exact ⟨store, hstore,
    getMailbox_eq_none_of_length halice hnonempty hget (lt_of_le_of_lt hlength hlong)⟩

/-- A published mailbox that is longer than the buffer does not come out, and the default does not
for a peer that is taken for a flag or is no argument at all. -/
theorem getMailbox_unreadable :
    ∃ store, performAll sortedStringify aminoKeeper (registerPortHandler ⟨0, []⟩).1 1 .empty
        (longCalls maxBufferSize) = some store ∧
      (Exact (longMailbox maxBufferSize) ∧ lastSet (longCalls maxBufferSize) (peerKey "alice") =
          some (djsonPublished.stringifyPeer (longMailbox maxBufferSize)) ∧
        ¬ Yields aminoKeeper aminoSdk store "alice" (longMailbox maxBufferSize).outbox
          (longMailbox maxBufferSize).inboundAck) ∧
      (lastSet (longCalls maxBufferSize) (peerKey "-x") = none ∧
        ¬ Yields aminoKeeper aminoSdk store "-x" [] 0) ∧
      lastSet (longCalls maxBufferSize) (peerKey "alice\x00") = none ∧
        ¬ Yields aminoKeeper aminoSdk store "alice\x00" [] 0 := by
  obtain ⟨store, hstore, halice⟩ := getMailbox_longMailbox (le_refl maxBufferSize)
  have hexact : Exact (longMailbox maxBufferSize) := by
    refine ⟨fun message hmessage ↦ ?_, Nat.two_pow_pos 53⟩
    rw [List.mem_singleton.mp hmessage]
    exact Nat.one_lt_two_pow (by norm_num)
  have hother {peer : String} (hpeer : peerKey "alice" ≠ peerKey peer) :
      lastSet (longCalls maxBufferSize) (peerKey peer) = none := by
    rw [lastSet_longCalls, if_neg hpeer]
  have hset : lastSet (longCalls maxBufferSize) (peerKey "alice") =
      some (djsonPublished.stringifyPeer (longMailbox maxBufferSize)) := by
    rw [lastSet_longCalls, if_pos rfl, djsonPublished]
  have hflag : aminoSdk.arg "-x" = none := by decide +kernel
  have hnul : aminoSdk.arg "alice\x00" = none := by decide +kernel
  exact ⟨store, hstore, ⟨hexact, hset, not_yields halice _ _⟩,
    ⟨hother (by decide), not_yields (getMailbox_eq_none_of_arg hflag) _ _⟩,
    hother (by decide), not_yields (getMailbox_eq_none_of_arg hnul) _ _⟩

end CosmicSwingset.Solo
