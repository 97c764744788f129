import CosmicSwingset.Chain.Handler
import CosmicSwingset.Chain.UnmarshalMessages
import CosmicSwingset.SwingSet.Mailbox

/-!
# A delivery from solo node to kernel

What `deliver` of `chain-cosmos-sdk.js` sends is encoded four times on its way to `deliverInbound`
on the chain: as the JSON text `[messages, ack]` in a file, as two parallel slices in a
`MsgDeliverInbound`, as the same message in a transaction, and as the JSON of an action whose
messages are pairs again. Amino may turn a slice without elements into nil on the way. The handler
makes its own slice of pairs, which is never nil, so that the messages are an array even when there
are none.

`deliver_encoding`: the list, the ack and the peer that come out are the ones that were put in.
-/

set_option autoImplicit false
set_option relaxedAutoImplicit false

namespace CosmicSwingset.Chain

open Foundation SwingSet

/-! ### The solo node -/

/-- The array `[num, body]`. -/
def pairJson (message : Message) : Json Decimal :=
  .arr [.num (.ofInt message.num), .str message.body]

def messagesJson (messages : List Message) : Json Decimal := .arr (messages.map pairJson)

/-- The text `JSON.stringify([newMessages, acknum])`. -/
def deliverText (newMessages : List Message) (acknum : ℕ) : String :=
  String.ofList (Json.render .decimal (.arr [messagesJson newMessages, .num (.ofInt acknum)]))

/-- What `deliver` is called with: JavaScript has these numbers exactly, and the chain takes no
empty peer and no empty message. -/
structure Sendable (peer : String) (newMessages : List Message) (acknum : ℕ) : Prop where
  peer : peer ≠ ""
  bodies : ∀ message ∈ newMessages, message.body ≠ ""
  nums : ∀ message ∈ newMessages, message.num < 2 ^ 53
  ack : acknum < 2 ^ 53

/-! ### The transaction -/

/-- A Go slice. -/
inductive Slice (α : Type*)
  | nil
  | of (elements : List α)

/-- What `len`, indexing and `range` find in a slice. -/
def Slice.elements {α : Type*} : Slice α → List α
  | nil => []
  | of elements => elements

/-- A `MsgDeliverInbound` that amino has decoded. -/
structure DecodedMsg where
  peer : GoString
  messages : Slice GoString
  nums : Slice ℤ
  ack : ℤ
  submitter : AccAddress

/-- The message as code sees it that does not compare its slices with nil. -/
def DecodedMsg.msg (decoded : DecodedMsg) : MsgDeliverInbound where
  peer := decoded.peer
  messages := decoded.messages.elements
  nums := decoded.nums.elements
  ack := decoded.ack
  submitter := decoded.submitter

/-- Amino decodes what it encoded, but for slices without elements. -/
def Transits (sent : MsgDeliverInbound) (received : DecodedMsg) : Prop := received.msg = sent

/-! ### The chain node -/

/-- The value that `json.Marshal(action)` encodes. -/
def DeliverInboundAction.json (action : DeliverInboundAction) : Json Decimal :=
  .obj [("type", stringJson action.type), ("peer", stringJson action.peer),
    ("messages", .arr (action.messages.map fun pair ↦ .arr [.num (.ofInt pair.1),
      stringJson pair.2])),
    ("ack", .num (.ofInt action.ack)), ("storagePort", .num (.ofInt action.storagePort)),
    ("blockHeight", .num (.ofInt action.blockHeight))]

/-- The arguments of `deliverInbound`; a property that is missing is undefined. -/
structure DeliverInboundCall where
  sender : Option (Json Decimal)
  messages : Option (Json Decimal)
  ack : Option (Json Decimal)

/-- The call that `toSwingSet0` makes; an action of another type makes none. -/
def toSwingSet (action : Json Decimal) : Option DeliverInboundCall :=
  match Json.property "type" action with
  | some (.str type) =>
    if type = "DELIVER_INBOUND" then
      some ⟨Json.property "peer" action, Json.property "messages" action,
        Json.property "ack" action⟩
    else none
  | _ => none

/-- `fromGo`. -/
def fromGo (str : GoString) : Option DeliverInboundCall := (Json.parseCString str).bind toSwingSet

/-! ### The way through -/

variable {peer : String} {newMessages : List Message} {acknum : ℕ}

theorem pairs_messages (newMessages : List Message) :
    Pairs (newMessages.map pairJson) (newMessages.map fun message ↦ (message.num : ℤ))
      (newMessages.map fun message ↦ encode message.body) := by
  induction newMessages with
  | nil => exact .nil
  | cons message newMessages ih => exact .cons (isNat_ofInt (Int.natCast_nonneg _)) ih

/-- The messages that `UnmarshalMessagesJSON` finds in the text. -/
def sentMessages (newMessages : List Message) (acknum : ℕ) : Messages where
  messages := newMessages.map fun message ↦ encode message.body
  nums := newMessages.map fun message ↦ (message.num : ℤ)
  ack := acknum

/-- The value that the text is made of. -/
def packetJson (newMessages : List Message) (acknum : ℕ) : Json Decimal :=
  .arr [messagesJson newMessages, .num (.ofInt acknum)]

theorem formatted_deliverText
    (hrange : (packetJson newMessages acknum).allNums Decimal.inFloat64 = true) :
    Formatted (encode (deliverText newMessages acknum)) (sentMessages newMessages acknum) := by
  refine ⟨newMessages.map pairJson, .ofInt acknum, ?_, isNat_ofInt (Int.natCast_nonneg _),
    pairs_messages newMessages⟩
  rw [deliverText, Json.render_eq_write]
  exact Json.unmarshalInterface_write _ hrange

/-- What is read of the text, where it is read at all. -/
theorem unmarshalMessagesJSON_deliverText {msgs : Messages}
    (h : unmarshalMessagesJSON (encode (deliverText newMessages acknum)) = .returned msgs) :
    msgs = sentMessages newMessages acknum := by
  by_cases hrange : (packetJson newMessages acknum).allNums Decimal.inFloat64 = true
  · rw [(formatted_deliverText hrange).unmarshal] at h
    exact (Outcome.returned.inj h).symm
  · have hnone : Json.unmarshalInterface (encode (deliverText newMessages acknum)) = none := by
      rw [Json.unmarshalInterface, deliverText, Json.render_eq_write, Json.unmarshal_write,
        Option.filter_some]
      exact if_neg hrange
    rw [unmarshalMessagesJSON, hnone] at h
    cases h

theorem Sendable.formatted (h : Sendable peer newMessages acknum) :
    Formatted (encode (deliverText newMessages acknum)) (sentMessages newMessages acknum) := by
  have hnat {n : ℕ} (hn : n < 2 ^ 53) : (Decimal.ofInt n).inFloat64 = true :=
    Decimal.inFloat64_ofInt (by rw [Int.natAbs_natCast]; omega)
  apply formatted_deliverText
  rw [packetJson, messagesJson, Json.allNums_arr, List.all_cons, List.all_cons, List.all_nil,
    Bool.and_true, Bool.and_eq_true, Json.allNums_arr, List.all_eq_true, List.forall_mem_map]
  refine ⟨fun message hmessage ↦ ?_, hnat h.ack⟩
  simp [pairJson, Json.allNums, Json.allNumsElements, hnat (h.nums message hmessage)]

theorem Sendable.valid (h : Sendable peer newMessages acknum) {submitter : AccAddress}
    (hsubmitter : submitter ≠ []) :
    (newMsgDeliverInbound (encode peer) (sentMessages newMessages acknum) submitter).Valid where
  submitter := hsubmitter
  peer := mt encode_eq_nil_iff.mp h.peer
  length := by simp [newMsgDeliverInbound, sentMessages]
  messages := fun body hbody ↦ by
    obtain ⟨message, hmessage, rfl⟩ := List.mem_map.mp hbody
    exact mt encode_eq_nil_iff.mp (h.bodies message hmessage)
  nums := fun num hnum ↦ by
    obtain ⟨message, -, rfl⟩ := List.mem_map.mp hnum
    exact Int.natCast_nonneg _
  ack := Int.natCast_nonneg acknum

/-- The call that these arguments make. -/
def InboundArgs.call (args : InboundArgs) : DeliverInboundCall where
  sender := some (.str args.sender)
  messages := some (.arr (args.messages.map fun pair ↦ .arr [.num (.ofInt pair.1), .str pair.2]))
  ack := some (.num (.ofInt args.ack))

/-- The text of an action calls `deliverInbound` with the arguments that the action carries. -/
theorem fromGo_marshal {action : DeliverInboundAction} {args : InboundArgs}
    (h : action.inboundArgs = some args) : fromGo (Json.marshal action.json) = some args.call := by
  obtain ⟨htype, hargs⟩ := Option.ite_none_right_eq_some.mp h
  have htext : stringJson action.type = .str "DELIVER_INBOUND" := by
    rw [htype, go_eq_encode, stringJson, decode_encode]
  rw [fromGo, Json.parseCString_marshal, Option.bind_some, DeliverInboundAction.json, htext,
    ← Option.some.inj hargs, InboundArgs.call, List.map_map]
  rfl

/-- The arguments of the message are what `deliver` was called with. -/
theorem call_inboundArgs (peer : String) (newMessages : List Message) (acknum : ℕ)
    (submitter : AccAddress) :
    (newMsgDeliverInbound (encode peer) (sentMessages newMessages acknum)
      submitter).inboundArgs.call =
        ⟨some (.str peer), some (messagesJson newMessages), some (.num (.ofInt acknum))⟩ := by
  have hpairs : (newMessages.map fun message ↦ (message.num : ℤ)).zip
      (newMessages.map fun message ↦ encode message.body) =
        newMessages.map fun message ↦ ((message.num : ℤ), encode message.body) :=
    List.zip_map'
  simp only [newMsgDeliverInbound, sentMessages, MsgDeliverInbound.inboundArgs, InboundArgs.call,
    hpairs, List.map_map, decode_encode, messagesJson]
  congr 3
  refine List.map_congr_left fun message _ ↦ ?_
  simp [pairJson, decode_encode]

/-- What `deliver` is called with is accepted by `UnmarshalMessagesJSON`, the message made from it
passes `ValidateBasic`, and the action of the handler, parsed on the Node side, calls
`deliverInbound` with the same peer, list and ack, whether or not amino has turned empty slices into
nil. -/
theorem deliver_encoding (text : AddressText) (h : Sendable peer newMessages acknum)
    {submitter : AccAddress} (hsubmitter : submitter ≠ []) :
    ∃ msgs, unmarshalMessagesJSON (encode (deliverText newMessages acknum)) = .returned msgs ∧
      (newMsgDeliverInbound (encode peer) msgs submitter).validateBasic text = none ∧
      ∀ received, Transits (newMsgDeliverInbound (encode peer) msgs submitter) received →
        ∀ callToNode blockHeight ports, ∃ handled,
          handleMsgDeliverInbound callToNode blockHeight ports received.msg = some handled ∧
            fromGo (Json.marshal handled.action.json) = some ⟨some (.str peer),
              some (messagesJson newMessages), some (.num (.ofInt acknum))⟩ := by
  have hvalid := h.valid hsubmitter
  refine ⟨sentMessages newMessages acknum, h.formatted.unmarshal,
    (MsgDeliverInbound.validateBasic_eq_none_iff text _).mpr hvalid, ?_⟩
  intro received htransit callToNode blockHeight ports
  obtain ⟨handled, hhandled, hargs, -, -⟩ :=
    handleMsgDeliverInbound_spec hvalid callToNode blockHeight ports
  refine ⟨handled, ?_, ?_⟩
  · rw [show received.msg = _ from htransit]
    exact hhandled
  · rw [fromGo_marshal hargs, call_inboundArgs]

/-- Two messages with control characters, and then an ack alone, with slices that amino has turned
into nil. -/
theorem deliver_encoding_twoMessages :
    (∃ msgs, unmarshalMessagesJSON (encode (deliverText [⟨1, "a\nb"⟩, ⟨2, "\t\"c\""⟩] 7)) =
        .returned msgs ∧
      (newMsgDeliverInbound (encode "gci") msgs [1]).validateBasic cosmosAddress = none ∧
      ∃ handled, handleMsgDeliverInbound (fun _ ↦ .ok []) 1 ⟨0, []⟩
          (DecodedMsg.msg
            ⟨encode "gci", .of [encode "a\nb", encode "\t\"c\""], .of [1, 2], 7, [1]⟩) =
            some handled ∧
        fromGo (Json.marshal handled.action.json) =
          some ⟨some (.str "gci"), some (.arr [.arr [.num (.ofInt 1), .str "a\nb"],
            .arr [.num (.ofInt 2), .str "\t\"c\""]]), some (.num (.ofInt 7))⟩) ∧
    ∃ msgs, unmarshalMessagesJSON (encode (deliverText [] 8)) = .returned msgs ∧
      (newMsgDeliverInbound (encode "gci") msgs [1]).validateBasic cosmosAddress = none ∧
      ∃ handled, handleMsgDeliverInbound (fun _ ↦ .ok []) 1 ⟨0, []⟩
          (DecodedMsg.msg ⟨encode "gci", .nil, .nil, 8, [1]⟩) = some handled ∧
        fromGo (Json.marshal handled.action.json) =
          some ⟨some (.str "gci"), some (.arr []), some (.num (.ofInt 8))⟩ := by
  have hsubmitter : ([1] : AccAddress) ≠ [] := List.cons_ne_nil 1 []
  have htwo : Sendable "gci" [⟨1, "a\nb"⟩, ⟨2, "\t\"c\""⟩] 7 :=
    ⟨by decide, by decide, by decide, by norm_num⟩
  have hnone : Sendable "gci" [] 8 := ⟨by decide, by simp, by simp, by norm_num⟩
  constructor
  · obtain ⟨msgs, hread, hvalid, htransit⟩ := deliver_encoding cosmosAddress htwo hsubmitter
    obtain rfl := unmarshalMessagesJSON_deliverText hread
    exact ⟨_, hread, hvalid, htransit
      ⟨encode "gci", .of [encode "a\nb", encode "\t\"c\""], .of [1, 2], 7, [1]⟩ rfl _ 1 ⟨0, []⟩⟩
  · obtain ⟨msgs, hread, hvalid, htransit⟩ := deliver_encoding cosmosAddress hnone hsubmitter
    obtain rfl := unmarshalMessagesJSON_deliverText hread
    exact ⟨_, hread, hvalid, htransit ⟨encode "gci", .nil, .nil, 8, [1]⟩ rfl _ 1 ⟨0, []⟩⟩

end CosmicSwingset.Chain
