import CosmicSwingset.Chain.Msgs

/-!
# The handler

`handleMsgDeliverInbound` of `handler.go` registers a port through which the JavaScript side reaches
the storage, hands the message to it as the JSON of a `deliverInboundAction` and waits for its
reply. `inboundArgs` is the other end: the arguments that `toSwingSet0` of `ag-chain-cosmos` passes
to `deliverInbound` for the action it parses. Go's encoder replaces what is not UTF-8 in a string,
so the text that arrives is `decode` of the bytes that were sent. Numbers are the integers of the
JSON text; how JavaScript rounds those above `2 ^ 53` is left out.
-/

set_option autoImplicit false
set_option relaxedAutoImplicit false

namespace CosmicSwingset.Chain

open Foundation

/-- The globals `lastPort` and `portToHandler`: the ports that have a handler. -/
structure Ports where
  lastPort : ℕ
  portToHandler : List ℕ
  deriving DecidableEq

def registerPortHandler (ports : Ports) : Ports × ℕ :=
  let lastPort := ports.lastPort + 1
  (⟨lastPort, lastPort :: ports.portToHandler⟩, lastPort)

def unregisterPortHandler (ports : Ports) (portNum : ℕ) : Ports :=
  { ports with portToHandler := ports.portToHandler.filter (· ≠ portNum) }

structure DeliverInboundAction where
  type : GoString
  peer : GoString
  messages : List (ℤ × GoString)
  ack : ℤ
  storagePort : ℕ
  blockHeight : ℤ
  deriving DecidableEq

/-- `sdk.Result`. -/
inductive Result
  | ok
  | error (err : SdkError)
  deriving DecidableEq

/-- The pairs `[Nums[i], message]` for each `message` of `Messages`, which panic where `Nums` has no
such index. -/
def numbered : List GoString → List ℤ → Option (List (ℤ × GoString))
  | [], _ => some []
  | _ :: _, [] => none
  | message :: messages, num :: nums => (numbered messages nums).map ((num, message) :: ·)

/-- What one call of the handler leaves: the action it sent, the ports and its result. -/
structure Handled where
  action : DeliverInboundAction
  ports : Ports
  result : Result
  deriving DecidableEq

def handleMsgDeliverInbound (callToNode : DeliverInboundAction → Except GoString GoString)
    (blockHeight : ℤ) (ports : Ports) (msg : MsgDeliverInbound) : Option Handled := do
  let messages ← numbered msg.messages msg.nums
  let (registered, newPort) := registerPortHandler ports
  let action : DeliverInboundAction :=
    { type := go "DELIVER_INBOUND"
      peer := msg.peer
      messages := messages
      ack := msg.ack
      storagePort := newPort
      blockHeight := blockHeight }
  let result := match callToNode action with
    | .error err => .error (.internal err)
    | .ok _ => .ok
  return ⟨action, unregisterPortHandler registered newPort, result⟩

/-- The arguments of `deliverInbound(sender, messages, ack)`. -/
structure InboundArgs where
  sender : String
  messages : List (ℤ × String)
  ack : ℤ
  deriving DecidableEq

/-- What `toSwingSet0` passes to `deliverInbound`; another type of action throws. -/
def DeliverInboundAction.inboundArgs (action : DeliverInboundAction) : Option InboundArgs :=
  if action.type = go "DELIVER_INBOUND" then
    some
      { sender := decode action.peer
        messages := action.messages.map fun entry ↦ (entry.1, decode entry.2)
        ack := action.ack }
  else none

/-- The arguments that a message of `Messages` and `Nums` of one length stands for. -/
def MsgDeliverInbound.inboundArgs (msg : MsgDeliverInbound) : InboundArgs where
  sender := decode msg.peer
  messages := (msg.nums.zip msg.messages).map fun entry ↦ (entry.1, decode entry.2)
  ack := msg.ack

theorem numbered_eq_zip {messages : List GoString} {nums : List ℤ}
    (hlength : messages.length = nums.length) :
    numbered messages nums = some (nums.zip messages) := by
  induction messages generalizing nums with
  | nil =>
    rw [numbered, List.zip_nil_right]
  | cons message messages ih =>
    obtain ⟨num, nums, rfl⟩ := List.exists_cons_of_length_eq_add_one hlength.symm
    rw [numbered, ih (Nat.succ.inj hlength), Option.map_some, List.zip_cons_cons]

/-- A message that `ValidateBasic` let through does not panic: the kernel is called with its peer,
numbered messages and ack, and no port stays registered. -/
theorem handleMsgDeliverInbound_spec {msg : MsgDeliverInbound} (hvalid : msg.Valid)
    (callToNode : DeliverInboundAction → Except GoString GoString) (blockHeight : ℤ)
    (ports : Ports) :
    ∃ handled, handleMsgDeliverInbound callToNode blockHeight ports msg = some handled ∧
      handled.action.inboundArgs = some msg.inboundArgs ∧
      handled.ports.lastPort = ports.lastPort + 1 ∧
      ∀ port ∈ handled.ports.portToHandler, port ∈ ports.portToHandler := by
  rw [handleMsgDeliverInbound, numbered_eq_zip hvalid.length]
  refine ⟨_, rfl, if_pos rfl, rfl, fun port hport ↦ ?_⟩
  have hother := List.mem_filter.mp hport
  exact (List.mem_cons.mp hother.1).resolve_left (of_decide_eq_true hother.2)

end CosmicSwingset.Chain
