import CosmicSwingset.Chain.AgCosmosDaemon
import CosmicSwingset.Chain.DeliverEncoding
import CosmicSwingset.Chain.MailboxStorage

/-!
# Storage ports of the deliveries

The storage handler of a transaction is registered under a new port in the global table
`portToHandler`, the port travels to Node in the text of the action, and Node keeps it in the single
variable `sPort`, through which `mailboxStorage` sends its requests. Other code in Node may send
anything to any port. The deliveries come one at a time: `handleMsgDeliverInbound` registers the
port, calls Node, waits for its reply and unregisters the port (`step`).

While Node processes a delivery, its requests reach the context of that transaction; a port without
a delivery has no effect; and no port is left behind or comes back (`belongs`). This holds as long
as a port fits into the `C.int` that takes it back to Go.
-/

set_option autoImplicit false
set_option relaxedAutoImplicit false

namespace CosmicSwingset.Chain

open Foundation

/-- Where `handleMsgDeliverInbound` stands: the text of the action is encoded, Node has been called
with it, or Node has replied. -/
inductive DeliveryPhase
  | registered (str : GoString)
  | calling
  | replied (result : Except GoString GoString)

/-- A call of `handleMsgDeliverInbound`: the number of its transaction, what the table was when it
was called, its port, and where it stands. -/
structure Delivery where
  tx : ℕ
  before : ℤ → Option ℕ
  newPort : ℕ
  phase : DeliveryPhase

/-- * `lastPort`, `portToHandler`: the globals; a handler is that of the transaction with a number.
* `stores`: the store of the context of each transaction.
* `handler`: the call of `handleMsgDeliverInbound` that runs.
* `toNode`: the action that Node has been sent and not taken yet, with its transaction.
* `sPort`, `inbound`: the variable of Node, and the transaction that Node is processing.
* `delivered`, `issued`, `answer`: how many deliveries there were, the ports of all of them, and the
  latest result of `SendToGo`. -/
structure StorageBridge where
  lastPort : ℕ
  portToHandler : ℤ → Option ℕ
  stores : ℕ → KVStore
  handler : Option Delivery
  toNode : Option (ℕ × GoString)
  sPort : Option (Json Decimal)
  inbound : Option ℕ
  delivered : ℕ
  issued : List ℕ
  answer : Bytes

/-- * `deliver`: the handler is called with a message, in a context with a store; it registers its
  port and encodes the action.
* `call`: it calls Node. `take`: Node gets the action.
* `reply`: Node resolves or rejects, when it has processed the action or without taking it.
* `return`: the handler unregisters its port and returns.
* `storage`: `mailboxStorage` sends a request while Node is processing an action.
* `send`: something is sent to any port. -/
inductive BridgeEvent
  | deliver (msg : MsgDeliverInbound) (blockHeight : ℤ) (store : KVStore)
  | call
  | take
  | reply (result : Except GoString GoString)
  | return
  | storage (order : RangeOrder) (request : String)
  | send (port : CInt) (order : RangeOrder) (str : Bytes)

/-! ### Node -/

/-- `Boolean(action.storagePort)`. -/
def setsPort : Json Decimal → Bool
  | .null => false
  | .bool b => b
  | .num d => d.mantissa ≠ 0
  | .str s => s ≠ ""
  | .arr _ | .obj _ => true

/-- `sPort` after `toSwingSet0` has looked at the action. -/
def updatedPort (sPort : Option (Json Decimal)) (action : Json Decimal) : Option (Json Decimal) :=
  ((action.property "storagePort").filter setsPort).or sPort

/-- The first argument of `agcc.send` as an `int`; what is no number throws. -/
def agccPort : Json Decimal → Option CInt
  | .num d => some (BitVec.ofInt 32 (d.value.num.tdiv d.value.den))
  | _ => none

/-! ### Go -/

/-- The action of a message. -/
def inboundAction (blockHeight : ℤ) (newPort : ℕ) (messages : List (ℤ × GoString))
    (msg : MsgDeliverInbound) : DeliverInboundAction where
  type := go "DELIVER_INBOUND"
  peer := msg.peer
  messages := messages
  ack := msg.ack
  storagePort := newPort
  blockHeight := blockHeight

/-- `SendToGo` to a handler with this store: the result, empty if there is an error, and the store
after it. -/
def Keeper.answer (k : Keeper) (order : RangeOrder) (store : KVStore) (str : Bytes) :
    Option (Bytes × KVStore) :=
  match k.receive order store (cString str) with
  | .returned (outstr, store) => some (cString outstr, store)
  | .failed _ => some ([], store)
  | .panicked => none

/-- The action is the one of the handler as a function. -/
theorem handleMsgDeliverInbound_action
    (callToNode : DeliverInboundAction → Except GoString GoString) (blockHeight : ℤ) (ports : Ports)
    (msg : MsgDeliverInbound) :
    (handleMsgDeliverInbound callToNode blockHeight ports msg).map Handled.action =
      (numbered msg.messages msg.nums).map fun messages ↦
        inboundAction blockHeight (ports.lastPort + 1) messages msg := by
  unfold handleMsgDeliverInbound
  cases numbered msg.messages msg.nums <;> rfl

/-- The result is the one of `SendToGo` over a registered port. -/
theorem sendToGo_registered (k : Keeper) {ports : Ports} {port : ℕ}
    (hport : port ∈ ports.portToHandler) (order : RangeOrder) (store : KVStore) (str : Bytes) :
    sendToGo k ports order store port str = k.answer order store str := by
  rw [sendToGo, receiveFromNode, if_pos hport]
  rfl

namespace StorageBridge

def fresh (stores : ℕ → KVStore) : StorageBridge :=
  ⟨0, fun _ ↦ none, stores, none, none, none, none, 0, [], []⟩

variable (k : Keeper)

/-- `ReceiveFromNode`: the result and the stores after it. -/
def receiveFromNode (s : StorageBridge) (portNum : ℤ) (order : RangeOrder) (msg : GoString) :
    Outcome (GoString × (ℕ → KVStore)) :=
  match s.portToHandler portNum with
  | none => .failed (.text (go "Unregistered port " ++ encode (toString portNum)))
  | some tx =>
    match k.receive order (s.stores tx) msg with
    | .returned (outstr, store) => .returned (outstr, Function.update s.stores tx store)
    | .failed err => .failed err
    | .panicked => .panicked

/-- `SendToGo`. A panic ends the process. -/
def sendTo (s : StorageBridge) (port : CInt) (order : RangeOrder) (str : Bytes) :
    Option StorageBridge :=
  match s.receiveFromNode k port.toInt order (cString str) with
  | .returned (outstr, stores) => some { s with answer := cString outstr, stores }
  | .failed _ => some { s with answer := [] }
  | .panicked => none

def step (s : StorageBridge) : BridgeEvent → Option StorageBridge
  | .deliver msg blockHeight store =>
    match s.handler, numbered msg.messages msg.nums with
    | some _, _ => none
    -- the handler panics
    | none, none => some s
    | none, some messages =>
      let newPort := s.lastPort + 1
      let str := Json.marshal (inboundAction blockHeight newPort messages msg).json
      some { s with
        lastPort := newPort
        portToHandler := Function.update s.portToHandler newPort (some s.delivered)
        stores := Function.update s.stores s.delivered store
        handler := some ⟨s.delivered, s.portToHandler, newPort, .registered str⟩
        delivered := s.delivered + 1
        issued := s.issued ++ [newPort] }
  | .call => s.handler.bind fun d ↦
    match d.phase with
    | .registered str => some { s with
      handler := some { d with phase := .calling }
      toNode := some (d.tx, str) }
    | _ => none
  | .take => s.toNode.map fun (tx, str) ↦
    match (Json.parseCString str).filter fun action ↦ (toSwingSet action).isSome with
    | none => { s with toNode := none }
    | some action => { s with
      toNode := none
      sPort := updatedPort s.sPort action
      inbound := some tx }
  | .reply result => s.handler.bind fun d ↦
    match d.phase with
    | .calling => some { s with
      handler := some { d with phase := .replied result }
      toNode := none
      inbound := none }
    | _ => none
  | .return => s.handler.bind fun d ↦
    match d.phase with
    | .replied _ => some { s with
      handler := none
      portToHandler := Function.update s.portToHandler d.newPort none }
    | _ => none
  | .storage order request =>
    if s.inbound = none then none
    else (s.sPort.bind agccPort).bind fun port ↦ s.sendTo k port order (encode request)
  | .send port order str => s.sendTo k port order str

/-- Storage operations reach only the transaction that they belong to.

* `own`: a request of `mailboxStorage` is answered from the store of the transaction that Node is
  processing, and changes no other one.
* `stale`: what is sent to a port that is not that of the running handler has the error for its
  result, and changes no store.
* `unique`: no port has been issued twice.
* `restored`: when the handler returns, the table is what it was when the handler was called. -/
structure Belongs (s : StorageBridge) (event : BridgeEvent) (s' : StorageBridge) : Prop where
  own : ∀ order request tx, event = .storage order request → s.inbound = some tx →
    k.answer order (s.stores tx) (encode request) = some (s'.answer, s'.stores tx) ∧
      ∀ other, other ≠ tx → s'.stores other = s.stores other
  stale : ∀ port order str, event = .send port order str →
    (∀ d ∈ s.handler, port.toInt ≠ d.newPort) →
      s.receiveFromNode k port.toInt order (cString str) =
        .failed (.text (go "Unregistered port " ++ encode (toString port.toInt))) ∧
        s'.answer = [] ∧ s'.stores = s.stores
  unique : s'.issued.Nodup
  restored : event = .return → ∀ d ∈ s.handler, s'.portToHandler = d.before

/-- The text of an action with a port. -/
def Carries (str : GoString) (newPort : ℕ) : Prop :=
  ∃ action, Json.parseCString str = some action ∧ (toSwingSet action).isSome ∧
    action.property "storagePort" = some (.num (.ofInt newPort))

/-- The invariant: the only port is that of the running handler, which is on its way to Node, or
what Node has in `sPort` while it is processing the action. -/
structure Tied (s : StorageBridge) : Prop where
  bounded : s.lastPort < 2 ^ 31
  counted : ∀ port ∈ s.issued, port ≤ s.lastPort
  unique : s.issued.Nodup
  idle : s.handler = none → s.portToHandler = fun _ ↦ none
  busy : ∀ d ∈ s.handler, d.before = (fun _ ↦ none) ∧
    s.portToHandler = Function.update d.before d.newPort (some d.tx) ∧
      0 < d.newPort ∧ d.newPort ≤ s.lastPort
  encoded : ∀ d ∈ s.handler, ∀ str, d.phase = .registered str → Carries str d.newPort
  sent : ∀ tx str, s.toNode = some (tx, str) →
    ∃ d ∈ s.handler, d.phase = .calling ∧ d.tx = tx ∧ Carries str d.newPort
  processing : ∀ tx, s.inbound = some tx →
    ∃ d ∈ s.handler, d.phase = .calling ∧ d.tx = tx ∧ s.sPort = some (.num (.ofInt d.newPort))

theorem tied_fresh (stores : ℕ → KVStore) : Tied (fresh stores) := by
  constructor <;> simp [fresh]

/-! ### Ports on their way -/

/-- The port arrives in Go as it was sent. -/
theorem agccPort_ofInt (newPort : ℕ) :
    agccPort (.num (.ofInt newPort)) = some (BitVec.ofNat 32 newPort) := by
  simp [agccPort, BitVec.ofInt_natCast]

theorem carries_marshal (blockHeight : ℤ) (newPort : ℕ) (messages : List (ℤ × GoString))
    (msg : MsgDeliverInbound) :
    Carries (Json.marshal (inboundAction blockHeight newPort messages msg).json) newPort := by
  refine ⟨_, Json.parseCString_marshal _, ?_, rfl⟩
  have hcall : fromGo (Json.marshal (inboundAction blockHeight newPort messages msg).json) =
      some _ := fromGo_marshal (if_pos rfl)
  rw [fromGo, Json.parseCString_marshal, Option.bind_some] at hcall
  rw [hcall, Option.isSome_some]

theorem Carries.updatedPort {str : GoString} {newPort : ℕ} (h : Carries str newPort)
    (hpos : 0 < newPort) (sPort : Option (Json Decimal)) :
    ∃ action, (Json.parseCString str).filter (fun action ↦ (toSwingSet action).isSome) =
      some action ∧ Chain.updatedPort sPort action = some (.num (.ofInt newPort)) := by
  obtain ⟨action, hparse, htype, hport⟩ := h
  refine ⟨action, ?_, ?_⟩
  · rw [hparse]
    exact Option.filter_some_pos htype
  · have hsets : setsPort (.num (.ofInt newPort)) = true := by
      simp [setsPort, Decimal.ofInt, hpos.ne']
    rw [Chain.updatedPort, hport, Option.filter_some_pos hsets, Option.some_or]

/-! ### Messages from Node -/

section Steps

variable {k} {s s' : StorageBridge}

theorem sendTo_registered {port : CInt} {tx : ℕ} (hport : s.portToHandler port.toInt = some tx)
    (order : RangeOrder) (str : Bytes) :
    s.sendTo k port order str = (k.answer order (s.stores tx) str).map fun (answer, store) ↦
      { s with answer, stores := Function.update s.stores tx store } := by
  unfold sendTo receiveFromNode Keeper.answer
  simp only [hport]
  cases k.receive order (s.stores tx) (cString str) with
  | returned ret => rfl
  | failed err => simp
  | panicked => rfl

theorem receiveFromNode_unregistered {portNum : ℤ} (hport : s.portToHandler portNum = none)
    (order : RangeOrder) (msg : GoString) :
    s.receiveFromNode k portNum order msg =
      .failed (.text (go "Unregistered port " ++ encode (toString portNum))) := by
  unfold receiveFromNode
  rw [hport]

/-- A message changes stores and the result only. -/
theorem sendTo_eq_some {port : CInt} {order : RangeOrder} {str : Bytes}
    (hsend : s.sendTo k port order str = some s') :
    ∃ answer stores, s' = { s with answer, stores } := by
  unfold StorageBridge.sendTo at hsend
  split at hsend
  · exact ⟨_, _, (Option.some.inj hsend).symm⟩
  · exact ⟨_, s.stores, (Option.some.inj hsend).symm⟩
  · exact absurd hsend (by simp)

/-! ### What a step does -/

theorem step_deliver {msg : MsgDeliverInbound} {blockHeight : ℤ} {store : KVStore}
    (hstep : s.step k (.deliver msg blockHeight store) = some s') :
    s.handler = none ∧
      (s' = s ∨ ∃ messages, numbered msg.messages msg.nums = some messages ∧
        s' = { s with
          lastPort := s.lastPort + 1
          portToHandler := Function.update s.portToHandler ↑(s.lastPort + 1) (some s.delivered)
          stores := Function.update s.stores s.delivered store
          handler := some ⟨s.delivered, s.portToHandler, s.lastPort + 1, .registered
            (Json.marshal (inboundAction blockHeight (s.lastPort + 1) messages msg).json)⟩
          delivered := s.delivered + 1
          issued := s.issued ++ [s.lastPort + 1] }) := by
  rw [StorageBridge.step] at hstep
  split at hstep
  · exact absurd hstep (by simp)
  · rename_i hidle hnone
    exact ⟨hidle, Or.inl (Option.some.inj hstep).symm⟩
  · rename_i messages hidle hnumbered
    exact ⟨hidle, Or.inr ⟨messages, hnumbered, (Option.some.inj hstep).symm⟩⟩

theorem step_call (hstep : s.step k .call = some s') :
    ∃ d str, s.handler = some d ∧ d.phase = .registered str ∧
      s' = { s with handler := some { d with phase := .calling }, toNode := some (d.tx, str) } := by
  obtain ⟨d, hd, hstep⟩ := Option.bind_eq_some_iff.mp hstep
  split at hstep
  · rename_i str hphase
    exact ⟨d, str, hd, hphase, (Option.some.inj hstep).symm⟩
  · exact absurd hstep (by simp)

theorem step_reply {result : Except GoString GoString}
    (hstep : s.step k (.reply result) = some s') :
    ∃ d, s.handler = some d ∧ d.phase = .calling ∧
      s' = { s with
        handler := some { d with phase := .replied result }
        toNode := none
        inbound := none } := by
  obtain ⟨d, hd, hstep⟩ := Option.bind_eq_some_iff.mp hstep
  split at hstep
  · rename_i hphase
    exact ⟨d, hd, hphase, (Option.some.inj hstep).symm⟩
  · exact absurd hstep (by simp)

theorem step_return (hstep : s.step k .return = some s') :
    ∃ d result, s.handler = some d ∧ d.phase = .replied result ∧
      s' = { s with
        handler := none
        portToHandler := Function.update s.portToHandler d.newPort none } := by
  obtain ⟨d, hd, hstep⟩ := Option.bind_eq_some_iff.mp hstep
  split at hstep
  · rename_i result hphase
    exact ⟨d, result, hd, hphase, (Option.some.inj hstep).symm⟩
  · exact absurd hstep (by simp)

theorem step_storage {order : RangeOrder} {request : String}
    (hstep : s.step k (.storage order request) = some s') :
    s.inbound ≠ none ∧ ∃ port, s.sPort.bind agccPort = some port ∧
      s.sendTo k port order (encode request) = some s' := by
  rw [StorageBridge.step] at hstep
  split_ifs at hstep with hinbound
  obtain ⟨port, hport, hsend⟩ := Option.bind_eq_some_iff.mp hstep
  exact ⟨hinbound, port, hport, hsend⟩

/-! ### The invariant -/

theorem Tied.sendTo (h : Tied s) {port : CInt} {order : RangeOrder} {str : Bytes}
    (hsend : s.sendTo k port order str = some s') : Tied s' := by
  obtain ⟨answer, stores, rfl⟩ := sendTo_eq_some hsend
  exact ⟨h.bounded, h.counted, h.unique, h.idle, h.busy, h.encoded, h.sent, h.processing⟩

/-- The port in `sPort` is that of the transaction that Node is processing. -/
theorem Tied.own (h : Tied s) {tx : ℕ} (hinbound : s.inbound = some tx) {port : CInt}
    (hport : s.sPort.bind agccPort = some port) : s.portToHandler port.toInt = some tx := by
  obtain ⟨d, hd, -, rfl, hsPort⟩ := h.processing tx hinbound
  obtain ⟨-, htable, -, hle⟩ := h.busy d hd
  rw [hsPort, Option.bind_some, agccPort_ofInt, Option.some.injEq] at hport
  have hint : port.toInt = d.newPort := by
    rw [← hport]
    exact Daemon.Issued.toInt_ofNat (Nat.lt_of_le_of_lt hle h.bounded)
  rw [htable, hint, Function.update_self]

/-- A port that is not that of the running handler has no handler. -/
theorem Tied.stale (h : Tied s) {portNum : ℤ} (hother : ∀ d ∈ s.handler, portNum ≠ d.newPort) :
    s.portToHandler portNum = none := by
  cases hhandler : s.handler with
  | none => rw [h.idle hhandler]
  | some d =>
    obtain ⟨hbefore, htable, -⟩ := h.busy d hhandler
    rw [htable, Function.update_of_ne (hother d hhandler), hbefore]

/-- The handler is called with a message. -/
theorem Tied.deliver (h : Tied s) (hidle : s.handler = none) {str : GoString}
    (hcarries : Carries str (s.lastPort + 1)) (hbound : s.lastPort + 1 < 2 ^ 31)
    (store : KVStore) :
    Tied { s with
      lastPort := s.lastPort + 1
      portToHandler := Function.update s.portToHandler ↑(s.lastPort + 1) (some s.delivered)
      stores := Function.update s.stores s.delivered store
      handler := some ⟨s.delivered, s.portToHandler, s.lastPort + 1, .registered str⟩
      delivered := s.delivered + 1
      issued := s.issued ++ [s.lastPort + 1] } where
  bounded := hbound
  counted := by
    intro port hport
    rcases List.mem_append.mp hport with hold | hnew
    · exact Nat.le_succ_of_le (h.counted port hold)
    · exact Nat.le_of_eq (List.mem_singleton.mp hnew)
  unique := by
    refine List.nodup_append.mpr ⟨h.unique, List.nodup_singleton _, ?_⟩
    intro port hport other hother
    have hle := h.counted port hport
    rw [List.mem_singleton.mp hother]
    omega
  idle := fun hnone ↦ absurd hnone (by simp)
  busy := by
    intro d hd
    obtain rfl := Option.some.inj hd
    exact ⟨h.idle hidle, rfl, Nat.succ_pos _, Nat.le_refl _⟩
  encoded := by
    intro d hd str' hphase
    obtain rfl := Option.some.inj hd
    obtain rfl := DeliveryPhase.registered.inj hphase
    exact hcarries
  sent := by
    intro tx str' hsent
    obtain ⟨d, hd, -⟩ := h.sent tx str' hsent
    rw [hidle] at hd
    exact absurd hd (by simp)
  processing := by
    intro tx hinbound
    obtain ⟨d, hd, -⟩ := h.processing tx hinbound
    rw [hidle] at hd
    exact absurd hd (by simp)

/-- Node takes the action, and `sPort` is the port of its transaction. -/
theorem Tied.take (h : Tied s) {tx : ℕ} {str : GoString} (hsent : s.toNode = some (tx, str)) :
    ∃ sPort, s.step k .take = some { s with toNode := none, sPort, inbound := some tx } ∧
      Tied { s with toNode := none, sPort, inbound := some tx } := by
  obtain ⟨d, hd, hphase, htx, hcarries⟩ := h.sent tx str hsent
  obtain ⟨-, -, hpos, -⟩ := h.busy d hd
  obtain ⟨action, haction, hport⟩ := hcarries.updatedPort hpos s.sPort
  refine ⟨updatedPort s.sPort action, ?_,
    ⟨h.bounded, h.counted, h.unique, h.idle, h.busy, h.encoded, ?_, ?_⟩⟩
  · rw [StorageBridge.step, hsent, Option.map_some]
    simp only [haction]
  · exact fun _ _ hnone ↦ absurd hnone (by simp)
  · intro tx' hinbound
    obtain rfl := Option.some.inj hinbound
    exact ⟨d, hd, hphase, htx, hport⟩

/-- Node has nothing to do with a handler that does not wait for it. -/
theorem Tied.away (h : Tied s) {d : Delivery} (hd : s.handler = some d)
    (hphase : d.phase ≠ .calling) : s.toNode = none ∧ s.inbound = none := by
  constructor
  · by_contra hsome
    obtain ⟨⟨tx, str⟩, hsent⟩ := Option.ne_none_iff_exists'.mp hsome
    obtain ⟨d', hd', hcalling, -⟩ := h.sent tx str hsent
    rw [hd, Option.mem_some_iff] at hd'
    exact hphase (hd' ▸ hcalling)
  · by_contra hsome
    obtain ⟨tx, hinbound⟩ := Option.ne_none_iff_exists'.mp hsome
    obtain ⟨d', hd', hcalling, -⟩ := h.processing tx hinbound
    rw [hd, Option.mem_some_iff] at hd'
    exact hphase (hd' ▸ hcalling)

/-- The handler goes on to the next phase, in which Node is not processing its action. -/
theorem Tied.advance (h : Tied s) {d : Delivery} (hd : s.handler = some d) (phase : DeliveryPhase)
    (hregistered : ∀ str, phase ≠ .registered str) (toNode : Option (ℕ × GoString))
    (hsent : ∀ tx str, toNode = some (tx, str) →
      phase = .calling ∧ d.tx = tx ∧ Carries str d.newPort) :
    Tied { s with handler := some { d with phase }, toNode, inbound := none } where
  bounded := h.bounded
  counted := h.counted
  unique := h.unique
  idle := fun hnone ↦ absurd hnone (by simp)
  busy := by
    intro d' hd'
    obtain rfl := Option.some.inj hd'
    exact h.busy d hd
  encoded := by
    intro d' hd' str hphase
    obtain rfl := Option.some.inj hd'
    exact absurd hphase (hregistered str)
  sent := fun tx str htoNode ↦ ⟨_, rfl, hsent tx str htoNode⟩
  processing := fun _ hinbound ↦ absurd hinbound (by simp)

/-- The table after the port has been unregistered. -/
theorem Tied.unregistered (h : Tied s) {d : Delivery} (hd : s.handler = some d) :
    Function.update s.portToHandler d.newPort none = d.before := by
  obtain ⟨hbefore, htable, -⟩ := h.busy d hd
  rw [htable, hbefore, Function.update_idem, Function.update_eq_self_iff]

theorem Tied.step (h : Tied s) {event : BridgeEvent} (hbound : s'.lastPort < 2 ^ 31)
    (hstep : s.step k event = some s') : Tied s' := by
  cases event with
  | deliver msg blockHeight store =>
    obtain ⟨hidle, rfl | ⟨messages, -, rfl⟩⟩ := step_deliver hstep
    · exact h
    · exact h.deliver hidle (carries_marshal _ _ _ _) hbound store
  | call =>
    obtain ⟨d, str, hd, hphase, rfl⟩ := step_call hstep
    have haway := h.away hd (by simp [hphase])
    have hadvance := h.advance hd .calling (by simp) (some (d.tx, str)) fun tx str' hsent ↦ by
      obtain ⟨rfl, rfl⟩ := Prod.mk.inj (Option.some.inj hsent)
      exact ⟨rfl, rfl, h.encoded d hd str hphase⟩
    rw [← haway.2] at hadvance
    exact hadvance
  | take =>
    cases hsent : s.toNode with
    | none =>
      rw [StorageBridge.step, hsent] at hstep
      exact absurd hstep (by simp)
    | some sent =>
      obtain ⟨sPort, hstep', htied⟩ := h.take (k := k) hsent
      rw [hstep', Option.some.injEq] at hstep
      exact hstep ▸ htied
  | reply result =>
    obtain ⟨d, hd, -, rfl⟩ := step_reply hstep
    exact h.advance hd _ (by simp) none (by simp)
  | «return» =>
    obtain ⟨d, result, hd, hphase, rfl⟩ := step_return hstep
    obtain ⟨htoNode, hinbound⟩ := h.away hd (by simp [hphase])
    exact
      { bounded := h.bounded
        counted := h.counted
        unique := h.unique
        idle := fun _ ↦ (h.unregistered hd).trans (h.busy d hd).1
        busy := fun _ hnone ↦ nomatch hnone
        encoded := fun _ hnone ↦ nomatch hnone
        sent := fun _ _ hsent ↦ absurd (htoNode.symm.trans hsent) (by simp)
        processing := fun _ hsome ↦ absurd (hinbound.symm.trans hsome) (by simp) }
  | storage order request =>
    obtain ⟨-, port, -, hsend⟩ := step_storage hstep
    exact h.sendTo hsend
  | send port order str => exact h.sendTo hstep

/-- In a state with the invariant, a step has the property. -/
theorem Tied.belongs_of_step (h : Tied s) {event : BridgeEvent} (hbound : s'.lastPort < 2 ^ 31)
    (hstep : s.step k event = some s') : Belongs k s event s' where
  own := by
    rintro order request tx rfl hinbound
    obtain ⟨-, port, hport, hsend⟩ := step_storage hstep
    rw [sendTo_registered (h.own hinbound hport)] at hsend
    obtain ⟨⟨answer, store⟩, hanswer, rfl⟩ := Option.map_eq_some_iff.mp hsend
    constructor
    · change _ = some (answer, Function.update s.stores tx store tx)
      rw [hanswer, Function.update_self]
    · exact fun other hother ↦ Function.update_of_ne hother _ _
  stale := by
    rintro port order str rfl hother
    have hfailed := receiveFromNode_unregistered (k := k) (h.stale hother) order (cString str)
    change s.sendTo k port order str = some s' at hstep
    unfold StorageBridge.sendTo at hstep
    rw [hfailed] at hstep
    obtain rfl := Option.some.inj hstep
    exact ⟨hfailed, rfl, rfl⟩
  unique := (h.step hbound hstep).unique
  restored := by
    rintro rfl d hd
    obtain ⟨d', result, hd', -, rfl⟩ := step_return hstep
    obtain rfl : d' = d := Option.some.inj (hd'.symm.trans hd)
    exact h.unregistered hd

theorem sendTo_lastPort {port : CInt} {order : RangeOrder} {str : Bytes}
    (hsend : s.sendTo k port order str = some s') : s'.lastPort = s.lastPort := by
  obtain ⟨answer, stores, rfl⟩ := sendTo_eq_some hsend
  rfl

/-- A step issues at most one port. -/
theorem lastPort_le_of_step {event : BridgeEvent} (hstep : s.step k event = some s') :
    s'.lastPort ≤ s.lastPort + 1 := by
  cases event with
  | deliver msg blockHeight store =>
    obtain ⟨-, rfl | ⟨messages, -, rfl⟩⟩ := step_deliver hstep
    · exact Nat.le_succ _
    · exact le_rfl
  | call =>
    obtain ⟨d, str, -, -, rfl⟩ := step_call hstep
    exact Nat.le_succ _
  | take =>
    obtain ⟨⟨tx, str⟩, -, rfl⟩ := Option.map_eq_some_iff.mp hstep
    dsimp only
    split
    · exact Nat.le_succ _
    · exact Nat.le_succ _
  | reply result =>
    obtain ⟨d, -, -, rfl⟩ := step_reply hstep
    exact Nat.le_succ _
  | «return» =>
    obtain ⟨d, result, -, -, rfl⟩ := step_return hstep
    exact Nat.le_succ _
  | storage order request =>
    obtain ⟨-, port, -, hsend⟩ := step_storage hstep
    exact (sendTo_lastPort hsend).trans_le (Nat.le_succ _)
  | send port order str => exact (sendTo_lastPort hstep).trans_le (Nat.le_succ _)

/-- The ports of a run that is shorter than this fit into an `int`. -/
theorem bounded_of_length {events : List BridgeEvent}
    (hlength : s.lastPort + events.length < 2 ^ 31) :
    AllSteps (step k) (fun _ _ s' ↦ s'.lastPort < 2 ^ 31) s events := by
  induction events generalizing s with
  | nil => trivial
  | cons event events ih =>
    rw [List.length_cons] at hlength
    refine allSteps_cons.mpr fun s' hstep ↦ ?_
    have hle := lastPort_le_of_step hstep
    exact ⟨by omega, ih (by omega)⟩

end Steps

/-- In every run of fewer than `2 ^ 31` deliveries, with any replies of Node and anything sent to
any port at any time, storage operations reach only the transaction that they belong to. -/
theorem belongs (stores : ℕ → KVStore) (events : List BridgeEvent)
    (h : AllSteps (step k) (fun _ _ s' ↦ s'.lastPort < 2 ^ 31) (fresh stores) events) :
    AllSteps (step k) (Belongs k) (fresh stores) events := by
  have hkeep : ∀ (s : StorageBridge) (event : BridgeEvent) (s' : StorageBridge), Tied s →
      s'.lastPort < 2 ^ 31 → s.step k event = some s' → Tied s' :=
    fun _ _ _ htied hbound hstep ↦ htied.step hbound hstep
  have hprop : ∀ (s : StorageBridge) (event : BridgeEvent) (s' : StorageBridge), Tied s →
      s'.lastPort < 2 ^ 31 → s.step k event = some s' → Belongs k s event s' :=
    fun _ _ _ htied hbound hstep ↦ htied.belongs_of_step hbound hstep
  exact AllSteps.of_invariant hkeep hprop (tied_fresh stores) h

/-- Two deliveries. A request of the second one's time goes to the port of the first one. -/
def twoDeliveries : List BridgeEvent :=
  let msg : MsgDeliverInbound := ⟨go "peer", [go "hello"], [1], 0, [1]⟩
  [.deliver msg 7 .empty, .call, .take, .storage .forward "\x7b\"method\":\"keys\"\x7d",
    .reply (.ok (go "true")), .return, .deliver msg 8 .empty, .call, .take,
    .send 1 .forward (go "\x7b\"method\":\"set\",\"key\":\"a\",\"value\":\"b\"\x7d"),
    .reply (.error (go "no")), .return]

/-- All its events take place. -/
theorem belongs_twoDeliveries :
    AllSteps (step aminoKeeper) (Belongs aminoKeeper) (fresh fun _ ↦ .empty) twoDeliveries ∧
      (run (step aminoKeeper) (fresh fun _ ↦ .empty) twoDeliveries).isSome = true :=
  ⟨belongs aminoKeeper _ twoDeliveries (bounded_of_length (by decide)), by decide +kernel⟩

end StorageBridge

end CosmicSwingset.Chain
