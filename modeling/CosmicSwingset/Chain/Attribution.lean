import CosmicSwingset.Chain.Handler

/-!
# Attribution of messages to their signer

The kernel keeps a mailbox for each peer, and what the handler delivers under the peer name of an
account should come from that account alone: two runs of accepted transactions that agree on those
the account signed should deliver the same under its name (`Noninterfering`), and nobody else should
be able to deliver anything under it (`Unforged`).

`Peer` and `Submitter` are fields of their own: the signature covers both, but `ValidateBasic` and
the handler compare them nowhere, and the solo node's `deliver` names both ("TODO: combine peer and
submitter in the message format. All messages from solo vats are "from" the signer"). So the
messages are attributed exactly when each one that gives the account's address as its peer is signed
by it (`attributed_iff`), which is so while all of them are made by solo nodes
(`attributed_of_agSolo`) and not in general (`forged_not_attributed`).
-/

set_option autoImplicit false
set_option relaxedAutoImplicit false

namespace CosmicSwingset.Chain

open Foundation

/-- One deliver transaction: its message, the height of its block, and how the JavaScript side
answers. -/
structure Transaction where
  msg : MsgDeliverInbound
  blockHeight : ℤ
  callToNode : DeliverInboundAction → Except GoString GoString

/-- The actions that the handler sends over a sequence of transactions; a panic is `none`. -/
def handleAll : Ports → List Transaction → Option (List DeliverInboundAction)
  | _, [] => some []
  | ports, tx :: txs => do
    let handled ← handleMsgDeliverInbound tx.callToNode tx.blockHeight ports tx.msg
    let actions ← handleAll handled.ports txs
    return handled.action :: actions

/-- The messages and acknowledgements delivered under the name `peer`. -/
def deliveredUnder (peer : String) (actions : List DeliverInboundAction) :
    List (List (ℤ × String) × ℤ) :=
  ((actions.filterMap DeliverInboundAction.inboundArgs).filter (·.sender = peer)).map fun args ↦
    (args.messages, args.ack)

/-- The messages that an account signed. -/
def signedBy (account : AccAddress) (txs : List Transaction) : List MsgDeliverInbound :=
  (txs.map Transaction.msg).filter (account ∈ ·.getSigners)

section Attribution

variable (text : AddressText) (allowed : MsgDeliverInbound → Prop) (account : AccAddress)

/-- The peer name of an account in the kernel. -/
def peerName : String := decode (text.string account)

/-- Accepted transactions: `ValidateBasic` passes on each message, and it is one of those that
their signers send. -/
def Accepted (txs : List Transaction) : Prop :=
  ∀ tx ∈ txs, allowed tx.msg ∧ tx.msg.validateBasic text = none

/-- Two runs of accepted transactions that agree on what the account signed deliver the same under
its name. -/
def Noninterfering : Prop :=
  ∀ ports ports' txs txs', Accepted text allowed txs → Accepted text allowed txs' →
    signedBy account txs = signedBy account txs' →
    ∃ actions actions', handleAll ports txs = some actions ∧ handleAll ports' txs' = some actions' ∧
      deliveredUnder (peerName text account) actions =
        deliveredUnder (peerName text account) actions'

/-- No accepted transaction that the account did not sign delivers under its name. -/
def Unforged : Prop :=
  ∀ tx : Transaction, Accepted text allowed [tx] → account ∉ tx.msg.getSigners →
    ∀ ports, ∃ handled args,
      handleMsgDeliverInbound tx.callToNode tx.blockHeight ports tx.msg = some handled ∧
      handled.action.inboundArgs = some args ∧ args.sender ≠ peerName text account

/-- Every accepted message whose peer is the account's address is signed by it. -/
def NamesOnlySigner : Prop :=
  ∀ msg, allowed msg → msg.validateBasic text = none → msg.peer = text.string account →
    account ∈ msg.getSigners

end Attribution

variable {text : AddressText} {allowed : MsgDeliverInbound → Prop} {account : AccAddress}

/-- A message is delivered under the account's name when its peer is the account's address. -/
theorem sender_eq_peerName_iff (msg : MsgDeliverInbound) :
    msg.inboundArgs.sender = peerName text account ↔ msg.peer = text.string account :=
  decode_eq_iff_of_isAscii (text.ascii account)

/-- Over accepted transactions the handler does not panic, and delivers each message. -/
theorem handleAll_spec {txs : List Transaction} (haccepted : Accepted text allowed txs)
    (ports : Ports) :
    ∃ actions, handleAll ports txs = some actions ∧
      actions.filterMap DeliverInboundAction.inboundArgs =
        txs.map fun tx ↦ tx.msg.inboundArgs := by
  induction txs generalizing ports with
  | nil => exact ⟨[], rfl, rfl⟩
  | cons tx txs ih =>
    rw [Accepted, List.forall_mem_cons] at haccepted
    have hvalid := (MsgDeliverInbound.validateBasic_eq_none_iff text tx.msg).mp haccepted.1.2
    obtain ⟨handled, hhandled, hargs, -⟩ :=
      handleMsgDeliverInbound_spec hvalid tx.callToNode tx.blockHeight ports
    obtain ⟨actions, hactions, hrest⟩ := ih haccepted.2 handled.ports
    refine ⟨handled.action :: actions, ?_, ?_⟩
    · rw [handleAll, hhandled, Option.bind_eq_bind, Option.bind_some, hactions]
      rfl
    · rw [List.filterMap_cons_some hargs, hrest, List.map_cons]

/-- What is delivered under the account's name: the messages whose peer is its address. -/
theorem deliveredUnder_eq {txs : List Transaction} {actions : List DeliverInboundAction}
    (hargs : actions.filterMap DeliverInboundAction.inboundArgs =
      txs.map fun tx ↦ tx.msg.inboundArgs) :
    deliveredUnder (peerName text account) actions =
      ((txs.map Transaction.msg).filter (·.peer = text.string account)).map fun msg ↦
        (msg.inboundArgs.messages, msg.inboundArgs.ack) := by
  have hmap : (txs.map fun tx ↦ tx.msg.inboundArgs) =
      (txs.map Transaction.msg).map MsgDeliverInbound.inboundArgs := by
    rw [List.map_map]
    rfl
  rw [deliveredUnder, hargs, hmap, List.filter_map, List.map_map]
  simp only [Function.comp_def, sender_eq_peerName_iff]

/-- When only the account's own messages name it, those that do are among the ones it signed. -/
theorem NamesOnlySigner.filter_peer (h : NamesOnlySigner text allowed account)
    {txs : List Transaction} (haccepted : Accepted text allowed txs) :
    (txs.map Transaction.msg).filter (·.peer = text.string account) =
      (signedBy account txs).filter (·.peer = text.string account) := by
  rw [signedBy, List.filter_filter]
  refine List.filter_congr fun msg hmsg ↦ ?_
  obtain ⟨tx, htx, rfl⟩ := List.mem_map.mp hmsg
  by_cases hpeer : tx.msg.peer = text.string account
  · have hsigned := h tx.msg (haccepted tx htx).1 (haccepted tx htx).2 hpeer
    simp [hpeer, hsigned]
  · simp [hpeer]

theorem NamesOnlySigner.noninterfering (h : NamesOnlySigner text allowed account) :
    Noninterfering text allowed account := by
  intro ports ports' txs txs' haccepted haccepted' hagree
  obtain ⟨actions, hactions, hargs⟩ := handleAll_spec haccepted ports
  obtain ⟨actions', hactions', hargs'⟩ := handleAll_spec haccepted' ports'
  refine ⟨actions, actions', hactions, hactions', ?_⟩
  rw [deliveredUnder_eq hargs, deliveredUnder_eq hargs', h.filter_peer haccepted,
    h.filter_peer haccepted', hagree]

theorem NamesOnlySigner.unforged (h : NamesOnlySigner text allowed account) :
    Unforged text allowed account := by
  intro tx haccepted hsigned ports
  obtain ⟨hallowed, hbasic⟩ := haccepted tx (List.mem_singleton_self tx)
  have hvalid := (MsgDeliverInbound.validateBasic_eq_none_iff text tx.msg).mp hbasic
  obtain ⟨handled, hhandled, hargs, -⟩ :=
    handleMsgDeliverInbound_spec hvalid tx.callToNode tx.blockHeight ports
  refine ⟨handled, tx.msg.inboundArgs, hhandled, hargs, fun hsender ↦ hsigned ?_⟩
  exact h tx.msg hallowed hbasic (sender_eq_peerName_iff tx.msg |>.mp hsender)

/-- A transaction of one message. -/
def Transaction.single (msg : MsgDeliverInbound) : Transaction := ⟨msg, 0, fun _ ↦ .ok []⟩

theorem accepted_single {msg : MsgDeliverInbound} (hallowed : allowed msg)
    (hbasic : msg.validateBasic text = none) : Accepted text allowed [.single msg] := by
  intro tx htx
  rw [List.mem_singleton.mp htx]
  exact ⟨hallowed, hbasic⟩

/-- One message that names the account without its signature interferes: it delivers what the empty
run, which agrees with it on all that the account signed, does not. -/
theorem Noninterfering.namesOnlySigner (h : Noninterfering text allowed account) :
    NamesOnlySigner text allowed account := by
  intro msg hallowed hbasic hpeer
  by_contra hsigned
  have haccepted := accepted_single hallowed hbasic
  have hagree : signedBy account [.single msg] = signedBy account [] := by
    simp [signedBy, Transaction.single, hsigned]
  obtain ⟨actions, actions', hactions, hactions', hsame⟩ :=
    h ⟨0, []⟩ ⟨0, []⟩ [.single msg] [] haccepted (by simp [Accepted]) hagree
  obtain ⟨_, hhandled, hargs⟩ := handleAll_spec haccepted ⟨0, []⟩
  obtain rfl : actions = _ := Option.some.inj (hactions.symm.trans hhandled)
  obtain rfl : [] = actions' := Option.some.inj hactions'
  rw [deliveredUnder_eq hargs] at hsame
  simp [deliveredUnder, Transaction.single, hpeer] at hsame

theorem Unforged.namesOnlySigner (h : Unforged text allowed account) :
    NamesOnlySigner text allowed account := by
  intro msg hallowed hbasic hpeer
  by_contra hsigned
  have hvalid := (MsgDeliverInbound.validateBasic_eq_none_iff text msg).mp hbasic
  obtain ⟨handled, args, hhandled, hargs, hsender⟩ :=
    h (.single msg) (accepted_single hallowed hbasic) hsigned ⟨0, []⟩
  obtain ⟨_, hspec, hspecArgs, -⟩ :=
    handleMsgDeliverInbound_spec hvalid (Transaction.single msg).callToNode 0 ⟨0, []⟩
  obtain rfl : _ = handled := Option.some.inj (hspec.symm.trans hhandled)
  obtain rfl : _ = args := Option.some.inj (hspecArgs.symm.trans hargs)
  exact hsender ((sender_eq_peerName_iff msg).mpr hpeer)

/-- The messages under an account's name are attributed to it, in every two runs of the accepted
transactions that are let through, exactly when those that give its address as their peer are signed
by it. -/
theorem attributed_iff (text : AddressText) (allowed : MsgDeliverInbound → Prop)
    (account : AccAddress) :
    Noninterfering text allowed account ∧ Unforged text allowed account ↔
      NamesOnlySigner text allowed account := by
  constructor
  · exact fun h ↦ h.1.namesOnlySigner
  · exact fun h ↦ ⟨h.noninterfering, h.unforged⟩

/-- Messages made by solo nodes, whose `deliver` runs `tx swingset deliver` with the node's own
address as the peer, signed with the key of that address, are attributed to their signers. -/
theorem attributed_of_agSolo (text : AddressText) (hinjective : Function.Injective text.string)
    (account : AccAddress) :
    let allowed := fun msg ↦ ∃ myAddr msgs,
      msg = newMsgDeliverInbound (text.string myAddr) msgs myAddr
    Noninterfering text allowed account ∧ Unforged text allowed account := by
  intro allowed
  have hnames : NamesOnlySigner text allowed account := by
    rintro _ ⟨myAddr, msgs, rfl⟩ - hpeer
    have haddr : myAddr = account := hinjective hpeer
    rw [haddr, MsgDeliverInbound.getSigners, newMsgDeliverInbound]
    exact List.mem_singleton_self account
  exact ⟨hnames.noninterfering, hnames.unforged⟩

/-! ### A forged message -/

def alice : AccAddress := List.replicate 20 1

def bob : AccAddress := List.replicate 20 2

/-- Bob signs a message that names Alice as its peer. -/
def forgery : Transaction where
  msg := newMsgDeliverInbound (cosmosAddress.string alice) ⟨[go "hello"], [1], 0⟩ bob
  blockHeight := 1
  callToNode := fun _ ↦ .ok []

theorem forged_not_attributed :
    Accepted cosmosAddress (fun _ ↦ True) [forgery] ∧
      signedBy alice [forgery] = signedBy alice [] ∧
      (handleAll ⟨0, []⟩ [forgery]).map (deliveredUnder (peerName cosmosAddress alice)) =
        some [([(1, "hello")], 0)] ∧
      (handleAll ⟨0, []⟩ []).map (deliveredUnder (peerName cosmosAddress alice)) = some [] ∧
      ¬ Noninterfering cosmosAddress (fun _ ↦ True) alice ∧
      ¬ Unforged cosmosAddress (fun _ ↦ True) alice := by
  have hvalid : forgery.msg.validateBasic cosmosAddress = none := by decide +kernel
  have hsigned : alice ∉ forgery.msg.getSigners := by decide
  refine ⟨by simp [Accepted, hvalid], by decide, by decide +kernel, rfl, fun h ↦ ?_, fun h ↦ ?_⟩
  · exact hsigned (h.namesOnlySigner forgery.msg trivial hvalid rfl)
  · exact hsigned (h.namesOnlySigner forgery.msg trivial hvalid rfl)

end CosmicSwingset.Chain
