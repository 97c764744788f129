import CosmicSwingset.Chain.Address

/-!
# The deliver message

`MsgDeliverInbound` of `msgs.go`, with its stateless checks and the account whose signature it
requires.
-/

set_option autoImplicit false
set_option relaxedAutoImplicit false

namespace CosmicSwingset.Chain

open Foundation

/-- The constructors of `sdk.Error` that the module uses, with their texts. -/
inductive SdkError
  | invalidAddress (text : GoString)
  | unknownRequest (text : GoString)
  | internal (text : GoString)
  deriving DecidableEq

/-- `types.Messages`. -/
structure Messages where
  messages : List GoString
  nums : List ℤ
  ack : ℤ

structure MsgDeliverInbound where
  peer : GoString
  messages : List GoString
  nums : List ℤ
  ack : ℤ
  submitter : AccAddress
  deriving DecidableEq

def newMsgDeliverInbound (peer : GoString) (msgs : Messages) (submitter : AccAddress) :
    MsgDeliverInbound where
  peer := peer
  messages := msgs.messages
  nums := msgs.nums
  ack := msgs.ack
  submitter := submitter

namespace MsgDeliverInbound

/-- The loop of `ValidateBasic` over `msg.Nums`, which looks up `msg.Messages[i]` beside each. -/
def validateNums : List ℤ → List GoString → Option SdkError
  | num :: nums, message :: messages =>
    if message = [] then some (.unknownRequest (go "Messages cannot be empty"))
    else if num < 0 then some (.unknownRequest (go "Nums cannot be negative"))
    else validateNums nums messages
  | _, _ => none

/-- The first check that fails, if any. -/
def validateBasic (text : AddressText) (msg : MsgDeliverInbound) : Option SdkError :=
  if msg.submitter = [] then some (.invalidAddress (text.string msg.submitter))
  else if msg.peer = [] then some (.unknownRequest (go "Peer cannot be empty"))
  else if msg.messages.length ≠ msg.nums.length then
    some (.unknownRequest (go "Messages and Nums must be the same length"))
  else (validateNums msg.nums msg.messages).or
    (if msg.ack < 0 then some (.unknownRequest (go "Ack cannot be negative")) else none)

def getSigners (msg : MsgDeliverInbound) : List AccAddress := [msg.submitter]

/-- What `ValidateBasic` lets through. -/
structure Valid (msg : MsgDeliverInbound) : Prop where
  submitter : msg.submitter ≠ []
  peer : msg.peer ≠ []
  length : msg.messages.length = msg.nums.length
  messages : ∀ message ∈ msg.messages, message ≠ []
  nums : ∀ num ∈ msg.nums, 0 ≤ num
  ack : 0 ≤ msg.ack

theorem validateNums_eq_none_iff {nums : List ℤ} {messages : List GoString}
    (hlength : messages.length = nums.length) :
    validateNums nums messages = none ↔
      (∀ message ∈ messages, message ≠ []) ∧ ∀ num ∈ nums, 0 ≤ num := by
  induction nums generalizing messages with
  | nil =>
    rw [List.length_nil, List.length_eq_zero_iff] at hlength
    subst hlength
    simp [validateNums]
  | cons num nums ih =>
    obtain ⟨message, messages, rfl⟩ := List.exists_cons_of_length_eq_add_one hlength
    have hrest := ih (Nat.succ.inj hlength)
    rw [validateNums, List.forall_mem_cons, List.forall_mem_cons]
    by_cases hmessage : message = []
    · simp [hmessage]
    · by_cases hnum : num < 0
      · simp [hmessage, hnum]
      · rw [if_neg hmessage, if_neg hnum, hrest]
        simp only [ne_eq, hmessage, not_false_eq_true, true_and, not_lt.mp hnum]

theorem validateBasic_eq_none_iff (text : AddressText) (msg : MsgDeliverInbound) :
    msg.validateBasic text = none ↔ msg.Valid := by
  unfold validateBasic
  constructor
  · intro h
    by_cases hsubmitter : msg.submitter = []
    · simp [hsubmitter] at h
    by_cases hpeer : msg.peer = []
    · simp [hsubmitter, hpeer] at h
    by_cases hlength : msg.messages.length = msg.nums.length
    · rw [if_neg hsubmitter, if_neg hpeer, if_neg (not_not.mpr hlength), Option.or_eq_none_iff,
        validateNums_eq_none_iff hlength, ite_eq_right_iff] at h
      obtain ⟨⟨hmessages, hnums⟩, hack⟩ := h
      have hnonneg : 0 ≤ msg.ack := not_lt.mp fun hlt ↦ Option.some_ne_none _ (hack hlt)
      exact ⟨hsubmitter, hpeer, hlength, hmessages, hnums, hnonneg⟩
    · simp [hsubmitter, hpeer, hlength] at h
  · intro h
    have hnums := (validateNums_eq_none_iff h.length).mpr ⟨h.messages, h.nums⟩
    rw [if_neg h.submitter, if_neg h.peer, if_neg (not_not.mpr h.length), hnums,
      if_neg (not_lt.mpr h.ack), Option.or_none]

end MsgDeliverInbound

end CosmicSwingset.Chain
