import CosmicSwingset.Chain.DeliverEncoding

/-!
# Two ways to send a deliver transaction

`GetCmdDeliver` of `tx.go` is the command `tx swingset deliver [sender] [json string]`, and
`deliverMailboxHandler` answers `POST /swingset/mailbox`. Both read the messages from a JSON text
and check the message that they make of it; the command then signs and broadcasts it, and the
handler answers with the transaction for the caller to sign. The command takes its text from a file
when the argument begins with `@`, from standard input when the file is `-`, and panics on an empty
argument.

What comes out of either is a message that `ValidateBasic` lets through (`Submitting.valid`); from a
file that a solo node has written the command makes the message with the batch and the
acknowledgement in it (`getCmdDeliver_file`), and from the same text both make the same
(`getCmdDeliver_eq_deliverMailboxHandler`).
-/

set_option autoImplicit false
set_option relaxedAutoImplicit false

namespace CosmicSwingset.Chain

open Foundation SwingSet

/-- Why no message is made: a file or standard input cannot be read, the submitter is no address,
the text is no list of messages, or the message is not valid. -/
inductive SubmitError
  | read
  | submitter
  | messages (err : GoError)
  | invalid (err : SdkError)
  deriving DecidableEq

inductive Submitting
  | msg (msg : MsgDeliverInbound)
  | failed (err : SubmitError)
  | panicked
  deriving DecidableEq

section Submit

variable (text : AddressText)

/-- The message of a JSON text, checked. -/
def submit (peer jsonString : GoString) (submitter : AccAddress) : Submitting :=
  match unmarshalMessagesJSON jsonString with
  | .panicked => .panicked
  | .failed err => .failed (.messages err)
  | .returned msgs =>
    let msg := newMsgDeliverInbound peer msgs submitter
    match msg.validateBasic text with
    | some err => .failed (.invalid err)
    | none => .msg msg

/-- `RunE` of `GetCmdDeliver`, up to the broadcast. `readFile` gives the bytes of the files that can
be read, `scanned` what `Scanln` reads from standard input. -/
def getCmdDeliver (readFile : GoString → Option GoString) (scanned : Option GoString)
    (sender jsonIn : GoString) (fromAddress : AccAddress) : Submitting :=
  match jsonIn with
  -- `jsonIn[0]` is out of range
  | [] => .panicked
  | first :: fname =>
    if [first] = go "@" then
      match if fname = go "-" then scanned else readFile fname with
      | none => .failed .read
      | some jsonIn => submit text sender jsonIn fromAddress
    else submit text sender (first :: fname) fromAddress

/-- What `deliverMailboxHandler` reads of its request. -/
structure DeliverMailboxReq where
  peer : GoString
  deliver : GoString
  submitter : GoString

/-- `deliverMailboxHandler`, from the request that `ReadRESTReq` gives to the message that goes into
the answer. -/
def deliverMailboxHandler (accAddressFromBech32 : GoString → Option AccAddress)
    (req : DeliverMailboxReq) : Submitting :=
  match accAddressFromBech32 req.submitter with
  | none => .failed .submitter
  | some addr => submit text req.peer req.deliver addr

end Submit

variable {text : AddressText}

/-- The message that is sent has the peer and the submitter that were given, and is valid. -/
theorem Submitting.valid {peer jsonString : GoString} {submitter : AccAddress}
    {msg : MsgDeliverInbound} (h : submit text peer jsonString submitter = .msg msg) :
    ∃ msgs, unmarshalMessagesJSON jsonString = .returned msgs ∧
      msg = newMsgDeliverInbound peer msgs submitter ∧ msg.Valid := by
  unfold submit at h
  split at h
  · cases h
  · cases h
  · rename_i msgs hread
    simp only at h
    split at h
    · cases h
    · rename_i hvalid
      obtain rfl := Submitting.msg.inj h
      exact ⟨msgs, hread, rfl, (MsgDeliverInbound.validateBasic_eq_none_iff text _).mp hvalid⟩

/-- The argument `@fname`. -/
theorem getCmdDeliver_at {readFile : GoString → Option GoString} {scanned : Option GoString}
    {sender fname : GoString} {fromAddress : AccAddress} (hfname : fname ≠ go "-") :
    getCmdDeliver text readFile scanned sender (go "@" ++ fname) fromAddress =
      match readFile fname with
      | none => .failed .read
      | some jsonIn => submit text sender jsonIn fromAddress := by
  have hfirst : [(64 : Byte)] = go "@" := rfl
  have hat : go "@" ++ fname = (64 : Byte) :: fname := rfl
  rw [hat, getCmdDeliver, if_pos hfirst, if_neg hfname]

/-- The command on the file of a batch: it broadcasts the message of this batch or nothing. -/
theorem getCmdDeliver_file {readFile : GoString → Option GoString} {scanned : Option GoString}
    {sender fname : GoString} {fromAddress : AccAddress} (hfname : fname ≠ go "-")
    {newMessages : List Message} {acknum : ℕ}
    (hfile : readFile fname = some (encode (deliverText newMessages acknum)))
    {msg : MsgDeliverInbound}
    (h : getCmdDeliver text readFile scanned sender (go "@" ++ fname) fromAddress = .msg msg) :
    msg = newMsgDeliverInbound sender (sentMessages newMessages acknum) fromAddress ∧
      msg.Valid := by
  rw [getCmdDeliver_at hfname, hfile] at h
  obtain ⟨msgs, hread, rfl, hvalid⟩ := Submitting.valid h
  obtain rfl := unmarshalMessagesJSON_deliverText hread
  exact ⟨rfl, hvalid⟩

/-- A batch that the chain takes is broadcast. -/
theorem getCmdDeliver_of_sendable {readFile : GoString → Option GoString}
    {scanned : Option GoString} {peer : String} {fname : GoString} {fromAddress : AccAddress}
    (hfname : fname ≠ go "-") {newMessages : List Message} {acknum : ℕ}
    (hfile : readFile fname = some (encode (deliverText newMessages acknum)))
    (hsendable : Sendable peer newMessages acknum) (haddress : fromAddress ≠ []) :
    getCmdDeliver text readFile scanned (encode peer) (go "@" ++ fname) fromAddress =
      .msg (newMsgDeliverInbound (encode peer) (sentMessages newMessages acknum) fromAddress) := by
  have hvalid := (MsgDeliverInbound.validateBasic_eq_none_iff text _).mpr (hsendable.valid haddress)
  simp only [getCmdDeliver_at hfname, hfile, submit, hsendable.formatted.unmarshal, hvalid]

/-- The command with a file and the handler with the text of the file send the same message, when
the submitter's text is that of the command's account. -/
theorem getCmdDeliver_eq_deliverMailboxHandler {readFile : GoString → Option GoString}
    {scanned : Option GoString} {fname jsonString : GoString} {fromAddress : AccAddress}
    (hfname : fname ≠ go "-") (hfile : readFile fname = some jsonString)
    {accAddressFromBech32 : GoString → Option AccAddress} {req : DeliverMailboxReq}
    (hsubmitter : accAddressFromBech32 req.submitter = some fromAddress)
    (hdeliver : req.deliver = jsonString) :
    getCmdDeliver text readFile scanned req.peer (go "@" ++ fname) fromAddress =
      deliverMailboxHandler text accAddressFromBech32 req := by
  rw [getCmdDeliver_at hfname, hfile, deliverMailboxHandler, hsubmitter, hdeliver]

/-- What the handler of the chain and the JavaScript side make of a message of a solo node: the call
`deliverInbound` with the batch and the acknowledgement. -/
theorem call_of_submitted {peer : String} {newMessages : List Message} {acknum : ℕ}
    {submitter : AccAddress}
    (hvalid : (newMsgDeliverInbound (encode peer) (sentMessages newMessages acknum)
      submitter).Valid)
    (callToNode : DeliverInboundAction → Except GoString GoString) (blockHeight : ℤ)
    (ports : Ports) :
    ∃ handled, handleMsgDeliverInbound callToNode blockHeight ports
        (newMsgDeliverInbound (encode peer) (sentMessages newMessages acknum) submitter) =
          some handled ∧
      fromGo (Json.marshal handled.action.json) =
        some ⟨some (.str peer), some (messagesJson newMessages), some (.num (.ofInt acknum))⟩ := by
  obtain ⟨handled, hhandled, hargs, -, -⟩ :=
    handleMsgDeliverInbound_spec hvalid callToNode blockHeight ports
  exact ⟨handled, hhandled, by rw [fromGo_marshal hargs, call_inboundArgs]⟩

end CosmicSwingset.Chain
