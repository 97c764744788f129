import CosmicSwingset.Solo.Web

/-!
# Startup of the solo node

`start` of `start.js` makes the HTTP listener first, and assigns `deliverInboundCommand` only when
the swingset has been built, which takes its time. Until then `command` calls `undefined`, and
throws. Each event handler of `makeHTTPListener` has its own way with this: express catches what the
handler of a POST throws, the handler of a message has a `try`, but a new connection and its end
only have the `.catch` of a promise that they never get.

A handler of messages is async, and its own handler of errors reads `e.message`: it fails when the
command is rejected without a value. So the events finish without an exception that nobody catches
exactly in those runs where no socket but those at `/` opens too early, and no command of a message
is rejected with `undefined` or `null` (`startup_safe_iff`). The sockets that close are no danger of
their own, because they have opened before.
-/

set_option autoImplicit false
set_option relaxedAutoImplicit false

namespace CosmicSwingset.Solo

open Foundation Vats

variable {ν : Type*}

/-- Where `start` is. It listens, then has `deliverInboundCommand` assigned, then has registered
the broadcast callback. -/
inductive StartPhase
  | connecting
  | listening
  | built
  | registered
  deriving DecidableEq

/-- `deliverInboundCommand` is a function. -/
def StartPhase.assigned : StartPhase → Bool
  | connecting | listening => false
  | built | registered => true

def StartPhase.next : StartPhase → Option StartPhase
  | connecting => some listening
  | listening => some built
  | built => some registered
  | registered => none

/-- The process, and whether an exception that nobody has caught has taken it down. -/
structure Starting where
  phase : StartPhase
  web : Web
  down : Bool

def Starting.fresh : Starting := ⟨.connecting, .fresh, false⟩

/-- What the promise of a command comes to; it may be rejected with `undefined`. -/
inductive Settled (ν : Type*)
  | fulfilled (res : Json ν)
  | rejected (rej : Option (Json ν))
  | pending

/-- How the call of an event handler ends. The promise of an async one may be rejected. -/
inductive Finish
  | returned
  | threw
  | rejected
  deriving DecidableEq

/-- The `Origin` of a POST: `validateOrigin` is true, it is false, or `new URL(origin)` throws. -/
inductive Origin
  | permitted
  | refused
  | malformed
  deriving DecidableEq

/-- `command(obj)`: the promise, or `none` where the call of `undefined` throws. -/
def Starting.command (s : Starting) (settled : Settled ν) : Option (Settled ν) :=
  if s.phase.assigned then some settled else none

/-! ### Event handlers -/

section Handlers

variable (numbers : Numbers ν) (s : Starting)

/-- A rejection is logged. -/
def newConnectionFinish (url : String) (settled : Settled ν) : Finish :=
  if url = "/" then .returned
  else match s.command settled with
    | none => .threw
    | some _ => .returned

/-- A rejection is ignored. -/
def onCloseFinish (socket : Socket) (settled : Settled ν) : Finish :=
  if socket.url = "/" then .returned
  else match s.command settled with
    | none => .threw
    | some _ => .returned

section Errors

variable [DecidableEq ν]

/-- `e.message || JSON.stringify(e)`, which throws for `undefined` and `null`. -/
def errorMessage : Option (Json ν) → Option (Json ν)
  | none | some .null => none
  | some e => some <|
    match e.property "message" with
    | some message =>
      if truthy numbers message then message
      else .str (String.ofList (Json.render numbers.toNumerals e))
    | none => .str (String.ofList (Json.render numbers.toNumerals e))

/-- What the handler of a message gives to `sendJSON` when its command is rejected. -/
def ctpError (connectionID : ℕ) (rej : Option (Json ν)) : Option (Json ν) :=
  (errorMessage numbers rej).map fun error ↦
    .obj [("type", .str "CTP_ERROR"), ("connectionID", idJson numbers connectionID),
      ("error", error)]

def onMessageFinish (socket : Socket) (message : String) (settled : Settled ν) : Finish :=
  match onMessage numbers socket message with
  -- the message is ignored, or `JSON.parse` or the tagging throws and is caught
  | none => .returned
  | some _ =>
    match s.command settled with
    | some (.rejected rej) =>
      match ctpError numbers socket.connectionID rej with
      | some _ => .returned
      | none => .rejected
    | _ => .returned

end Errors

/-- The handler of `POST /vat`. A rejection is part of the response. -/
def postFinish (origin : Origin) (settled : Settled ν) : Finish :=
  match origin with
  | .malformed => .threw
  | .refused => .returned
  | .permitted =>
    match s.command settled with
    | none => .threw
    | some _ => .returned

end Handlers

/-- Nobody catches the end of the call: what an emitter's listener throws, and the rejection of any
listener. -/
def uncaught : Finish → Bool
  | .returned => false
  | .threw | .rejected => true

/-- Express catches what a handler throws. -/
def uncaughtByExpress : Finish → Bool
  | .returned | .threw => false
  | .rejected => true

/-! ### Runs -/

/-- Something that a client does, with what becomes of the command it may make. Upgrades are those
with a permitted origin. -/
inductive ClientEvent (ν : Type*)
  | connect (url : String) (settled : Settled ν)
  | message (connectionID : ℕ) (message : String) (settled : Settled ν)
  | close (connectionID : ℕ) (settled : Settled ν)
  | post (origin : Origin) (body : Json ν) (settled : Settled ν)

/-- The next step of `start`, or an event of a client. -/
inductive StartEvent (ν : Type*)
  | start
  | client (event : ClientEvent ν)

namespace Starting

variable (numbers : Numbers ν) [DecidableEq ν]

def handle (s : Starting) : ClientEvent ν → Option Starting
  | .connect url settled => some
    { s with
      web := (newConnection numbers s.web url).1
      down := uncaught (newConnectionFinish s url settled) }
  | .message connectionID message settled =>
    (s.web.socket? connectionID).map fun socket ↦
      { s with down := uncaught (onMessageFinish numbers s socket message settled) }
  | .close connectionID settled =>
    (s.web.socket? connectionID).map fun socket ↦
      { s with
        web := (onClose numbers s.web socket).1
        down := uncaught (onCloseFinish s socket settled) }
  | .post origin _ settled => some
    { s with down := uncaughtByExpress (postFinish s origin settled) }

/-- An event while the process is up; clients are heard once there is a listener. -/
def step (s : Starting) : StartEvent ν → Option Starting
  | .start => if s.down then none else s.phase.next.map fun phase ↦ { s with phase }
  | .client event => if s.down ∨ s.phase = .connecting then none else s.handle numbers event

/-- The handler of the event, if it is one, finishes without an exception that nobody catches. -/
def Survives (_ : Starting) (_ : StartEvent ν) (s' : Starting) : Prop := s'.down = false

/-- A socket at another url than `/` opens only when `deliverInboundCommand` has been assigned, and
the command of a message is not rejected with `undefined` or `null`. -/
def Prepared (s : Starting) (event : StartEvent ν) (_ : Starting) : Prop :=
  match event with
  | .client (.connect url _) => url ≠ "/" → s.phase.assigned = true
  | .client (.message connectionID message settled) =>
    ∀ socket ∈ s.web.socket? connectionID, ∀ rej, settled = .rejected rej →
      onMessage numbers socket message ≠ none → rej ≠ none ∧ rej ≠ some .null
  | _ => True

/-- The sockets that make commands have opened after the assignment. -/
def Tied (s : Starting) : Prop :=
  ∀ socket ∈ s.web.sockets, socket.url ≠ "/" → s.phase.assigned = true

theorem tied_fresh : Tied .fresh := fun _ hsocket ↦ nomatch hsocket

end Starting

/-! ### Handlers in every phase -/

section Phases

variable {numbers : Numbers ν} {s : Starting} {settled : Settled ν}

theorem StartPhase.assigned_of_next {phase phase' : StartPhase} (h : phase.next = some phase')
    (hassigned : phase.assigned = true) : phase'.assigned = true := by
  cases phase with
  | built =>
    obtain rfl := Option.some.inj h
    rfl
  | _ => cases h <;> cases hassigned

theorem Starting.command_of_assigned (h : s.phase.assigned = true) :
    s.command settled = some settled := if_pos h

theorem newConnectionFinish_iff {url : String} :
    uncaught (newConnectionFinish s url settled) = false ↔
      (url ≠ "/" → s.phase.assigned = true) := by
  unfold newConnectionFinish Starting.command
  by_cases hurl : url = "/"
  · simp [hurl, uncaught]
  · by_cases hassigned : s.phase.assigned = true
    · simp [hurl, hassigned, uncaught]
    · simp [hurl, hassigned, uncaught]

theorem onCloseFinish_of_assigned {socket : Socket}
    (h : socket.url ≠ "/" → s.phase.assigned = true) :
    uncaught (onCloseFinish s socket settled) = false := by
  unfold onCloseFinish
  by_cases hurl : socket.url = "/"
  · rw [if_pos hurl]
    rfl
  · rw [if_neg hurl, s.command_of_assigned (h hurl)]
    rfl

theorem postFinish_caught {origin : Origin} :
    uncaughtByExpress (postFinish s origin settled) = false := by
  cases origin with
  | permitted =>
    unfold postFinish
    cases s.command settled <;> rfl
  | _ => rfl

variable [DecidableEq ν]

theorem ctpError_eq_none_iff {connectionID : ℕ} {rej : Option (Json ν)} :
    ctpError numbers connectionID rej = none ↔ rej = none ∨ rej = some .null := by
  unfold ctpError errorMessage
  split <;> simp_all

/-- A message that makes no command cannot fail, and neither can one whose command is not
rejected. -/
theorem onMessageFinish_iff {socket : Socket} {message : String}
    (h : onMessage numbers socket message ≠ none → s.phase.assigned = true) :
    uncaught (onMessageFinish numbers s socket message settled) = false ↔
      ∀ rej, settled = .rejected rej → onMessage numbers socket message ≠ none →
        rej ≠ none ∧ rej ≠ some .null := by
  unfold onMessageFinish
  cases hcommand : onMessage numbers socket message with
  | none => simp [uncaught]
  | some command =>
    have hassigned := h (by rw [hcommand]; exact Option.some_ne_none command)
    simp only [s.command_of_assigned hassigned]
    cases settled with
    | rejected rej =>
      have hnone : ctpError numbers socket.connectionID rej = none ↔
          rej = none ∨ rej = some .null := ctpError_eq_none_iff
      simp only [Settled.rejected.injEq, forall_eq', ne_eq, Option.some_ne_none, not_false_eq_true,
        true_imp_iff, ← not_or, ← hnone]
      cases ctpError numbers socket.connectionID rej with
      | none => simp [uncaught]
      | some error => simp [uncaught]
    | fulfilled res => simp [uncaught]
    | pending => simp [uncaught]

omit [DecidableEq ν] in
/-- A message makes a command on sockets that have opened after the assignment only. -/
theorem Starting.Tied.assigned_of_onMessage (h : s.Tied) {connectionID : ℕ} {socket : Socket}
    (hsocket : s.web.socket? connectionID = some socket) {message : String}
    (hcommand : onMessage numbers socket message ≠ none) : s.phase.assigned = true := by
  refine h socket (mem_of_socket? hsocket).1 fun hurl ↦ hcommand ?_
  rw [onMessage, if_pos hurl]

namespace Starting

variable {event : StartEvent ν} {s' : Starting}

theorem step_start (hstep : s.step numbers .start = some s') :
    s.down = false ∧ ∃ phase, s.phase.next = some phase ∧ { s with phase } = s' := by
  rw [step] at hstep
  split_ifs at hstep with hdown
  exact ⟨Bool.eq_false_iff.mpr hdown, Option.map_eq_some_iff.mp hstep⟩

theorem step_client {event : ClientEvent ν} (hstep : s.step numbers (.client event) = some s') :
    ¬ (s.down = true ∨ s.phase = .connecting) ∧ s.handle numbers event = some s' := by
  rw [step] at hstep
  split_ifs at hstep with hdeaf
  exact ⟨hdeaf, hstep⟩

/-- In a state whose sockets have opened after the assignment, the condition on an event is that
its handler survives. -/
theorem survives_iff_prepared (h : s.Tied) (hstep : s.step numbers event = some s') :
    Survives s event s' ↔ s.Prepared numbers event s' := by
  cases event with
  | start =>
    obtain ⟨hup, phase, -, rfl⟩ := step_start hstep
    exact iff_of_true hup trivial
  | client event =>
    replace hstep := (step_client hstep).2
    cases event with
    | connect url settled =>
      obtain rfl := Option.some.inj hstep
      exact newConnectionFinish_iff
    | message connectionID message settled =>
      obtain ⟨socket, hsocket, rfl⟩ := Option.map_eq_some_iff.mp hstep
      change uncaught (onMessageFinish numbers s socket message settled) = false ↔
        ∀ other ∈ s.web.socket? connectionID, _
      rw [onMessageFinish_iff (h.assigned_of_onMessage hsocket), hsocket]
      simp only [Option.mem_some_iff, forall_eq']
    | close connectionID settled =>
      obtain ⟨socket, hsocket, rfl⟩ := Option.map_eq_some_iff.mp hstep
      exact iff_of_true (onCloseFinish_of_assigned (h socket (mem_of_socket? hsocket).1)) trivial
    | post origin body settled =>
      obtain rfl := Option.some.inj hstep
      exact iff_of_true postFinish_caught trivial

/-- A permitted event keeps the sockets tied. -/
theorem Tied.step (h : s.Tied) (hprepared : s.Prepared numbers event s')
    (hstep : s.step numbers event = some s') : s'.Tied := by
  cases event with
  | start =>
    obtain ⟨-, phase, hphase, rfl⟩ := step_start hstep
    exact fun socket hsocket hurl ↦
      StartPhase.assigned_of_next hphase (h socket hsocket hurl)
  | client event =>
    replace hstep := (step_client hstep).2
    cases event with
    | connect url settled =>
      obtain rfl := Option.some.inj hstep
      intro socket hsocket hurl
      rcases List.mem_cons.mp hsocket with rfl | hold
      · exact hprepared hurl
      · exact h socket hold hurl
    | message connectionID message settled =>
      obtain ⟨socket, -, rfl⟩ := Option.map_eq_some_iff.mp hstep
      exact h
    | close connectionID settled =>
      obtain ⟨closed, -, rfl⟩ := Option.map_eq_some_iff.mp hstep
      exact fun socket hsocket hurl ↦ h socket (List.mem_of_mem_erase hsocket) hurl
    | post origin body settled =>
      obtain rfl := Option.some.inj hstep
      exact h

end Starting

end Phases

/-- In every interleaving of the steps of `start` with events of clients, the handlers of all events
finish without an exception that nobody catches if and only if no socket at another url than `/`
opens before `deliverInboundCommand` is assigned, and no command of a message is rejected with
`undefined` or `null`. -/
theorem startup_safe_iff [DecidableEq ν] (numbers : Numbers ν) (events : List (StartEvent ν)) :
    AllSteps (Starting.step numbers) Starting.Survives .fresh events ↔
      AllSteps (Starting.step numbers) (Starting.Prepared numbers) .fresh events := by
  have hkeep : ∀ (s : Starting) (event : StartEvent ν) (s' : Starting), s.Tied →
      s.Prepared numbers event s' → s.step numbers event = some s' → s'.Tied :=
    fun _ _ _ h hprepared hstep ↦ h.step hprepared hstep
  have hiff : ∀ (s : Starting) (event : StartEvent ν) (s' : Starting), s.Tied →
      s.step numbers event = some s' → (s.Survives event s' ↔ s.Prepared numbers event s') :=
    fun _ _ _ h hstep ↦ Starting.survives_iff_prepared h hstep
  exact allSteps_congr_of_invariant hkeep hiff Starting.tied_fresh

/-- A socket of CapTP opens as soon as the listener is there. -/
def hasty : List (StartEvent ℕ) := [.start, .client (.connect "/captp" .pending)]

/-- Nobody catches what `newConnection` throws. -/
theorem hasty_not_survives :
    ¬ AllSteps (Starting.step Numbers.nat) Starting.Survives .fresh hasty := by
  intro h
  have hdown : true = false := h.2.1
  exact absurd hdown (by decide)

end CosmicSwingset.Solo
