import CosmicSwingset.Solo.Web

/-!
# Attenuation of the pledger endpoint

A WebSocket at `/captp/pledger` is meant for web pages that are trusted with the pledger only: what
they send should reach nothing but the entries of CapTP that talk within a session, always in the
session of that socket, and the bootstrap object of that session should be the object with
`getPledger` and `wait` (`Attenuated`).

The table of the HTTP vat does not ask from where a command comes. A message on such a socket calls
any entry whose name it has for its `type`: it evaluates code in the REPL, and a `CTP_OPEN` with the
`url` `/captp` replaces its own session by one with everything (`named_not_attenuated`); so can the
body of a POST that has the number of the socket. These are the only ways out (`attenuated_iff`):
the sessions of the sockets at `/captp/pledger` stay restricted (`Sealed`) as long as nobody takes
one.
-/

set_option autoImplicit false
set_option relaxedAutoImplicit false

namespace CosmicSwingset.Solo

open Foundation Vats

variable {ν : Type*}

/-- The entries of CapTP that talk within a session. -/
def sessionEntries : List Entry := [.ctpBootstrap, .ctpCall, .ctpReturn, .ctpResolve, .ctpError]

def Socket.IsPledger (socket : Socket) : Prop := socket.url = "/captp/pledger"

instance (socket : Socket) : Decidable socket.IsPledger :=
  inferInstanceAs (Decidable (socket.url = "/captp/pledger"))

/-- A call of an entry, and the session that the command's `connectionID` means. -/
structure Call (ν : Type*) where
  entry : Entry
  connection : Option (ConnectionKey ν)

variable {numbers : Numbers ν} (device : CommandDevice numbers)

/-- The key of a socket's session. -/
def Socket.key (numbers : Numbers ν) (socket : Socket) : ConnectionKey ν :=
  .num (numbers.ofNat socket.connectionID)

/-- What `inbound` calls in a step. -/
def Server.call (s : Server ν) (event : WebEvent ν) : Option (Call ν) :=
  (s.command device event).bind fun command ↦
    (s.http.entry? numbers command).map fun entry ↦ ⟨entry, connectionKey command⟩

/-- The sessions of the sockets at `/captp/pledger` have the object with `getPledger` and `wait` for
their bootstrap object. -/
def Restricted (numbers : Numbers ν) (s : Server ν) : Prop :=
  ∀ socket ∈ s.web.sockets, socket.IsPledger → ∀ session ∈ s.http.conns (socket.key numbers),
    session.bootstrap = .pledger

/-- A message at `/captp/pledger` calls an entry of the socket's own session, or none, and the
sessions of such sockets are restricted afterwards. -/
def Attenuated (s : Server ν) (event : ServerEvent ν) (s' : Server ν) : Prop :=
  (match event with
  | .web (.message connectionID message) =>
    ∀ socket ∈ s.web.socket? connectionID, socket.IsPledger →
      ∀ call ∈ s.call device (.message connectionID message),
        call.entry ∈ sessionEntries ∧ call.connection = some (socket.key numbers)
  | _ => True) ∧ Restricted numbers s'

/-- A message at `/captp/pledger` names no entry but those within a session, and a POST is no
`CTP_OPEN` of such a socket's session with another `url`. -/
def Confined (s : Server ν) (event : ServerEvent ν) (_ : Server ν) : Prop :=
  match event with
  | .web (.message connectionID message) =>
    ∀ socket ∈ s.web.socket? connectionID, socket.IsPledger →
      ∀ command ∈ tagged numbers connectionID message, device.carries command →
        ∀ entry, s.http.Names numbers command entry → entry ∈ sessionEntries
  | .web (.post body) =>
    device.carries body → s.http.Names numbers body .ctpOpen →
      ∀ socket ∈ s.web.sockets, socket.IsPledger → connectionKey body = some (socket.key numbers) →
        body.property "url" = some (.str "/captp/pledger")
  | _ => True

/-! ### Commands -/

theorem Socket.key_injective {socket other : Socket} (h : socket.key numbers = other.key numbers) :
    socket.connectionID = other.connectionID :=
  numbers.ofNat_injective (ConnectionKey.num.inj h)

theorem typeKey_openCommand (numbers : Numbers ν) (socket : Socket) :
    typeKey numbers (openCommand numbers socket) = some "CTP_OPEN" := rfl

theorem connectionKey_openCommand (numbers : Numbers ν) (socket : Socket) :
    connectionKey (openCommand numbers socket) = some (socket.key numbers) := rfl

theorem typeKey_closeCommand (numbers : Numbers ν) (socket : Socket) :
    typeKey numbers (closeCommand numbers socket) = some "CTP_CLOSE" := rfl

/-- A command made of a message has the number of its socket, if it calls anything. -/
theorem connectionKey_tagged {http : Http ν} {connectionID : ℕ} {message : String}
    {command : Json ν} {entry : Entry}
    (htagged : tagged numbers connectionID message = some command)
    (hnames : http.Names numbers command entry) :
    connectionKey command = some (.num (numbers.ofNat connectionID)) := by
  unfold tagged at htagged
  split at htagged
  · obtain rfl := Option.some.inj htagged
    rw [connectionKey, Json.property, Json.member_setMember_self]
    rfl
  · -- an array has no `type`, and no entry is called `undefined`
    obtain rfl := Option.some.inj htagged
    have hname : "undefined" = entry.name := Option.some.inj hnames.2
    cases entry <;> exact absurd hname (by decide)
  · exact absurd htagged (by simp)

/-- `bootstrap` of a session with the url of the pledger endpoint. -/
theorem bootstrap_eq_pledger_iff {session : Session ν} :
    session.bootstrap = .pledger ↔ session.url = some (.str "/captp/pledger") := by
  obtain ⟨url⟩ := session
  constructor
  · intro h
    unfold Session.bootstrap at h
    split at h
    · rename_i url hurl
      split_ifs at h with hall hpledger
      rw [hurl, hpledger]
    · exact absurd h (by decide)
  · intro h
    rw [Session.bootstrap, h]
    rfl

section Events

variable {device} {s : Server ν}

theorem command_message {connectionID : ℕ} {message : String} {socket : Socket} {command : Json ν}
    (hsocket : s.web.socket? connectionID = some socket) :
    s.command device (.message connectionID message) = some command ↔
      socket.url ≠ "/" ∧ tagged numbers connectionID message = some command ∧
        device.carries command := by
  have hid := (mem_of_socket? hsocket).2
  by_cases hurl : socket.url = "/" <;>
    simp [Server.command, Web.turn, hsocket, onMessage, hurl, hid, Option.filter_eq_some_iff]

theorem command_connect {url : String} {command : Json ν}
    (h : s.command device (.connect url) = some command) :
    command = openCommand numbers ⟨s.web.lastConnectionID + 1, url⟩ := by
  by_cases hurl : url = "/" <;>
    simp_all [Server.command, Web.turn, newConnection, Option.filter_eq_some_iff]

theorem command_close {connectionID : ℕ} {socket : Socket} {command : Json ν}
    (hsocket : s.web.socket? connectionID = some socket)
    (h : s.command device (.close connectionID) = some command) :
    command = closeCommand numbers socket := by
  by_cases hurl : socket.url = "/" <;>
    simp_all [Server.command, Web.turn, onClose, Option.filter_eq_some_iff]

theorem command_post {body command : Json ν} :
    s.command device (.post body) = some command ↔ body = command ∧ device.carries command := by
  simp [Server.command, Web.turn, Option.filter_eq_some_iff]

theorem call_eq_some_iff {event : WebEvent ν} {call : Call ν} :
    s.call device event = some call ↔
      ∃ command, s.command device event = some command ∧
        s.http.Names numbers command call.entry ∧ connectionKey command = call.connection := by
  simp only [Server.call, Option.bind_eq_some_iff, Option.map_eq_some_iff,
    Http.entry?_eq_some_iff]
  constructor
  · rintro ⟨command, hcommand, entry, hentry, rfl⟩
    exact ⟨command, hcommand, hentry, rfl⟩
  · rintro ⟨command, hcommand, hentry, hkey⟩
    exact ⟨command, hcommand, call.entry, hentry, by rw [hkey]⟩

end Events

/-! ### The invariant -/

/-- Every socket has a number of its own, sessions are only there when the table has `CTP_OPEN`, and
those of the sockets at `/captp/pledger` are restricted. -/
structure Sealed (numbers : Numbers ν) (s : Server ν) : Prop where
  counted : ∀ socket ∈ s.web.sockets, socket.connectionID ≤ s.web.lastConnectionID
  apart : ∀ socket ∈ s.web.sockets, ∀ other ∈ s.web.sockets,
    socket.connectionID = other.connectionID → socket = other
  served : ∀ key, ∀ session ∈ s.http.conns key, Entry.ctpOpen ∈ s.http.entries
  restricted : Restricted numbers s

theorem sealed_fresh : Sealed numbers (Server.fresh : Server ν) := by
  constructor <;> simp [Server.fresh, Web.fresh, Http.fresh, Restricted]

namespace Sealed

section Steps

variable {device} {s s' : Server ν}

theorem counted_connect (h : Sealed numbers s) (url : String) :
    ∀ socket ∈ (newConnection numbers s.web url).1.sockets,
      socket.connectionID ≤ s.web.lastConnectionID + 1 := by
  intro socket hsocket
  rcases List.mem_cons.mp hsocket with rfl | hold
  · exact le_refl _
  · exact Nat.le_succ_of_le (h.counted socket hold)

theorem apart_connect (h : Sealed numbers s) (url : String) :
    ∀ socket ∈ (newConnection numbers s.web url).1.sockets,
      ∀ other ∈ (newConnection numbers s.web url).1.sockets,
        socket.connectionID = other.connectionID → socket = other := by
  have hfresh : ∀ socket ∈ s.web.sockets, socket.connectionID ≠ s.web.lastConnectionID + 1 :=
    fun socket hsocket ↦ by
      have := h.counted socket hsocket
      omega
  intro socket hsocket other hother hid
  rcases List.mem_cons.mp hsocket with rfl | hsocket
  · rcases List.mem_cons.mp hother with rfl | hother
    · rfl
    · exact absurd hid.symm (hfresh other hother)
  · rcases List.mem_cons.mp hother with rfl | hother
    · exact absurd hid (hfresh socket hsocket)
    · exact h.apart socket hsocket other hother hid

/-- A new connection at `/` makes no command. -/
theorem connect_broadcast (h : Sealed numbers s) :
    Sealed numbers { s with web := (newConnection numbers s.web "/").1 } where
  counted := h.counted_connect "/"
  apart := h.apart_connect "/"
  served := h.served
  restricted := by
    intro other hother hpledger session hsession
    rcases List.mem_cons.mp hother with rfl | hold
    · exact absurd hpledger (by simp [Socket.IsPledger])
    · exact h.restricted other hold hpledger session hsession

theorem erase (h : Sealed numbers s) (socket : Socket) :
    Sealed numbers { s with web := (onClose numbers s.web socket).1 } where
  counted := fun other hother ↦ h.counted other (List.mem_of_mem_erase hother)
  apart := fun other hother another hanother ↦
    h.apart other (List.mem_of_mem_erase hother) another (List.mem_of_mem_erase hanother)
  served := h.served
  restricted := fun other hother ↦ h.restricted other (List.mem_of_mem_erase hother)

/-- The command of a socket that closes is no `CTP_OPEN`. -/
theorem not_names_closeCommand (http : Http ν) (socket : Socket) :
    ¬ http.Names numbers (closeCommand numbers socket) .ctpOpen := by
  intro h
  have hname := h.2
  rw [typeKey_closeCommand] at hname
  exact absurd hname (by decide)

variable [DecidableEq ν]

theorem served_inbound {http : Http ν} {command : Json ν}
    (h : ∀ key, ∀ session ∈ http.conns key, Entry.ctpOpen ∈ http.entries) (key : ConnectionKey ν) :
    ∀ session ∈ (http.inbound numbers command).conns key,
      Entry.ctpOpen ∈ (http.inbound numbers command).entries := by
  intro session hsession
  have hentries : (http.inbound numbers command).entries = http.entries := by
    rw [Http.entries, Http.inbound_roles, Http.entries]
  rw [hentries]
  rcases Http.session_inbound hsession with hold | ⟨hopen, -, -⟩
  · exact h key session hold
  · exact hopen.1

/-- A command that opens no session of a socket at `/captp/pledger`, or one with that url. -/
theorem inbound (h : Sealed numbers s) {command : Json ν}
    (hopen : s.http.Names numbers command .ctpOpen → ∀ socket ∈ s.web.sockets, socket.IsPledger →
      connectionKey command = some (socket.key numbers) →
        command.property "url" = some (.str "/captp/pledger")) :
    Sealed numbers { s with http := s.http.inbound numbers command } where
  counted := h.counted
  apart := h.apart
  served := served_inbound h.served
  restricted := by
    intro socket hsocket hpledger session hsession
    rcases Http.session_inbound hsession with hold | ⟨hnames, hkey, hurl⟩
    · exact h.restricted socket hsocket hpledger session hold
    · exact bootstrap_eq_pledger_iff.mpr (hurl.trans (hopen hnames socket hsocket hpledger hkey))

/-- A new connection replaces whatever session had its number before. -/
theorem connect (h : Sealed numbers s) (url : String) :
    Sealed numbers
      { web := (newConnection numbers s.web url).1
        http := s.http.inbound numbers
          (openCommand numbers ⟨s.web.lastConnectionID + 1, url⟩) } where
  counted := h.counted_connect url
  apart := h.apart_connect url
  served := served_inbound h.served
  restricted := by
    intro other hother hpledger session hsession
    rcases List.mem_cons.mp hother with rfl | hold
    · have hentries := served_inbound h.served _ session hsession
      rw [Http.entries, Http.inbound_roles] at hentries
      have hconns := Http.inbound_open
        ⟨hentries, typeKey_openCommand numbers ⟨s.web.lastConnectionID + 1, url⟩⟩
        (connectionKey_openCommand numbers ⟨s.web.lastConnectionID + 1, url⟩)
      have hsame : session = ⟨some (.str url)⟩ := Option.some.inj (hsession.symm.trans hconns)
      have hurl : url = "/captp/pledger" := hpledger
      rw [hsame, hurl]
      rfl
    · rcases Http.session_inbound hsession with hsession | ⟨-, hkey, -⟩
      · exact h.restricted other hold hpledger session hsession
      · rw [connectionKey_openCommand, Option.some.injEq] at hkey
        have hid : s.web.lastConnectionID + 1 = other.connectionID := Socket.key_injective hkey
        have := h.counted other hold
        omega

/-- A command of a step, if the step makes one and the device carries it. -/
theorem elim (h : Sealed numbers s) {command : Option (Json ν)}
    (hopen : ∀ obj, command = some obj → s.http.Names numbers obj .ctpOpen →
      ∀ socket ∈ s.web.sockets, socket.IsPledger →
        connectionKey obj = some (socket.key numbers) →
          obj.property "url" = some (.str "/captp/pledger")) :
    Sealed numbers { s with http := command.elim s.http (s.http.inbound numbers) } := by
  cases command with
  | none => exact h
  | some obj => exact h.inbound (hopen obj rfl)

theorem step {event : ServerEvent ν} (h : Sealed numbers s) (hconfined : Confined device s event s')
    (hstep : s.step device event = some s') : Sealed numbers s' := by
  match event with
  | .web (.connect url) =>
    obtain rfl := Option.some.inj hstep
    by_cases hurl : url = "/"
    · subst hurl
      exact h.connect_broadcast
    · have hcommand : s.command device (.connect url) =
          some (openCommand numbers ⟨s.web.lastConnectionID + 1, url⟩) := by
        simp [Server.command, Web.turn, newConnection, hurl, Option.filter, device.carries_open]
      rw [hcommand]
      exact h.connect url
  | .web (.message connectionID message) =>
    obtain ⟨turn, hturn, rfl⟩ := Option.map_eq_some_iff.mp hstep
    obtain ⟨socket, hsocket, rfl⟩ := Option.map_eq_some_iff.mp hturn
    refine h.elim fun command hcommand hnames other hother hpledger hkey ↦ ?_
    obtain ⟨-, htagged, hcarries⟩ := (command_message hsocket).mp hcommand
    -- the command has the number of its own socket, which is at `/captp/pledger`
    rw [connectionKey_tagged htagged hnames, Option.some.injEq] at hkey
    obtain ⟨hmem, hid⟩ := mem_of_socket? hsocket
    have hid' : connectionID = other.connectionID :=
      numbers.ofNat_injective (ConnectionKey.num.inj hkey)
    have hsame : socket = other := h.apart socket hmem other hother (hid.trans hid')
    have hentry := hconfined socket hsocket (hsame ▸ hpledger) command htagged hcarries _ hnames
    exact absurd hentry (by decide)
  | .web (.close connectionID) =>
    obtain ⟨turn, hturn, rfl⟩ := Option.map_eq_some_iff.mp hstep
    obtain ⟨socket, hsocket, rfl⟩ := Option.map_eq_some_iff.mp hturn
    refine (h.erase socket).elim fun command hcommand hnames ↦ ?_
    have hclose : command = closeCommand numbers socket := command_close hsocket hcommand
    exact absurd (hclose ▸ hnames) (not_names_closeCommand s.http socket)
  | .web (.post body) =>
    obtain rfl := Option.some.inj hstep
    refine h.elim fun command hcommand hnames ↦ ?_
    obtain ⟨rfl, hcarries⟩ := command_post.mp hcommand
    exact hconfined hcarries hnames
  | .setCommandDevice roles =>
    obtain rfl := Option.some.inj hstep
    exact ⟨h.counted, h.apart, by simp [Http.setCommandDevice],
      by simp [Restricted, Http.setCommandDevice]⟩
  | .restart =>
    obtain rfl := Option.some.inj hstep
    exact ⟨by simp [Web.fresh], by simp [Web.fresh], h.served, by simp [Restricted, Web.fresh]⟩

end Steps

end Sealed

/-! ### Every run -/

section Runs

variable [DecidableEq ν]

/-- In a state with the invariant a step is attenuated exactly when it is confined. -/
theorem attenuated_iff_confined {s s' : Server ν} {event : ServerEvent ν} (h : Sealed numbers s)
    (hstep : s.step device event = some s') :
    Attenuated device s event s' ↔ Confined device s event s' := by
  constructor
  · rintro ⟨hcalls, hrestricted⟩
    match event with
    | .web (.message connectionID message) =>
      intro socket hsocket hpledger command htagged hcarries entry hnames
      have hurl : socket.url ≠ "/" := hpledger ▸ by decide
      have hcall : s.call device (.message connectionID message) =
          some ⟨entry, connectionKey command⟩ :=
        call_eq_some_iff.mpr
          ⟨command, (command_message hsocket).mpr ⟨hurl, htagged, hcarries⟩, hnames, rfl⟩
      exact (hcalls socket hsocket hpledger _ hcall).1
    | .web (.post body) =>
      intro hcarries hnames socket hsocket hpledger hkey
      obtain rfl := Option.some.inj hstep
      have hcommand : s.command device (.post body) = some body :=
        command_post.mpr ⟨rfl, hcarries⟩
      refine bootstrap_eq_pledger_iff.mp (hrestricted socket hsocket hpledger ⟨_⟩ ?_)
      rw [hcommand]
      exact Http.inbound_open hnames hkey
    | .web (.connect _) | .web (.close _) | .setCommandDevice _ | .restart => trivial
  · intro hconfined
    refine ⟨?_, (h.step hconfined hstep).restricted⟩
    match event with
    | .web (.message connectionID message) =>
      intro socket hsocket hpledger call hcall
      obtain ⟨command, hcommand, hnames, hkey⟩ := call_eq_some_iff.mp hcall
      obtain ⟨-, htagged, hcarries⟩ := (command_message hsocket).mp hcommand
      refine ⟨hconfined socket hsocket hpledger command htagged hcarries call.entry hnames, ?_⟩
      rw [← hkey, connectionKey_tagged htagged hnames, Socket.key, (mem_of_socket? hsocket).2]
    | .web (.post _) | .web (.connect _) | .web (.close _) => trivial
    | .setCommandDevice _ | .restart => trivial

/-- The pledger endpoint is attenuated in a run exactly when no message at `/captp/pledger` names
another entry, and no POST opens the session of such a socket with another `url`. -/
theorem attenuated_iff (events : List (ServerEvent ν)) :
    AllSteps (Server.step device) (Attenuated device) .fresh events ↔
      AllSteps (Server.step device) (Confined device) .fresh events := by
  refine allSteps_congr_of_invariant (I := Sealed numbers) ?_ ?_ sealed_fresh
  · intro s event s' hsealed hconfined hstep
    exact hsealed.step hconfined hstep
  · intro s event s' hsealed hstep
    exact attenuated_iff_confined device hsealed hstep

end Runs

/-! ### Messages that name another entry -/

/-- A device that carries everything. -/
def everything : CommandDevice Numbers.nat := ⟨fun _ ↦ true, fun _ ↦ rfl⟩

/-- A client's table, and one socket at `/captp/pledger`. -/
def pledgerPage : List (ServerEvent ℕ) :=
  [.setCommandDevice ⟨true, false⟩, .web (.connect "/captp/pledger")]

example : ((run (Server.step everything) .fresh pledgerPage).bind fun s ↦
    s.http.conns (.num 1)).map Session.bootstrap = some .pledger := by
  decide +kernel

/-- The page sends code for the REPL. -/
def evaluating : List (ServerEvent ℕ) :=
  pledgerPage ++ [.web (.message 1 "\x7b\"type\":\"doEval\",\"number\":0,\"body\":\"home\"\x7d")]

/-- The page opens a session with everything. -/
def reopening : List (ServerEvent ℕ) :=
  pledgerPage ++ [.web (.message 1 "\x7b\"type\":\"CTP_OPEN\",\"url\":\"/captp\"\x7d")]

instance (s : Server ℕ) : Decidable (Restricted Numbers.nat s) :=
  inferInstanceAs (Decidable (∀ socket ∈ s.web.sockets, socket.IsPledger → _))

instance (s : Server ℕ) (event : ServerEvent ℕ) (s' : Server ℕ) :
    Decidable (Attenuated everything s event s') :=
  match event with
  | .web (.message connectionID message) => inferInstanceAs (Decidable
      ((∀ socket ∈ s.web.socket? connectionID, socket.IsPledger →
        ∀ call ∈ s.call everything (.message connectionID message),
          call.entry ∈ sessionEntries ∧ call.connection = some (socket.key Numbers.nat)) ∧
        Restricted Numbers.nat s'))
  | .web (.connect _) | .web (.close _) | .web (.post _) | .setCommandDevice _ | .restart =>
    inferInstanceAs (Decidable (True ∧ Restricted Numbers.nat s'))

theorem named_not_attenuated :
    ¬ AllSteps (Server.step everything) (Attenuated everything) .fresh evaluating ∧
      ¬ AllSteps (Server.step everything) (Attenuated everything) .fresh reopening ∧
        ((run (Server.step everything) .fresh reopening).bind fun s ↦
          s.http.conns (.num 1)).map Session.bootstrap = some .exportedToCapTP := by
  decide +kernel

end CosmicSwingset.Solo
