import CosmicSwingset.Foundation.Transition
import CosmicSwingset.Vats.Http

/-!
# The web server of the solo node

`makeHTTPListener` of `web.js` turns what browsers do into commands: a WebSocket at any url but `/`
is numbered and opens and closes a session of its number, each of its messages is a command that is
given that number as its `connectionID`, and the body of a POST to `/vat` is a command as it stands.
The command device hands the commands to `inbound` of the HTTP vat in the order in which they are
made. The vat outlives the process that serves the sockets (`restart`). What goes out has a
`connectionID` for the socket of that number, or is for the sockets at `/` (`sendJSON`).

The command device and the kernel are not in the repository. `CommandDevice` says which commands
they hand on, unchanged; a command that they refuse is rejected.
-/

set_option autoImplicit false
set_option relaxedAutoImplicit false

namespace CosmicSwingset.Solo

open Foundation Vats

variable {ν : Type*}

/-! ### Connections -/

/-- An open WebSocket. -/
structure Socket where
  connectionID : ℕ
  url : String
  deriving DecidableEq

structure Web where
  lastConnectionID : ℕ
  sockets : List Socket

def Web.fresh : Web := ⟨0, []⟩

def Web.socket? (web : Web) (connectionID : ℕ) : Option Socket :=
  web.sockets.find? fun socket ↦ socket.connectionID = connectionID

theorem mem_of_socket? {web : Web} {connectionID : ℕ} {socket : Socket}
    (h : web.socket? connectionID = some socket) :
    socket ∈ web.sockets ∧ socket.connectionID = connectionID :=
  ⟨List.mem_of_find?_eq_some h, by simpa using List.find?_some h⟩

section Commands

variable (numbers : Numbers ν)

def idJson (connectionID : ℕ) : Json ν := .num (numbers.ofNat connectionID)

def openCommand (socket : Socket) : Json ν :=
  .obj [("type", .str "CTP_OPEN"), ("connectionID", idJson numbers socket.connectionID),
    ("url", .str socket.url)]

def closeCommand (socket : Socket) : Json ν :=
  .obj [("type", .str "CTP_CLOSE"), ("connectionID", idJson numbers socket.connectionID)]

/-- `JSON.parse` of a message, with the number of its connection. -/
def tagged (connectionID : ℕ) (message : String) : Option (Json ν) :=
  match Json.parse numbers.toNumerals message.toList with
  | some (.obj members) =>
    some (.obj (Json.setMember "connectionID" (idJson numbers connectionID) members))
  -- the text of an array leaves out its other properties
  | some (.arr elements) => some (.arr elements)
  -- a primitive value takes no property
  | _ => none

def newConnection (web : Web) (url : String) : Web × Option (Json ν) :=
  let socket := ⟨web.lastConnectionID + 1, url⟩
  (⟨socket.connectionID, socket :: web.sockets⟩,
    if url = "/" then none else some (openCommand numbers socket))

/-- Messages at the broadcast port are ignored. -/
def onMessage (socket : Socket) (message : String) : Option (Json ν) :=
  if socket.url = "/" then none else tagged numbers socket.connectionID message

def onClose (web : Web) (socket : Socket) : Web × Option (Json ν) :=
  ({ web with sockets := web.sockets.erase socket },
    if socket.url = "/" then none else some (closeCommand numbers socket))

end Commands

/-! ### Outgoing objects -/

section Outgoing

variable (numbers : Numbers ν)

/-- `Boolean(v)`. -/
def truthy [DecidableEq ν] : Json ν → Bool
  | .null => false
  | .bool b => b
  | .num n => n ≠ numbers.ofNat 0
  | .str s => s ≠ ""
  | .arr _ | .obj _ => true

/-- `points.get(connectionID)`. -/
def Web.point? [DecidableEq ν] (web : Web) : Json ν → Option Socket
  | .num n => web.sockets.find? fun socket ↦
    socket.url ≠ "/" ∧ numbers.ofNat socket.connectionID = n
  | _ => none

/-- The open sockets of `broadcasts`, where the closed ones stay. -/
def Web.broadcasts (web : Web) : List Socket :=
  web.sockets.filter fun socket ↦ socket.url = "/"

/-- `JSON.stringify(rest)`. -/
def outgoingText (members : List (String × Json ν)) : String :=
  String.ofList <| Json.render numbers.toNumerals <|
    .obj (members.filter fun member ↦ member.1 ≠ "connectionID")

/-- `sendJSON` of an object: the sockets that are sent a message, each with the message. The
`readyState` of a socket that has not closed yet may not be `OPEN` any more. -/
def sendJSON [DecidableEq ν] (isOpen : ℕ → Bool) (web : Web) (members : List (String × Json ν)) :
    List (ℕ × String) :=
  let recipients :=
    match (Json.member "connectionID" members).filter (truthy numbers) with
    | some connectionID => (web.point? numbers connectionID).toList
    | none => web.broadcasts
  (recipients.filter fun socket ↦ isOpen socket.connectionID).map fun socket ↦
    (socket.connectionID, outgoingText numbers members)

end Outgoing

/-- What a browser of a permitted origin does. -/
inductive WebEvent (ν : Type*)
  | connect (url : String)
  | message (connectionID : ℕ) (message : String)
  | close (connectionID : ℕ)
  | post (body : Json ν)

/-- The sockets after an event, and the command that it makes. -/
def Web.turn (numbers : Numbers ν) (web : Web) : WebEvent ν → Option (Web × Option (Json ν))
  | .connect url => some (newConnection numbers web url)
  | .message connectionID message =>
    (web.socket? connectionID).map fun socket ↦ (web, onMessage numbers socket message)
  | .close connectionID => (web.socket? connectionID).map (onClose numbers web)
  | .post body => some (web, some body)

/-! ### The server and the vat -/

/-- The commands that reach `inbound`; those of a new connection do. -/
structure CommandDevice (numbers : Numbers ν) where
  carries : Json ν → Bool
  carries_open : ∀ socket, carries (openCommand numbers socket) = true

/-- The web server and the HTTP vat. -/
structure Server (ν : Type*) where
  web : Web
  http : Http ν

/-- * `web`: a browser does something.
* `setCommandDevice`: the bootstrap fills the table of the vat.
* `restart`: the process ends and another one goes on with the vat. -/
inductive ServerEvent (ν : Type*)
  | web (event : WebEvent ν)
  | setCommandDevice (roles : Roles)
  | restart

namespace Server

def fresh : Server ν := ⟨.fresh, .fresh⟩

variable {numbers : Numbers ν} (device : CommandDevice numbers)

def command (s : Server ν) (event : WebEvent ν) : Option (Json ν) :=
  (s.web.turn numbers event).bind fun turn ↦ turn.2.filter device.carries

variable [DecidableEq ν]

def step (s : Server ν) : ServerEvent ν → Option (Server ν)
  | .web event => (s.web.turn numbers event).map fun turn ↦
    { web := turn.1
      http := (s.command device event).elim s.http (s.http.inbound numbers) }
  | .setCommandDevice roles => some { s with http := .setCommandDevice roles }
  | .restart => some { s with web := .fresh }

end Server

end CosmicSwingset.Solo
