import CosmicSwingset.Foundation.SortedJson
import Mathlib.Logic.Function.Basic

/-!
# The command handler of the HTTP vat

`setCommandDevice` of `vat-http.js` puts every entry that a browser may call into one table: the
canvas, the REPL, CapTP, and, for a controller, provisioning. `inbound` calls the entry that a
command names in its `type`, whoever has sent the command. The CapTP entries keep the sessions:
`CTP_OPEN` makes one for the `connectionID` and the `url` of the command, and the four entries made
by `forward` hand the command to the session of its `connectionID`.

What is kept here of a session is what its bootstrap object is decided by. The REPL, provisioning
and the messages of CapTP itself do not change the sessions.
-/

set_option autoImplicit false
set_option relaxedAutoImplicit false

namespace CosmicSwingset.Vats

open Foundation

variable {ν : Type*}

/-! ### Numbers -/

/-- The numbers of JSON, among them those that count connections. -/
structure Numbers (ν : Type*) extends Numerals ν where
  ofNat : ℕ → ν
  ofNat_injective : Function.Injective ofNat

/-- Natural numbers only. -/
def Numbers.nat : Numbers ℕ := { Numerals.nat with ofNat := id, ofNat_injective := fun _ _ ↦ id }

/-! ### The table -/

structure Roles where
  client : Bool
  controller : Bool

inductive Entry
  | getCanvasState
  | getHighestHistory
  | rebroadcastHistory
  | doEval
  | readyForClient
  | ctpOpen
  | ctpClose
  | ctpError
  | ctpBootstrap
  | ctpCall
  | ctpReturn
  | ctpResolve
  | pleaseProvision
  deriving DecidableEq

def Entry.name : Entry → String
  | .getCanvasState => "getCanvasState"
  | .getHighestHistory => "getHighestHistory"
  | .rebroadcastHistory => "rebroadcastHistory"
  | .doEval => "doEval"
  | .readyForClient => "readyForClient"
  | .ctpOpen => "CTP_OPEN"
  | .ctpClose => "CTP_CLOSE"
  | .ctpError => "CTP_ERROR"
  | .ctpBootstrap => "CTP_BOOTSTRAP"
  | .ctpCall => "CTP_CALL"
  | .ctpReturn => "CTP_RETURN"
  | .ctpResolve => "CTP_RESOLVE"
  | .pleaseProvision => "pleaseProvision"

theorem Entry.name_injective : Function.Injective Entry.name := by
  intro entry other h
  cases entry <;> cases other <;> first | rfl | exact absurd h (by decide)

/-- The entries of `getReplHandler`. -/
def replHandler : List Entry := [.getHighestHistory, .rebroadcastHistory, .doEval]

/-- The entries that `setCommandDevice` puts into the handler. -/
def Roles.entries (roles : Roles) : List Entry :=
  [.getCanvasState] ++
    (if roles.client then
      replHandler ++ [.readyForClient] ++
        [.ctpOpen, .ctpClose, .ctpError, .ctpBootstrap, .ctpCall, .ctpReturn, .ctpResolve]
    else []) ++
    if roles.controller then [.pleaseProvision] else []

/-! ### Sessions -/

/-- The bootstrap object of a session: all that is exported to CapTP, the object with `getPledger`
and `wait` only, or `undefined`. -/
inductive Bootstrap
  | exportedToCapTP
  | pledger
  | undefined
  deriving DecidableEq

/-- A session, with the `url` of the command that has opened it. -/
structure Session (ν : Type*) where
  url : Option (Json ν)

def Session.bootstrap (session : Session ν) : Bootstrap :=
  match session.url with
  | some (.str url) =>
    if url = "/captp" then .exportedToCapTP
    else if url = "/captp/pledger" then .pledger
    else .undefined
  | _ => .undefined

/-- The keys under which a `Map` finds a session again. -/
inductive ConnectionKey (ν : Type*)
  | undefined
  | null
  | bool (b : Bool)
  | num (n : ν)
  | str (s : String)
  deriving DecidableEq

/-- The `connectionID` of a command as a key. An array or an object is a key of its own, which no
other command has. -/
def connectionKey (command : Json ν) : Option (ConnectionKey ν) :=
  match command.property "connectionID" with
  | none => some .undefined
  | some .null => some .null
  | some (.bool b) => some (.bool b)
  | some (.num n) => some (.num n)
  | some (.str s) => some (.str s)
  | some (.arr _) | some (.obj _) => none

/-- The vat: the roles that `setCommandDevice` was given, and `conns`. -/
structure Http (ν : Type*) where
  roles : Option Roles
  conns : ConnectionKey ν → Option (Session ν)

def Http.fresh : Http ν := ⟨none, fun _ ↦ none⟩

/-- A new table comes with a new `conns`. -/
def Http.setCommandDevice (roles : Roles) : Http ν := ⟨some roles, fun _ ↦ none⟩

def Http.entries (http : Http ν) : List Entry := http.roles.elim [] Roles.entries

/-! ### Dispatch -/

section Dispatch

variable (numbers : Numbers ν)

mutual

/-- The text of an element of an array; `none` when the conversion throws. -/
def elementText : Json ν → Option String
  | .null => some ""
  | .bool b => some (if b then "true" else "false")
  | .num n => some (String.ofList (numbers.write n))
  | .str s => some s
  | .arr [] => some ""
  | .arr (v :: vs) => do return (← elementText v) ++ (← elementsText vs)
  -- a `toString` of its own is no function, and `valueOf` gives back the object
  | .obj members =>
    if (Json.member "toString" members).isSome then none else some "[object Object]"

/-- The text of the elements after the first. -/
def elementsText : List (Json ν) → Option String
  | [] => some ""
  | v :: vs => do return "," ++ (← elementText v) ++ (← elementsText vs)

end

/-- A value as a property key. -/
def propertyKey : Json ν → Option String
  | .null => some "null"
  | v => elementText numbers v

/-- The key with which `inbound` looks up the table. -/
def typeKey (command : Json ν) : Option String :=
  match command with
  | .null => none
  | command =>
    match command.property "type" with
    | none => some "undefined"
    | some type => propertyKey numbers type

/-- The command's `type` is the name of an entry of the table. -/
def Http.Names (http : Http ν) (command : Json ν) (entry : Entry) : Prop :=
  entry ∈ http.entries ∧ typeKey numbers command = some entry.name

instance (http : Http ν) (command : Json ν) (entry : Entry) :
    Decidable (http.Names numbers command entry) :=
  inferInstanceAs (Decidable (_ ∧ _))

/-- The entry that is called. What the table inherits from `Object.prototype` is not one. -/
def Http.entry? (http : Http ν) (command : Json ν) : Option Entry :=
  (typeKey numbers command).bind fun key ↦ http.entries.find? fun entry ↦ entry.name = key

theorem Http.entry?_eq_some_iff {http : Http ν} {command : Json ν} {entry : Entry} :
    http.entry? numbers command = some entry ↔ http.Names numbers command entry := by
  unfold Http.entry? Http.Names
  cases htype : typeKey numbers command with
  | none => simp
  | some key =>
    rw [Option.bind_some, Option.some.injEq]
    constructor
    · intro hfind
      have hname : entry.name = key := by simpa using List.find?_some hfind
      exact ⟨List.mem_of_find?_eq_some hfind, hname.symm⟩
    · rintro ⟨hmem, rfl⟩
      cases hfind : http.entries.find? fun other ↦ other.name = entry.name with
      | none =>
        have hnone := List.find?_eq_none.mp hfind entry hmem
        simp at hnone
      | some other =>
        have hname : other.name = entry.name := by simpa using List.find?_some hfind
        rw [Entry.name_injective hname]

end Dispatch

/-! ### Entries -/

section Inbound

variable [DecidableEq ν]

/-- `conns.set`. -/
def Http.open (http : Http ν) (command : Json ν) : Http ν :=
  match connectionKey command with
  | none => http
  | some key =>
    { http with conns := Function.update http.conns key (some ⟨command.property "url"⟩) }

/-- `conns.delete`. -/
def Http.close (http : Http ν) (command : Json ν) : Http ν :=
  match connectionKey command with
  | none => http
  | some key => { http with conns := Function.update http.conns key none }

/-- `inbound`. A command whose entry is missing or throws is rejected and changes nothing. -/
def Http.inbound (numbers : Numbers ν) (http : Http ν) (command : Json ν) : Http ν :=
  match http.entry? numbers command with
  | some .ctpOpen => http.open command
  | some .ctpClose => http.close command
  | _ => http

@[simp] theorem Http.open_roles (http : Http ν) (command : Json ν) :
    (http.open command).roles = http.roles := by
  unfold Http.open
  split <;> rfl

@[simp] theorem Http.close_roles (http : Http ν) (command : Json ν) :
    (http.close command).roles = http.roles := by
  unfold Http.close
  split <;> rfl

/-- The entries made by `forward`. -/
def forwardEntries : List Entry := [.ctpBootstrap, .ctpCall, .ctpReturn, .ctpResolve]

/-- The session that an entry made by `forward` gives the command to. It throws when there is
none. -/
def Http.forward (http : Http ν) (command : Json ν) : Option (ConnectionKey ν) :=
  (connectionKey command).filter fun key ↦ (http.conns key).isSome

/-- The session that is given the command by `inbound`. -/
def Http.dispatch (numbers : Numbers ν) (http : Http ν) (command : Json ν) :
    Option (ConnectionKey ν) :=
  match http.entry? numbers command with
  | some entry => if entry ∈ forwardEntries then http.forward command else none
  | none => none

variable {numbers : Numbers ν} {http : Http ν} {command : Json ν}

theorem Http.inbound_roles : (http.inbound numbers command).roles = http.roles := by
  unfold Http.inbound
  split
  · exact Http.open_roles http command
  · exact Http.close_roles http command
  · rfl

/-- A session after a command was there before, or the command is a `CTP_OPEN` and it is the one
made for it. -/
theorem Http.session_inbound {key : ConnectionKey ν} {session : Session ν}
    (h : (http.inbound numbers command).conns key = some session) :
    http.conns key = some session ∨
      http.Names numbers command .ctpOpen ∧ connectionKey command = some key ∧
        session.url = command.property "url" := by
  unfold Http.inbound at h
  split at h
  · rename_i hopen
    unfold Http.open at h
    split at h
    · exact Or.inl h
    · rename_i key' hkey
      by_cases heq : key = key'
      · subst heq
        simp only [Function.update_self, Option.some.injEq] at h
        exact Or.inr ⟨(Http.entry?_eq_some_iff numbers).mp hopen, hkey, h ▸ rfl⟩
      · exact Or.inl (by simpa [heq] using h)
  · unfold Http.close at h
    split at h
    · exact Or.inl h
    · rename_i key' hkey
      by_cases heq : key = key'
      · simp [heq] at h
      · exact Or.inl (by simpa [heq] using h)
  · exact Or.inl h

/-- A session that a command removes is the one that a `CTP_CLOSE` means. -/
theorem Http.removed_inbound {key : ConnectionKey ν} (hheld : http.conns key ≠ none)
    (h : (http.inbound numbers command).conns key = none) :
    http.Names numbers command .ctpClose ∧ connectionKey command = some key := by
  unfold Http.inbound at h
  split at h
  · unfold Http.open at h
    split at h
    · exact absurd h hheld
    · rename_i key' hkey
      by_cases heq : key = key'
      · simp [heq] at h
      · exact absurd (by simpa [heq] using h) hheld
  · rename_i hclose
    unfold Http.close at h
    split at h
    · exact absurd h hheld
    · rename_i key' hkey
      by_cases heq : key = key'
      · exact ⟨(Http.entry?_eq_some_iff numbers).mp hclose, heq ▸ hkey⟩
      · exact absurd (by simpa [heq] using h) hheld
  · exact absurd h hheld

theorem Http.inbound_close {key : ConnectionKey ν} (hclose : http.Names numbers command .ctpClose)
    (hkey : connectionKey command = some key) :
    (http.inbound numbers command).conns key = none := by
  rw [Http.inbound, (Http.entry?_eq_some_iff numbers).mpr hclose]
  simp [Http.close, hkey]

omit [DecidableEq ν] in
/-- A session is given a command exactly when it is there and the command means it and names an
entry made by `forward`. -/
theorem Http.dispatch_eq_some_iff {key : ConnectionKey ν} :
    http.dispatch numbers command = some key ↔
      (∃ entry ∈ forwardEntries, http.Names numbers command entry) ∧
        connectionKey command = some key ∧ http.conns key ≠ none := by
  have hforward : http.forward command = some key ↔
      connectionKey command = some key ∧ http.conns key ≠ none := by
    rw [Http.forward, Option.filter_eq_some_iff, Option.isSome_iff_ne_none]
  unfold Http.dispatch
  constructor
  · intro h
    split at h
    · rename_i entry hentry
      split_ifs at h with hmem
      exact ⟨⟨entry, hmem, (Http.entry?_eq_some_iff numbers).mp hentry⟩, hforward.mp h⟩
    · exact absurd h (by simp)
  · rintro ⟨⟨entry, hmem, hnames⟩, hheld⟩
    rw [(Http.entry?_eq_some_iff numbers).mpr hnames]
    exact (if_pos hmem).trans (hforward.mpr hheld)

theorem Http.inbound_open {key : ConnectionKey ν} (hopen : http.Names numbers command .ctpOpen)
    (hkey : connectionKey command = some key) :
    (http.inbound numbers command).conns key = some ⟨command.property "url"⟩ := by
  rw [Http.inbound, (Http.entry?_eq_some_iff numbers).mpr hopen]
  simp [Http.open, hkey]

end Inbound

end CosmicSwingset.Vats
