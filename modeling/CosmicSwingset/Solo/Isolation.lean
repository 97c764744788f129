import CosmicSwingset.Solo.Attenuation

/-!
# Isolation of the CapTP sessions

The session that the HTTP vat holds for a connection should be given only what comes in on the
WebSocket of that connection, everything at most once and in the order of arrival; the WebSocket
should make it when it opens, and nothing but its closing remove it; and what is sent to the
connection should go out on that WebSocket and no other one (`Isolated`).

A `Traffic` keeps a record of what every WebSocket has received and what every session has been
given, an object with the number of its arrival. The commands reach the vat in the order in which
they are made, and no browser sees the vat before that, so it does not matter here when they do.

The number that a message is given cannot be chosen by a browser, but the name of the entry can, and
the body of a POST has both as it likes (`forged_not_isolated`). The sessions are isolated in the
runs where nobody makes use of this (`isolated_iff`). What goes out is isolated in any case.
-/

set_option autoImplicit false
set_option relaxedAutoImplicit false

namespace CosmicSwingset.Solo

open Foundation Vats

variable {ν : Type*}

/-- The web server and the vat, with what has come in so far. -/
structure Traffic (ν : Type*) where
  server : Server ν
  arrived : ℕ
  received : ℕ → List (ℕ × Json ν)
  given : ConnectionKey ν → List (ℕ × Json ν)

/-- The bootstrap has filled the table, and nobody has connected. -/
def Traffic.fresh (roles : Roles) : Traffic ν :=
  ⟨⟨.fresh, .setCommandDevice roles⟩, 0, fun _ ↦ [], fun _ ↦ []⟩

/-- The session of a connection. -/
def sessionKey (numbers : Numbers ν) (connectionID : ℕ) : ConnectionKey ν :=
  .num (numbers.ofNat connectionID)

/-- Adds an entry to the record at a key, if there is one to be added. -/
def record {κ α : Type*} [DecidableEq κ] (records : κ → List α) (entry : Option (κ × α)) :
    κ → List α :=
  entry.elim records fun (key, a) ↦ Function.update records key (records key ++ [a])

section Steps

variable {numbers : Numbers ν} (device : CommandDevice numbers)

/-- The WebSocket that receives an object in a step, and the object. -/
def Server.receipt (numbers : Numbers ν) (s : Server ν) : WebEvent ν → Option (ℕ × Json ν)
  | .message connectionID message =>
    (s.web.socket? connectionID).bind fun socket ↦
      (onMessage numbers socket message).map fun object ↦ (connectionID, object)
  | _ => none

variable [DecidableEq ν]

/-- The session that is given an object in a step, and the object. -/
def Server.gift (s : Server ν) (event : WebEvent ν) : Option (ConnectionKey ν × Json ν) :=
  (s.command device event).bind fun object ↦
    (s.http.dispatch numbers object).map fun key ↦ (key, object)

namespace Traffic

def step (s : Traffic ν) (event : WebEvent ν) : Option (Traffic ν) :=
  (s.server.step device (.web event)).map fun server ↦
    { server
      arrived := s.arrived + 1
      received := record s.received
        ((s.server.receipt numbers event).map fun (k, object) ↦ (k, s.arrived, object))
      given := record s.given
        ((s.server.gift device event).map fun (key, object) ↦ (key, s.arrived, object)) }

/-- Every session has been given only what the WebSocket of its number has received. -/
def Owned (numbers : Numbers ν) (s : Traffic ν) : Prop :=
  ∀ key, ∀ object ∈ s.given key, ∃ k, key = sessionKey numbers k ∧ object ∈ s.received k

/-- Every session has been given what it has in the order of arrival, and nothing twice. -/
def Ordered (s : Traffic ν) : Prop :=
  ∀ key, (s.given key).Pairwise fun earlier later ↦ earlier.1 < later.1

/-- An object with the number of a connection goes out on its WebSocket, if that is open at a url
other than `/`, and on no other one. -/
def Routed (numbers : Numbers ν) (s : Traffic ν) : Prop :=
  ∀ isOpen members k, 0 < k → Json.member "connectionID" members = some (idJson numbers k) →
    sendJSON numbers isOpen s.server.web members =
      if (∃ socket ∈ s.server.web.sockets, socket.connectionID = k ∧ socket.url ≠ "/") ∧ isOpen k
      then [(k, outgoingText numbers members)] else []

/-- The sessions are isolated in a step. -/
structure Isolated (s : Traffic ν) (event : WebEvent ν) (s' : Traffic ν) : Prop where
  owned : s'.Owned numbers
  ordered : s'.Ordered
  created : ∀ connection, s.server.call device event = some ⟨.ctpOpen, connection⟩ →
    (∃ url, event = .connect url) ∧
      connection = some (sessionKey numbers s'.server.web.lastConnectionID)
  removed : ∀ key, s.server.http.conns key ≠ none → s'.server.http.conns key = none →
    ∃ k, event = .close k ∧ key = sessionKey numbers k
  routed : s'.Routed numbers

/-- No command of a browser names `CTP_OPEN`, none that names `CTP_CLOSE` means a session that is
there, and the body of a POST that names an entry made by `forward` does not either. -/
def Honest (s : Traffic ν) (event : WebEvent ν) (_ : Traffic ν) : Prop :=
  match event with
  | .message connectionID message =>
    ∀ socket ∈ s.server.web.socket? connectionID,
      ∀ object ∈ onMessage numbers socket message, device.carries object →
        ¬ s.server.http.Names numbers object .ctpOpen ∧
          (s.server.http.Names numbers object .ctpClose →
            s.server.http.conns (sessionKey numbers connectionID) = none)
  | .post body =>
    device.carries body →
      ¬ s.server.http.Names numbers body .ctpOpen ∧
        ∀ entry, entry = .ctpClose ∨ entry ∈ forwardEntries →
          s.server.http.Names numbers body entry →
            ∀ key ∈ connectionKey body, s.server.http.conns key = none
  | .connect _ | .close _ => True

/-- The invariant: the sessions have been isolated, and what has been received has numbers already
used. -/
structure Recorded (numbers : Numbers ν) (s : Traffic ν) : Prop where
  owned : s.Owned numbers
  ordered : s.Ordered
  earlier : ∀ k, ∀ object ∈ s.received k, object.1 < s.arrived

omit [DecidableEq ν] in
theorem recorded_fresh (roles : Roles) : Recorded numbers (fresh roles) where
  owned := fun _ _ h ↦ nomatch h
  ordered := fun _ ↦ List.Pairwise.nil
  earlier := fun _ _ h ↦ nomatch h

end Traffic

end Steps

/-! ### Records -/

section Records

variable {κ α : Type*} [DecidableEq κ] {records : κ → List α}

theorem mem_record {entry : Option (κ × α)} {key : κ} {a : α} :
    a ∈ record records entry key ↔ a ∈ records key ∨ entry = some (key, a) := by
  cases entry with
  | none => simp [record]
  | some entry =>
    obtain ⟨other, b⟩ := entry
    by_cases h : key = other
    · subst h
      simp [record, eq_comm]
    · simp [record, h, Ne.symm h]

theorem record_pairwise {R : α → α → Prop} {entry : Option (κ × α)}
    (h : ∀ key, (records key).Pairwise R)
    (hlast : ∀ key a, entry = some (key, a) → ∀ b ∈ records key, R b a) (key : κ) :
    (record records entry key).Pairwise R := by
  cases entry with
  | none => exact h key
  | some entry =>
    obtain ⟨other, a⟩ := entry
    by_cases heq : key = other
    · subst heq
      simp only [record, Option.elim_some, Function.update_self]
      refine List.pairwise_append.mpr ⟨h key, List.pairwise_singleton R a, ?_⟩
      intro b hb c hc
      rw [List.mem_singleton.mp hc]
      exact hlast key a rfl b hb
    · simpa [record, heq] using h key

end Records

/-! ### One step -/

section Spec

variable {numbers : Numbers ν} {device : CommandDevice numbers} [DecidableEq ν]

namespace Traffic

variable {s s' : Traffic ν} {event : WebEvent ν}

/-- What a step does to each part of the state. -/
theorem step_spec (hstep : s.step device event = some s') :
    (∃ turn, s.server.web.turn numbers event = some turn ∧ s'.server.web = turn.1) ∧
      s'.server.http =
        (s.server.command device event).elim s.server.http (s.server.http.inbound numbers) ∧
      s'.arrived = s.arrived + 1 ∧
      s'.received = record s.received
        ((s.server.receipt numbers event).map fun (k, object) ↦ (k, s.arrived, object)) ∧
      s'.given = record s.given
        ((s.server.gift device event).map fun (key, object) ↦ (key, s.arrived, object)) := by
  obtain ⟨server, hserver, rfl⟩ := Option.map_eq_some_iff.mp hstep
  obtain ⟨turn, hturn, rfl⟩ := Option.map_eq_some_iff.mp hserver
  exact ⟨⟨turn, hturn, rfl⟩, rfl, rfl, rfl, rfl⟩

theorem mem_received (hstep : s.step device event = some s') {k : ℕ} {object : ℕ × Json ν} :
    object ∈ s'.received k ↔
      object ∈ s.received k ∨
        object.1 = s.arrived ∧ s.server.receipt numbers event = some (k, object.2) := by
  obtain ⟨-, -, -, hreceived, -⟩ := step_spec hstep
  obtain ⟨arrival, object⟩ := object
  rw [hreceived, mem_record, Option.map_eq_some_iff]
  grind

theorem mem_given (hstep : s.step device event = some s') {key : ConnectionKey ν}
    {object : ℕ × Json ν} :
    object ∈ s'.given key ↔
      object ∈ s.given key ∨
        object.1 = s.arrived ∧ s.server.gift device event = some (key, object.2) := by
  obtain ⟨-, -, -, -, hgiven⟩ := step_spec hstep
  obtain ⟨arrival, object⟩ := object
  rw [hgiven, mem_record, Option.map_eq_some_iff]
  grind

/-- The sessions stay isolated exactly when the session that is given an object in the step is that
of the WebSocket that receives it. -/
theorem owned_iff (h : Recorded numbers s) (hstep : s.step device event = some s') :
    s'.Owned numbers ↔
      ∀ key object, s.server.gift device event = some (key, object) →
        ∃ k, key = sessionKey numbers k ∧ s.server.receipt numbers event = some (k, object) := by
  constructor
  · intro howned key object hgift
    have hgiven : (s.arrived, object) ∈ s'.given key := (mem_given hstep).mpr (Or.inr ⟨rfl, hgift⟩)
    obtain ⟨k, hkey, hreceived⟩ := howned key _ hgiven
    rcases (mem_received hstep).mp hreceived with hold | ⟨-, hreceipt⟩
    · exact absurd (h.earlier k _ hold) (lt_irrefl _)
    · exact ⟨k, hkey, hreceipt⟩
  · intro hmatched key object hgiven
    rcases (mem_given hstep).mp hgiven with hold | ⟨hnow, hgift⟩
    · obtain ⟨k, hkey, hreceived⟩ := h.owned key object hold
      exact ⟨k, hkey, (mem_received hstep).mpr (Or.inl hreceived)⟩
    · obtain ⟨k, hkey, hreceipt⟩ := hmatched key object.2 hgift
      exact ⟨k, hkey, (mem_received hstep).mpr (Or.inr ⟨hnow, hreceipt⟩)⟩

/-- Whatever session is given an object, it is the latest that has arrived. -/
theorem Recorded.ordered_step (h : Recorded numbers s) (hstep : s.step device event = some s') :
    s'.Ordered := by
  obtain ⟨-, -, -, -, hgiven⟩ := step_spec hstep
  rw [Ordered, hgiven]
  refine record_pairwise h.ordered fun key object hentry earlier hearlier ↦ ?_
  obtain ⟨gift, -, hgift⟩ := Option.map_eq_some_iff.mp hentry
  have hnow : s.arrived = object.1 := congrArg (fun entry ↦ entry.2.1) hgift
  obtain ⟨k, -, hreceived⟩ := h.owned key earlier hearlier
  exact hnow ▸ h.earlier k earlier hreceived

theorem Recorded.step (h : Recorded numbers s) (howned : s'.Owned numbers)
    (hstep : s.step device event = some s') : Recorded numbers s' where
  owned := howned
  ordered := h.ordered_step hstep
  earlier := by
    intro k object hobject
    obtain ⟨-, -, harrived, -, -⟩ := step_spec hstep
    rw [harrived]
    rcases (mem_received hstep).mp hobject with hold | ⟨hnow, -⟩
    · exact Nat.lt_succ_of_lt (h.earlier k object hold)
    · exact hnow ▸ Nat.lt_succ_self s.arrived

/-- A session that is removed is the one that a `CTP_CLOSE` means. -/
theorem removed_of_step (hstep : s.step device event = some s') {key : ConnectionKey ν}
    (hheld : s.server.http.conns key ≠ none) (hgone : s'.server.http.conns key = none) :
    ∃ command, s.server.command device event = some command ∧
      s.server.http.Names numbers command .ctpClose ∧ connectionKey command = some key := by
  obtain ⟨-, hhttp, -⟩ := step_spec hstep
  rw [hhttp] at hgone
  cases hcommand : s.server.command device event with
  | none =>
    rw [hcommand] at hgone
    exact absurd hgone hheld
  | some command =>
    rw [hcommand] at hgone
    exact ⟨command, rfl, Http.removed_inbound hheld hgone⟩

/-- A `CTP_CLOSE` removes the session that it means. -/
theorem conns_of_close (hstep : s.step device event = some s') {command : Json ν}
    (hcommand : s.server.command device event = some command)
    (hclose : s.server.http.Names numbers command .ctpClose) {key : ConnectionKey ν}
    (hkey : connectionKey command = some key) : s'.server.http.conns key = none := by
  obtain ⟨-, hhttp, -⟩ := step_spec hstep
  rw [hhttp, hcommand]
  exact Http.inbound_close hclose hkey

omit [DecidableEq ν] in
theorem gift_eq_some_iff {key : ConnectionKey ν} {object : Json ν} :
    s.server.gift device event = some (key, object) ↔
      s.server.command device event = some object ∧
        (∃ entry ∈ forwardEntries, s.server.http.Names numbers object entry) ∧
          connectionKey object = some key ∧ s.server.http.conns key ≠ none := by
  simp only [Server.gift, Option.bind_eq_some_iff, Option.map_eq_some_iff, Prod.mk.injEq,
    Http.dispatch_eq_some_iff]
  grind

omit [DecidableEq ν] in
/-- The commands of a socket that opens or closes are given to no session. -/
theorem gift_eq_none (entry : Entry) (hentry : entry ∉ forwardEntries)
    (h : ∀ command, s.server.command device event = some command →
      typeKey numbers command = some entry.name) {key : ConnectionKey ν} {object : Json ν} :
    s.server.gift device event ≠ some (key, object) := by
  intro hgift
  obtain ⟨hcommand, ⟨other, hmem, -, hname⟩, -⟩ := gift_eq_some_iff.mp hgift
  rw [h object hcommand, Option.some.injEq] at hname
  exact hentry (Entry.name_injective hname ▸ hmem)

/-! ### Outgoing objects -/

theorem routed (s : Traffic ν) : s.Routed numbers := by
  intro isOpen members k hpos hmember
  have htruthy : truthy numbers (idJson numbers k) = true := by
    have hne : numbers.ofNat k ≠ numbers.ofNat 0 := fun h ↦
      hpos.ne' (numbers.ofNat_injective h)
    simpa [truthy, idJson] using hne
  have hpoint : ∀ socket ∈ s.server.web.point? numbers (idJson numbers k),
      socket.connectionID = k := by
    intro socket hsocket
    have hfound := List.find?_some hsocket
    rw [decide_eq_true_iff] at hfound
    exact numbers.ofNat_injective hfound.2
  have hsome : (s.server.web.point? numbers (idJson numbers k)).isSome ↔
      ∃ socket ∈ s.server.web.sockets, socket.connectionID = k ∧ socket.url ≠ "/" := by
    change (List.find? _ _).isSome ↔ _
    rw [List.find?_isSome]
    refine exists_congr fun socket ↦ and_congr_right fun _ ↦ ?_
    rw [decide_eq_true_iff, numbers.ofNat_injective.eq_iff]
    exact and_comm
  simp only [← hsome, sendJSON, hmember, Option.filter_some_pos htruthy]
  cases hfind : s.server.web.point? numbers (idJson numbers k) with
  | none => simp
  | some socket =>
    have hid : socket.connectionID = k := hpoint socket hfind
    by_cases hopen : isOpen k
    · simp [hid, hopen]
    · simp [hid, hopen]

/-! ### Honest browsers -/

theorem isolated_connect (h : Recorded numbers s) {url : String}
    (hstep : s.step device (.connect url) = some s') : s.Isolated device (.connect url) s' where
  owned := by
    refine (owned_iff h hstep).mpr fun key object hgift ↦ absurd hgift ?_
    refine gift_eq_none .ctpOpen (by decide) fun command hcommand ↦ ?_
    rw [command_connect hcommand, typeKey_openCommand]
    rfl
  ordered := h.ordered_step hstep
  created := by
    intro connection hcall
    obtain ⟨command, hcommand, -, hkey⟩ := call_eq_some_iff.mp hcall
    obtain ⟨⟨turn, hturn, hweb⟩, -⟩ := step_spec hstep
    obtain rfl := Option.some.inj hturn
    refine ⟨⟨url, rfl⟩, ?_⟩
    have hnumber : connectionKey command = connection := hkey
    rw [hweb, ← hnumber, command_connect hcommand]
    rfl
  removed := by
    intro key hheld hgone
    obtain ⟨command, hcommand, ⟨-, hname⟩, -⟩ := removed_of_step hstep hheld hgone
    rw [command_connect hcommand, typeKey_openCommand] at hname
    exact absurd hname (by decide)
  routed := s'.routed

theorem isolated_close (h : Recorded numbers s) {connectionID : ℕ}
    (hstep : s.step device (.close connectionID) = some s') :
    s.Isolated device (.close connectionID) s' := by
  obtain ⟨⟨turn, hturn, -⟩, -⟩ := step_spec hstep
  obtain ⟨socket, hsocket, -⟩ := Option.map_eq_some_iff.mp hturn
  have hcommand : ∀ command, s.server.command device (.close connectionID) = some command →
      command = closeCommand numbers socket := fun _ h ↦ command_close hsocket h
  exact
    { owned := by
        refine (owned_iff h hstep).mpr fun key object hgift ↦ absurd hgift ?_
        refine gift_eq_none .ctpClose (by decide) fun command h ↦ ?_
        rw [hcommand command h, typeKey_closeCommand]
        rfl
      ordered := h.ordered_step hstep
      created := by
        intro connection hcall
        obtain ⟨command, h, ⟨-, hname⟩, -⟩ := call_eq_some_iff.mp hcall
        have hopen : typeKey numbers command = some "CTP_OPEN" := hname
        rw [hcommand command h, typeKey_closeCommand] at hopen
        exact absurd hopen (by decide)
      removed := by
        intro key hheld hgone
        obtain ⟨command, h, -, hkey⟩ := removed_of_step hstep hheld hgone
        rw [hcommand command h] at hkey
        refine ⟨connectionID, rfl, ?_⟩
        rw [← (mem_of_socket? hsocket).2]
        exact (Option.some.inj hkey).symm
      routed := s'.routed }

/-- A command that a browser has made as it likes: what the step does is isolated exactly when it
is given to no session but that of the receiving WebSocket, and neither makes nor removes one. -/
theorem isolated_iff_of_command (h : Recorded numbers s) (hstep : s.step device event = some s')
    (hconnect : ∀ url, event ≠ .connect url) (hclose : ∀ k, event ≠ .close k) :
    s.Isolated device event s' ↔
      (∀ key object, s.server.gift device event = some (key, object) →
        ∃ k, key = sessionKey numbers k ∧ s.server.receipt numbers event = some (k, object)) ∧
      ∀ command, s.server.command device event = some command →
        ¬ s.server.http.Names numbers command .ctpOpen ∧
          (s.server.http.Names numbers command .ctpClose →
            ∀ key ∈ connectionKey command, s.server.http.conns key = none) := by
  constructor
  · intro hisolated
    refine ⟨(owned_iff h hstep).mp hisolated.owned, fun command hcommand ↦ ⟨fun hopen ↦ ?_, ?_⟩⟩
    · obtain ⟨⟨url, hevent⟩, -⟩ := hisolated.created _
        (call_eq_some_iff.mpr ⟨command, hcommand, hopen, rfl⟩)
      exact hconnect url hevent
    · intro hnames key hkey
      by_contra hheld
      obtain ⟨k, hevent, -⟩ :=
        hisolated.removed key hheld (conns_of_close hstep hcommand hnames hkey)
      exact hclose k hevent
  · rintro ⟨hmatched, hcommands⟩
    exact
      { owned := (owned_iff h hstep).mpr hmatched
        ordered := h.ordered_step hstep
        created := by
          intro connection hcall
          obtain ⟨command, hcommand, hopen, -⟩ := call_eq_some_iff.mp hcall
          exact absurd hopen (hcommands command hcommand).1
        removed := by
          intro key hheld hgone
          obtain ⟨command, hcommand, hnames, hkey⟩ := removed_of_step hstep hheld hgone
          exact absurd ((hcommands command hcommand).2 hnames key hkey) hheld
        routed := s'.routed }

theorem isolated_message_iff (h : Recorded numbers s) {connectionID : ℕ} {message : String}
    (hstep : s.step device (.message connectionID message) = some s') :
    s.Isolated device (.message connectionID message) s' ↔
      s.Honest device (.message connectionID message) s' := by
  rw [isolated_iff_of_command h hstep (fun _ ↦ nofun) fun _ ↦ nofun]
  obtain ⟨⟨turn, hturn, -⟩, -⟩ := step_spec hstep
  obtain ⟨socket, hsocket, -⟩ := Option.map_eq_some_iff.mp hturn
  have hid : socket.connectionID = connectionID := (mem_of_socket? hsocket).2
  have hcommand : ∀ object, s.server.command device (.message connectionID message) = some object ↔
      onMessage numbers socket message = some object ∧ device.carries object := by
    intro object
    simp [Server.command, Web.turn, hsocket, Option.filter_eq_some_iff]
  have htagged : ∀ object entry, onMessage numbers socket message = some object →
      s.server.http.Names numbers object entry →
        connectionKey object = some (sessionKey numbers connectionID) := by
    intro object entry hobject hnames
    rw [onMessage] at hobject
    split_ifs at hobject
    exact hid ▸ connectionKey_tagged hobject hnames
  -- the object is received by the WebSocket whose number it has been given
  have hmatched : ∀ key object,
      s.server.gift device (.message connectionID message) = some (key, object) →
        ∃ k, key = sessionKey numbers k ∧
          s.server.receipt numbers (.message connectionID message) = some (k, object) := by
    intro key object hgift
    obtain ⟨hobject, ⟨entry, -, hnames⟩, hkey, -⟩ := gift_eq_some_iff.mp hgift
    obtain ⟨hobject, -⟩ := (hcommand object).mp hobject
    rw [htagged object entry hobject hnames, Option.some.injEq] at hkey
    refine ⟨connectionID, hkey.symm, ?_⟩
    simp [Server.receipt, hsocket, hobject]
  constructor
  · rintro ⟨-, hhonest⟩ other hother object hobject hcarries
    obtain rfl : socket = other := Option.some.inj (hsocket.symm.trans hother)
    obtain ⟨hopen, hclose⟩ := hhonest object ((hcommand object).mpr ⟨hobject, hcarries⟩)
    exact ⟨hopen, fun hnames ↦ hclose hnames _ (htagged object _ hobject hnames)⟩
  · intro hhonest
    refine ⟨hmatched, fun object hobject ↦ ?_⟩
    obtain ⟨hobject, hcarries⟩ := (hcommand object).mp hobject
    obtain ⟨hopen, hclose⟩ := hhonest socket hsocket object hobject hcarries
    refine ⟨hopen, fun hnames key hkey ↦ ?_⟩
    rw [htagged object _ hobject hnames] at hkey
    exact Option.some.inj hkey ▸ hclose hnames

theorem isolated_post_iff (h : Recorded numbers s) {body : Json ν}
    (hstep : s.step device (.post body) = some s') :
    s.Isolated device (.post body) s' ↔ s.Honest device (.post body) s' := by
  rw [isolated_iff_of_command h hstep (fun _ ↦ nofun) fun _ ↦ nofun]
  constructor
  · rintro ⟨hmatched, hcommands⟩ hcarries
    have hcommand : s.server.command device (.post body) = some body :=
      command_post.mpr ⟨rfl, hcarries⟩
    obtain ⟨hopen, hclose⟩ := hcommands body hcommand
    refine ⟨hopen, fun entry hentry hnames key hkey ↦ ?_⟩
    rcases hentry with rfl | hforward
    · exact hclose hnames key hkey
    · by_contra hheld
      have hgift : s.server.gift device (.post body) = some (key, body) :=
        gift_eq_some_iff.mpr ⟨hcommand, ⟨entry, hforward, hnames⟩, hkey, hheld⟩
      -- no WebSocket has received the body
      obtain ⟨k, -, hreceipt⟩ := hmatched key body hgift
      exact absurd hreceipt (by simp [Server.receipt])
  · intro hhonest
    constructor
    · intro key object hgift
      obtain ⟨hcommand, ⟨entry, hforward, hnames⟩, hkey, hheld⟩ := gift_eq_some_iff.mp hgift
      obtain ⟨rfl, hcarries⟩ := command_post.mp hcommand
      exact absurd ((hhonest hcarries).2 entry (Or.inr hforward) hnames key hkey) hheld
    · intro command hcommand
      obtain ⟨rfl, hcarries⟩ := command_post.mp hcommand
      obtain ⟨hopen, hmeans⟩ := hhonest hcarries
      exact ⟨hopen, fun hnames ↦ hmeans .ctpClose (Or.inl rfl) hnames⟩

/-- In a state of the record, the condition on an event is that its step is isolated. -/
theorem isolated_iff_honest (h : Recorded numbers s) (hstep : s.step device event = some s') :
    s.Isolated device event s' ↔ s.Honest device event s' := by
  cases event with
  | connect url => exact iff_of_true (isolated_connect h hstep) trivial
  | message connectionID message => exact isolated_message_iff h hstep
  | close connectionID => exact iff_of_true (isolated_close h hstep) trivial
  | post body => exact isolated_post_iff h hstep

end Traffic

end Spec

/-! ### Every run -/

/-- In every sequence of WebSockets that open, send and close and of POSTs, the CapTP sessions are
isolated if and only if no browser uses the name of a CapTP entry to make a session, to remove one,
or to talk in the session of a WebSocket with a POST. -/
theorem isolated_iff [DecidableEq ν] {numbers : Numbers ν} (device : CommandDevice numbers)
    (roles : Roles) (events : List (WebEvent ν)) :
    AllSteps (Traffic.step device) (Traffic.Isolated device) (.fresh roles) events ↔
      AllSteps (Traffic.step device) (Traffic.Honest device) (.fresh roles) events := by
  have hiff : ∀ (s : Traffic ν) (event : WebEvent ν) (s' : Traffic ν), s.Recorded numbers →
      s.step device event = some s' → (s.Isolated device event s' ↔ s.Honest device event s') :=
    fun _ _ _ h hstep ↦ Traffic.isolated_iff_honest h hstep
  have hkeep : ∀ (s : Traffic ν) (event : WebEvent ν) (s' : Traffic ν), s.Recorded numbers →
      s.Honest device event s' → s.step device event = some s' → s'.Recorded numbers :=
    fun s event s' h hhonest hstep ↦ h.step ((hiff s event s' h hstep).mpr hhonest).owned hstep
  exact allSteps_congr_of_invariant hkeep hiff (Traffic.recorded_fresh roles)

/-! ### A forged body -/

/-- A WebSocket opens, and another page posts a call with its number. -/
def forged : List (WebEvent ℕ) :=
  [.connect "/captp", .post (.obj [("type", .str "CTP_CALL"), ("connectionID", .num 1)])]

/-- The session of the WebSocket is given the body, which the WebSocket has not received. -/
theorem forged_not_isolated :
    ¬ AllSteps (Traffic.step everything) (Traffic.Isolated everything) (.fresh ⟨true, false⟩)
      forged := by
  intro h
  have hrun : ((run (Traffic.step everything) (.fresh ⟨true, false⟩) forged).map fun s ↦
      ((s.given (.num 1)).map Prod.fst, (s.received 1).map Prod.fst)) = some ([1], []) := by
    decide +kernel
  obtain ⟨s, hs, hrecords⟩ := Option.map_eq_some_iff.mp hrun
  obtain ⟨hgiven, hreceived⟩ := Prod.mk.inj hrecords
  have hkeep : ∀ (s : Traffic ℕ) (event : WebEvent ℕ) (s' : Traffic ℕ),
      s.Owned Numbers.nat → s.Isolated everything event s' →
        s.step everything event = some s' → s'.Owned Numbers.nat :=
    fun _ _ _ _ hisolated _ ↦ hisolated.owned
  have howned : s.Owned Numbers.nat :=
    run_invariant hkeep (Traffic.recorded_fresh ⟨true, false⟩).owned h hs
  obtain ⟨object, hobject, -⟩ := List.mem_map.mp (hgiven ▸ List.mem_singleton_self 1)
  obtain ⟨k, hkey, hmem⟩ := howned (.num 1) object hobject
  obtain rfl : 1 = k := ConnectionKey.num.inj hkey
  rw [List.map_eq_nil_iff.mp hreceived] at hmem
  exact absurd hmem (List.not_mem_nil)

end CosmicSwingset.Solo
