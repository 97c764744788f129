import CosmicSwingset.Foundation.OrderedMap
import CosmicSwingset.Solo.Web

/-!
# The connection tables of the web server

`web.js` keeps two maps: `points` has the sockets at any url but `/`, `broadcasts` those at `/`, and
both are filled under the number of the connection. The handler of the end of a connection deletes
from `points` under the number, but from `broadcasts` under the socket itself, which is a key of no
entry. So a socket at `/` stays in its table for as long as the process lives.

`Listener` has the two tables beside the sockets that are open, and `Listener.Tracks` says that the
tables refer to those sockets and to no others. It holds after every event exactly in those runs in
which no socket at `/` closes (`tracks_iff_pointToPointCloses`). What `Web` says of `points` and
`broadcasts` in terms of the open sockets is what the tables have (`Listener.Sound.get_points`,
`Listener.Sound.mem_broadcasts`). Commands are taken to return a promise here; where the call of
one throws, the process goes down (`Startup`).
-/

set_option autoImplicit false
set_option relaxedAutoImplicit false

namespace CosmicSwingset.Solo

open Foundation Vats

variable {ν : Type*}

/-- A key that the handlers use with a table: the number of a connection, or a socket. -/
inductive TableKey
  | connectionID (connectionID : ℕ)
  | ws (ws : Socket)
  deriving DecidableEq

/-- The tables, beside the sockets that have been opened and have not been closed. -/
structure Listener where
  web : Web
  points : OrderedMap TableKey Socket
  broadcasts : OrderedMap TableKey Socket

/-- What happens to a WebSocket. The sockets that are open are known by their numbers. -/
inductive SocketEvent
  | open (url : String)
  | message (connectionID : ℕ) (message : String)
  | error (connectionID : ℕ)
  | close (connectionID : ℕ)
  deriving DecidableEq

namespace Listener

def fresh : Listener := ⟨.fresh, .empty, .empty⟩

section Handlers

variable (numbers : Numbers ν)

/-- `newConnection(ws, req)`. -/
def newConnection (s : Listener) (url : String) : Listener :=
  let connectionID := s.web.lastConnectionID + 1
  let ws : Socket := ⟨connectionID, url⟩
  let web := (Solo.newConnection numbers s.web url).1
  if url ≠ "/" then { s with web := web, points := s.points.set (.connectionID connectionID) ws }
  else { s with web := web, broadcasts := s.broadcasts.set (.connectionID connectionID) ws }

/-- The handler of `close`. -/
def onClose (s : Listener) (ws : Socket) : Listener :=
  let broadcasts := s.broadcasts.delete (.ws ws)
  let web := (Solo.onClose numbers s.web ws).1
  if ws.url ≠ "/" then
    { web := web, broadcasts := broadcasts,
      points := s.points.delete (.connectionID ws.connectionID) }
  else { s with web := web, broadcasts := broadcasts }

/-- The handlers of messages and errors read the tables at most. -/
def step (s : Listener) : SocketEvent → Option Listener
  | .open url => some (newConnection numbers s url)
  | .message connectionID _ | .error connectionID => (s.web.socket? connectionID).map fun _ ↦ s
  | .close connectionID => (s.web.socket? connectionID).map (onClose numbers s)

end Handlers

/-! ### What the tables hold -/

/-- Each table has the numbers of the open sockets that it is for, and no socket that is closed. -/
structure Tracks (s : Listener) : Prop where
  broadcasts : ∀ key, key ∈ s.broadcasts.keys ↔
    ∃ ws ∈ s.web.sockets, ws.url = "/" ∧ key = .connectionID ws.connectionID
  points : ∀ key, key ∈ s.points.keys ↔
    ∃ ws ∈ s.web.sockets, ws.url ≠ "/" ∧ key = .connectionID ws.connectionID
  live : ∀ entry ∈ s.broadcasts.entries ++ s.points.entries, entry.2 ∈ s.web.sockets

/-- What every event keeps: numbers are not used again, `points` has the open sockets that it is
for, and `broadcasts` has these and may have more. -/
structure Sound (s : Listener) : Prop where
  numbered : ∀ ws ∈ s.web.sockets, ws.connectionID ≤ s.web.lastConnectionID
  distinct : ∀ ws ∈ s.web.sockets, ∀ ws' ∈ s.web.sockets,
    ws.connectionID = ws'.connectionID → ws = ws'
  nodup : s.web.sockets.Nodup
  points : ∀ key ws, (key, ws) ∈ s.points.entries ↔
    key = .connectionID ws.connectionID ∧ ws ∈ s.web.sockets ∧ ws.url ≠ "/"
  broadcasts : ∀ key ws, (key, ws) ∈ s.broadcasts.entries →
    key = .connectionID ws.connectionID ∧ ws.url = "/" ∧
      ws.connectionID ≤ s.web.lastConnectionID
  broadcast : ∀ ws ∈ s.web.sockets, ws.url = "/" →
    (.connectionID ws.connectionID, ws) ∈ s.broadcasts.entries

/-- `broadcasts` has no socket that is closed. -/
def NoneLeft (s : Listener) : Prop :=
  ∀ entry ∈ s.broadcasts.entries, entry.2 ∈ s.web.sockets

theorem sound_fresh : Sound fresh where
  numbered := by simp [fresh, Web.fresh]
  distinct := by simp [fresh, Web.fresh]
  nodup := List.nodup_nil
  points := by simp [fresh, Web.fresh]
  broadcasts := by simp [fresh]
  broadcast := by simp [fresh, Web.fresh]

variable {numbers : Numbers ν} {s s' : Listener}

theorem Sound.newConnection (h : Sound s) (url : String) :
    Sound (newConnection numbers s url) := by
  have hfresh : ∀ ws ∈ s.web.sockets, ws.connectionID ≠ s.web.lastConnectionID + 1 := by
    intro ws hws heq
    have hle := h.numbered ws hws
    omega
  have hnumbered : ∀ ws ∈ ⟨s.web.lastConnectionID + 1, url⟩ :: s.web.sockets,
      ws.connectionID ≤ s.web.lastConnectionID + 1 := by
    refine List.forall_mem_cons.mpr ⟨le_rfl, fun ws hws ↦ ?_⟩
    exact (h.numbered ws hws).trans (Nat.le_succ _)
  have hdistinct : ∀ ws ∈ ⟨s.web.lastConnectionID + 1, url⟩ :: s.web.sockets,
      ∀ ws' ∈ ⟨s.web.lastConnectionID + 1, url⟩ :: s.web.sockets,
        ws.connectionID = ws'.connectionID → ws = ws' := by
    intro ws hws ws' hws' heq
    rcases List.mem_cons.mp hws with rfl | hold <;>
      rcases List.mem_cons.mp hws' with rfl | hold'
    · rfl
    · exact absurd heq.symm (hfresh ws' hold')
    · exact absurd heq (hfresh ws hold)
    · exact h.distinct ws hold ws' hold' heq
  have hnodup : (⟨s.web.lastConnectionID + 1, url⟩ :: s.web.sockets : List Socket).Nodup := by
    rw [List.nodup_cons]
    exact ⟨fun hmem ↦ hfresh _ hmem rfl, h.nodup⟩
  unfold Listener.newConnection
  by_cases hurl : url = "/"
  · rw [if_neg (not_not.mpr hurl)]
    refine ⟨hnumbered, hdistinct, hnodup, fun key ws ↦ ?_, fun key ws hmem ↦ ?_, ?_⟩
    · rw [h.points key ws]
      grind [Solo.newConnection]
    · rcases OrderedMap.mem_entries_set.mp hmem with ⟨rfl, rfl⟩ | ⟨-, hold⟩
      · exact ⟨rfl, hurl, le_rfl⟩
      · obtain ⟨hkey, hroot, hle⟩ := h.broadcasts key ws hold
        exact ⟨hkey, hroot, hle.trans (Nat.le_succ _)⟩
    · intro ws hws hroot
      rw [OrderedMap.mem_entries_set]
      rcases List.mem_cons.mp hws with rfl | hold
      · exact Or.inl ⟨rfl, rfl⟩
      · refine Or.inr ⟨fun heq ↦ hfresh ws hold (TableKey.connectionID.inj heq), ?_⟩
        exact h.broadcast ws hold hroot
  · rw [if_pos hurl]
    refine ⟨hnumbered, hdistinct, hnodup, fun key ws ↦ ?_, fun key ws hmem ↦ ?_, ?_⟩
    · rw [OrderedMap.mem_entries_set, h.points key ws]
      grind [Solo.newConnection]
    · obtain ⟨hkey, hroot, hle⟩ := h.broadcasts key ws hmem
      exact ⟨hkey, hroot, hle.trans (Nat.le_succ _)⟩
    · intro ws hws hroot
      rcases List.mem_cons.mp hws with rfl | hold
      · exact absurd hroot hurl
      · exact h.broadcast ws hold hroot

/-- No entry is under a socket. -/
theorem Sound.delete_ws (h : Sound s) {key : TableKey} {ws ws' : Socket} :
    (key, ws') ∈ (s.broadcasts.delete (.ws ws)).entries ↔ (key, ws') ∈ s.broadcasts.entries := by
  rw [OrderedMap.mem_entries_delete, and_iff_right_iff_imp]
  intro hmem
  rw [(h.broadcasts key ws' hmem).1]
  simp

theorem Sound.onClose (h : Sound s) {ws : Socket} (hws : ws ∈ s.web.sockets) :
    Sound (onClose numbers s ws) := by
  have hold : ∀ ws', ws' ∈ s.web.sockets.erase ws ↔ ws' ≠ ws ∧ ws' ∈ s.web.sockets :=
    fun ws' ↦ h.nodup.mem_erase_iff
  have hnumbered : ∀ ws' ∈ s.web.sockets.erase ws, ws'.connectionID ≤ s.web.lastConnectionID :=
    fun ws' hws' ↦ h.numbered ws' ((hold ws').mp hws').2
  have hdistinct : ∀ ws₁ ∈ s.web.sockets.erase ws, ∀ ws₂ ∈ s.web.sockets.erase ws,
      ws₁.connectionID = ws₂.connectionID → ws₁ = ws₂ :=
    fun ws₁ hws₁ ws₂ hws₂ ↦ h.distinct ws₁ ((hold ws₁).mp hws₁).2 ws₂ ((hold ws₂).mp hws₂).2
  unfold Listener.onClose
  by_cases hurl : ws.url = "/"
  · rw [if_neg (not_not.mpr hurl)]
    refine ⟨hnumbered, hdistinct, h.nodup.erase ws, fun key ws' ↦ ?_, fun key ws' hmem ↦ ?_, ?_⟩
    · change _ ↔ _ ∧ ws' ∈ s.web.sockets.erase ws ∧ _
      rw [h.points key ws', hold]
      grind
    · exact h.broadcasts key ws' (h.delete_ws.mp hmem)
    · exact fun ws' hws' hroot ↦ h.delete_ws.mpr (h.broadcast ws' ((hold ws').mp hws').2 hroot)
  · rw [if_pos hurl]
    refine ⟨hnumbered, hdistinct, h.nodup.erase ws, fun key ws' ↦ ?_, fun key ws' hmem ↦ ?_, ?_⟩
    · change _ ↔ _ ∧ ws' ∈ s.web.sockets.erase ws ∧ _
      rw [OrderedMap.mem_entries_delete, h.points key ws', hold]
      constructor
      · rintro ⟨hkey, rfl, hmem, hpoint⟩
        exact ⟨rfl, ⟨fun heq ↦ hkey (heq ▸ rfl), hmem⟩, hpoint⟩
      · rintro ⟨rfl, ⟨hne, hmem⟩, hpoint⟩
        refine ⟨fun heq ↦ hne ?_, rfl, hmem, hpoint⟩
        exact h.distinct ws' hmem ws hws (TableKey.connectionID.inj heq)
    · exact h.broadcasts key ws' (h.delete_ws.mp hmem)
    · exact fun ws' hws' hroot ↦ h.delete_ws.mpr (h.broadcast ws' ((hold ws').mp hws').2 hroot)

/-- What one event can do to the tables. -/
theorem step_cases {event : SocketEvent} (hstep : step numbers s event = some s') :
    (∃ url, event = .open url ∧ s' = Listener.newConnection numbers s url) ∨
      (∃ connectionID ws, event = .close connectionID ∧ s.web.socket? connectionID = some ws ∧
        s' = Listener.onClose numbers s ws) ∨
      ((∀ connectionID, event ≠ .close connectionID) ∧ s' = s) := by
  cases event with
  | «open» url => exact Or.inl ⟨url, rfl, (Option.some.inj hstep).symm⟩
  | message connectionID message =>
    obtain ⟨_, -, hsame⟩ := Option.map_eq_some_iff.mp hstep
    exact Or.inr (Or.inr ⟨by simp, hsame.symm⟩)
  | error connectionID =>
    obtain ⟨_, -, hsame⟩ := Option.map_eq_some_iff.mp hstep
    exact Or.inr (Or.inr ⟨by simp, hsame.symm⟩)
  | close connectionID =>
    obtain ⟨ws, hws, hclose⟩ := Option.map_eq_some_iff.mp hstep
    exact Or.inr (Or.inl ⟨connectionID, ws, rfl, hws, hclose.symm⟩)

theorem Sound.step {event : SocketEvent} (h : Sound s)
    (hstep : Listener.step numbers s event = some s') : Sound s' := by
  rcases step_cases hstep with ⟨url, -, rfl⟩ | ⟨connectionID, ws, -, hws, rfl⟩ | ⟨-, rfl⟩
  · exact h.newConnection url
  · exact h.onClose (mem_of_socket? hws).1
  · exact h

/-- The tables track the open sockets where no closed one is left. -/
theorem Sound.tracks_iff (h : Sound s) : Tracks s ↔ NoneLeft s := by
  constructor
  · exact fun htracks entry hentry ↦ htracks.live entry (List.mem_append_left _ hentry)
  · intro hleft
    refine ⟨fun key ↦ ?_, fun key ↦ ?_, ?_⟩
    · rw [OrderedMap.mem_keys]
      constructor
      · rintro ⟨ws, hmem⟩
        obtain ⟨hkey, hroot, -⟩ := h.broadcasts key ws hmem
        exact ⟨ws, hleft (key, ws) hmem, hroot, hkey⟩
      · rintro ⟨ws, hws, hroot, rfl⟩
        exact ⟨ws, h.broadcast ws hws hroot⟩
    · rw [OrderedMap.mem_keys]
      simp only [h.points]
      exact exists_congr fun ws ↦ by tauto
    · refine List.forall_mem_append.mpr ⟨hleft, fun entry hentry ↦ ?_⟩
      exact ((h.points entry.1 entry.2).mp hentry).2.1

/-- An event that closes no socket at `/`. -/
def PointToPointClose (s : Listener) (event : SocketEvent) : Prop :=
  ∀ connectionID, event = .close connectionID →
    ∀ ws, s.web.socket? connectionID = some ws → ws.url ≠ "/"

theorem NoneLeft.step {event : SocketEvent} (h : Sound s) (hleft : NoneLeft s)
    (hclose : PointToPointClose s event) (hstep : Listener.step numbers s event = some s') :
    NoneLeft s' := by
  rcases step_cases hstep with ⟨url, -, rfl⟩ | ⟨connectionID, ws, rfl, hws, rfl⟩ | ⟨-, rfl⟩
  · unfold Listener.newConnection
    split_ifs with hurl
    · exact fun entry hentry ↦ List.mem_cons_of_mem _ (hleft entry hentry)
    · intro entry hentry
      rcases OrderedMap.mem_entries_set.mp hentry with ⟨-, hnew⟩ | ⟨-, hold⟩
      · exact hnew ▸ List.mem_cons_self
      · exact List.mem_cons_of_mem _ (hleft entry hold)
  · have hpoint : ws.url ≠ "/" := hclose connectionID rfl ws hws
    unfold Listener.onClose
    rw [if_pos hpoint]
    intro entry hentry
    have hold : entry ∈ s.broadcasts.entries := h.delete_ws.mp hentry
    have hne : entry.2 ≠ ws := fun heq ↦ hpoint (heq ▸ (h.broadcasts _ _ hold).2.1)
    exact h.nodup.mem_erase_iff.mpr ⟨hne, hleft entry hold⟩
  · exact hleft

/-- The socket at `/` that closes stays in `broadcasts`. -/
theorem not_noneLeft_of_close (h : Sound s) {connectionID : ℕ} {ws : Socket}
    (hws : s.web.socket? connectionID = some ws) (hroot : ws.url = "/") :
    ¬ NoneLeft (Listener.onClose numbers s ws) := by
  intro hleft
  obtain ⟨hmem, -⟩ := mem_of_socket? hws
  unfold Listener.onClose at hleft
  rw [if_neg (not_not.mpr hroot)] at hleft
  have hkept : (.connectionID ws.connectionID, ws) ∈ (s.broadcasts.delete (.ws ws)).entries :=
    h.delete_ws.mpr (h.broadcast ws hmem hroot)
  exact (h.nodup.mem_erase_iff.mp (hleft _ hkept)).1 rfl

/-- The tables have exactly the open sockets after each event of a run, if and only if no socket at
`/` closes in it. -/
theorem tracks_iff_pointToPointCloses (numbers : Numbers ν) (events : List SocketEvent) :
    AllSteps (step numbers) (fun _ _ after ↦ Tracks after) fresh events ↔
      AllSteps (step numbers) (fun before event _ ↦ PointToPointClose before event) fresh
        events := by
  have hkeep : ∀ (before : Listener) (event : SocketEvent) (after : Listener),
      Sound before ∧ NoneLeft before → PointToPointClose before event →
        step numbers before event = some after → Sound after ∧ NoneLeft after :=
    fun _ _ _ ⟨hsound, hleft⟩ hclose hstep ↦ ⟨hsound.step hstep, hleft.step hsound hclose hstep⟩
  have hiff : ∀ (before : Listener) (event : SocketEvent) (after : Listener),
      Sound before ∧ NoneLeft before → step numbers before event = some after →
        (Tracks after ↔ PointToPointClose before event) := by
    rintro before event after ⟨hsound, hleft⟩ hstep
    rw [(hsound.step hstep).tracks_iff]
    refine ⟨fun hafter connectionID hevent ws hws hroot ↦ ?_, fun hclose ↦
      hleft.step hsound hclose hstep⟩
    have hclosed : after = Listener.onClose numbers before ws := by
      rw [hevent, step, hws] at hstep
      exact (Option.some.inj hstep).symm
    exact not_noneLeft_of_close hsound hws hroot (hclosed ▸ hafter)
  have hfresh : Sound fresh ∧ NoneLeft fresh := ⟨sound_fresh, by simp [NoneLeft, fresh]⟩
  exact allSteps_congr_of_invariant hkeep hiff hfresh

/-- A page is opened and closed again. -/
theorem not_tracks_closed_page :
    ¬ AllSteps (step Numbers.nat) (fun _ _ after ↦ Tracks after) fresh [.open "/", .close 1] := by
  intro h
  have hclosed := (allSteps_cons.mp (allSteps_cons.mp h _ rfl).2 _ rfl).1
  have hkept : .connectionID 1 ∈ (onClose Numbers.nat
      (newConnection Numbers.nat fresh "/") ⟨1, "/"⟩).broadcasts.keys := by decide
  obtain ⟨ws, hws, -⟩ := (hclosed.broadcasts (.connectionID 1)).mp hkept
  have hnone : (onClose Numbers.nat
      (newConnection Numbers.nat fresh "/") ⟨1, "/"⟩).web.sockets = [] := by decide
  exact List.not_mem_nil (hnone ▸ hws)

/-! ### The tables and the sockets of `Web` -/

theorem sound_of_run {events : List SocketEvent} (hrun : run (step numbers) fresh events = some s) :
    Sound s :=
  run_inductive (fun _ _ _ h hstep ↦ h.step hstep) sound_fresh hrun

/-- `points.get(connectionID)` is the open socket of that number that is not at `/`. -/
theorem Sound.get_points (h : Sound s) (connectionID : ℕ) (ws : Socket) :
    s.points.get (.connectionID connectionID) = some ws ↔
      ws ∈ s.web.sockets ∧ ws.connectionID = connectionID ∧ ws.url ≠ "/" := by
  rw [← OrderedMap.mem_entries_iff_get, h.points, TableKey.connectionID.injEq]
  tauto

/-- `sendJSON` finds in `points` what it finds in `Web`. -/
theorem Sound.get_points_eq_point [DecidableEq ν] (h : Sound s) (connectionID : ℕ) :
    s.points.get (.connectionID connectionID) =
      s.web.point? numbers (.num (numbers.ofNat connectionID)) := by
  ext ws
  rw [h.get_points, Web.point?]
  simp only [numbers.ofNat_injective.eq_iff]
  constructor
  · rintro ⟨hmem, hid, hpoint⟩
    cases hfind : s.web.sockets.find? fun socket ↦
        socket.url ≠ "/" ∧ socket.connectionID = connectionID with
    | none =>
      have hno := List.find?_eq_none.mp hfind ws hmem
      simp [hid, hpoint] at hno
    | some ws' =>
      have hfound := List.find?_some hfind
      simp only [decide_eq_true_eq] at hfound
      have hsame := h.distinct ws hmem ws' (List.mem_of_find?_eq_some hfind)
        (hid.trans hfound.2.symm)
      rw [hsame]
  · intro hfind
    have hfound := List.find?_some hfind
    simp only [decide_eq_true_eq] at hfound
    exact ⟨List.mem_of_find?_eq_some hfind, hfound.2, hfound.1⟩

/-- Of the sockets that `broadcasts.values()` goes through, `Web.broadcasts` are the open ones. -/
theorem Sound.mem_broadcasts (h : Sound s) (ws : Socket) :
    ws ∈ s.web.broadcasts ↔ ws ∈ s.web.sockets ∧ ∃ key, (key, ws) ∈ s.broadcasts.entries := by
  simp only [Web.broadcasts, List.mem_filter, decide_eq_true_eq]
  refine and_congr_right fun hmem ↦ ⟨fun hroot ↦ ⟨_, h.broadcast ws hmem hroot⟩, ?_⟩
  rintro ⟨key, hentry⟩
  exact (h.broadcasts key ws hentry).2.1

end Listener

end CosmicSwingset.Solo
