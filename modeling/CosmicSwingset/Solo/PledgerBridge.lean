import CosmicSwingset.Foundation.Transition

/-!
# The sessions of the pledger bridge

`pledger-bridge.html` makes a WebSocket at every `PLEDGER_CONNECT` and forwards what its window is
posted to it. What is posted before the socket opens waits in `q`. The variable `ws` and the queue
are shared by all sockets, and no handler looks whose event it has: `open` sends the queue to `ws`,
and `close` clears `ws`, whichever socket they come from. `q` is a constant, so that the assignment
in the branch of `PLEDGER_DISCONNECT` throws, before the socket is closed.

A session lasts from a `PLEDGER_CONNECT` to the next, to a `PLEDGER_DISCONNECT` or to the close of
its socket. Sessions are apart in a run if and only if three things do not happen in it: a session
is disconnected while its socket is up; another socket closes while there is a session; and a socket
opens when the queue holds what is older than the session, or than what has been sent in it
(`sessions_apart_iff`).
-/

set_option autoImplicit false
set_option relaxedAutoImplicit false

namespace CosmicSwingset.Solo

open Foundation

inductive ReadyState
  | connecting
  | open
  | closing
  | closed
  deriving DecidableEq

/-- What was posted to the window in a session, if there was one. There is no text of it when
`JSON.stringify` throws. -/
structure Posted where
  index : ℕ
  session : Option ℕ
  json : Option String
  deriving DecidableEq

structure Forwarded where
  socket : ℕ
  message : Posted
  deriving DecidableEq

/-- What the bridge posts to its parent. -/
inductive ParentPost
  | connected
  | disconnected
  | object (text : String)
  deriving DecidableEq

/-- The sockets, by their number, and the variables of the script. `session`, `disconnected` and
`posted` record which socket the session was opened for, whether it was ended by a
`PLEDGER_DISCONNECT`, and how much was posted; the logs have the newest first. -/
structure PledgerBridge where
  sockets : List ReadyState
  ws : Option ℕ
  q : List Posted
  session : Option ℕ
  disconnected : Bool
  posted : ℕ
  forwarded : List Forwarded
  posts : List ParentPost

/-- `message` is a message of the window of another type, or one without data; `opened`, `received`
and `close` are the events of a socket; a socket is `closing` when its other end has begun to
close. -/
inductive PledgerBridgeEvent
  | connect
  | disconnect
  | message (json : Option String)
  | noData
  | opened (i : ℕ)
  | closing (i : ℕ)
  | received (i : ℕ) (obj : Option String)
  | close (i : ℕ)

namespace PledgerBridge

def fresh : PledgerBridge := ⟨[], none, [], none, false, 0, [], []⟩

def readyState (s : PledgerBridge) (i : ℕ) : ReadyState := (s.sockets[i]?).getD .closed

/-- `ws.send(JSON.stringify(obj))`, unless it throws. A socket that closes discards it. -/
def send (s : PledgerBridge) (obj : Posted) : Option PledgerBridge :=
  match s.ws, obj.json with
  | some ws, some _ =>
    match s.readyState ws with
    | .connecting => none
    | .open => some { s with forwarded := ⟨ws, obj⟩ :: s.forwarded }
    | .closing | .closed => some s
  | _, _ => none

/-- The loop of the handler of `open`, and whether it comes to its end. -/
def flush (s : PledgerBridge) : List Posted → PledgerBridge × Bool
  | [] => ({ s with q := [] }, true)
  | obj :: q =>
    match s.send obj with
    | some s => s.flush q
    | none => ({ s with q := q }, false)

def postJSON (s : PledgerBridge) (obj : ParentPost) : PledgerBridge :=
  { s with posts := obj :: s.posts }

/-- The default branch. -/
def onMessage (s : PledgerBridge) (data : Posted) : PledgerBridge :=
  match s.ws with
  | none => s
  | some ws =>
    if s.readyState ws = .open then (s.send data).getD s
    else { s with q := s.q ++ [data] }

def onOpen (s : PledgerBridge) : PledgerBridge :=
  match s.flush s.q with
  | (s, true) => s.postJSON .connected
  | (s, false) => s

def onClose (s : PledgerBridge) (i : ℕ) : PledgerBridge :=
  { s with
    sockets := s.sockets.set i .closed
    ws := none
    session := if s.session = some i then none else s.session
    posts := .disconnected :: s.posts }

def step (s : PledgerBridge) : PledgerBridgeEvent → Option PledgerBridge
  | .connect => some
      { s with
        sockets := s.sockets ++ [.connecting]
        ws := some s.sockets.length
        session := some s.sockets.length
        disconnected := false }
  -- the assignment to `q` throws
  | .disconnect => some { s with session := none, disconnected := true }
  | .message json =>
    some { s.onMessage ⟨s.posted, s.session, json⟩ with posted := s.posted + 1 }
  | .noData => some s
  | .opened i =>
    if s.readyState i = .connecting then some (onOpen { s with sockets := s.sockets.set i .open })
    else none
  | .closing i =>
    if s.readyState i = .connecting ∨ s.readyState i = .open then
      some { s with sockets := s.sockets.set i .closing }
    else none
  | .received i obj =>
    if s.readyState i = .open ∨ s.readyState i = .closing then
      some (obj.elim s fun text ↦ s.postJSON (.object text))
    else none
  | .close i =>
    if s.readyState i = .closed then none else some (s.onClose i)

/-! ### What keeps sessions apart -/

/-- The socket has begun to close. -/
def Down (s : PledgerBridge) (i : ℕ) : Prop := s.readyState i = .closing ∨ s.readyState i = .closed

instance Down.instDecidable (s : PledgerBridge) (i : ℕ) : Decidable (s.Down i) :=
  inferInstanceAs (Decidable (s.readyState i = .closing ∨ s.readyState i = .closed))

/-- In a session, what is forwarded later was posted later. -/
def Following (later earlier : Forwarded) : Prop :=
  later.message.session = earlier.message.session → earlier.message.index < later.message.index

/-- What a step should do: nothing is forwarded but to the socket of its session, in order and so at
most once; `PLEDGER_DISCONNECT` closes the socket, and nothing is forwarded from then to the next
`PLEDGER_CONNECT`; the close of an old socket does not disconnect the session. -/
structure Apart (s : PledgerBridge) (e : PledgerBridgeEvent) (s' : PledgerBridge) : Prop where
  own : ∀ f ∈ s'.forwarded, f.message.session = some f.socket
  ordered : s'.forwarded.Pairwise Following
  closes : e = .disconnect → ∀ k ∈ s.session, s'.Down k
  silent : s'.disconnected = true → s'.forwarded = s.forwarded
  connected : ∀ i, e = .close i → ∀ k ∈ s.session, i ≠ k → s'.ws = some k

/-- What the queue holds up to the first that is not JSON. -/
def sendable (s : PledgerBridge) : List Posted := s.q.takeWhile fun obj ↦ obj.json.isSome

def Tame (s : PledgerBridge) : PledgerBridgeEvent → Prop
  | .disconnect => ∀ k ∈ s.session, s.Down k
  | .close i => ∀ k ∈ s.session, i = k
  | .opened i => ∀ k ∈ s.ws, i = k ∨ s.readyState k = .open → ∀ obj ∈ s.sendable,
      obj.session = some k ∧
        ∀ f ∈ s.forwarded, f.message.session = some k → f.message.index < obj.index
  | _ => True

/-! ### The queue -/

variable {s s' : PledgerBridge} {i k : ℕ}

theorem send_open (hws : s.ws = some k) (hopen : s.readyState k = .open) (obj : Posted) :
    s.send obj =
      if obj.json.isSome then some { s with forwarded := ⟨k, obj⟩ :: s.forwarded } else none := by
  cases hjson : obj.json with
  | none => simp [send, hws, hjson]
  | some json => simp [send, hws, hjson, hopen]

theorem send_of_not_open (h : ∀ k ∈ s.ws, s.readyState k ≠ .open) (obj : Posted) :
    s.send obj = some s ∨ s.send obj = none := by
  rw [send]
  split
  · rename_i k json hws hjson
    have hclosed := h k hws
    split
    · exact Or.inr rfl
    · rename_i hopen
      exact absurd hopen hclosed
    · exact Or.inl rfl
    · exact Or.inl rfl
  · exact Or.inr rfl

theorem flush_open (hws : s.ws = some k) (hopen : s.readyState k = .open) (q : List Posted) :
    ∃ rest, rest <:+ q ∧ (s.flush q).1 = { s with
      q := rest
      forwarded := ((q.takeWhile fun obj ↦ obj.json.isSome).map (⟨k, ·⟩)).reverse ++
        s.forwarded } := by
  induction q generalizing s with
  | nil => exact ⟨[], List.nil_suffix, rfl⟩
  | cons obj q ih =>
    rw [flush, send_open hws hopen]
    cases hjson : obj.json.isSome with
    | false =>
      refine ⟨q, List.suffix_cons obj q, ?_⟩
      simp [hjson]
    | true =>
      obtain ⟨rest, hrest, heq⟩ :=
        ih (s := { s with forwarded := ⟨k, obj⟩ :: s.forwarded }) hws hopen
      refine ⟨rest, hrest.trans (List.suffix_cons obj q), ?_⟩
      simp [hjson, heq]

theorem flush_of_not_open (h : ∀ k ∈ s.ws, s.readyState k ≠ .open) (q : List Posted) :
    ∃ rest, rest <:+ q ∧ (s.flush q).1 = { s with q := rest } := by
  induction q with
  | nil => exact ⟨[], List.nil_suffix, rfl⟩
  | cons obj q ih =>
    rw [flush]
    rcases send_of_not_open h obj with hsend | hsend
    · obtain ⟨rest, hrest, heq⟩ := ih
      exact ⟨rest, hrest.trans (List.suffix_cons obj q), by rw [hsend, ← heq]⟩
    · exact ⟨q, List.suffix_cons obj q, by rw [hsend]⟩

/-- What the handler of `open` forwards. -/
def sends (s : PledgerBridge) : List Forwarded :=
  match s.ws with
  | some k => if s.readyState k = .open then s.sendable.map (⟨k, ·⟩) else []
  | none => []

theorem onOpen_eq (s : PledgerBridge) : ∃ rest posts, rest <:+ s.q ∧ s.onOpen = { s with
    q := rest, posts := posts, forwarded := s.sends.reverse ++ s.forwarded } := by
  have hflush : ∃ rest, rest <:+ s.q ∧
      (s.flush s.q).1 = { s with q := rest, forwarded := s.sends.reverse ++ s.forwarded } := by
    cases hws : s.ws with
    | none =>
      obtain ⟨rest, hrest, heq⟩ := flush_of_not_open (s := s) (by simp [hws]) s.q
      exact ⟨rest, hrest, by simp [heq, sends, hws]⟩
    | some k =>
      by_cases hopen : s.readyState k = .open
      · obtain ⟨rest, hrest, heq⟩ := flush_open hws hopen s.q
        exact ⟨rest, hrest, by simp [heq, sends, hws, hopen, sendable]⟩
      · obtain ⟨rest, hrest, heq⟩ := flush_of_not_open (s := s) (by simp [hws, hopen]) s.q
        exact ⟨rest, hrest, by simp [heq, sends, hws, hopen]⟩
  obtain ⟨rest, hrest, heq⟩ := hflush
  rw [onOpen]
  split
  · rename_i t hloop
    rw [hloop] at heq
    obtain rfl : t = _ := heq
    exact ⟨rest, .connected :: s.posts, hrest, rfl⟩
  · rename_i t hloop
    rw [hloop] at heq
    exact ⟨rest, s.posts, hrest, heq⟩

theorem mem_sends {f : Forwarded} : f ∈ s.sends ↔
    ∃ k ∈ s.ws, s.readyState k = .open ∧ ∃ obj ∈ s.sendable, f = ⟨k, obj⟩ := by
  rw [sends]
  cases hws : s.ws with
  | none => simp
  | some k =>
    by_cases hopen : s.readyState k = .open
    · simp [hopen, eq_comm]
    · simp [hopen]

theorem readyState_set (hi : s.readyState i ≠ .closed) (r : ReadyState) (j : ℕ) :
    readyState { s with sockets := s.sockets.set i r } j =
      if i = j then r else s.readyState j := by
  have hlt : i < s.sockets.length := by
    by_contra hle
    exact hi (by rw [readyState, List.getElem?_eq_none (Nat.le_of_not_lt hle), Option.getD_none])
  rw [readyState, List.getElem?_set]
  split_ifs with hij
  · rfl
  · rfl

theorem onMessage_cases (s : PledgerBridge) (data : Posted) :
    (∃ k, s.ws = some k ∧ s.readyState k = .open ∧
      s.onMessage data = { s with forwarded := ⟨k, data⟩ :: s.forwarded }) ∨
    s.onMessage data = s ∨ s.onMessage data = { s with q := s.q ++ [data] } := by
  rw [onMessage]
  cases hws : s.ws with
  | none => exact Or.inr (Or.inl rfl)
  | some k =>
    by_cases hopen : s.readyState k = .open
    · simp only [hopen, if_true, send_open hws hopen]
      split
      · exact Or.inl ⟨k, rfl, hopen, by rw [Option.getD_some, hws]⟩
      · exact Or.inr (Or.inl rfl)
    · simp [hopen]

/-! ### What a step does to the sockets -/

theorem step_opened (hstep : step s (.opened i) = some s') :
    s.readyState i = .connecting ∧ s' = onOpen { s with sockets := s.sockets.set i .open } := by
  simp only [step] at hstep
  split_ifs at hstep with hconnecting
  exact ⟨hconnecting, (Option.some.inj hstep).symm⟩

theorem step_closing (hstep : step s (.closing i) = some s') :
    s.readyState i ≠ .closed ∧ s' = { s with sockets := s.sockets.set i .closing } := by
  simp only [step] at hstep
  split_ifs at hstep with hup
  refine ⟨fun hclosed ↦ ?_, (Option.some.inj hstep).symm⟩
  simp [hclosed] at hup

theorem step_received {obj : Option String} (hstep : step s (.received i obj) = some s') :
    ∃ posts, s' = { s with posts := posts } := by
  simp only [step] at hstep
  split_ifs at hstep
  obtain rfl := Option.some.inj hstep
  cases obj with
  | none => exact ⟨s.posts, rfl⟩
  | some text => exact ⟨.object text :: s.posts, rfl⟩

theorem step_close (hstep : step s (.close i) = some s') : s' = s.onClose i := by
  simp only [step] at hstep
  split_ifs at hstep
  exact (Option.some.inj hstep).symm

/-! ### What every tame step keeps -/

structure Kept (s : PledgerBridge) : Prop where
  session : ∀ k ∈ s.session, s.ws = some k
  down : ∀ k ∈ s.ws, s.session = some k ∨ s.Down k
  ended : s.disconnected = true → s.session = none
  queue : s.q.Pairwise fun earlier later ↦ earlier.index < later.index
  waiting : ∀ obj ∈ s.q, obj.index < s.posted
  sent : ∀ f ∈ s.forwarded, f.message.index < s.posted
  own : ∀ f ∈ s.forwarded, f.message.session = some f.socket
  ordered : s.forwarded.Pairwise Following

theorem kept_fresh : Kept fresh := by constructor <;> simp [fresh]

/-- The socket of `ws` is that of the session when it is open. -/
theorem Kept.session_of_open (h : s.Kept) (hws : s.ws = some k) (hopen : s.readyState k = .open) :
    s.session = some k :=
  (h.down k hws).resolve_right fun hdown ↦ by simp [Down, hopen] at hdown

theorem Kept.apart_of_forwarded (h : s.Kept) {e : PledgerBridgeEvent}
    (hforwarded : s'.forwarded = s.forwarded)
    (hcloses : e = .disconnect → ∀ k ∈ s.session, s'.Down k)
    (hconnected : ∀ i, e = .close i → ∀ k ∈ s.session, i ≠ k → s'.ws = some k) : s.Apart e s' where
  own := hforwarded ▸ h.own
  ordered := hforwarded ▸ h.ordered
  closes := hcloses
  silent _ := hforwarded
  connected := hconnected

theorem Kept.apart_message (h : s.Kept) (json : Option String)
    (hstep : step s (.message json) = some s') : s.Apart (.message json) s' := by
  obtain rfl := Option.some.inj hstep
  rcases s.onMessage_cases ⟨s.posted, s.session, json⟩ with ⟨k, hws, hopen, heq⟩ | heq | heq
  · have hsession := h.session_of_open hws hopen
    rw [heq]
    refine ⟨?_, ?_, by simp, fun hended ↦ ?_, by simp⟩
    · exact List.forall_mem_cons.mpr ⟨hsession, h.own⟩
    · exact List.pairwise_cons.mpr ⟨fun f hf _ ↦ h.sent f hf, h.ordered⟩
    · rw [h.ended hended] at hsession
      exact absurd hsession (by simp)
  · exact h.apart_of_forwarded (by rw [heq]) (by simp) (by simp)
  · exact h.apart_of_forwarded (by rw [heq]) (by simp) (by simp)

/-- An event `open` is tame when what it forwards is of the session, and later than all before. -/
theorem Kept.apart_opened_iff (h : s.Kept) (hstep : step s (.opened i) = some s') :
    s.Apart (.opened i) s' ↔ s.Tame (.opened i) := by
  obtain ⟨hconnecting, rfl⟩ := step_opened hstep
  have hi : s.readyState i ≠ .closed := by simp [hconnecting]
  obtain ⟨rest, posts, -, heq⟩ := onOpen_eq { s with sockets := s.sockets.set i .open }
  generalize hopened : { s with sockets := s.sockets.set i .open } = t at heq
  have hready : ∀ k, t.readyState k = .open ↔ i = k ∨ s.readyState k = .open := by
    intro k
    rw [← hopened, readyState_set hi]
    by_cases hik : i = k <;> simp [hik]
  have hws : t.ws = s.ws := by rw [← hopened]
  have hforwarded : t.forwarded = s.forwarded := by rw [← hopened]
  have hsendable : t.sendable = s.sendable := by rw [← hopened]; rfl
  have hdisconnected : t.disconnected = s.disconnected := by rw [← hopened]
  rw [heq]
  constructor
  · intro hapart k hk hopen obj hobj
    have hmem : (⟨k, obj⟩ : Forwarded) ∈ t.sends :=
      mem_sends.mpr ⟨k, hws ▸ hk, (hready k).mpr hopen, obj, hsendable ▸ hobj, rfl⟩
    have hsession := hapart.own ⟨k, obj⟩ (List.mem_append_left _ (List.mem_reverse.mpr hmem))
    refine ⟨hsession, fun f hf hsame ↦ ?_⟩
    obtain ⟨-, -, hacross⟩ := List.pairwise_append.mp hapart.ordered
    exact hacross _ (List.mem_reverse.mpr hmem) f (hforwarded ▸ hf) (hsession.trans hsame.symm)
  · intro htame
    have hown : ∀ f ∈ t.sends, f.message.session = some f.socket ∧
        ∀ f' ∈ s.forwarded, Following f f' := by
      intro f hf
      obtain ⟨k, hk, hopen, obj, hobj, rfl⟩ := mem_sends.mp hf
      obtain ⟨hsession, hlater⟩ :=
        htame k (hws ▸ hk) ((hready k).mp hopen) obj (hsendable ▸ hobj)
      exact ⟨hsession, fun f' hf' hsame ↦ hlater f' hf' (hsame.symm.trans hsession)⟩
    have hsublist : s.sendable.Sublist s.q := List.takeWhile_sublist _
    have hsends : t.sends.Pairwise fun earlier later ↦ Following later earlier := by
      rw [sends]
      split
      · split
        · rw [List.pairwise_map, hsendable]
          refine (h.queue.sublist hsublist).imp ?_
          intro earlier later hlt _
          exact hlt
        · exact .nil
      · exact .nil
    refine ⟨fun f hf ↦ ?_, ?_, by simp, fun hended ↦ ?_, by simp⟩
    · rcases List.mem_append.mp hf with hnew | hold
      · exact (hown f (List.mem_reverse.mp hnew)).1
      · exact h.own f (hforwarded ▸ hold)
    · refine List.pairwise_append.mpr ⟨List.pairwise_reverse.mpr hsends, hforwarded ▸ h.ordered, ?_⟩
      intro f hf f' hf'
      exact (hown f (List.mem_reverse.mp hf)).2 f' (hforwarded ▸ hf')
    · have hnone : t.sends = [] := by
        refine List.eq_nil_iff_forall_not_mem.mpr fun f hf ↦ ?_
        obtain ⟨k, hk, hopen, obj, hobj, rfl⟩ := mem_sends.mp hf
        have hsession := h.down k (hws ▸ hk)
        rw [h.ended (hdisconnected ▸ hended)] at hsession
        rcases (hready k).mp hopen with rfl | hopen
        · simp [Down, hconnecting] at hsession
        · simp [Down, hopen] at hsession
      rw [hnone, hforwarded]
      rfl

theorem Kept.apart_iff (h : s.Kept) {e : PledgerBridgeEvent} (hstep : step s e = some s') :
    s.Apart e s' ↔ s.Tame e := by
  cases e with
  | opened i => exact h.apart_opened_iff hstep
  | message json => exact iff_of_true (h.apart_message json hstep) trivial
  | connect | noData =>
    obtain rfl := Option.some.inj hstep
    exact iff_of_true (h.apart_of_forwarded rfl (by simp) (by simp)) trivial
  | disconnect =>
    obtain rfl := Option.some.inj hstep
    refine ⟨fun hapart ↦ hapart.closes rfl, fun htame ↦ ?_⟩
    exact h.apart_of_forwarded rfl (fun _ ↦ htame) (by simp)
  | closing i =>
    obtain ⟨-, rfl⟩ := step_closing hstep
    exact iff_of_true (h.apart_of_forwarded rfl (by simp) (by simp)) trivial
  | received i obj =>
    obtain ⟨posts, rfl⟩ := step_received hstep
    exact iff_of_true (h.apart_of_forwarded rfl (by simp) (by simp)) trivial
  | close i =>
    obtain rfl := step_close hstep
    constructor
    · intro hapart k hk
      by_contra hne
      exact Option.some_ne_none k (hapart.connected i rfl k hk hne).symm
    · intro htame
      refine h.apart_of_forwarded rfl (by simp) fun j hj k hk hne ↦ ?_
      obtain rfl := PledgerBridgeEvent.close.inj hj
      exact absurd (htame k hk) hne

/-- A socket that is down stays so. -/
theorem Down.set (hdown : s.Down k) {i : ℕ} (hi : s.readyState i ≠ .closed) {r : ReadyState}
    (hr : i = k → r = .closing ∨ r = .closed) :
    Down { s with sockets := s.sockets.set i r } k := by
  rw [Down, readyState_set hi]
  split_ifs with hik
  · exact hr hik
  · exact hdown

theorem Kept.step (h : s.Kept) {e : PledgerBridgeEvent} (htame : s.Tame e)
    (hstep : step s e = some s') : s'.Kept := by
  have hapart := (h.apart_iff hstep).mpr htame
  have hown := hapart.own
  have hordered := hapart.ordered
  cases e with
  | noData =>
    obtain rfl := Option.some.inj hstep
    exact h
  | connect =>
    obtain rfl := Option.some.inj hstep
    exact { h with
      session := fun k hk ↦ hk
      down := fun k hk ↦ Or.inl hk
      ended := by simp }
  | disconnect =>
    obtain rfl := Option.some.inj hstep
    refine { h with session := by simp, down := fun k hk ↦ Or.inr ?_, ended := fun _ ↦ rfl }
    exact (h.down k hk).elim (htame k) id
  | message json =>
    obtain rfl := Option.some.inj hstep
    rcases s.onMessage_cases ⟨s.posted, s.session, json⟩ with ⟨k, hws, hopen, heq⟩ | heq | heq
    · rw [heq] at hown hordered ⊢
      refine { h with waiting := ?_, sent := ?_, own := hown, ordered := hordered }
      · exact fun obj hobj ↦ Nat.lt_succ_of_lt (h.waiting obj hobj)
      · refine List.forall_mem_cons.mpr ⟨Nat.lt_succ_self _, fun f hf ↦ ?_⟩
        exact Nat.lt_succ_of_lt (h.sent f hf)
    · rw [heq]
      refine { h with waiting := ?_, sent := ?_ }
      · exact fun obj hobj ↦ Nat.lt_succ_of_lt (h.waiting obj hobj)
      · exact fun f hf ↦ Nat.lt_succ_of_lt (h.sent f hf)
    · rw [heq]
      refine { h with queue := ?_, waiting := ?_, sent := ?_ }
      · refine List.pairwise_append.mpr ⟨h.queue, List.pairwise_singleton _ _, ?_⟩
        intro obj hobj last hlast
        rw [List.mem_singleton.mp hlast]
        exact h.waiting obj hobj
      · intro obj hobj
        rcases List.mem_append.mp hobj with hold | hlast
        · exact Nat.lt_succ_of_lt (h.waiting obj hold)
        · rw [List.mem_singleton.mp hlast]
          exact Nat.lt_succ_self _
      · exact fun f hf ↦ Nat.lt_succ_of_lt (h.sent f hf)
  | opened i =>
    obtain ⟨hconnecting, rfl⟩ := step_opened hstep
    obtain ⟨rest, posts, hrest, heq⟩ := onOpen_eq { s with sockets := s.sockets.set i .open }
    rw [heq] at hown hordered ⊢
    have hi : s.readyState i ≠ .closed := by simp [hconnecting]
    refine ⟨h.session, fun k hk ↦ ?_, h.ended, h.queue.sublist hrest.sublist, ?_, ?_, hown,
      hordered⟩
    · refine (h.down k hk).imp_right fun hdown ↦ hdown.set hi fun hik ↦ ?_
      subst hik
      simp [Down, hconnecting] at hdown
    · exact fun obj hobj ↦ h.waiting obj (hrest.subset hobj)
    · intro f hf
      rcases List.mem_append.mp hf with hnew | hold
      · obtain ⟨k, -, -, obj, hobj, rfl⟩ := mem_sends.mp (List.mem_reverse.mp hnew)
        exact h.waiting obj (List.takeWhile_sublist _ |>.subset hobj)
      · exact h.sent f hold
  | closing i =>
    obtain ⟨hi, rfl⟩ := step_closing hstep
    refine { h with down := fun k hk ↦ ?_ }
    exact (h.down k hk).imp_right fun hdown ↦ hdown.set hi fun _ ↦ Or.inl rfl
  | received i obj =>
    obtain ⟨posts, rfl⟩ := step_received hstep
    exact { h with }
  | close i =>
    obtain rfl := step_close hstep
    have hnone : (s.onClose i).session = none := by
      rw [onClose]
      split_ifs with hsession
      · rfl
      · refine Option.eq_none_iff_forall_ne_some.mpr fun k hk ↦ hsession ?_
        rw [htame k hk, hk]
    exact { h with
      session := fun k hk ↦ by simp [hnone] at hk
      down := fun k hk ↦ by simp [onClose] at hk
      ended := fun _ ↦ hnone }

/-- The sessions are apart at every step of a run if and only if every step of it is tame. -/
theorem sessions_apart_iff (es : List PledgerBridgeEvent) :
    AllSteps step Apart fresh es ↔ AllSteps step (fun s e _ ↦ s.Tame e) fresh es := by
  have hkeep : ∀ s e s', Kept s → Tame s e → PledgerBridge.step s e = some s' → Kept s' :=
    fun s e s' h htame hstep ↦ h.step htame hstep
  exact allSteps_congr_of_invariant hkeep (fun s e s' h hstep ↦ h.apart_iff hstep) kept_fresh

/-- The socket is open after a `PLEDGER_DISCONNECT`. -/
theorem not_sessions_apart : ¬ AllSteps step Apart fresh [.connect, .opened 0, .disconnect] := by
  intro h
  have hopened := (allSteps_cons.mp h _ rfl).2
  have hdisconnected := (allSteps_cons.mp hopened _ rfl).2
  have hapart := (allSteps_cons.mp hdisconnected _ rfl).1
  exact absurd (hapart.closes rfl 0 rfl) (by decide)

/-- What was posted while the first socket was connecting is sent to the second one. -/
example : (run step fresh
    [.connect, .message (some "a"), .close 0, .connect, .opened 1]).map forwarded =
      some [⟨1, ⟨0, some 0, some "a"⟩⟩] := by decide

end PledgerBridge

end CosmicSwingset.Solo
