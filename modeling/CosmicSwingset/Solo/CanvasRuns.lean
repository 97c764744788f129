import CosmicSwingset.Solo.CanvasPage
import CosmicSwingset.Vats.Pubsub

/-!
# From the gallery to the page

The chain publishes each state of the gallery. The HTTP vat of a solo node subscribes once
(`setPresences`), keeps the last state that has arrived as `canvasState`, and broadcasts it to the
sockets at `/`. A page opens such a socket and then asks for the state by a POST (`getCanvasState`),
so that it draws what was there before and, frame by frame, what comes after.

The two ways are not ordered: `deliverInboundCommand` of `start.js` returns what it has got of the
vat only when the kernel state is saved, and meanwhile newer states may be broadcast. A page that
draws such an answer after a newer frame goes back, and stays behind until the next state
(`behind`). In the runs in which no answer comes after a frame that was sent after it was made,
every page that has got its answer and all its frames shows the state that the vat has, and the
state that was published last if nothing is on the way to the vat (`shows_of_inTurn`).

An answer that comes after its socket has closed is dropped here. The script of the page draws it
all the same, also when it has a new socket by then.
-/

set_option autoImplicit false
set_option relaxedAutoImplicit false

namespace CosmicSwingset.Solo

open Foundation Vats

variable {α : Type*}

/-- The POST of a page: not sent yet, on its way to the vat, answered with the state that the vat
had when it had sent `made` frames to the page, or handled by the page. -/
inductive StateRequest (α : Type*)
  | unsent
  | asked
  | answered (state : Option α) (made : ℕ)
  | handled
  deriving DecidableEq

/-- A state that a page has drawn, and how many frames had been sent to the page when the frame or
the answer that brought it was made, this frame included. -/
structure Drawing (α : Type*) where
  state : α
  made : ℕ
  deriving DecidableEq

/-- A page: what `canvasState` was when its socket was opened, the frames sent to it since, how many
of them have arrived, its request, what it has drawn, and whether its socket is open. -/
structure CanvasClient (α : Type*) where
  start : Option α
  frames : List α
  arrived : ℕ
  request : StateRequest α
  drawn : List (Drawing α)
  isOpen : Bool
  deriving DecidableEq

/-- The publisher, the HTTP vat and the pages. The vat's subscription is a subscriber's index. -/
structure CanvasService (α : Type*) where
  pubsub : Pubsub α
  subscription : Option ℕ
  canvasState : Option α
  clients : List (CanvasClient α)
  deriving DecidableEq

/-- * `publish`, `subscribe`, `notify`: the publisher and its other subscribers.
* `setPresences`: the vat subscribes; `notified`: a notification arrives at the vat.
* `connect`: a socket at `/` is opened.
* `ask`, `answer`, `respond`: a page sends its request, the vat answers it, the page gets the
  answer.
* `frame`: a frame arrives at a page; `close`: a socket is closed. -/
inductive CanvasEvent (α : Type*)
  | publish (state : α)
  | subscribe
  | notify (i : ℕ)
  | setPresences
  | notified
  | connect
  | ask (i : ℕ)
  | answer (i : ℕ)
  | respond (i : ℕ)
  | frame (i : ℕ)
  | close (i : ℕ)
  deriving DecidableEq

namespace CanvasClient

def connect (canvasState : Option α) : CanvasClient α := ⟨canvasState, [], 0, .unsent, [], true⟩

/-- `send` of `web.js`. -/
def send (state : α) (c : CanvasClient α) : CanvasClient α :=
  if c.isOpen then { c with frames := c.frames ++ [state] } else c

def ask (c : CanvasClient α) : Option (CanvasClient α) :=
  match c.request with
  | .unsent => some { c with request := .asked }
  | _ => none

def answer (canvasState : Option α) (c : CanvasClient α) : Option (CanvasClient α) :=
  match c.request with
  | .asked => some { c with request := .answered canvasState c.frames.length }
  | _ => none

/-- `handleMessage` of the answer, which has no state if the vat has none. -/
def respond (c : CanvasClient α) : Option (CanvasClient α) :=
  match c.request with
  | .answered state made => some
      { c with
        request := .handled
        drawn := c.drawn ++ (state.map (Drawing.mk · made)).toList }
  | _ => none

/-- `handleMessage` of the first frame that has not arrived yet. -/
def frame (c : CanvasClient α) : Option (CanvasClient α) :=
  c.frames[c.arrived]?.map fun state ↦
    { c with
      arrived := c.arrived + 1
      drawn := c.drawn ++ [⟨state, c.arrived + 1⟩] }

/-- The state that the vat had when it had sent some frames to the page. -/
def stateAfter (c : CanvasClient α) (count : ℕ) : Option α :=
  ((c.frames.take count).getLast?).or c.start

/-- What the page shows. -/
def shown (c : CanvasClient α) : Option α := c.drawn.getLast?.map Drawing.state

/-- The page has got its answer and all its frames. -/
def Settled (c : CanvasClient α) : Prop :=
  c.isOpen = true ∧ c.request = .handled ∧ c.arrived = c.frames.length

/-- No frame has arrived that was sent after the answer was made. -/
def InTurn (c : CanvasClient α) : Prop :=
  match c.request with
  | .answered _ made => c.arrived ≤ made
  | _ => True

instance (c : CanvasClient α) : Decidable c.InTurn :=
  match h : c.request with
  | .answered _ made => decidable_of_iff (c.arrived ≤ made) (by rw [InTurn, h])
  | .unsent | .asked | .handled => .isTrue (by rw [InTurn, h]; trivial)

end CanvasClient

namespace CanvasService

def fresh : CanvasService α := ⟨.fresh, none, none, []⟩

/-- A turn of a page whose socket is open. -/
def client (s : CanvasService α) (i : ℕ) (turn : CanvasClient α → Option (CanvasClient α)) :
    Option (CanvasService α) :=
  ((s.clients[i]?.filter CanvasClient.isOpen).bind turn).map fun c ↦
    { s with clients := s.clients.set i c }

def step (s : CanvasService α) : CanvasEvent α → Option (CanvasService α)
  | .publish state => some { s with pubsub := s.pubsub.publish state }
  | .subscribe => some { s with pubsub := s.pubsub.subscribe }
  | .notify i =>
    if s.subscription = some i then none
    else (s.pubsub.step (.notify i)).map fun pubsub ↦ { s with pubsub }
  | .setPresences =>
    match s.subscription with
    | some _ => none
    | none => some
        { s with
          pubsub := s.pubsub.subscribe
          subscription := some s.pubsub.subscribers.length }
  | .notified =>
    match s.subscription with
    | none => none
    | some i => (s.pubsub.subscribers[i]?.bind Subscriber.notify).map fun (m, subscriber) ↦
      { s with
        pubsub := { s.pubsub with subscribers := s.pubsub.subscribers.set i subscriber }
        canvasState := some m
        clients := s.clients.map (CanvasClient.send m) }
  | .connect => some { s with clients := s.clients ++ [.connect s.canvasState] }
  | .ask i => s.client i CanvasClient.ask
  | .answer i => s.client i (CanvasClient.answer s.canvasState)
  | .respond i => s.client i CanvasClient.respond
  | .frame i => s.client i CanvasClient.frame
  | .close i => s.client i fun c ↦ some { c with isOpen := false }

/-- Nothing is on the way to the vat, which has subscribed. -/
def Notified (s : CanvasService α) : Prop :=
  ∃ i subscriber, s.subscription = some i ∧ s.pubsub.subscribers[i]? = some subscriber ∧
    subscriber.inflight = []

/-- An answer is handled only while no frame has arrived that was sent after it was made. -/
def InTurn (s : CanvasService α) (event : CanvasEvent α) (_ : CanvasService α) : Prop :=
  match event with
  | .respond i => ∀ c ∈ s.clients[i]?, c.InTurn
  | _ => True

instance (s : CanvasService α) (event : CanvasEvent α) (s' : CanvasService α) :
    Decidable (s.InTurn event s') :=
  match event with
  | .respond i => inferInstanceAs (Decidable (∀ c ∈ s.clients[i]?, c.InTurn))
  | .publish _ | .subscribe | .notify _ | .setPresences | .notified | .connect | .ask _ | .answer _
  | .frame _ | .close _ => .isTrue trivial

end CanvasService

/-! ### One page -/

/-- What a page knows of the vat's states: its last frame is the vat's state, an answer is what the
vat had when it was made, and so is all that was drawn. -/
structure CanvasClient.Follows (canvasState : Option α) (c : CanvasClient α) : Prop where
  current : c.isOpen = true → canvasState = c.stateAfter c.frames.length
  arrived : c.arrived ≤ c.frames.length
  answered : ∀ state made, c.request = .answered state made →
    made ≤ c.frames.length ∧ state = c.stateAfter made
  drawn : ∀ d ∈ c.drawn, d.made ≤ c.frames.length ∧ some d.state = c.stateAfter d.made

/-- What was drawn last is not older than the frames that have arrived; if the page has its answer
and has drawn nothing, there was no state. -/
structure CanvasClient.Fresh (c : CanvasClient α) : Prop where
  last : ∀ d ∈ c.drawn.getLast?, c.arrived ≤ d.made
  undrawn : c.drawn = [] → c.arrived = 0 ∧ (c.request = .handled → c.start = none)

namespace CanvasClient

variable {c c' : CanvasClient α} {canvasState : Option α}

theorem stateAfter_send (state : α) {count : ℕ} (h : count ≤ c.frames.length) :
    (c.send state).stateAfter count = c.stateAfter count := by
  rw [send]
  split_ifs
  · rw [stateAfter, stateAfter, List.take_append_of_le_length h]
  · rfl

theorem follows_connect (canvasState : Option α) : (connect canvasState).Follows canvasState where
  current := fun _ ↦ rfl
  arrived := le_rfl
  answered := fun _ _ h ↦ by cases h
  drawn := List.forall_mem_nil _

theorem fresh_connect (canvasState : Option α) : (connect canvasState).Fresh where
  last := fun _ h ↦ by cases h
  undrawn := fun _ ↦ ⟨rfl, fun h ↦ by cases h⟩

theorem Follows.send (h : c.Follows canvasState) (state : α) :
    (c.send state).Follows (some state) := by
  have hlength : c.frames.length ≤ (c.send state).frames.length := by
    rw [CanvasClient.send]
    split_ifs
    · simp
    · exact le_rfl
  have hsame : (c.send state).isOpen = c.isOpen ∧ (c.send state).arrived = c.arrived ∧
      (c.send state).request = c.request ∧ (c.send state).drawn = c.drawn := by
    rw [CanvasClient.send]
    split_ifs <;> exact ⟨rfl, rfl, rfl, rfl⟩
  obtain ⟨hopen, harrived, hrequest, hdrawn⟩ := hsame
  refine ⟨fun hisOpen ↦ ?_, ?_, fun other made hanswered ↦ ?_, fun d hd ↦ ?_⟩
  · rw [hopen] at hisOpen
    rw [CanvasClient.send, if_pos hisOpen, stateAfter, List.take_length, List.getLast?_concat,
      Option.some_or]
  · exact harrived ▸ h.arrived.trans hlength
  · obtain ⟨hmade, hstate⟩ := h.answered other made (hrequest ▸ hanswered)
    exact ⟨hmade.trans hlength, hstate.trans (stateAfter_send state hmade).symm⟩
  · obtain ⟨hmade, hstate⟩ := h.drawn d (hdrawn ▸ hd)
    exact ⟨hmade.trans hlength, hstate.trans (stateAfter_send state hmade).symm⟩

theorem Fresh.send (h : c.Fresh) (state : α) : (c.send state).Fresh := by
  rw [CanvasClient.send]
  split_ifs
  · exact ⟨h.last, h.undrawn⟩
  · exact h

theorem Follows.ask (h : c.Follows canvasState) (hturn : c.ask = some c') :
    c'.Follows canvasState := by
  unfold CanvasClient.ask at hturn
  split at hturn <;> cases hturn
  exact ⟨h.current, h.arrived, fun _ _ hrequest ↦ (by cases hrequest), h.drawn⟩

theorem Follows.answer (h : c.Follows canvasState) (hopen : c.isOpen = true)
    (hturn : c.answer canvasState = some c') : c'.Follows canvasState := by
  unfold CanvasClient.answer at hturn
  split at hturn <;> cases hturn
  refine ⟨h.current, h.arrived, fun state made hrequest ↦ ?_, h.drawn⟩
  obtain ⟨rfl, rfl⟩ := StateRequest.answered.inj hrequest
  exact ⟨le_rfl, h.current hopen⟩

theorem respond_eq_some (hturn : c.respond = some c') :
    ∃ state made, c.request = .answered state made ∧ c' =
      { c with
        request := .handled
        drawn := c.drawn ++ (state.map (Drawing.mk · made)).toList } := by
  unfold CanvasClient.respond at hturn
  split at hturn <;> cases hturn
  exact ⟨_, _, ‹_›, rfl⟩

theorem Follows.respond (h : c.Follows canvasState) (hturn : c.respond = some c') :
    c'.Follows canvasState := by
  obtain ⟨state, made, hrequest, rfl⟩ := respond_eq_some hturn
  obtain ⟨hmade, hstate⟩ := h.answered state made hrequest
  refine ⟨h.current, h.arrived, fun _ _ hother ↦ (by cases hother), ?_⟩
  refine List.forall_mem_append.mpr ⟨h.drawn, fun d hd ↦ ?_⟩
  obtain ⟨shown, rfl, rfl⟩ := Option.map_eq_some_iff.mp (Option.mem_toList.mp hd)
  exact ⟨hmade, hstate⟩

theorem frame_eq_some (hturn : c.frame = some c') :
    ∃ state, c.frames[c.arrived]? = some state ∧ c' =
      { c with
        arrived := c.arrived + 1
        drawn := c.drawn ++ [⟨state, c.arrived + 1⟩] } := by
  obtain ⟨state, hstate, hc'⟩ := Option.map_eq_some_iff.mp hturn
  exact ⟨state, hstate, hc'.symm⟩

theorem Follows.frame (h : c.Follows canvasState) (hturn : c.frame = some c') :
    c'.Follows canvasState := by
  obtain ⟨state, hstate, rfl⟩ := frame_eq_some hturn
  have hlength : c.arrived < c.frames.length := (List.getElem?_eq_some_iff.mp hstate).1
  refine ⟨h.current, hlength, h.answered, ?_⟩
  refine List.forall_mem_append.mpr ⟨h.drawn, List.forall_mem_singleton.mpr ⟨hlength, ?_⟩⟩
  change some state = ((c.frames.take (c.arrived + 1)).getLast?).or c.start
  rw [List.take_add_one, hstate, Option.toList_some, List.getLast?_concat, Option.some_or]

theorem Follows.close (h : c.Follows canvasState) :
    ({ c with isOpen := false } : CanvasClient α).Follows canvasState :=
  ⟨fun hopen ↦ absurd hopen Bool.false_ne_true, h.arrived, h.answered, h.drawn⟩

theorem Fresh.ask (h : c.Fresh) (hturn : c.ask = some c') : c'.Fresh := by
  unfold CanvasClient.ask at hturn
  split at hturn <;> cases hturn
  exact ⟨h.last, fun hnone ↦ ⟨(h.undrawn hnone).1, fun hrequest ↦ by cases hrequest⟩⟩

theorem Fresh.answer (h : c.Fresh) (hturn : c.answer canvasState = some c') : c'.Fresh := by
  unfold CanvasClient.answer at hturn
  split at hturn <;> cases hturn
  exact ⟨h.last, fun hnone ↦ ⟨(h.undrawn hnone).1, fun hrequest ↦ by cases hrequest⟩⟩

theorem Fresh.respond (h : c.Fresh) (hfollows : c.Follows canvasState)
    (hturn : c.respond = some c') (hinTurn : c.InTurn) : c'.Fresh := by
  obtain ⟨state, made, hrequest, rfl⟩ := respond_eq_some hturn
  rw [InTurn, hrequest] at hinTurn
  cases state with
  | none =>
    -- the vat had no state yet, so the page had none when it was opened
    refine ⟨?_, fun hnone ↦ ?_⟩
    · simp only [Option.map_none, Option.toList_none, List.append_nil]
      exact h.last
    · simp only [Option.map_none, Option.toList_none, List.append_nil] at hnone
      refine ⟨(h.undrawn hnone).1, fun _ ↦ ?_⟩
      have hstart := (hfollows.answered none made hrequest).2
      exact (Option.or_eq_none_iff.mp hstart.symm).2
  | some state =>
    refine ⟨fun d hd ↦ ?_, fun hnone ↦ absurd hnone (by simp)⟩
    simp only [Option.map_some, Option.toList_some, List.getLast?_concat, Option.mem_some_iff] at hd
    rw [← hd]
    exact hinTurn

theorem Fresh.frame (hturn : c.frame = some c') : c'.Fresh := by
  obtain ⟨state, hstate, rfl⟩ := frame_eq_some hturn
  refine ⟨fun d hd ↦ ?_, fun hnone ↦ absurd hnone (by simp)⟩
  rw [List.getLast?_concat, Option.mem_some_iff] at hd
  rw [← hd]

/-- A page that is up to date with its frames shows what the vat has. -/
theorem Fresh.shown (h : c.Fresh) (hfollows : c.Follows canvasState) (hsettled : c.Settled) :
    c.shown = canvasState := by
  obtain ⟨hopen, hhandled, harrived⟩ := hsettled
  rw [hfollows.current hopen]
  cases hlast : c.drawn.getLast? with
  | none =>
    have hnone : c.drawn = [] := List.getLast?_eq_none_iff.mp hlast
    obtain ⟨hzero, hstart⟩ := h.undrawn hnone
    rw [CanvasClient.shown, hlast, stateAfter, hstart hhandled, ← harrived, hzero]
    rfl
  | some d =>
    have hmem : d ∈ c.drawn := List.mem_of_getLast? hlast
    obtain ⟨hle, hstate⟩ := hfollows.drawn d hmem
    have hge : c.frames.length ≤ d.made := harrived ▸ h.last d hlast
    rw [CanvasClient.shown, hlast, Option.map_some, hstate, le_antisymm hle hge]

end CanvasClient

/-! ### The service -/

namespace CanvasService

variable {s s' : CanvasService α}

theorem client_eq_some {i : ℕ} {turn : CanvasClient α → Option (CanvasClient α)}
    (hstep : s.client i turn = some s') :
    ∃ c c', s.clients[i]? = some c ∧ c.isOpen = true ∧ turn c = some c' ∧
      s' = { s with clients := s.clients.set i c' } := by
  obtain ⟨c', hturn, hs'⟩ := Option.map_eq_some_iff.mp hstep
  obtain ⟨c, hc, hturn⟩ := Option.bind_eq_some_iff.mp hturn
  obtain ⟨hc, hopen⟩ := Option.filter_eq_some_iff.mp hc
  exact ⟨c, c', hc, hopen, hturn, hs'.symm⟩

/-- A notification that arrives at the vat. -/
theorem step_notified (hstep : s.step .notified = some s') :
    ∃ i subscriber m subscriber', s.subscription = some i ∧
      s.pubsub.subscribers[i]? = some subscriber ∧ subscriber.notify = some (m, subscriber') ∧
      s' = { s with
        pubsub := { s.pubsub with subscribers := s.pubsub.subscribers.set i subscriber' }
        canvasState := some m
        clients := s.clients.map (CanvasClient.send m) } := by
  simp only [step] at hstep
  split at hstep
  · cases hstep
  · rename_i i hsubscription
    obtain ⟨⟨m, subscriber'⟩, hnotify, hs'⟩ := Option.map_eq_some_iff.mp hstep
    obtain ⟨subscriber, hsubscriber, hnotify⟩ := Option.bind_eq_some_iff.mp hnotify
    exact ⟨i, subscriber, m, subscriber', hsubscription, hsubscriber, hnotify, hs'.symm⟩

/-- The turn of a page in an event of one. -/
theorem step_client {event : CanvasEvent α} (hstep : s.step event = some s')
    (hclient : ∃ i, event = .ask i ∨ event = .answer i ∨ event = .respond i ∨ event = .frame i ∨
      event = .close i) :
    ∃ i c c', s.clients[i]? = some c ∧ c.isOpen = true ∧
      s' = { s with clients := s.clients.set i c' } ∧
      (c.ask = some c' ∨ c.answer s.canvasState = some c' ∨
        event = .respond i ∧ c.respond = some c' ∨ c.frame = some c' ∨
          c' = { c with isOpen := false }) := by
  obtain ⟨i, rfl | rfl | rfl | rfl | rfl⟩ := hclient
  all_goals
    obtain ⟨c, c', hc, hopen, hturn, hs'⟩ := client_eq_some hstep
    refine ⟨i, c, c', hc, hopen, hs', ?_⟩
  · exact Or.inl hturn
  · exact Or.inr (Or.inl hturn)
  · exact Or.inr (Or.inr (Or.inl ⟨rfl, hturn⟩))
  · exact Or.inr (Or.inr (Or.inr (Or.inl hturn)))
  · exact Or.inr (Or.inr (Or.inr (Or.inr (Option.some.inj hturn).symm)))

/-- The vat has what it was last notified of, and each page follows the vat. -/
structure Serving (s : CanvasService α) : Prop where
  current : s.pubsub.Current
  unsubscribed : s.subscription = none → s.canvasState = none
  subscribed : ∀ i, s.subscription = some i →
    ∃ subscriber, s.pubsub.subscribers[i]? = some subscriber ∧
      subscriber.notified.getLast? = s.canvasState
  clients : ∀ c ∈ s.clients, c.Follows s.canvasState

theorem serving_fresh : (fresh : CanvasService α).Serving where
  current := List.forall_mem_nil _
  unsubscribed := fun _ ↦ rfl
  subscribed := fun _ h ↦ by cases h
  clients := List.forall_mem_nil _

/-- A turn of a page keeps what holds of all pages, if it keeps it of the page. -/
theorem forall_mem_set {P : CanvasClient α → Prop} {clients : List (CanvasClient α)}
    (h : ∀ c ∈ clients, P c) {i : ℕ} {c' : CanvasClient α} (hc' : P c') :
    ∀ c ∈ clients.set i c', P c := by
  intro c hc
  rcases List.mem_or_eq_of_mem_set hc with hold | rfl
  · exact h c hold
  · exact hc'

theorem Serving.step (h : s.Serving) {event : CanvasEvent α} (hstep : s.step event = some s') :
    s'.Serving := by
  have hclient : (∃ i, event = .ask i ∨ event = .answer i ∨ event = .respond i ∨
      event = .frame i ∨ event = .close i) → s'.Serving := by
    intro hturn
    obtain ⟨i, c, c', hc, hopen, rfl, hcases⟩ := step_client hstep hturn
    have hfollows := h.clients c (List.mem_of_getElem? hc)
    refine ⟨h.current, h.unsubscribed, h.subscribed, forall_mem_set h.clients ?_⟩
    rcases hcases with hask | hanswer | ⟨-, hrespond⟩ | hframe | rfl
    · exact hfollows.ask hask
    · exact hfollows.answer hopen hanswer
    · exact hfollows.respond hrespond
    · exact hfollows.frame hframe
    · exact hfollows.close
  cases event with
  | publish state =>
    obtain rfl := Option.some.inj hstep
    refine ⟨.publish s.pubsub state, h.unsubscribed, fun i hi ↦ ?_, h.clients⟩
    obtain ⟨subscriber, hsubscriber, hlast⟩ := h.subscribed i hi
    refine ⟨subscriber.send state, ?_, hlast⟩
    rw [Pubsub.publish, List.getElem?_map, hsubscriber, Option.map_some]
  | subscribe =>
    obtain rfl := Option.some.inj hstep
    refine ⟨h.current.subscribe, h.unsubscribed, fun i hi ↦ ?_, h.clients⟩
    obtain ⟨subscriber, hsubscriber, hlast⟩ := h.subscribed i hi
    refine ⟨subscriber, ?_, hlast⟩
    exact (List.getElem?_append_left (List.getElem?_eq_some_iff.mp hsubscriber).1).trans hsubscriber
  | notify i =>
    simp only [CanvasService.step] at hstep
    split_ifs at hstep with hown
    obtain ⟨pubsub, hnotify, rfl⟩ := Option.map_eq_some_iff.mp hstep
    obtain ⟨subscriber, m, subscriber', hs, hfirst, rfl⟩ := Pubsub.step_notify hnotify
    refine ⟨h.current.set hs hfirst, h.unsubscribed, fun j hj ↦ ?_, h.clients⟩
    obtain ⟨own, hown', hlast⟩ := h.subscribed j hj
    refine ⟨own, ?_, hlast⟩
    have hne : i ≠ j := fun heq ↦ hown (heq ▸ hj)
    exact (List.getElem?_set_ne hne).trans hown'
  | setPresences =>
    simp only [CanvasService.step] at hstep
    split at hstep <;> cases hstep
    rename_i hnone
    refine ⟨h.current.subscribe, fun h ↦ (by cases h), fun i hi ↦ ?_, h.clients⟩
    obtain rfl := Option.some.inj hi
    refine ⟨⟨[], s.pubsub.lastPublished.toList⟩, ?_, (h.unsubscribed hnone).symm⟩
    exact List.getElem?_concat_length
  | notified =>
    obtain ⟨i, subscriber, m, subscriber', hi, hs, hfirst, rfl⟩ := step_notified hstep
    refine ⟨h.current.set hs hfirst, fun hnone ↦ ?_, fun j hj ↦ ?_, fun c hc ↦ ?_⟩
    · exact absurd (hi.symm.trans hnone) (Option.some_ne_none i)
    · obtain rfl := Option.some.inj (hi.symm.trans hj)
      refine ⟨subscriber', ?_, Subscriber.getLast?_notified hfirst⟩
      exact List.getElem?_set_self (List.getElem?_eq_some_iff.mp hs).1
    · obtain ⟨old, hold, rfl⟩ := List.mem_map.mp hc
      exact (h.clients old hold).send m
  | connect =>
    obtain rfl := Option.some.inj hstep
    refine ⟨h.current, h.unsubscribed, h.subscribed, ?_⟩
    exact List.forall_mem_append.mpr ⟨h.clients,
      List.forall_mem_singleton.mpr (CanvasClient.follows_connect s.canvasState)⟩
  | ask i => exact hclient ⟨i, by simp⟩
  | answer i => exact hclient ⟨i, by simp⟩
  | respond i => exact hclient ⟨i, by simp⟩
  | frame i => exact hclient ⟨i, by simp⟩
  | close i => exact hclient ⟨i, by simp⟩

/-- No page is behind its frames. -/
def FreshClients (s : CanvasService α) : Prop := ∀ c ∈ s.clients, c.Fresh

theorem FreshClients.step (h : s.FreshClients) (hserving : s.Serving) {event : CanvasEvent α}
    (hinTurn : s.InTurn event s') (hstep : s.step event = some s') : s'.FreshClients := by
  have hclient : (∃ i, event = .ask i ∨ event = .answer i ∨ event = .respond i ∨
      event = .frame i ∨ event = .close i) → s'.FreshClients := by
    intro hturn
    obtain ⟨i, c, c', hc, hopen, rfl, hcases⟩ := step_client hstep hturn
    have hmem := List.mem_of_getElem? hc
    refine forall_mem_set h ?_
    rcases hcases with hask | hanswer | ⟨rfl, hrespond⟩ | hframe | rfl
    · exact (h c hmem).ask hask
    · exact (h c hmem).answer hanswer
    · exact (h c hmem).respond (hserving.clients c hmem) hrespond (hinTurn c hc)
    · exact CanvasClient.Fresh.frame hframe
    · exact ⟨(h c hmem).last, (h c hmem).undrawn⟩
  cases event with
  | publish state =>
    obtain rfl := Option.some.inj hstep
    exact h
  | subscribe =>
    obtain rfl := Option.some.inj hstep
    exact h
  | notify i =>
    simp only [CanvasService.step] at hstep
    split_ifs at hstep
    obtain ⟨pubsub, -, rfl⟩ := Option.map_eq_some_iff.mp hstep
    exact h
  | setPresences =>
    simp only [CanvasService.step] at hstep
    split at hstep <;> cases hstep
    exact h
  | notified =>
    obtain ⟨i, subscriber, m, subscriber', -, -, -, rfl⟩ := step_notified hstep
    intro c hc
    obtain ⟨old, hold, rfl⟩ := List.mem_map.mp hc
    exact (h old hold).send m
  | connect =>
    obtain rfl := Option.some.inj hstep
    exact List.forall_mem_append.mpr ⟨h,
      List.forall_mem_singleton.mpr (CanvasClient.fresh_connect s.canvasState)⟩
  | ask i => exact hclient ⟨i, by simp⟩
  | answer i => exact hclient ⟨i, by simp⟩
  | respond i => exact hclient ⟨i, by simp⟩
  | frame i => exact hclient ⟨i, by simp⟩
  | close i => exact hclient ⟨i, by simp⟩

theorem serving_of_run {events : List (CanvasEvent α)}
    (hrun : run CanvasService.step .fresh events = some s) : s.Serving :=
  run_inductive (fun _ _ _ h hstep ↦ h.step hstep) serving_fresh hrun

theorem freshClients_of_run {events : List (CanvasEvent α)}
    (hguard : AllSteps CanvasService.step InTurn .fresh events)
    (hrun : run CanvasService.step .fresh events = some s) : s.FreshClients := by
  have hboth : s.Serving ∧ s.FreshClients := by
    refine run_invariant (I := fun s ↦ s.Serving ∧ s.FreshClients) ?_
      ⟨serving_fresh, List.forall_mem_nil _⟩ hguard hrun
    rintro t event t' ⟨hserving, hfresh⟩ hinTurn hstep
    exact ⟨hserving.step hstep, hfresh.step hserving hinTurn hstep⟩
  exact hboth.2

/-- When nothing is on the way to the vat, it has what was published last. -/
theorem Serving.notified (h : s.Serving) (hnotified : s.Notified) :
    s.canvasState = s.pubsub.lastPublished := by
  obtain ⟨i, subscriber, hi, hsubscriber, hinflight⟩ := hnotified
  obtain ⟨own, hown, hlast⟩ := h.subscribed i hi
  obtain rfl := Option.some.inj (hsubscriber.symm.trans hown)
  have hsent := h.current subscriber (List.mem_of_getElem? hsubscriber)
  rw [Subscriber.sent, hinflight, List.append_nil] at hsent
  exact hlast.symm.trans hsent

end CanvasService

/-- In every run in which each answer is handled before any frame that was sent after it was made, a
page that has its answer and all its frames shows the state of the vat, and the state that was
published last if nothing is on the way to the vat. -/
theorem shows_of_inTurn (events : List (CanvasEvent α)) {s : CanvasService α}
    (hguard : AllSteps CanvasService.step CanvasService.InTurn .fresh events)
    (hrun : run CanvasService.step .fresh events = some s) {c : CanvasClient α}
    (hc : c ∈ s.clients) (hsettled : c.Settled) :
    c.shown = s.canvasState ∧ (s.Notified → c.shown = s.pubsub.lastPublished) := by
  have hserving := CanvasService.serving_of_run hrun
  have hshown := (CanvasService.freshClients_of_run hguard hrun c hc).shown
    (hserving.clients c hc) hsettled
  exact ⟨hshown, fun hnotified ↦ hshown.trans (hserving.notified hnotified)⟩

/-- The vat subscribes and a page is opened; a pixel changes after the page was answered, and the
page gets the frame before the answer or after it. -/
def changed (last : List (CanvasEvent Canvas)) : List (CanvasEvent Canvas) :=
  [.publish [["red"], ["red"]], .setPresences, .notified, .connect, .ask 0, .answer 0,
    .publish [["red"], ["blue"]], .notified] ++ last

def inTime : List (CanvasEvent Canvas) := changed [.respond 0, .frame 0]

def behind : List (CanvasEvent Canvas) := changed [.frame 0, .respond 0]

theorem shows_inTime :
    ∃ s c, run CanvasService.step .fresh inTime = some s ∧ c ∈ s.clients ∧
      c.shown = some [["red"], ["blue"]] ∧ c.shown = s.canvasState ∧
      (s.Notified → c.shown = s.pubsub.lastPublished) := by
  refine ⟨_, _, rfl, List.mem_singleton_self _, rfl, ?_⟩
  exact shows_of_inTurn inTime (by decide) rfl (List.mem_singleton_self _)
    ⟨rfl, rfl, rfl⟩

example : (run CanvasService.step .fresh behind).map (fun s ↦
    (s.canvasState, s.clients.map fun c ↦ (c.shown, c.drawn.map Drawing.made))) =
      some (some [["red"], ["blue"]], [(some [["red"], ["red"]], [1, 0])]) := by
  decide

/-! ### The elements of the page -/

section Elements

variable {P : α → Prop} {s s' : CanvasService α}

/-- All states in the service have a property. -/
structure CanvasService.AllStates (P : α → Prop) (s : CanvasService α) : Prop where
  published : ∀ m ∈ s.pubsub.lastPublished, P m
  sent : ∀ subscriber ∈ s.pubsub.subscribers, ∀ m ∈ subscriber.sent, P m
  canvasState : ∀ m ∈ s.canvasState, P m
  clients : ∀ c ∈ s.clients, (∀ m ∈ c.start, P m) ∧ ∀ m ∈ c.frames, P m

theorem allStates_fresh (P : α → Prop) : (CanvasService.fresh : CanvasService α).AllStates P where
  published := fun _ h ↦ by cases h
  sent := List.forall_mem_nil _
  canvasState := fun _ h ↦ by cases h
  clients := List.forall_mem_nil _

namespace CanvasService.AllStates

theorem set_sent (h : s.AllStates P) {i : ℕ} {subscriber subscriber' : Subscriber α} {m : α}
    (hs : s.pubsub.subscribers[i]? = some subscriber)
    (hnotify : subscriber.notify = some (m, subscriber')) :
    P m ∧ ∀ t ∈ s.pubsub.subscribers.set i subscriber', ∀ m ∈ t.sent, P m := by
  have hall := h.sent subscriber (List.mem_of_getElem? hs)
  constructor
  · refine hall m ?_
    rw [← Subscriber.sent_notify hnotify, Subscriber.sent]
    exact List.mem_append_left _ (List.mem_of_getLast? (Subscriber.getLast?_notified hnotify))
  · intro t ht
    rcases List.mem_or_eq_of_mem_set ht with hold | rfl
    · exact h.sent t hold
    · rw [Subscriber.sent_notify hnotify]
      exact hall

theorem subscribe (h : s.AllStates P) :
    ∀ subscriber ∈ s.pubsub.subscribe.subscribers, ∀ m ∈ subscriber.sent, P m := by
  refine List.forall_mem_append.mpr ⟨h.sent, List.forall_mem_singleton.mpr fun m hm ↦ ?_⟩
  exact h.published m (Option.mem_toList.mp hm)

theorem step (h : s.AllStates P) {event : CanvasEvent α}
    (hevent : ∀ state, event = .publish state → P state) (hstep : s.step event = some s') :
    s'.AllStates P := by
  have hclient : (∃ i, event = .ask i ∨ event = .answer i ∨ event = .respond i ∨
      event = .frame i ∨ event = .close i) → s'.AllStates P := by
    intro hturn
    obtain ⟨i, c, c', hc, -, rfl, hcases⟩ := step_client hstep hturn
    have hold := h.clients c (List.mem_of_getElem? hc)
    have hsame : c'.start = c.start ∧ c'.frames = c.frames := by
      rcases hcases with hask | hanswer | ⟨-, hrespond⟩ | hframe | rfl
      · unfold CanvasClient.ask at hask
        split at hask <;> cases hask
        exact ⟨rfl, rfl⟩
      · unfold CanvasClient.answer at hanswer
        split at hanswer <;> cases hanswer
        exact ⟨rfl, rfl⟩
      · obtain ⟨_, _, -, rfl⟩ := CanvasClient.respond_eq_some hrespond
        exact ⟨rfl, rfl⟩
      · obtain ⟨_, -, rfl⟩ := CanvasClient.frame_eq_some hframe
        exact ⟨rfl, rfl⟩
      · exact ⟨rfl, rfl⟩
    refine ⟨h.published, h.sent, h.canvasState, CanvasService.forall_mem_set h.clients ?_⟩
    rw [hsame.1, hsame.2]
    exact hold
  cases event with
  | publish state =>
    obtain rfl := Option.some.inj hstep
    have hstate := hevent state rfl
    refine ⟨fun m hm ↦ Option.some.inj hm ▸ hstate, fun t ht m hm ↦ ?_, h.canvasState, h.clients⟩
    obtain ⟨old, hold, rfl⟩ := List.mem_map.mp ht
    rw [Subscriber.sent, Subscriber.send, ← List.append_assoc] at hm
    rcases List.mem_append.mp hm with hbefore | hnew
    · exact h.sent old hold m hbefore
    · exact List.mem_singleton.mp hnew ▸ hstate
  | subscribe =>
    obtain rfl := Option.some.inj hstep
    exact ⟨h.published, h.subscribe, h.canvasState, h.clients⟩
  | notify i =>
    simp only [CanvasService.step] at hstep
    split_ifs at hstep
    obtain ⟨pubsub, hnotify, rfl⟩ := Option.map_eq_some_iff.mp hstep
    obtain ⟨subscriber, m, subscriber', hs, hfirst, rfl⟩ := Pubsub.step_notify hnotify
    exact ⟨h.published, (h.set_sent hs hfirst).2, h.canvasState, h.clients⟩
  | setPresences =>
    simp only [CanvasService.step] at hstep
    split at hstep <;> cases hstep
    exact ⟨h.published, h.subscribe, h.canvasState, h.clients⟩
  | notified =>
    obtain ⟨i, subscriber, m, subscriber', -, hs, hfirst, rfl⟩ := step_notified hstep
    obtain ⟨hm, hsent⟩ := h.set_sent hs hfirst
    refine ⟨h.published, hsent, fun m' hm' ↦ Option.some.inj hm' ▸ hm, fun c hc ↦ ?_⟩
    obtain ⟨old, hold, rfl⟩ := List.mem_map.mp hc
    obtain ⟨hstart, hframes⟩ := h.clients old hold
    rw [CanvasClient.send]
    split_ifs
    · exact ⟨hstart, List.forall_mem_append.mpr ⟨hframes, List.forall_mem_singleton.mpr hm⟩⟩
    · exact ⟨hstart, hframes⟩
  | connect =>
    obtain rfl := Option.some.inj hstep
    refine ⟨h.published, h.sent, h.canvasState, List.forall_mem_append.mpr ⟨h.clients, ?_⟩⟩
    exact List.forall_mem_singleton.mpr ⟨h.canvasState, List.forall_mem_nil _⟩
  | ask i => exact hclient ⟨i, by simp⟩
  | answer i => exact hclient ⟨i, by simp⟩
  | respond i => exact hclient ⟨i, by simp⟩
  | frame i => exact hclient ⟨i, by simp⟩
  | close i => exact hclient ⟨i, by simp⟩

/-- What a page has drawn has the property too. -/
theorem drawn (h : s.AllStates P) (hserving : s.Serving) {c : CanvasClient α} (hc : c ∈ s.clients) :
    ∀ d ∈ c.drawn, P d.state := by
  intro d hd
  obtain ⟨hstart, hframes⟩ := h.clients c hc
  have hstate := ((hserving.clients c hc).drawn d hd).2
  rw [CanvasClient.stateAfter] at hstate
  rcases Option.or_eq_some_iff.mp hstate.symm with hframe | ⟨-, hfirst⟩
  · exact hframes d.state (List.mem_of_mem_take (List.mem_of_getLast? hframe))
  · exact hstart d.state hfirst

end CanvasService.AllStates

theorem CanvasService.allStates_of_run {events : List (CanvasEvent α)}
    (hpublished : ∀ state, .publish state ∈ events → P state)
    (hrun : run CanvasService.step .fresh events = some s) : s.AllStates P := by
  have hguard : AllSteps CanvasService.step
      (fun _ event _ ↦ ∀ state, event = .publish state → P state) .fresh events :=
    allSteps_of_forall_mem fun event hevent _ _ state hstate ↦ hpublished state (hstate ▸ hevent)
  exact run_invariant (fun _ _ _ h hevent hstep ↦ h.step hevent hstep) (allStates_fresh P)
    hguard hrun

end Elements

/-- While all canvases that are published have one shape and colours that the browser accepts, and
each answer is handled before any frame that was sent after it was made, a page that has its answer
and all its frames has the elements of the canvas that was published last, once nothing is on the
way to the vat. -/
theorem page_of_inTurn (css : String → Bool) (pixels : List Pixel)
    (events : List (CanvasEvent Canvas)) (heights : List ℕ)
    (hpublished : ∀ state, .publish state ∈ events → shape state = heights ∧ Accepted css state)
    (hguard : AllSteps CanvasService.step CanvasService.InTurn .fresh events)
    {s : CanvasService Canvas} (hrun : run CanvasService.step .fresh events = some s)
    {c : CanvasClient Canvas} (hc : c ∈ s.clients) (hsettled : c.Settled) (hnotified : s.Notified)
    {last : Canvas} (hlast : s.pubsub.lastPublished = some last) :
    updateAll css (.fresh pixels) (c.drawn.map Drawing.state) =
      { oldState := some last, pixels := initCanvas css last } := by
  have hserving := CanvasService.serving_of_run hrun
  have hfresh := CanvasService.freshClients_of_run hguard hrun c hc
  have hshown : c.shown = some last :=
    ((hfresh.shown (hserving.clients c hc) hsettled).trans (hserving.notified hnotified)).trans
    hlast
  have hall : ∀ state ∈ c.drawn.map Drawing.state, shape state = heights ∧ Accepted css state := by
    have hdrawn := (CanvasService.allStates_of_run hpublished hrun).drawn hserving hc
    intro state hstate
    obtain ⟨d, hd, rfl⟩ := List.mem_map.mp hstate
    exact hdrawn d hd
  rw [CanvasClient.shown, ← List.getLast?_map] at hshown
  obtain ⟨before, hbefore⟩ := List.getLast?_eq_some_iff.mp hshown
  rw [hbefore] at hall ⊢
  obtain ⟨hshapes, hlastState⟩ := List.forall_mem_append.mp hall
  obtain ⟨hshape, haccepted⟩ := hlastState last (List.mem_singleton_self last)
  refine updateAll_of_shape css pixels (fun state hstate ↦ ?_) haccepted
  exact (hshapes state hstate).1.trans hshape.symm

theorem page_inTime :
    ∃ s c, run CanvasService.step .fresh inTime = some s ∧ c ∈ s.clients ∧
      updateAll (fun _ ↦ true) (.fresh []) (c.drawn.map Drawing.state) =
        { oldState := some [["red"], ["blue"]]
          pixels := [⟨0, 0, "red"⟩, ⟨1, 0, "blue"⟩] } := by
  refine ⟨_, _, rfl, List.mem_singleton_self _, ?_⟩
  refine page_of_inTurn (fun _ ↦ true) [] inTime [1, 1] ?_ (by decide) rfl
    (List.mem_singleton_self _) ⟨rfl, rfl, rfl⟩ ⟨0, _, rfl, rfl, rfl⟩ rfl
  intro state hstate
  have hcases : state = [["red"], ["red"]] ∨ state = [["red"], ["blue"]] := by
    simpa [inTime, changed] using hstate
  rcases hcases with rfl | rfl
  · exact ⟨rfl, fun _ _ _ _ ↦ rfl⟩
  · exact ⟨rfl, fun _ _ _ _ ↦ rfl⟩

end CosmicSwingset.Solo
