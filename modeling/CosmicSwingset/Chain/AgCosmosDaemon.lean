import CosmicSwingset.Foundation.Transition
import Mathlib.Algebra.Ring.Int.Defs
import Mathlib.Algebra.Ring.Nat
import Mathlib.Data.List.Nodup
import Mathlib.Logic.Function.Basic
import Mathlib.Order.Basic

/-!
# Requests and replies of the Go bridge

`sendToNode` of `agcosmosdaemon.go` allocates a reply port with a channel in the table `replies`,
sends the message and the port to Node, receives from the channel and deletes the entry; without
`needReply` it only sends. The thread that has sent the message calls `ReplyToGo` with the port,
which looks up the channel and sends on it. Both sides of an unbuffered channel block until they
meet. `step` takes one of these steps of one goroutine, so that calls and replies interleave.

Each call should return what was replied to its own port, and no such reply should be lost
(`Matched`). A reply port is an `int` in the table and a `C.int` on its way to Node and back: from
`2 ^ 31` on the way back leads to another port, and the reply is lost (`exhausting_not_matched`).
Below, requests and replies match (`matched`).
-/

set_option autoImplicit false
set_option relaxedAutoImplicit false

namespace CosmicSwingset.Chain

open Foundation

/-- `C.int`. -/
abbrev CInt := BitVec 32

structure GoReturn where
  str : String
  err : Option String
  deriving DecidableEq

def noReplyRequested : GoReturn := ⟨"<no-reply-requested>", none⟩

/-- The value that `ReplyToGo` sends on the channel. -/
def goReturn (isError : CInt) (goStr : String) : GoReturn :=
  if isError.toInt = 0 then ⟨goStr, none⟩ else ⟨"", some goStr⟩

/-- What a call of `sendToNode` does next: allocate a port, send the message, receive the reply,
delete the entry, or nothing more. -/
inductive SendPhase
  | allocating
  | sending
  | receiving
  | received (ret : GoReturn)
  | returned (ret : GoReturn)
  deriving DecidableEq

/-- A call of `sendToNode`. `rPort` is `0` until a port is allocated. -/
structure SendCall where
  needReply : Bool
  str : String
  rPort : ℕ
  phase : SendPhase
  deriving DecidableEq

/-- A port has been allocated and its entry has not been deleted. -/
def SendCall.waiting (call : SendCall) : Bool :=
  call.needReply &&
    match call.phase with
    | .sending | .receiving | .received _ => true
    | .allocating | .returned _ => false

/-- A port has been allocated and no reply has been received. -/
def SendCall.expecting (call : SendCall) : Bool :=
  call.needReply &&
    match call.phase with
    | .sending | .receiving => true
    | .allocating | .received _ | .returned _ => false

/-- What a call has received, or returned. -/
def SendPhase.result : SendPhase → Option GoReturn
  | .received ret | .returned ret => some ret
  | .allocating | .sending | .receiving => none

/-- The table, the calls, and the calls of `ReplyToGo` that block, each with its channel. A channel
has the number of the port that it was made for. `replied` is the reply that was sent to a port
while its call was waiting. -/
structure Daemon where
  lastReply : ℕ
  replies : ℤ → Option ℕ
  calls : List SendCall
  blocked : List (ℕ × GoReturn)
  toNode : List (CInt × String)
  replied : ℕ → Option GoReturn

/-- * `call`: `sendToNode` is called.
* `allocate`, `send`, `receive`, `delete`: a call takes its next step.
* `reply`: `ReplyToGo` is called. -/
inductive DaemonEvent
  | call (needReply : Bool) (str : String)
  | allocate (call : ℕ)
  | send (call : ℕ)
  | receive (call : ℕ)
  | delete (call : ℕ)
  | reply (replyPort isError : CInt) (str : String)

namespace Daemon

def fresh : Daemon := ⟨0, fun _ ↦ none, [], [], [], fun _ ↦ none⟩

abbrev call? (s : Daemon) (c : ℕ) : Option SendCall := s.calls[c]?

/-- The port of the call that waits for a reply to the port that Node has been given. -/
def waitingOn (s : Daemon) (replyPort : CInt) : Option ℕ :=
  (s.calls.find? fun call ↦ call.waiting ∧ BitVec.ofNat 32 call.rPort = replyPort).map
    SendCall.rPort

def step (s : Daemon) : DaemonEvent → Option Daemon
  | .call needReply str => some
    { s with
      calls := s.calls ++ [⟨needReply, str, 0, if needReply then .allocating else .sending⟩] }
  | .allocate c => (s.call? c).bind fun call ↦
    match call.phase with
    | .allocating =>
      let rPort := s.lastReply + 1
      some { s with
        lastReply := rPort
        replies := Function.update s.replies rPort (some rPort)
        calls := s.calls.set c { call with rPort, phase := .sending } }
    | _ => none
  | .send c => (s.call? c).bind fun call ↦
    match call.phase with
    | .sending => some { s with
      toNode := s.toNode ++ [(BitVec.ofNat 32 call.rPort, call.str)]
      calls := s.calls.set c
        { call with phase := if call.needReply then .receiving else .returned noReplyRequested } }
    | _ => none
  | .receive c => (s.call? c).bind fun call ↦
    match call.phase with
    | .receiving => (s.replies call.rPort).bind fun ch ↦
      (s.blocked.find? fun sender ↦ sender.1 = ch).map fun sender ↦ { s with
        blocked := s.blocked.erase sender
        calls := s.calls.set c { call with phase := .received sender.2 } }
    | _ => none
  | .delete c => (s.call? c).bind fun call ↦
    match call.phase with
    | .received ret => some { s with
      replies := Function.update s.replies call.rPort none
      calls := s.calls.set c { call with phase := .returned ret } }
    | _ => none
  | .reply replyPort isError str =>
    let ret := goReturn isError str
    some { s with
      blocked :=
        match s.replies replyPort.toInt with
        | none => s.blocked
        | some returnCh => s.blocked ++ [(returnCh, ret)]
      replied :=
        match s.waitingOn replyPort with
        | none => s.replied
        | some rPort => Function.update s.replied rPort (some ret) }

/-- A port is replied to once at most while its call waits. Replies to other ports come at will. -/
def Once (s : Daemon) (event : DaemonEvent) (_ : Daemon) : Prop :=
  match event with
  | .reply replyPort _ _ => ∀ rPort ∈ s.waitingOn replyPort, s.replied rPort = none
  | _ => True

/-- There are ports left, and none is replied to twice. -/
def Within (s : Daemon) (event : DaemonEvent) (s' : Daemon) : Prop :=
  s.Once event s' ∧ s'.lastReply < 2 ^ 31

instance (s : Daemon) (event : DaemonEvent) (s' : Daemon) : Decidable (s.Within event s') :=
  match event with
  | .reply replyPort _ _ => inferInstanceAs
    (Decidable ((∀ rPort ∈ s.waitingOn replyPort, s.replied rPort = none) ∧ _ < _))
  | .call _ _ | .allocate _ | .send _ | .receive _ | .delete _ =>
    inferInstanceAs (Decidable (True ∧ _ < _))

/-- Requests and replies are matched.

* `returned`: a call returns what was replied to its port.
* `apart`: no other call has this port.
* `kept`: the reply to a waiting call is with the call, or blocks until the call receives it.
* `served`: a call that comes to receive a reply that blocks does receive it.
* `unasked`: a call that needs no reply returns a fixed text.
* `table`: `replies` has the ports of the waiting calls. -/
structure Matched (s : Daemon) : Prop where
  returned : ∀ call ∈ s.calls, call.needReply → ∀ ret, call.phase = .returned ret →
    s.replied call.rPort = some ret
  apart : ∀ c c' call call', s.call? c = some call → s.call? c' = some call' →
    call.rPort ≠ 0 → call.rPort = call'.rPort → c = c'
  kept : ∀ call ∈ s.calls, call.waiting → ∀ ret, s.replied call.rPort = some ret →
    call.phase = .received ret ∨ (call.rPort, ret) ∈ s.blocked
  served : ∀ c call, s.call? c = some call → call.phase = .receiving → ∀ ret,
    (call.rPort, ret) ∈ s.blocked →
      (s.step (.receive c)).bind (fun s' ↦ s'.call? c) = some { call with phase := .received ret }
  unasked : ∀ call ∈ s.calls, ¬ call.needReply → ∀ ret, call.phase = .returned ret →
    ret = noReplyRequested
  table : ∀ key, s.replies key ≠ none ↔ ∃ call ∈ s.calls, call.waiting ∧ (call.rPort : ℤ) = key

/-- The invariant about ports: those of the calls that have been allocated one are different, and
the table has the ones of the waiting calls. -/
structure Issued (s : Daemon) : Prop where
  bounded : s.lastReply < 2 ^ 31
  allocated : ∀ c call, s.call? c = some call →
    (call.rPort ≠ 0 ↔ call.needReply ∧ call.phase ≠ .allocating)
  counted : ∀ c call, s.call? c = some call → call.rPort ≤ s.lastReply
  apart : ∀ c c' call call', s.call? c = some call → s.call? c' = some call' →
    call.rPort ≠ 0 → call.rPort = call'.rPort → c = c'
  unasked : ∀ c call, s.call? c = some call → ¬ call.needReply →
    call.phase = .sending ∨ call.phase = .returned noReplyRequested
  entry : ∀ c call, s.call? c = some call → call.waiting →
    s.replies call.rPort = some call.rPort
  owner : ∀ key ch, s.replies key = some ch →
    key = ch ∧ ∃ c call, s.call? c = some call ∧ call.waiting ∧ call.rPort = ch

/-- The invariant about replies: those that have been sent block until their call receives them, and
the call keeps them. -/
structure Answered (s : Daemon) : Prop where
  fresh : ∀ rPort, s.lastReply < rPort → s.replied rPort = none
  single : (s.blocked.map Prod.fst).Nodup
  blocked : ∀ ch ret, (ch, ret) ∈ s.blocked → s.replied ch = some ret ∧
    ∃ c call, s.call? c = some call ∧ call.expecting ∧ call.rPort = ch
  kept : ∀ c call, s.call? c = some call → call.expecting → ∀ ret,
    s.replied call.rPort = some ret → (call.rPort, ret) ∈ s.blocked
  held : ∀ c call, s.call? c = some call → call.needReply → ∀ ret,
    call.phase.result = some ret → s.replied call.rPort = some ret

section Steps

variable {s s' : Daemon} {c : ℕ} {call : SendCall}

theorem getElem?_set_of_some {α : Type*} {l : List α} {i : ℕ} {a : α} (h : l[i]? = some a) (b : α)
    (j : ℕ) : (l.set i b)[j]? = if j = i then some b else l[j]? := by
  grind

/-- Entries under different keys. -/
theorem mem_erase_of_single {κ α : Type*} [DecidableEq κ] [DecidableEq α] {l : List (κ × α)}
    (hsingle : (l.map Prod.fst).Nodup) {key key' : κ} {a a' : α} (hmem : (key, a) ∈ l) :
    (key', a') ∈ l.erase (key, a) ↔ (key', a') ∈ l ∧ key' ≠ key := by
  rw [(hsingle.of_map Prod.fst).mem_erase_iff]
  constructor
  · rintro ⟨hne, hother⟩
    refine ⟨hother, fun hkey ↦ hne ?_⟩
    exact List.inj_on_of_nodup_map hsingle hother hmem hkey
  · rintro ⟨hother, hne⟩
    exact ⟨fun heq ↦ hne (congrArg Prod.fst heq), hother⟩

namespace Issued

theorem begin (h : Issued s) (needReply : Bool) (str : String) :
    Issued { s with calls := s.calls ++
      [⟨needReply, str, 0, if needReply then .allocating else .sending⟩] } where
  bounded := h.bounded
  allocated := by
    have := h.allocated
    grind
  counted := by
    have := h.counted
    grind
  apart := by
    have := h.apart
    grind
  unasked := by
    have := h.unasked
    grind
  entry := by
    have := h.entry
    grind [SendCall.waiting]
  owner := by
    intro key ch hreplies
    obtain ⟨hkey, i, other, hother, hwaiting⟩ := h.owner key ch hreplies
    exact ⟨hkey, i, other, by grind, hwaiting⟩

/-- A step of a call that keeps its entry in the table. -/
theorem advance (h : Issued s) (hcall : s.call? c = some call) {phase : SendPhase}
    (hbefore : call.phase ≠ .allocating) (hafter : phase ≠ .allocating)
    (hwaiting : { call with phase }.waiting = call.waiting)
    (hunasked : ¬ call.needReply → phase = .returned noReplyRequested)
    (toNode : List (CInt × String)) (blocked : List (ℕ × GoReturn)) :
    Issued { s with calls := s.calls.set c { call with phase }, toNode, blocked } := by
  have hset := getElem?_set_of_some hcall { call with phase }
  constructor
  · exact h.bounded
  · have := h.allocated
    grind
  · have := h.counted
    grind
  · have := h.apart
    grind
  · have := h.unasked
    grind
  · have := h.entry
    grind
  · intro key ch hreplies
    obtain ⟨hkey, i, other, hother, hport⟩ := h.owner key ch hreplies
    by_cases hi : i = c
    · refine ⟨hkey, c, { call with phase }, by grind, ?_⟩
      grind
    · exact ⟨hkey, i, other, by grind, hport⟩

theorem allocate (h : Issued s) (hcall : s.call? c = some call) (hphase : call.phase = .allocating)
    (hbound : s.lastReply + 1 < 2 ^ 31) :
    Issued { s with
      lastReply := s.lastReply + 1
      replies := Function.update s.replies ↑(s.lastReply + 1) (some (s.lastReply + 1))
      calls := s.calls.set c { call with rPort := s.lastReply + 1, phase := .sending } } := by
  have hset := getElem?_set_of_some hcall { call with rPort := s.lastReply + 1, phase := .sending }
  have hcounted := h.counted
  have hneed : call.needReply := by
    have := h.unasked
    grind
  constructor
  · exact hbound
  · have := h.allocated
    grind
  · grind
  · have := h.apart
    grind
  · have := h.unasked
    grind
  · intro i other hother hwaiting
    change Function.update s.replies _ _ ↑other.rPort = _
    have hother := (hset i).symm.trans hother
    split_ifs at hother with hi
    · rw [← Option.some.inj hother, Function.update_self]
    · have hne : (other.rPort : ℤ) ≠ ↑(s.lastReply + 1) := by
        have := hcounted i other hother
        omega
      rw [Function.update_of_ne hne]
      exact h.entry i other hother hwaiting
  · intro key ch hreplies
    change Function.update s.replies _ _ key = some ch at hreplies
    by_cases hkey : key = ↑(s.lastReply + 1)
    · subst hkey
      rw [Function.update_self, Option.some.injEq] at hreplies
      refine ⟨by rw [hreplies], c, _, (hset c).trans (if_pos rfl), ?_, hreplies⟩
      simp [SendCall.waiting, hneed]
    · rw [Function.update_of_ne hkey] at hreplies
      obtain ⟨hkey, i, other, hother, hwaiting, hport⟩ := h.owner key ch hreplies
      have hi : i ≠ c := by grind [SendCall.waiting]
      exact ⟨hkey, i, other, (hset i).trans ((if_neg hi).trans hother), hwaiting, hport⟩

theorem delete (h : Issued s) (hcall : s.call? c = some call) {ret : GoReturn}
    (hphase : call.phase = .received ret) :
    Issued { s with
      replies := Function.update s.replies call.rPort none
      calls := s.calls.set c { call with phase := .returned ret } } := by
  have hset := getElem?_set_of_some hcall { call with phase := .returned ret }
  have hneed : call.needReply := by
    have := h.unasked
    grind
  constructor
  · exact h.bounded
  · have := h.allocated
    grind
  · have := h.counted
    grind
  · have := h.apart
    grind
  · have := h.unasked
    grind
  · have := h.entry
    have := h.allocated
    have := h.apart
    grind [Function.update_apply, SendCall.waiting]
  · intro key ch hreplies
    change Function.update s.replies _ _ key = some ch at hreplies
    rw [Function.update_apply] at hreplies
    split_ifs at hreplies with hkey
    obtain ⟨hch, i, other, hother, hwaiting, hport⟩ := h.owner key ch hreplies
    have hi : i ≠ c := by grind
    exact ⟨hch, i, other, (hset i).trans ((if_neg hi).trans hother), hwaiting, hport⟩

theorem toInt_ofNat {n : ℕ} (h : n < 2 ^ 31) : (BitVec.ofNat 32 n).toInt = n := by
  rw [BitVec.toInt_ofNat']
  exact Int.bmod_eq_of_le (by omega) (by omega)

/-- `ReplyToGo` finds the channel of the call that waits. -/
theorem lookup (h : Issued s) (replyPort : CInt) :
    s.replies replyPort.toInt = s.waitingOn replyPort := by
  have hbound : ∀ c call, s.call? c = some call → (BitVec.ofNat 32 call.rPort).toInt = call.rPort :=
    fun c call hcall ↦ toInt_ofNat (Nat.lt_of_le_of_lt (h.counted c call hcall) h.bounded)
  unfold waitingOn
  cases hfind : s.calls.find? fun call ↦ call.waiting ∧ BitVec.ofNat 32 call.rPort = replyPort with
  | some call =>
    obtain ⟨c, hcall⟩ := List.mem_iff_getElem?.mp (List.mem_of_find?_eq_some hfind)
    have hfound := List.find?_some hfind
    rw [decide_eq_true_iff] at hfound
    obtain ⟨hwaiting, hport⟩ := hfound
    rw [← hport, hbound c call hcall]
    exact h.entry c call hcall hwaiting
  | none =>
    by_contra hsome
    obtain ⟨ch, hch⟩ := Option.ne_none_iff_exists'.mp hsome
    obtain ⟨hkey, c, call, hcall, hwaiting, hport⟩ := h.owner _ ch hch
    have hsame : BitVec.ofNat 32 call.rPort = replyPort := by
      rw [← BitVec.toInt_inj, hbound c call hcall, hport, hkey]
    have hnot := List.find?_eq_none.mp hfind call (List.mem_of_getElem? hcall)
    exact hnot (decide_eq_true ⟨hwaiting, hsame⟩)

end Issued

namespace Answered

theorem begin (h : Answered s) (needReply : Bool) (str : String) :
    Answered { s with calls := s.calls ++
      [⟨needReply, str, 0, if needReply then .allocating else .sending⟩] } where
  fresh := h.fresh
  single := h.single
  blocked := by
    intro ch ret hmem
    obtain ⟨hreplied, i, other, hother, hexpecting⟩ := h.blocked ch ret hmem
    exact ⟨hreplied, i, other, by grind, hexpecting⟩
  kept := by
    have := h.kept
    grind [SendCall.expecting]
  held := by
    have := h.held
    grind [SendPhase.result]

theorem allocate (h : Answered s) (hcall : s.call? c = some call)
    (hphase : call.phase = .allocating) (replies : ℤ → Option ℕ) :
    Answered { s with
      lastReply := s.lastReply + 1
      replies
      calls := s.calls.set c { call with rPort := s.lastReply + 1, phase := .sending } } := by
  have hset := getElem?_set_of_some hcall { call with rPort := s.lastReply + 1, phase := .sending }
  have hnone : s.replied (s.lastReply + 1) = none := h.fresh _ (Nat.lt_succ_self _)
  constructor
  · exact fun rPort hlt ↦ h.fresh rPort (Nat.lt_of_succ_lt hlt)
  · exact h.single
  · intro ch ret hmem
    obtain ⟨hreplied, i, other, hother, hexpecting⟩ := h.blocked ch ret hmem
    have hi : i ≠ c := by grind [SendCall.expecting]
    exact ⟨hreplied, i, other, (hset i).trans ((if_neg hi).trans hother), hexpecting⟩
  · have := h.kept
    grind
  · have := h.held
    grind [SendPhase.result]

/-- The message of a call is sent. -/
theorem send (h : Answered s) (hcall : s.call? c = some call) (hphase : call.phase = .sending)
    (toNode : List (CInt × String)) :
    Answered { s with
      toNode
      calls := s.calls.set c
        { call with
          phase := if call.needReply then .receiving else .returned noReplyRequested } } := by
  have hset := getElem?_set_of_some hcall
    { call with phase := if call.needReply then .receiving else .returned noReplyRequested }
  constructor
  · exact h.fresh
  · exact h.single
  · intro ch ret hmem
    obtain ⟨hreplied, i, other, hother, hexpecting, hport⟩ := h.blocked ch ret hmem
    by_cases hi : i = c
    · refine ⟨hreplied, c, _, (hset c).trans (if_pos rfl), ?_, ?_⟩
      · grind [SendCall.expecting]
      · grind
    · exact ⟨hreplied, i, other, (hset i).trans ((if_neg hi).trans hother), hexpecting, hport⟩
  · have := h.kept
    grind [SendCall.expecting]
  · have := h.held
    grind [SendPhase.result]

/-- A call receives the reply that blocks on its channel. -/
theorem receive (h : Answered s) (hissued : Issued s) (hcall : s.call? c = some call)
    (hphase : call.phase = .receiving) {ret : GoReturn} (hmem : (call.rPort, ret) ∈ s.blocked) :
    Answered { s with
      blocked := s.blocked.erase (call.rPort, ret)
      calls := s.calls.set c { call with phase := .received ret } } := by
  have hset := getElem?_set_of_some hcall { call with phase := .received ret }
  have hneed : call.needReply := by
    have := hissued.unasked
    grind
  have hport : call.rPort ≠ 0 := by
    have := hissued.allocated
    grind
  have hapart : ∀ i other, s.call? i = some other → i ≠ c → other.rPort ≠ call.rPort := by
    have := hissued.apart
    grind
  -- no other reply blocks on the channel
  have hrest : ∀ ch ret', (ch, ret') ∈ s.blocked.erase (call.rPort, ret) ↔
      (ch, ret') ∈ s.blocked ∧ ch ≠ call.rPort :=
    fun _ _ ↦ mem_erase_of_single h.single hmem
  constructor
  · exact h.fresh
  · exact h.single.sublist (List.Sublist.map _ List.erase_sublist)
  · intro ch ret' hmem'
    obtain ⟨hmem', hne⟩ := (hrest ch ret').mp hmem'
    obtain ⟨hreplied, i, other, hother, hexpecting, hch⟩ := h.blocked ch ret' hmem'
    have hi : i ≠ c := by grind
    exact ⟨hreplied, i, other, (hset i).trans ((if_neg hi).trans hother), hexpecting, hch⟩
  · have := h.kept
    grind [SendCall.expecting]
  · have := h.held
    have := h.blocked
    grind [SendPhase.result]

theorem delete (h : Answered s) (hcall : s.call? c = some call) {ret : GoReturn}
    (hphase : call.phase = .received ret) (replies : ℤ → Option ℕ) :
    Answered { s with
      replies
      calls := s.calls.set c { call with phase := .returned ret } } := by
  have hset := getElem?_set_of_some hcall { call with phase := .returned ret }
  constructor
  · exact h.fresh
  · exact h.single
  · intro ch ret' hmem
    obtain ⟨hreplied, i, other, hother, hexpecting⟩ := h.blocked ch ret' hmem
    have hi : i ≠ c := by grind [SendCall.expecting]
    exact ⟨hreplied, i, other, (hset i).trans ((if_neg hi).trans hother), hexpecting⟩
  · have := h.kept
    grind [SendCall.expecting]
  · have := h.held
    grind [SendPhase.result]

theorem reply (h : Answered s) (hissued : Issued s) (replyPort : CInt) (ret : GoReturn)
    (honce : ∀ rPort ∈ s.waitingOn replyPort, s.replied rPort = none) :
    Answered { s with
      blocked :=
        match s.replies replyPort.toInt with
        | none => s.blocked
        | some returnCh => s.blocked ++ [(returnCh, ret)]
      replied :=
        match s.waitingOn replyPort with
        | none => s.replied
        | some rPort => Function.update s.replied rPort (some ret) } := by
  cases hwaits : s.replies replyPort.toInt with
  | none =>
    rw [hissued.lookup] at hwaits
    rw [hwaits]
    exact h
  | some ch =>
    obtain ⟨hkey, c, call, hcall, hwaiting, rfl⟩ := hissued.owner _ ch hwaits
    rw [hissued.lookup] at hwaits
    rw [hwaits]
    have hnone : s.replied call.rPort = none := honce _ hwaits
    have hexpecting : call.expecting := by
      have hheld := h.held c call hcall
      cases hphase : call.phase <;>
        simp_all [SendCall.expecting, SendCall.waiting, SendPhase.result]
    have hfree : ∀ ret, (call.rPort, ret) ∉ s.blocked := by
      have := h.blocked
      grind
    constructor
    · have := h.fresh
      have := hissued.counted
      grind [Function.update_apply]
    · rw [List.map_append, List.nodup_append]
      refine ⟨h.single, List.nodup_singleton _, ?_⟩
      grind
    · intro ch' ret' hmem
      rcases List.mem_append.mp hmem with hold | hnew
      · obtain ⟨hreplied, hcall'⟩ := h.blocked ch' ret' hold
        have hne : ch' ≠ call.rPort := fun hch ↦ hfree ret' (hch ▸ hold)
        exact ⟨(Function.update_of_ne hne _ _).trans hreplied, hcall'⟩
      · obtain ⟨rfl, rfl⟩ := Prod.mk.inj (List.mem_singleton.mp hnew)
        exact ⟨Function.update_self _ _ _, c, call, hcall, hexpecting, rfl⟩
    · have := h.kept
      grind [Function.update_apply]
    · have := h.held
      grind [Function.update_apply]

end Answered

/-- The reply that a call receives is the one that blocks on its channel. -/
theorem find_of_single {κ α : Type*} [DecidableEq κ] {l : List (κ × α)}
    (hsingle : (l.map Prod.fst).Nodup) {key : κ} {a : α} (hmem : (key, a) ∈ l) :
    (l.find? fun entry ↦ entry.1 = key) = some (key, a) := by
  cases hfind : l.find? fun entry ↦ entry.1 = key with
  | none =>
    have hnone := List.find?_eq_none.mp hfind _ hmem
    exact absurd (decide_eq_true rfl) hnone
  | some entry =>
    have hkey : entry.1 = key := by simpa using List.find?_some hfind
    have hsame := List.inj_on_of_nodup_map hsingle (List.mem_of_find?_eq_some hfind) hmem hkey
    rw [hsame]

theorem Issued.needReply_of_receiving (h : Issued s) (hcall : s.call? c = some call)
    (hphase : call.phase = .receiving) : call.needReply = true := by
  have := h.unasked c call hcall
  grind

theorem Issued.replies_of_receiving (h : Issued s) (hcall : s.call? c = some call)
    (hphase : call.phase = .receiving) : s.replies call.rPort = some call.rPort := by
  refine h.entry c call hcall ?_
  simp [SendCall.waiting, hphase, h.needReply_of_receiving hcall hphase]

/-- Every step keeps both invariants, as long as no port is replied to twice and ports are left. -/
theorem invariants_step (hissued : Issued s) (hanswered : Answered s) {event : DaemonEvent}
    (honce : s.Once event s') (hbound : s'.lastReply < 2 ^ 31) (hstep : s.step event = some s') :
    Issued s' ∧ Answered s' := by
  cases event with
  | call needReply str =>
    obtain rfl := Option.some.inj hstep
    exact ⟨hissued.begin needReply str, hanswered.begin needReply str⟩
  | allocate c =>
    obtain ⟨call, hcall, hstep⟩ := Option.bind_eq_some_iff.mp hstep
    split at hstep
    · rename_i hphase
      obtain rfl := Option.some.inj hstep
      exact ⟨hissued.allocate hcall hphase hbound, hanswered.allocate hcall hphase _⟩
    · exact absurd hstep (by simp)
  | send c =>
    obtain ⟨call, hcall, hstep⟩ := Option.bind_eq_some_iff.mp hstep
    split at hstep
    · rename_i hphase
      obtain rfl := Option.some.inj hstep
      refine ⟨hissued.advance hcall (by simp [hphase]) ?_ ?_ ?_ _ s.blocked,
        hanswered.send hcall hphase _⟩
      · split <;> simp
      · by_cases hneed : call.needReply <;> simp [SendCall.waiting, hphase, hneed]
      · exact fun hneed ↦ if_neg hneed
    · exact absurd hstep (by simp)
  | receive c =>
    obtain ⟨call, hcall, hstep⟩ := Option.bind_eq_some_iff.mp hstep
    split at hstep
    · rename_i hphase
      obtain ⟨ch, hch, hstep⟩ := Option.bind_eq_some_iff.mp hstep
      obtain ⟨⟨port, ret⟩, hfind, rfl⟩ := Option.map_eq_some_iff.mp hstep
      rw [hissued.replies_of_receiving hcall hphase, Option.some.injEq] at hch
      have hport : port = ch := by simpa using List.find?_some hfind
      obtain rfl : port = call.rPort := hport.trans hch.symm
      have hneed := hissued.needReply_of_receiving hcall hphase
      refine ⟨hissued.advance hcall (by simp [hphase]) (by simp) ?_ ?_ s.toNode _,
        hanswered.receive hissued hcall hphase (List.mem_of_find?_eq_some hfind)⟩
      · simp [SendCall.waiting, hphase]
      · exact fun hnot ↦ absurd hneed hnot
    · exact absurd hstep (by simp)
  | delete c =>
    obtain ⟨call, hcall, hstep⟩ := Option.bind_eq_some_iff.mp hstep
    split at hstep
    · rename_i ret hphase
      obtain rfl := Option.some.inj hstep
      exact ⟨hissued.delete hcall hphase, hanswered.delete hcall hphase _⟩
    · exact absurd hstep (by simp)
  | reply replyPort isError str =>
    obtain rfl := Option.some.inj hstep
    refine ⟨?_, hanswered.reply hissued replyPort _ honce⟩
    exact ⟨hissued.bounded, hissued.allocated, hissued.counted, hissued.apart, hissued.unasked,
      hissued.entry, hissued.owner⟩

/-- The invariants say that requests and replies are matched. -/
theorem matched_of_invariants (hissued : Issued s) (hanswered : Answered s) : Matched s where
  returned := by
    intro call hmem hneed ret hphase
    obtain ⟨c, hcall⟩ := List.mem_iff_getElem?.mp hmem
    exact hanswered.held c call hcall hneed ret (by rw [hphase]; rfl)
  apart := hissued.apart
  kept := by
    intro call hmem hwaiting ret hreplied
    obtain ⟨c, hcall⟩ := List.mem_iff_getElem?.mp hmem
    have hkept := hanswered.kept c call hcall
    have hheld := hanswered.held c call hcall
    cases hphase : call.phase <;>
      simp_all [SendCall.expecting, SendCall.waiting, SendPhase.result]
  served := by
    intro c call hcall hphase ret hblocked
    have hreplies := hissued.replies_of_receiving hcall hphase
    have hfind := find_of_single hanswered.single hblocked
    have hstep : s.step (.receive c) = some { s with
        blocked := s.blocked.erase (call.rPort, ret)
        calls := s.calls.set c { call with phase := .received ret } } := by
      rw [step, hcall, Option.bind_some]
      simp only [hphase, hreplies, Option.bind_some, hfind, Option.map_some]
    rw [hstep, Option.bind_some]
    exact (getElem?_set_of_some hcall _ c).trans (if_pos rfl)
  unasked := by
    intro call hmem hneed ret hphase
    obtain ⟨c, hcall⟩ := List.mem_iff_getElem?.mp hmem
    have := hissued.unasked c call hcall hneed
    grind
  table := by
    intro key
    constructor
    · intro hkey
      obtain ⟨ch, hch⟩ := Option.ne_none_iff_exists'.mp hkey
      obtain ⟨rfl, c, call, hcall, hwaiting, rfl⟩ := hissued.owner key ch hch
      exact ⟨call, List.mem_of_getElem? hcall, hwaiting, rfl⟩
    · rintro ⟨call, hmem, hwaiting, rfl⟩
      obtain ⟨c, hcall⟩ := List.mem_iff_getElem?.mp hmem
      rw [hissued.entry c call hcall hwaiting]
      exact Option.some_ne_none _

end Steps

/-! ### Every run -/

theorem issued_fresh : Issued fresh := by
  constructor <;> simp [fresh, call?]

theorem answered_fresh : Answered fresh := by
  constructor <;> simp [fresh, call?]

/-- In every interleaving of calls of `sendToNode` and `ReplyToGo` with one reply at most to the
port of a waiting call, requests and replies are matched as long as fewer than `2 ^ 31` ports have
been allocated. -/
theorem matched (events : List DaemonEvent) (h : AllSteps step Within fresh events) :
    AllSteps step (fun _ _ s' ↦ Matched s') fresh events := by
  have hkeep : ∀ s event s', Issued s ∧ Answered s → Within s event s' →
      step s event = some s' → Issued s' ∧ Answered s' :=
    fun _ _ _ hboth hwithin hstep ↦
      invariants_step hboth.1 hboth.2 hwithin.1 hwithin.2 hstep
  have hprop : ∀ s event s', Issued s ∧ Answered s → Within s event s' →
      step s event = some s' → Matched s' := by
    intro s event s' hboth hwithin hstep
    obtain ⟨hissued, hanswered⟩ := hkeep s event s' hboth hwithin hstep
    exact matched_of_invariants hissued hanswered
  exact AllSteps.of_invariant hkeep hprop ⟨issued_fresh, answered_fresh⟩ h

/-- Two calls that overlap. The second one is rejected before it waits, the first one is replied to
last, and a reply comes to a port that nobody has. -/
def overlapping : List DaemonEvent :=
  [.call true "a", .allocate 0, .send 0, .call true "b", .allocate 1, .reply 2 1 "no", .send 1,
    .reply 7 0 "stray", .receive 1, .delete 1, .reply 1 0 "yes", .receive 0, .delete 0]

theorem matched_overlapping :
    AllSteps step (fun _ _ s' ↦ Matched s') fresh overlapping ∧
      (run step fresh overlapping).map (fun s ↦ s.calls.map SendCall.phase) =
        some [.returned ⟨"yes", none⟩, .returned ⟨"", some "no"⟩] :=
  ⟨matched overlapping (by decide), by decide +kernel⟩

/-! ### The last port -/

/-- Calls that wait on the first `n` ports. -/
def waiters (n : ℕ) : List DaemonEvent :=
  (List.range n).flatMap fun c ↦ [.call true "", .allocate c]

/-- What is known of the state in which `n` calls wait. -/
structure Waiters (n : ℕ) (s : Daemon) : Prop where
  lastReply : s.lastReply = n
  calls : s.calls = (List.range n).map fun c ↦ ⟨true, "", c + 1, .sending⟩
  replies : ∀ key < 0, s.replies key = none
  blocked : s.blocked = []
  replied : s.replied = fun _ ↦ none

theorem run_waiters (n : ℕ) : ∃ s, run step fresh (waiters n) = some s ∧ Waiters n s := by
  induction n with
  | zero => exact ⟨fresh, rfl, rfl, rfl, fun _ _ ↦ rfl, rfl, rfl⟩
  | succ n ih =>
    obtain ⟨s, hrun, hs⟩ := ih
    have hlength : s.calls.length = n := by
      rw [hs.calls, List.length_map, List.length_range]
    let call : SendCall := ⟨true, "", 0, .allocating⟩
    let call' : SendCall := ⟨true, "", s.lastReply + 1, .sending⟩
    have hcall : (s.calls ++ [call])[n]? = some call := by
      rw [List.getElem?_append_right (Nat.le_of_eq hlength), hlength, Nat.sub_self]
      rfl
    have hset : (s.calls ++ [call]).set n call' = s.calls ++ [call'] := by
      rw [List.set_append_right _ _ (Nat.le_of_eq hlength), hlength, Nat.sub_self]
      rfl
    refine ⟨{ s with
      lastReply := s.lastReply + 1
      replies := Function.update s.replies ↑(s.lastReply + 1) (some (s.lastReply + 1))
      calls := s.calls ++ [call'] }, ?_, ?_⟩
    · rw [waiters, List.range_succ, List.flatMap_append, run_append]
      change (run step fresh (waiters n)).bind _ = _
      rw [hrun, ← hset]
      change ((s.calls ++ [call])[n]?.bind _).bind _ = _
      rw [hcall]
      rfl
    · constructor
      · rw [hs.lastReply]
      · change s.calls ++ [⟨true, "", s.lastReply + 1, .sending⟩] = _
        rw [List.range_succ, List.map_append, hs.calls, hs.lastReply]
        rfl
      · intro key hkey
        have hne : key ≠ ↑(s.lastReply + 1) := by omega
        exact (Function.update_of_ne hne _ _).trans (hs.replies key hkey)
      · exact hs.blocked
      · exact hs.replied

theorem once_of_waiters (n : ℕ) : AllSteps step Once fresh (waiters n) := by
  refine allSteps_of_forall_mem fun event hevent s s' ↦ ?_
  obtain ⟨c, -, hmem⟩ := List.mem_flatMap.mp hevent
  rcases List.mem_cons.mp hmem with rfl | hmem
  · trivial
  · rw [List.mem_singleton.mp hmem]
    trivial

theorem Waiters.waitingOn {n : ℕ} {s : Daemon} (hs : Waiters (n + 1) s) (hn : n + 1 < 2 ^ 32) :
    s.waitingOn (BitVec.ofNat 32 (n + 1)) = some (n + 1) := by
  unfold Daemon.waitingOn
  cases hfind : s.calls.find? fun call ↦
      call.waiting ∧ BitVec.ofNat 32 call.rPort = BitVec.ofNat 32 (n + 1) with
  | none =>
    have hmem : ⟨true, "", n + 1, .sending⟩ ∈ s.calls := by
      rw [hs.calls]
      exact List.mem_map.mpr ⟨n, List.mem_range.mpr (Nat.lt_succ_self n), rfl⟩
    exact absurd (decide_eq_true ⟨rfl, rfl⟩) (List.find?_eq_none.mp hfind _ hmem)
  | some call =>
    have hmem := List.mem_of_find?_eq_some hfind
    rw [hs.calls] at hmem
    obtain ⟨c, hc, rfl⟩ := List.mem_map.mp hmem
    have hfound := List.find?_some hfind
    rw [decide_eq_true_iff] at hfound
    have hbits := congrArg BitVec.toNat hfound.2
    rw [BitVec.toNat_ofNat, BitVec.toNat_ofNat, Nat.mod_eq_of_lt hn] at hbits
    have hc' := List.mem_range.mp hc
    rw [Nat.mod_eq_of_lt (by simp only; omega)] at hbits
    exact congrArg some hbits

/-- From `2 ^ 31` on, the port that Node has been given is negative, and the table has no entry for
it. -/
theorem Waiters.lost {n : ℕ} {s s' : Daemon} (hs : Waiters (n + 1) s) (hlow : 2 ^ 31 ≤ n + 1)
    (hhigh : n + 1 < 2 ^ 32)
    (hstep : s.step (.reply (BitVec.ofNat 32 (n + 1)) 0 "") = some s') : ¬ Matched s' := by
  intro hmatched
  have hnegative : (BitVec.ofNat 32 (n + 1)).toInt < 0 := by
    rw [BitVec.toInt_eq_toNat_cond, BitVec.toNat_ofNat, Nat.mod_eq_of_lt hhigh,
      if_neg (by omega)]
    omega
  obtain rfl := Option.some.inj hstep
  have hmem : ⟨true, "", n + 1, .sending⟩ ∈ s.calls := by
    rw [hs.calls]
    exact List.mem_map.mpr ⟨n, List.mem_range.mpr (Nat.lt_succ_self n), rfl⟩
  have hkept := hmatched.kept _ hmem rfl ⟨"", none⟩
  simp only [hs.waitingOn hhigh, hs.replies _ hnegative, hs.blocked] at hkept
  rcases hkept (Function.update_self _ _ _) with hphase | hblocked
  · exact absurd hphase (by simp)
  · exact absurd hblocked List.not_mem_nil

/-- The call with the port `2 ^ 31` is replied to. -/
def exhausting : List DaemonEvent :=
  waiters (2 ^ 31) ++ [.reply (BitVec.ofNat 32 (2 ^ 31)) 0 ""]

/-- The reply is lost. -/
theorem exhausting_not_matched :
    AllSteps step Once fresh exhausting ∧
      ¬ AllSteps step (fun _ _ s' ↦ Matched s') fresh exhausting := by
  obtain ⟨n, hn⟩ : ∃ n, n + 1 = 2 ^ 31 := ⟨2 ^ 31 - 1, by omega⟩
  rw [exhausting, ← hn]
  obtain ⟨s, hrun, hs⟩ := run_waiters (n + 1)
  constructor
  · refine allSteps_append.mpr ⟨once_of_waiters _, fun t ht ↦ ?_⟩
    obtain rfl := Option.some.inj (hrun.symm.trans ht)
    refine ⟨fun rPort _ ↦ ?_, trivial⟩
    rw [hs.replied]
  · intro h
    obtain ⟨hmatched, -⟩ := (allSteps_append.mp h).2 s hrun
    exact hs.lost (by omega) (by omega) rfl hmatched

end Daemon

end CosmicSwingset.Chain
