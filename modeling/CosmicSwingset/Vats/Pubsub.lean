import CosmicSwingset.Foundation.Transition

/-!
# Publishing to subscribers

`pubsub.js`: `publish` sends what it is given to every subscriber, and `subscribe` sends a new one
what was published last. Both send with `E`, so a notification arrives in a later turn, but those to
one subscriber arrive in the order in which they were sent.

Whatever the order of publications, subscriptions and arrivals, a subscriber is notified of the last
item before its subscription and of each one after it, once and in order (`notified_of_run`).

The code has `undefined` for `lastPublished` where nothing was published. That `undefined` itself is
published is left out.
-/

set_option autoImplicit false
set_option relaxedAutoImplicit false

namespace CosmicSwingset.Vats

open Foundation

variable {α : Type*}

/-- A subscriber: what it was notified of, and the notifications that are on their way to it. -/
structure Subscriber (α : Type*) where
  notified : List α
  inflight : List α
  deriving DecidableEq

structure Pubsub (α : Type*) where
  lastPublished : Option α
  subscribers : List (Subscriber α)
  deriving DecidableEq

/-- A call of one of the two methods, or the arrival of the first notification on its way to a
subscriber. -/
inductive PubsubEvent (α : Type*)
  | subscribe
  | publish (m : α)
  | notify (i : ℕ)
  deriving DecidableEq

/-- `E(s).notify(m)`. -/
def Subscriber.send (m : α) (s : Subscriber α) : Subscriber α :=
  { s with inflight := s.inflight ++ [m] }

/-- The first notification arrives. -/
def Subscriber.notify (s : Subscriber α) : Option (α × Subscriber α) :=
  match s.inflight with
  | [] => none
  | m :: inflight => some (m, ⟨s.notified ++ [m], inflight⟩)

/-- What a subscriber has been sent. -/
def Subscriber.sent (s : Subscriber α) : List α := s.notified ++ s.inflight

namespace Pubsub

def fresh : Pubsub α := ⟨none, []⟩

def subscribe (p : Pubsub α) : Pubsub α :=
  { p with subscribers := p.subscribers ++ [⟨[], p.lastPublished.toList⟩] }

def publish (p : Pubsub α) (m : α) : Pubsub α :=
  ⟨some m, p.subscribers.map (Subscriber.send m)⟩

def step (p : Pubsub α) : PubsubEvent α → Option (Pubsub α)
  | .subscribe => some p.subscribe
  | .publish m => some (p.publish m)
  | .notify i => do
    let s ← p.subscribers[i]?
    let (_, s) ← s.notify
    return { p with subscribers := p.subscribers.set i s }

end Pubsub

/-- What was published, in order. -/
def published (events : List (PubsubEvent α)) : List α :=
  events.filterMap fun
    | .publish m => some m
    | _ => none

/-- How many subscriptions there were. -/
def subscriptions (events : List (PubsubEvent α)) : ℕ :=
  events.countP fun
    | .subscribe => true
    | _ => false

/-! ### What arrives -/

/-- What subscriber `i` is to be sent after some events: the last item before its subscription, and
each one after it. -/
def IsSent (events : List (PubsubEvent α)) (i : ℕ) (items : List α) : Prop :=
  ∃ before after, events = before ++ .subscribe :: after ∧ subscriptions before = i ∧
    items = (published before).getLast?.toList ++ published after

theorem published_concat (events : List (PubsubEvent α)) (event : PubsubEvent α) :
    published (events ++ [event]) = published events ++ published [event] :=
  List.filterMap_append

theorem subscriptions_concat (events : List (PubsubEvent α)) (event : PubsubEvent α) :
    subscriptions (events ++ [event]) = subscriptions events + subscriptions [event] :=
  List.countP_append

theorem published_subscribe : published [.subscribe] = ([] : List α) := rfl

theorem published_notify (i : ℕ) : published [.notify i] = ([] : List α) := rfl

/-- One more event sends a subscriber what it publishes. -/
theorem IsSent.concat {events : List (PubsubEvent α)} {i : ℕ} {items : List α}
    (h : IsSent events i items) (event : PubsubEvent α) :
    IsSent (events ++ [event]) i (items ++ published [event]) := by
  obtain ⟨before, after, rfl, hcount, rfl⟩ := h
  refine ⟨before, after ++ [event], by simp, hcount, ?_⟩
  rw [published_concat, List.append_assoc]

theorem Subscriber.sent_notify {s s' : Subscriber α} {m : α} (h : s.notify = some (m, s')) :
    s'.sent = s.sent := by
  obtain ⟨notified, inflight⟩ := s
  cases inflight with
  | nil => cases h
  | cons first rest =>
    obtain ⟨rfl, rfl⟩ := Prod.mk.inj (Option.some.inj h)
    simp [Subscriber.sent]

theorem Subscriber.getLast?_notified {s s' : Subscriber α} {m : α} (h : s.notify = some (m, s')) :
    s'.notified.getLast? = some m := by
  obtain ⟨notified, inflight⟩ := s
  cases inflight with
  | nil => cases h
  | cons first rest =>
    obtain ⟨rfl, rfl⟩ := Prod.mk.inj (Option.some.inj h)
    exact List.getLast?_concat

/-- The subscribers are those that subscribed, and each was sent what it is to be sent. -/
structure Pubsub.Delivers (events : List (PubsubEvent α)) (p : Pubsub α) : Prop where
  lastPublished : p.lastPublished = (published events).getLast?
  subscribers : p.subscribers.length = subscriptions events
  sent : ∀ i s, p.subscribers[i]? = some s → IsSent events i s.sent

namespace Pubsub

theorem delivers_fresh : Delivers [] (fresh : Pubsub α) :=
  ⟨rfl, rfl, fun _ _ h ↦ absurd h (by simp [fresh])⟩

theorem step_notify {p p' : Pubsub α} {i : ℕ} (hstep : p.step (.notify i) = some p') :
    ∃ s m s', p.subscribers[i]? = some s ∧ s.notify = some (m, s') ∧
      p' = { p with subscribers := p.subscribers.set i s' } := by
  obtain ⟨s, hs, hrest⟩ := Option.bind_eq_some_iff.mp hstep
  obtain ⟨⟨m, s'⟩, hnotify, hp'⟩ := Option.bind_eq_some_iff.mp hrest
  exact ⟨s, m, s', hs, hnotify, (Option.some.inj hp').symm⟩

theorem Delivers.step {events : List (PubsubEvent α)} {p p' : Pubsub α} (h : Delivers events p)
    {event : PubsubEvent α} (hstep : p.step event = some p') :
    Delivers (events ++ [event]) p' := by
  cases event with
  | subscribe =>
    obtain rfl := Option.some.inj hstep
    refine ⟨?_, ?_, fun i s hs ↦ ?_⟩
    · rw [published_concat, published_subscribe, List.append_nil]
      exact h.lastPublished
    · rw [subscriptions_concat, ← h.subscribers]
      exact List.length_append
    · rw [Pubsub.subscribe, List.getElem?_append] at hs
      split_ifs at hs with hi
      · have hsent := (h.sent i s hs).concat .subscribe
        rwa [published_subscribe, List.append_nil] at hsent
      · obtain ⟨hzero, rfl⟩ := List.getElem?_eq_some_iff.mp hs
        have hlast : i = subscriptions events := by
          rw [← h.subscribers]
          simp only [List.length_singleton] at hzero
          omega
        exact ⟨events, [], rfl, hlast.symm, by simp [Subscriber.sent, h.lastPublished, published]⟩
  | publish m =>
    obtain rfl := Option.some.inj hstep
    refine ⟨?_, ?_, fun i s hs ↦ ?_⟩
    · rw [published_concat]
      exact List.getLast?_concat.symm
    · rw [subscriptions_concat, ← h.subscribers]
      exact List.length_map _
    · rw [Pubsub.publish, List.getElem?_map, Option.map_eq_some_iff] at hs
      obtain ⟨s, hold, rfl⟩ := hs
      have hsent : (s.send m).sent = s.sent ++ [m] := (List.append_assoc _ _ _).symm
      rw [hsent]
      exact (h.sent i s hold).concat (.publish m)
  | notify i =>
    obtain ⟨s, m, s', hs, hnotify, rfl⟩ := step_notify hstep
    refine ⟨?_, ?_, fun j t ht ↦ ?_⟩
    · rw [published_concat, published_notify, List.append_nil]
      exact h.lastPublished
    · rw [subscriptions_concat, ← h.subscribers]
      exact List.length_set
    · have hsent : ∃ old, p.subscribers[j]? = some old ∧ t.sent = old.sent := by
        rw [List.getElem?_set] at ht
        split_ifs at ht with hij
        · subst hij
          exact ⟨s, hs, by rw [← Option.some.inj ht, Subscriber.sent_notify hnotify]⟩
        · exact ⟨t, ht, rfl⟩
      obtain ⟨old, hold, hsame⟩ := hsent
      have hconcat := (h.sent j old hold).concat (.notify i)
      rwa [published_notify, List.append_nil, ← hsame] at hconcat

/-- The last item that a subscriber was sent is the one published last. -/
def Current (p : Pubsub α) : Prop :=
  ∀ s ∈ p.subscribers, s.sent.getLast? = p.lastPublished

theorem Current.subscribe {p : Pubsub α} (h : p.Current) : p.subscribe.Current := by
  refine List.forall_mem_append.mpr ⟨h, List.forall_mem_singleton.mpr ?_⟩
  change ([] ++ p.lastPublished.toList).getLast? = p.lastPublished
  cases p.lastPublished <;> rfl

theorem Current.publish (p : Pubsub α) (m : α) : (p.publish m).Current := by
  intro s hs
  obtain ⟨old, -, rfl⟩ := List.mem_map.mp hs
  rw [Subscriber.sent, Subscriber.send, ← List.append_assoc]
  exact List.getLast?_concat

theorem Current.set {p : Pubsub α} (h : p.Current) {i : ℕ} {s s' : Subscriber α} {m : α}
    (hs : p.subscribers[i]? = some s) (hnotify : s.notify = some (m, s')) :
    Current { p with subscribers := p.subscribers.set i s' } := by
  intro t ht
  rcases List.mem_or_eq_of_mem_set ht with hold | rfl
  · exact h t hold
  · rw [Subscriber.sent_notify hnotify]
    exact h s (List.mem_of_getElem? hs)

end Pubsub

/-- In every run, what a subscriber was notified of, and then what is on its way to it, is the last
item published before it subscribed, if there was one, and every item published after that. -/
theorem notified_of_run (events : List (PubsubEvent α)) {p : Pubsub α}
    (hrun : run Pubsub.step .fresh events = some p) {i : ℕ} {s : Subscriber α}
    (hs : p.subscribers[i]? = some s) :
    ∃ before after, events = before ++ .subscribe :: after ∧ subscriptions before = i ∧
      s.notified ++ s.inflight = (published before).getLast?.toList ++ published after := by
  have hdelivers : Pubsub.Delivers events p :=
    run_history (fun _ _ _ _ h hstep ↦ h.step hstep) Pubsub.delivers_fresh hrun
  exact hdelivers.sent i s hs

/-- Two subscribers, one before and one after the first item; the second is ahead of the first. -/
def twoSubscribers : List (PubsubEvent String) :=
  [.subscribe, .publish "a", .publish "b", .subscribe, .notify 1, .publish "c", .notify 0]

theorem notified_twoSubscribers :
    ∃ p s, run Pubsub.step .fresh twoSubscribers = some p ∧ p.subscribers[1]? = some s ∧
      s.notified = ["b"] ∧
      ∃ before after, twoSubscribers = before ++ .subscribe :: after ∧ subscriptions before = 1 ∧
        s.notified ++ s.inflight = (published before).getLast?.toList ++ published after :=
  ⟨_, _, rfl, rfl, rfl, notified_of_run twoSubscribers rfl rfl⟩

end CosmicSwingset.Vats
