import CosmicSwingset.Chain.LaunchChain
import CosmicSwingset.Foundation.Transition

/-!
# Publication of the mailboxes

Solo nodes read the entry `mailbox.PEER`, the copy for one peer of what the map of all mailboxes
holds. When a call of `deliverInbound` returns normally, the copy of every peer and the entry
`mailbox` should be those of the machine in memory (`Published`).

`deliverInbound` publishes when its own run of the kernel has changed the map. What the bootstrap
run changed is saved by `launch` but not published, and what a run changed that then threw is
neither, so a later call that finds no new work returns with the copies behind
(`lagging_not_published`). The runs in which such a call, or one whose run leaves the map alone,
never finds changes of those kinds waiting have the property at every return
(`published_of_nothingPending`).
-/

set_option autoImplicit false
set_option relaxedAutoImplicit false

namespace CosmicSwingset.Chain

open Foundation SwingSet

variable {K : Type*}

/-- The chain node whose writes are all committed. Two flags record the run: the entry `mailbox` has
changes that were not published, the machine has changes that were not saved. -/
structure Publisher (K : Type*) where
  live : Option (Machine K)
  file : StateFile K
  storage : MailboxStorage
  unpublished : Bool
  unsaved : Bool

/-- `launch` with what `buildSwingset` gives, a call of `deliverInbound`, a restart of the
process. -/
inductive PublisherEvent (K : Type*)
  | launch (buildSwingset : Option (Machine K))
  | deliverInbound (work : Work K)
  | restart

namespace Publisher

variable (json : DeterministicJson) (empty : K)

/-- All the writes of a call, and the machine it leaves. -/
def call (p : Publisher K) (c : Call K) : Publisher K :=
  { p with
    live := some c.live
    file := c.effects.foldl Effect.onFile p.file
    storage := c.effects.foldl Effect.onStorage p.storage }

/-- The flags after a call whose run leaves `after`. -/
def record (p : Publisher K) (live : Machine K) : Work K → Publisher K
  | .nothing => p
  | .ran after =>
    if Changed json live after then { p with unpublished := false, unsaved := false }
    else { p with unpublished := p.unpublished || p.unsaved, unsaved := false }
  | .threw after => { p with unsaved := p.unsaved || decide (Changed json live after) }

def step (p : Publisher K) : PublisherEvent K → Option (Publisher K)
  | .launch buildSwingset =>
    match p.live, initialState json empty p.file p.storage,
      Chain.launch json empty p.file p.storage buildSwingset with
    | none, some start, some c => some
        { p.call c with
          unpublished := p.unpublished || decide (Changed json start c.live)
          unsaved := false }
    | none, _, none => some p
    | _, _, _ => none
  | .deliverInbound work =>
    match p.live with
    | none => none
    | some live => some ((p.call (Chain.deliverInbound json live work)).record json live work)
  | .restart => some { p with live := none, unsaved := false }

def genesis : Publisher K where
  live := none
  file := .absent
  storage := fun _ ↦ none
  unpublished := false
  unsaved := false

end Publisher

variable (json : DeterministicJson) (empty : K)

/-- The entry `mailbox` and the copy of every peer are those of the machine in memory. -/
def UpToDate (p : Publisher K) : Prop :=
  ∀ m ∈ p.live, p.storage "mailbox" = some (json.stringify m.mailbox) ∧
    ∀ entry ∈ m.mailbox.entries,
      p.storage (peerKey entry.1) = some (json.stringifyPeer entry.2)

instance (p : Publisher K) : Decidable (UpToDate json p) :=
  inferInstanceAs (Decidable (∀ m ∈ p.live, p.storage "mailbox" = some (json.stringify m.mailbox) ∧
    ∀ entry ∈ m.mailbox.entries, p.storage (peerKey entry.1) = some (json.stringifyPeer entry.2)))

/-- A call that returns normally leaves the storage up to date. -/
def Published (_ : Publisher K) (event : PublisherEvent K) (p : Publisher K) : Prop :=
  match event with
  | .deliverInbound .nothing | .deliverInbound (.ran _) => UpToDate json p
  | _ => True

instance (p : Publisher K) (event : PublisherEvent K) (p' : Publisher K) :
    Decidable (Published json p event p') :=
  match event with
  | .deliverInbound .nothing | .deliverInbound (.ran _) =>
    inferInstanceAs (Decidable (UpToDate json p'))
  | .deliverInbound (.threw _) | .launch _ | .restart => .isTrue trivial

/-- A call that returns normally without its run having changed the map finds nothing unpublished
and nothing unsaved. -/
def NothingPending (p : Publisher K) (event : PublisherEvent K) (_ : Publisher K) : Prop :=
  match event with
  | .deliverInbound .nothing => p.unpublished = false ∧ p.unsaved = false
  | .deliverInbound (.ran after) =>
    (∀ live ∈ p.live, Changed json live after) ∨ p.unpublished = false ∧ p.unsaved = false
  | _ => True

instance (p : Publisher K) (event : PublisherEvent K) (p' : Publisher K) :
    Decidable (NothingPending json p event p') :=
  match event with
  | .deliverInbound .nothing =>
    inferInstanceAs (Decidable (p.unpublished = false ∧ p.unsaved = false))
  | .deliverInbound (.ran after) => inferInstanceAs (Decidable
      ((∀ live ∈ p.live, Changed json live after) ∨ p.unpublished = false ∧ p.unsaved = false))
  | .deliverInbound (.threw _) | .launch _ | .restart => .isTrue trivial

/-- What the flags make sure of: while nothing is unpublished the copies are those of the entry
`mailbox`, while nothing is unsaved that entry is of the machine in memory. -/
structure Flagged (p : Publisher K) : Prop where
  copies : p.unpublished = false → ∀ data : MailboxData,
    p.storage "mailbox" = some (json.stringify data) → ∀ entry ∈ data.entries,
      p.storage (peerKey entry.1) = some (json.stringifyPeer entry.2)
  saved : p.unsaved = false → ∀ m ∈ p.live,
    p.storage "mailbox" = some (json.stringify m.mailbox)
  entry : ∀ text, p.storage "mailbox" = some text → ∃ data, text = json.stringify data

variable {json}

theorem flagged_genesis : Flagged json (Publisher.genesis : Publisher K) := by
  constructor <;> simp [Publisher.genesis]

/-- A save puts the text of its machine into the entry, and the copies written before it stay. -/
theorem flagged_save (p : Publisher K) {c : Call K} (copies : List (Effect K))
    (heffects : c.effects = copies ++ saveState json c.live) {unpublished : Bool}
    (hcopies : unpublished = false → ∀ entry ∈ c.live.mailbox.entries,
      copies.foldl Effect.onStorage p.storage (peerKey entry.1) =
        some (json.stringifyPeer entry.2)) :
    Flagged json { p.call c with unpublished, unsaved := false } := by
  have hstorage : (p.call c).storage = Function.update (copies.foldl Effect.onStorage p.storage)
      "mailbox" (some (json.stringify c.live.mailbox)) := by
    change c.effects.foldl Effect.onStorage p.storage = _
    rw [heffects, List.foldl_append, storage_saveState]
  have hentry : (p.call c).storage "mailbox" = some (json.stringify c.live.mailbox) := by
    rw [hstorage, Function.update_self]
  constructor
  · intro hunpublished data hdata entry hmem
    have htext : json.stringify data = json.stringify c.live.mailbox :=
      Option.some.inj (hdata.symm.trans hentry)
    have hlive := (json.perm_of_stringify_eq htext).mem_iff.mp hmem
    change (p.call c).storage (peerKey entry.1) = _
    rw [hstorage, Function.update_of_ne (peerKey_ne_mailbox entry.1)]
    exact hcopies hunpublished entry hlive
  · intro _ m hm
    obtain rfl := Option.some.inj hm
    exact hentry
  · intro text htext
    exact ⟨c.live.mailbox, Option.some.inj (htext.symm.trans hentry)⟩

namespace Flagged

variable {p p' : Publisher K}

/-- Nothing is pending: the storage is up to date. -/
theorem upToDate (h : Flagged json p) (hpublished : p.unpublished = false)
    (hsaved : p.unsaved = false) : UpToDate json p := by
  intro m hm
  have hentry := h.saved hsaved m hm
  exact ⟨hentry, h.copies hpublished m.mailbox hentry⟩

/-- The state that `launch` restores has the copies of the entry, or no peers when there is none. -/
theorem initialState (h : Flagged json p) (hpublished : p.unpublished = false)
    {start : Machine K} (hstart : initialState json empty p.file p.storage = some start) :
    ∀ entry ∈ start.mailbox.entries,
      p.storage (peerKey entry.1) = some (json.stringifyPeer entry.2) := by
  intro entry hentry
  unfold Chain.initialState at hstart
  split at hstart
  · obtain rfl := Option.some.inj hstart
    exact absurd hentry List.not_mem_nil
  · rename_i text htext
    obtain ⟨saved, rfl⟩ := h.entry text htext
    obtain ⟨parsed, hparsed, hsame⟩ := json.parse_stringify saved
    rw [hparsed, Option.map_some, Option.some.injEq] at hstart
    rw [← hstart, hsame.mem_iff] at hentry
    exact h.copies hpublished saved htext entry hentry

theorem launch (h : Flagged json p) {start : Machine K}
    (hstart : Chain.initialState json empty p.file p.storage = some start) {c : Call K}
    (heffects : c.effects = saveState json c.live) :
    Flagged json
      { p.call c with
        unpublished := p.unpublished || decide (Changed json start c.live)
        unsaved := false } := by
  refine flagged_save p [] heffects fun hunpublished entry hentry ↦ ?_
  rw [Bool.or_eq_false_iff, decide_eq_false_iff_not, Changed, ne_eq, not_not] at hunpublished
  have hperm := json.perm_of_stringify_eq hunpublished.2
  exact h.initialState empty hunpublished.1 hstart entry (hperm.mem_iff.mp hentry)

theorem ran (h : Flagged json p) {live : Machine K} (hlive : p.live = some live)
    (after : Machine K) :
    Flagged json ((p.call (Chain.deliverInbound json live (.ran after))).record json live
      (.ran after)) := by
  by_cases hchanged : Changed json live after
  · -- the call publishes the map and saves it
    have hrecord : (p.call (Chain.deliverInbound json live (.ran after))).record json live
        (.ran after) = { p.call (Chain.deliverInbound json live (.ran after)) with
          unpublished := false, unsaved := false } := if_pos hchanged
    rw [hrecord]
    refine flagged_save p (publish json after.mailbox) ?_ fun _ entry hentry ↦ ?_
    · simp [deliverInbound, hchanged]
    · exact storage_publish json after.mailbox hentry
  · -- the call only saves the map, whose text is the one before the run
    have hrecord : (p.call (Chain.deliverInbound json live (.ran after))).record json live
        (.ran after) = { p.call (Chain.deliverInbound json live (.ran after)) with
          unpublished := p.unpublished || p.unsaved, unsaved := false } := if_neg hchanged
    rw [hrecord]
    refine flagged_save p [] ?_ fun hpending entry hentry ↦ ?_
    · simp [deliverInbound, hchanged]
    · rw [Bool.or_eq_false_iff] at hpending
      have hsaved := h.saved hpending.2 live hlive
      rw [← not_not.mp hchanged] at hsaved
      exact h.copies hpending.1 after.mailbox hsaved entry hentry

theorem step_deliverInbound {work : Work K}
    (hstep : p.step json empty (.deliverInbound work) = some p') :
    ∃ live, p.live = some live ∧
      p' = (p.call (Chain.deliverInbound json live work)).record json live work := by
  simp only [Publisher.step] at hstep
  split at hstep
  · cases hstep
  · rename_i live hlive
    exact ⟨live, hlive, (Option.some.inj hstep).symm⟩

theorem step (h : Flagged json p) {event : PublisherEvent K}
    (hstep : p.step json empty event = some p') : Flagged json p' := by
  cases event with
  | launch buildSwingset =>
    simp only [Publisher.step] at hstep
    split at hstep
    · rename_i start c hlive hstart hlaunch
      obtain rfl := Option.some.inj hstep
      exact h.launch empty hstart (effects_of_launch json hlaunch)
    · obtain rfl := Option.some.inj hstep
      exact h
    · cases hstep
  | deliverInbound work =>
    obtain ⟨live, hlive, rfl⟩ := step_deliverInbound empty hstep
    cases work with
    | nothing =>
      refine ⟨h.copies, fun hsaved m hm ↦ h.saved hsaved m ?_, h.entry⟩
      rw [hlive]
      exact hm
    | ran after => exact h.ran hlive after
    | threw after =>
      refine ⟨h.copies, fun hsaved m hm ↦ ?_, h.entry⟩
      obtain rfl := Option.some.inj hm
      have hflags : (p.unsaved || decide (Changed json live after)) = false := hsaved
      rw [Bool.or_eq_false_iff, decide_eq_false_iff_not, Changed, ne_eq, not_not] at hflags
      have hentry := h.saved hflags.1 live hlive
      rw [← hflags.2] at hentry
      exact hentry
  | restart =>
    obtain rfl := Option.some.inj hstep
    exact ⟨h.copies, by simp, h.entry⟩

/-- A call that returns normally leaves nothing pending, when it found nothing pending or changed
the map. -/
theorem published (h : Flagged json p) {event : PublisherEvent K}
    (hpending : NothingPending json p event p') (hstep : p.step json empty event = some p') :
    Published json p event p' := by
  have hflagged := h.step empty hstep
  cases event with
  | launch buildSwingset => trivial
  | restart => trivial
  | deliverInbound work =>
    obtain ⟨live, hlive, rfl⟩ := step_deliverInbound empty hstep
    cases work with
    | threw after => trivial
    | nothing => exact hflagged.upToDate hpending.1 hpending.2
    | ran after =>
      by_cases hchanged : Changed json live after
      · refine hflagged.upToDate ?_ ?_ <;> simp [Publisher.record, hchanged]
      · rcases hpending with hall | ⟨hpublished, hsaved⟩
        · exact absurd (hall live hlive) hchanged
        · refine hflagged.upToDate ?_ ?_ <;>
            simp [Publisher.record, hchanged, Publisher.call, hpublished, hsaved]

end Flagged

/-- In every run in which a call that returns normally and whose run has not changed the map finds
no change of the map unpublished or unsaved, each call that returns normally leaves the entry
`mailbox` and the copy of every peer as the texts of the map in memory. -/
theorem published_of_nothingPending (json : DeterministicJson) (empty : K)
    (events : List (PublisherEvent K))
    (hpending :
      AllSteps (Publisher.step json empty) (NothingPending json) Publisher.genesis events) :
    AllSteps (Publisher.step json empty) (Published json) Publisher.genesis events := by
  refine AllSteps.of_invariant (I := Flagged json) ?_ ?_ flagged_genesis hpending
  · intro p event p' hflagged _ hstep
    exact hflagged.step empty hstep
  · intro p event p' hflagged hpending hstep
    exact hflagged.published empty hpending hstep

/-- A bootstrap run that leaves the map empty, a message that changes it, a restart, and two calls
that find it unchanged. -/
theorem published_restart :
    AllSteps (Publisher.step djson 0) (Published djson) Publisher.genesis
      [.launch (some ⟨.empty, 1⟩), .deliverInbound (.ran ⟨sending, 2⟩), .restart,
        .launch (some ⟨sending, 3⟩), .deliverInbound .nothing,
        .deliverInbound (.ran ⟨sending, 4⟩)] :=
  published_of_nothingPending djson 0 _ (by decide +kernel)

/-- The bootstrap run fills an outbox, and the first call finds no new work. -/
def bootstrapped : List (PublisherEvent ℕ) :=
  [.launch (some ⟨sending, 1⟩), .deliverInbound .nothing]

/-- A run changes the map and throws, and the next call finds no new work. -/
def interrupted : List (PublisherEvent ℕ) :=
  [.launch (some ⟨.empty, 1⟩), .deliverInbound (.ran ⟨quiet, 2⟩),
    .deliverInbound (.threw ⟨sending, 3⟩), .deliverInbound .nothing]

theorem lagging_not_published :
    (run (Publisher.step djson 0) Publisher.genesis bootstrapped).isSome ∧
      ¬ AllSteps (Publisher.step djson 0) (Published djson) Publisher.genesis bootstrapped ∧
      (run (Publisher.step djson 0) Publisher.genesis interrupted).isSome ∧
      ¬ AllSteps (Publisher.step djson 0) (Published djson) Publisher.genesis interrupted := by
  decide +kernel

end CosmicSwingset.Chain
