import CosmicSwingset.Chain.MailboxJson

/-!
# The SwingSet of the chain node

`launch-chain.js` keeps the SwingSet's state in two places: the kernel state in a file that
`fs.writeFileSync` truncates and writes, and the mailbox map, with a copy for each peer, in
`mailboxStorage`, a store of texts. A call is modelled by the machine it leaves in memory and the
writes it makes, in order (`Call`), so that it may be cut short after any of them.

The kernel is not in the repository: what a run of it makes of the machine is an argument of the
call. Its `mb.deliverInbound` returns false only when it has changed nothing.
-/

set_option autoImplicit false
set_option relaxedAutoImplicit false

namespace CosmicSwingset.Chain

open SwingSet

variable {K : Type*}

/-- What the state file holds: nothing, the text of a kernel state, or text that does not parse. -/
inductive StateFile (K : Type*)
  | absent
  | json (kernel : K)
  | cut
  deriving DecidableEq

/-- The kernel state that `launch` reads: it takes any file it cannot read or parse for an empty
one. -/
def StateFile.kernel (empty : K) : StateFile K → K
  | .json kernel => kernel
  | .absent | .cut => empty

/-- The texts in `mailboxStorage`. -/
abbrev MailboxStorage := String → Option String

/-- One write that outlives the process. -/
inductive Effect (K : Type*)
  | truncateFile
  | writeFile (kernel : K)
  | set (key value : String)

def Effect.onFile (file : StateFile K) : Effect K → StateFile K
  | .truncateFile => .cut
  | .writeFile kernel => .json kernel
  | .set _ _ => file

def Effect.onStorage (storage : MailboxStorage) : Effect K → MailboxStorage
  | .truncateFile | .writeFile _ => storage
  | .set key value => Function.update storage key (some value)

/-- The key of the copy for one peer. -/
def peerKey (peer : String) : String := "mailbox." ++ peer

/-- What a call does when no write fails: the machine it leaves in memory, its writes, and whether
its promise resolves. -/
structure Call (K : Type*) where
  live : Machine K
  effects : List (Effect K)
  resolves : Bool

/-- What `mb.deliverInbound` finds, and the machine after the run of the kernel that follows: no new
work, a run that ends, or a run that throws. -/
inductive Work (K : Type*)
  | nothing
  | ran (after : Machine K)
  | threw (after : Machine K)
  deriving DecidableEq

section Code

variable (json : DeterministicJson)

def saveState (live : Machine K) : List (Effect K) :=
  [.truncateFile, .writeFile live.kernel, .set "mailbox" (json.stringify live.mailbox)]

/-- The mailbox state and the kernel state that `launch` starts from: a missing entry is an empty
map, and one it cannot parse is thrown (`none`). -/
def initialState (empty : K) (file : StateFile K) (storage : MailboxStorage) :
    Option (Machine K) :=
  match storage "mailbox" with
  | none => some ⟨.empty, file.kernel empty⟩
  | some text => (json.parse text).map (⟨·, file.kernel empty⟩)

/-- `launch`, with what `buildSwingset` makes of the initial state: the machine after the bootstrap
run, or an error. `none` is a rejection before anything is written. -/
def launch (empty : K) (file : StateFile K) (storage : MailboxStorage)
    (buildSwingset : Option (Machine K)) : Option (Call K) :=
  match initialState json empty file storage, buildSwingset with
  | some _, some live => some ⟨live, saveState json live, true⟩
  | _, _ => none

/-- The copies for the peers of a changed map. -/
def publish (newState : MailboxData) : List (Effect K) :=
  newState.entries.map fun entry ↦ .set (peerKey entry.1) (json.stringifyPeer entry.2)

/-- The map has changed: `newData !== oldData`. -/
def Changed (live after : Machine K) : Prop :=
  json.stringify after.mailbox ≠ json.stringify live.mailbox

instance (live after : Machine K) : Decidable (Changed json live after) :=
  inferInstanceAs (Decidable (_ ≠ _))

def deliverInbound (live : Machine K) : Work K → Call K
  | .nothing => ⟨live, [], true⟩
  | .threw after => ⟨after, [], false⟩
  | .ran after =>
    { live := after
      effects := (if Changed json live after then publish json after.mailbox else []) ++
        saveState json after
      resolves := true }

end Code

/-! ### Keys -/

theorem peerKey_injective {peer peer' : String} (h : peerKey peer = peerKey peer') :
    peer = peer' :=
  (String.append_right_inj "mailbox.").mp h

theorem peerKey_ne_mailbox (peer : String) : peerKey peer ≠ "mailbox" := by
  intro h
  have hlength := congrArg String.length h
  rw [peerKey, String.length_append] at hlength
  have hprefix : "mailbox.".length = "mailbox".length + 1 := by decide
  omega

/-! ### What the writes leave -/

variable (json : DeterministicJson) (storage : MailboxStorage)

theorem storage_saveState (live : Machine K) :
    (saveState json live).foldl Effect.onStorage storage =
      Function.update storage "mailbox" (some (json.stringify live.mailbox)) := rfl

/-- A copy for a peer is a text under another key than `mailbox`. -/
def Effect.IsCopy (effect : Effect K) : Prop :=
  ∃ key value, effect = .set key value ∧ key ≠ "mailbox"

theorem isCopy_of_mem_publish {newState : MailboxData} {effect : Effect K}
    (h : effect ∈ publish json newState) : effect.IsCopy := by
  obtain ⟨entry, -, rfl⟩ := List.mem_map.mp h
  exact ⟨_, _, rfl, peerKey_ne_mailbox entry.1⟩

variable {storage}

/-- What a copy leaves alone, any number of copies does. -/
theorem foldl_copies {σ : Type*} {f : σ → Effect K → σ}
    (hf : ∀ s effect, effect.IsCopy → f s effect = s) {copies : List (Effect K)}
    (h : ∀ effect ∈ copies, effect.IsCopy) (s : σ) : copies.foldl f s = s := by
  induction copies with
  | nil => rfl
  | cons effect copies ih =>
    rw [List.forall_mem_cons] at h
    rw [List.foldl_cons, hf s effect h.1, ih h.2]

/-- Writes that do not set a key leave its text. -/
theorem storage_other {effects : List (Effect K)} {key : String}
    (h : ∀ effect ∈ effects, ∀ value, effect ≠ .set key value) :
    effects.foldl Effect.onStorage storage key = storage key := by
  induction effects generalizing storage with
  | nil => rfl
  | cons effect effects ih =>
    rw [List.forall_mem_cons] at h
    rw [List.foldl_cons, ih h.2]
    cases effect with
    | truncateFile => rfl
    | writeFile kernel => rfl
    | set other value =>
      refine Function.update_of_ne (fun hkey ↦ h.1 value ?_) _ _
      rw [hkey]

theorem mailbox_copies {copies : List (Effect K)} (h : ∀ effect ∈ copies, effect.IsCopy) :
    copies.foldl Effect.onStorage storage "mailbox" = storage "mailbox" := by
  refine storage_other fun effect heffect value ↦ ?_
  obtain ⟨key, text, rfl, hkey⟩ := h effect heffect
  exact fun hset ↦ hkey (Effect.set.inj hset).1

/-- The copies of a map are found under the keys of its peers. -/
theorem storage_publish (data : MailboxData) {entry : String × Mailbox}
    (hentry : entry ∈ data.entries) :
    (publish json data : List (Effect K)).foldl Effect.onStorage storage (peerKey entry.1) =
      some (json.stringifyPeer entry.2) := by
  obtain ⟨entries, hdistinct⟩ := data
  simp only [publish] at hentry ⊢
  induction entries generalizing storage with
  | nil => exact absurd hentry List.not_mem_nil
  | cons first rest ih =>
    rw [List.map_cons, List.nodup_cons] at hdistinct
    rw [List.map_cons, List.foldl_cons]
    rcases List.mem_cons.mp hentry with rfl | hrest
    · rw [storage_other, Effect.onStorage, Function.update_self]
      intro effect heffect value hset
      obtain ⟨other, hother, rfl⟩ := List.mem_map.mp heffect
      have hpeer := peerKey_injective (Effect.set.inj hset).1
      exact hdistinct.1 (List.mem_map.mpr ⟨other, hother, hpeer⟩)
    · exact ih hdistinct.2 hrest

/-- The writes of a call: none, or copies for peers and then a save of the machine it leaves. -/
def Call.Saves (call : Call K) : Prop :=
  call.effects = [] ∨ ∃ copies : List (Effect K), (∀ effect ∈ copies, effect.IsCopy) ∧
    call.effects = copies ++ saveState json call.live

theorem effects_of_launch {empty : K} {file : StateFile K} {buildSwingset : Option (Machine K)}
    {call : Call K} (h : launch json empty file storage buildSwingset = some call) :
    call.effects = saveState json call.live := by
  unfold launch at h
  split at h
  · obtain rfl := Option.some.inj h
    rfl
  · cases h

theorem saves_of_launch {empty : K} {file : StateFile K} {buildSwingset : Option (Machine K)}
    {call : Call K} (h : launch json empty file storage buildSwingset = some call) :
    call.Saves json :=
  Or.inr ⟨[], by simp, effects_of_launch json h⟩

theorem saves_deliverInbound (live : Machine K) (work : Work K) :
    (deliverInbound json live work).Saves json := by
  cases work with
  | nothing => exact Or.inl rfl
  | threw after => exact Or.inl rfl
  | ran after =>
    refine Or.inr ⟨if Changed json live after then publish json after.mailbox else [], ?_, rfl⟩
    intro effect heffect
    by_cases hchanged : Changed json live after
    · rw [if_pos hchanged] at heffect
      exact isCopy_of_mem_publish json heffect
    · rw [if_neg hchanged] at heffect
      exact absurd heffect List.not_mem_nil

/-! ### Two maps for concrete runs -/

/-- A map with one peer and nothing to send. -/
def quiet : MailboxData := ⟨[("alice", ⟨[], 0⟩)], by decide⟩

/-- The same map after the kernel has put a message in the outbox. -/
def sending : MailboxData := ⟨[("alice", ⟨[⟨1, "hello"⟩], 0⟩)], by decide⟩

end CosmicSwingset.Chain
