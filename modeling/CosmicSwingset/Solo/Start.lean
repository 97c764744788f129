import CosmicSwingset.Foundation.Transition
import CosmicSwingset.Solo.AtomicReplaceFile
import CosmicSwingset.Solo.Outbound

/-!
# The kernel loop of the solo node

`buildSwingset` of `start.js`: the bootstrap run, `deliverInbound` and `deliverInboundCommand` each
go through `processKernel`, which awaits `controller.run()`, then awaits `saveState()`, then calls
`deliver(mbs)`. `saveState` captures the mailbox map and the kernel state together and awaits
`atomicReplaceFile`. Nothing keeps two of these calls apart, so any of them may go on while the
others stand at an await: `step` takes one such turn of one call.

The kernel itself is not in the repository: whenever a run is under way, `crank` may take the
machine to any state at all.
-/

set_option autoImplicit false
set_option relaxedAutoImplicit false

namespace CosmicSwingset.Solo

open SwingSet

variable {K : Type*}

/-- Where a call of `processKernel` stands. `saving .returned` is the moment before
`deliver(mbs)`, after `saveState` has resolved. -/
inductive Phase (K : Type*)
  | running
  | saving (replacing : Replacing (Machine K))
  | delivered
  | rejected
  deriving DecidableEq

/-- The phase of a call that awaits `saveState`: when `atomicReplaceFile` throws, so does the
call. -/
def Phase.awaiting : Replacing (Machine K) → Phase K
  | .threw => .rejected
  | replacing => .saving replacing

theorem Phase.eq_of_awaiting {replacing other : Replacing (Machine K)}
    (h : Phase.awaiting replacing = .saving other) : other = replacing := by
  cases replacing <;> simp_all [Phase.awaiting]

/-- The solo node: the machine in memory, `swingstate.json`, `knownTargets`, and the calls of
`processKernel` in the order they were made, the bootstrap's first. -/
structure Node (K : Type*) where
  live : Machine K
  file : Contents (Machine K)
  known : KnownTargets
  calls : List (Phase K)

/-- One turn of the node.

* `deliverInbound`: the call finds no new work, or `mb.deliverInbound` has queued the messages in
  the kernel, whose state is now `kernel`.
* `deliverInboundCommand`: `cm.inboundCommand` has queued the command.
* `crank i`: the kernel run that call `i` awaits makes progress.
* `ran i`: that run ends, and `saveState` captures the machine; or it throws.
* `file i`: the file operation that call `i` awaits completes.
* `deliver i`: call `i` goes on after `saveState`. -/
inductive Event (K : Type*)
  | deliverInbound (kernel : Option K)
  | deliverInboundCommand (kernel : K)
  | crank (i : ℕ) (machine : Machine K)
  | ran (i : ℕ) (ok : Bool)
  | file (i : ℕ) (event : FileEvent)
  | deliver (i : ℕ)

/-- A fresh call of `processKernel`. -/
def Node.processKernel (n : Node K) : Node K :=
  { n with calls := n.calls ++ [.running] }

/-- `buildSwingset` has returned, so that its two entry points can be called. -/
def Node.built (n : Node K) : Bool :=
  match n.calls with
  | .delivered :: _ => true
  | _ => false

def Node.step (n : Node K) : Event K → Option (Node K)
  | .deliverInbound none => if n.built then some n else none
  | .deliverInbound (some kernel) =>
    if n.built then some { n with live.kernel := kernel }.processKernel else none
  | .deliverInboundCommand kernel =>
    if n.built then some { n with live.kernel := kernel }.processKernel else none
  | .crank i machine =>
    match n.calls[i]? with
    | some .running => some { n with live := machine }
    | _ => none
  | .ran i ok =>
    match n.calls[i]? with
    | some .running =>
      some { n with calls := n.calls.set i (if ok then .saving (.opening n.live) else .rejected) }
    | _ => none
  | .file i event =>
    match n.calls[i]? with
    | some (.saving replacing) =>
      match replacing.step event with
      | some (replacing', put) =>
        some
          { n with
            calls := n.calls.set i (.awaiting replacing')
            file := put.getD n.file }
      | none => none
    | _ => none
  | .deliver i =>
    match n.calls[i]? with
    | some (.saving .returned) =>
      some
        { n with
          calls := n.calls.set i .delivered
          known := (deliver n.known n.live.mailbox).1 }
    | _ => none

section Turns

variable {n n' : Node K} {i : ℕ}

theorem Node.step_deliverInbound {kernel : Option K}
    (hstep : n.step (.deliverInbound kernel) = some n') :
    n.built = true ∧
      (n' = n ∨ ∃ kernel, n' = { n with live.kernel := kernel }.processKernel) := by
  cases kernel with
  | none =>
    simp only [Node.step] at hstep
    split at hstep <;> cases hstep
    rename_i hbuilt
    exact ⟨hbuilt, Or.inl rfl⟩
  | some kernel =>
    simp only [Node.step] at hstep
    split at hstep <;> cases hstep
    rename_i hbuilt
    exact ⟨hbuilt, Or.inr ⟨kernel, rfl⟩⟩

theorem Node.step_deliverInboundCommand {kernel : K}
    (hstep : n.step (.deliverInboundCommand kernel) = some n') :
    n.built = true ∧ n' = { n with live.kernel := kernel }.processKernel := by
  simp only [Node.step] at hstep
  split at hstep <;> cases hstep
  rename_i hbuilt
  exact ⟨hbuilt, rfl⟩

theorem Node.step_crank {machine : Machine K} (hstep : n.step (.crank i machine) = some n') :
    n.calls[i]? = some .running ∧ n' = { n with live := machine } := by
  simp only [Node.step] at hstep
  split at hstep <;> cases hstep
  rename_i hcall
  exact ⟨hcall, rfl⟩

theorem Node.step_ran {ok : Bool} (hstep : n.step (.ran i ok) = some n') :
    n.calls[i]? = some .running ∧
      n' = { n with
        calls := n.calls.set i (if ok then .saving (.opening n.live) else .rejected) } := by
  simp only [Node.step] at hstep
  split at hstep <;> cases hstep
  rename_i hcall
  exact ⟨hcall, rfl⟩

theorem Node.step_file {event : FileEvent} (hstep : n.step (.file i event) = some n') :
    ∃ replacing replacing' put, n.calls[i]? = some (.saving replacing) ∧
      replacing.step event = some (replacing', put) ∧
        n' = { n with calls := n.calls.set i (.awaiting replacing'), file := put.getD n.file } := by
  simp only [Node.step] at hstep
  split at hstep
  · rename_i replacing hcall
    split at hstep <;> cases hstep
    rename_i replacing' put hfile
    exact ⟨replacing, replacing', put, hcall, hfile, rfl⟩
  · cases hstep

theorem Node.step_deliver (hstep : n.step (.deliver i) = some n') :
    n.calls[i]? = some (.saving .returned) ∧
      n' = { n with
        calls := n.calls.set i .delivered
        known := (deliver n.known n.live.mailbox).1 } := by
  simp only [Node.step] at hstep
  split at hstep <;> cases hstep
  rename_i hcall
  exact ⟨hcall, rfl⟩

end Turns

/-- The node that `start` makes from the `swingstate.json` it reads, after adding the targets of
`connections.json`: the bootstrap run is under way. -/
def Node.start (targets : List String) (initialState : Machine K) : Node K where
  live := initialState
  file := .whole initialState
  known := fun target ↦ if target ∈ targets then some ⟨0, 0⟩ else none
  calls := [.running]

end CosmicSwingset.Solo
