import CosmicSwingset.Solo.Start

/-!
# The order in which checkpoints reach the file

`saveState` captures its snapshot at once and then awaits four file operations of its own, so that
the saves of overlapping calls race for `swingstate.json`. The file should not go back from a
snapshot to one captured before it. `start.js` knows of the overlap ("synchronize this somehow, make
sure it doesn't overlap with the processKernel() call in deliverInbound()") but does nothing about
it, and in the run `overtakenSave` the older of two snapshots is renamed last
(`overtakenSave_not_neverBackwards`).

`History` keeps with the node the order of the captures and that of the renames. When no save puts
its snapshot in the file while one captured before it is still pending, the file never goes back
(`neverBackwards_of_savesInTurn`): the invariant is that whatever was captured before a snapshot
that is, or was, in the file has ended (`InTurn`).
-/

set_option autoImplicit false
set_option relaxedAutoImplicit false

namespace CosmicSwingset.Solo

open Foundation SwingSet

variable {K : Type*}

/-- The call has still to rename its snapshot onto the target file, or to fail. -/
def Replacing.pending {α : Type*} : Replacing α → Bool
  | .opening _ | .writing _ | .closing _ | .replacing _ => true
  | .unlinking | .returned | .threw => false

def Phase.pending : Phase K → Bool
  | .saving replacing => replacing.pending
  | .running | .delivered | .rejected => false

/-- The save of call `i` is pending. -/
def Node.pending (n : Node K) (i : ℕ) : Bool :=
  n.calls[i]?.any Phase.pending

/-- The kernel run that call `i` awaited is over. -/
def Node.Ran (n : Node K) (i : ℕ) : Prop :=
  ∃ call, n.calls[i]? = some call ∧ call ≠ .running

/-- A node with the calls whose saves have captured their snapshots so far, and those whose
snapshots have been renamed onto `swingstate.json`, each in the order in which they did. -/
structure History (K : Type*) where
  node : Node K
  captured : List ℕ
  renamed : List ℕ

namespace History

def start (targets : List String) (initialState : Machine K) : History K :=
  ⟨Node.start targets initialState, [], []⟩

def step (h : History K) (event : Event K) : Option (History K) :=
  match h.node.step event with
  | none => none
  | some node =>
    match event with
    | .ran i true => some { h with node, captured := h.captured ++ [i] }
    | .file i (.renamed true) => some { h with node, renamed := h.renamed ++ [i] }
    | _ => some { h with node }

/-- The snapshot of call `i` was captured before that of call `j`. -/
def Before (h : History K) (i j : ℕ) : Prop :=
  [i, j].Sublist h.captured

instance (h : History K) (i j : ℕ) : Decidable (h.Before i j) :=
  inferInstanceAs (Decidable ([i, j].Sublist h.captured))

end History

/-- A rename does not replace a snapshot, now or ever in the file, by one captured before it. -/
def NeverBackwards (h : History K) (event : Event K) (_ : History K) : Prop :=
  match event with
  | .file i (.renamed true) => ∀ j ∈ h.renamed, ¬ h.Before i j
  | _ => True

instance (h : History K) (event : Event K) (h' : History K) :
    Decidable (NeverBackwards h event h') :=
  match event with
  | .file i (.renamed true) => inferInstanceAs (Decidable (∀ j ∈ h.renamed, ¬ h.Before i j))
  | .file _ (.renamed false) | .file _ (.opened _) | .file _ (.wrote _) | .file _ (.closed _)
  | .file _ (.unlinked _) | .deliverInbound _ | .deliverInboundCommand _ | .crank _ _ | .ran _ _
  | .deliver _ => .isTrue trivial

/-- A rename comes when every save that captured its snapshot before this one has ended. -/
def SavesInTurn (h : History K) (event : Event K) (_ : History K) : Prop :=
  match event with
  | .file j (.renamed true) => ∀ i ∈ h.captured, h.Before i j → h.node.pending i = false
  | _ => True

instance (h : History K) (event : Event K) (h' : History K) :
    Decidable (SavesInTurn h event h') :=
  match event with
  | .file j (.renamed true) =>
    inferInstanceAs (Decidable (∀ i ∈ h.captured, h.Before i j → h.node.pending i = false))
  | .file _ (.renamed false) | .file _ (.opened _) | .file _ (.wrote _) | .file _ (.closed _)
  | .file _ (.unlinked _) | .deliverInbound _ | .deliverInboundCommand _ | .crank _ _ | .ran _ _
  | .deliver _ => .isTrue trivial

/-! ### What a turn does to the saves -/

theorem Replacing.pending_of_step {α : Type*} {call call' : Replacing α} {event : FileEvent}
    {put : Option (Contents α)} (hstep : call.step event = some (call', put))
    (hpending : call'.pending = true) : call.pending = true := by
  revert hstep hpending
  fun_cases Replacing.step call event
  case case11 => rintro ⟨⟩
  all_goals
    rintro ⟨⟩ hpending
    first | rfl | exact hpending

theorem Phase.pending_awaiting (replacing : Replacing (Machine K)) :
    (Phase.awaiting replacing).pending = replacing.pending := by
  cases replacing <;> rfl

theorem Phase.awaiting_ne_running (replacing : Replacing (Machine K)) :
    Phase.awaiting replacing ≠ .running := by
  cases replacing <;> simp [Phase.awaiting]

/-- What a turn does to the calls: nothing, a new call, or one call goes on, and does not become
pending but by capturing its snapshot. -/
theorem Node.calls_of_step {n n' : Node K} {event : Event K} (hstep : n.step event = some n') :
    n'.calls = n.calls ∨ n'.calls = n.calls ++ [.running] ∨
      ∃ i call call', n.calls[i]? = some call ∧ n'.calls = n.calls.set i call' ∧
        call' ≠ .running ∧
        (call'.pending = true → call.pending = true ∨ event = .ran i true ∧ call = .running) := by
  cases event with
  | deliverInbound kernel =>
    obtain ⟨-, rfl | ⟨kernel, rfl⟩⟩ := Node.step_deliverInbound hstep
    · exact Or.inl rfl
    · exact Or.inr (Or.inl rfl)
  | deliverInboundCommand kernel =>
    obtain ⟨-, rfl⟩ := Node.step_deliverInboundCommand hstep
    exact Or.inr (Or.inl rfl)
  | crank i machine =>
    obtain ⟨-, rfl⟩ := Node.step_crank hstep
    exact Or.inl rfl
  | ran i ok =>
    obtain ⟨hcall, rfl⟩ := Node.step_ran hstep
    refine Or.inr (Or.inr ⟨i, _, _, hcall, rfl, ?_⟩)
    cases ok with
    | true => exact ⟨by simp, fun _ ↦ Or.inr ⟨rfl, rfl⟩⟩
    | false => exact ⟨by simp, fun hpending ↦ by simp [Phase.pending] at hpending⟩
  | file i event =>
    obtain ⟨replacing, replacing', put, hcall, hfile, rfl⟩ := Node.step_file hstep
    refine Or.inr (Or.inr ⟨i, _, _, hcall, rfl, Phase.awaiting_ne_running _, fun hpending ↦ ?_⟩)
    rw [Phase.pending_awaiting] at hpending
    exact Or.inl (Replacing.pending_of_step hfile hpending)
  | deliver i =>
    obtain ⟨hcall, rfl⟩ := Node.step_deliver hstep
    exact Or.inr (Or.inr ⟨i, _, _, hcall, rfl, by simp,
      fun hpending ↦ by simp [Phase.pending] at hpending⟩)

/-- A save becomes pending only by capturing its snapshot. -/
theorem Node.pending_of_step {n n' : Node K} {event : Event K} (hstep : n.step event = some n')
    {i : ℕ} (hpending : n'.pending i = true) : n.pending i = true ∨ event = .ran i true := by
  unfold Node.pending at hpending ⊢
  rcases Node.calls_of_step hstep with hsame | hnew | ⟨k, call, call', hcall, hset, -, hcaptures⟩
  · rw [hsame] at hpending
    exact Or.inl hpending
  · rw [hnew, List.getElem?_append] at hpending
    split_ifs at hpending with hlt
    · exact Or.inl hpending
    · cases hindex : i - n.calls.length <;> simp [hindex, Phase.pending] at hpending
  · rw [hset, List.getElem?_set] at hpending
    split_ifs at hpending with hki hlt
    · subst hki
      rw [hcall]
      exact (hcaptures hpending).imp id And.left
    · exact absurd hpending Bool.false_ne_true
    · exact Or.inl hpending

/-- The end of a kernel run is for good. -/
theorem Node.ran_of_step {n n' : Node K} {event : Event K} (hstep : n.step event = some n')
    {i : ℕ} (hran : n.Ran i) : n'.Ran i := by
  obtain ⟨call, hcall, hrunning⟩ := hran
  have hlt := (List.getElem?_eq_some_iff.mp hcall).1
  unfold Node.Ran
  rcases Node.calls_of_step hstep with hsame | hnew | ⟨k, old, call', -, hset, hrunning', -⟩
  · exact ⟨call, hsame ▸ hcall, hrunning⟩
  · exact ⟨call, by rw [hnew, List.getElem?_append_left hlt, hcall], hrunning⟩
  · by_cases hki : k = i
    · subst hki
      exact ⟨call', by rw [hset, List.getElem?_set_self hlt], hrunning'⟩
    · exact ⟨call, by rw [hset, List.getElem?_set_ne hki, hcall], hrunning⟩

/-- A snapshot is captured at the end of a run. -/
theorem Node.ran_of_captured {n n' : Node K} {i : ℕ} (hstep : n.step (.ran i true) = some n') :
    ¬ n.Ran i ∧ n'.Ran i := by
  obtain ⟨hcall, rfl⟩ := Node.step_ran hstep
  refine ⟨?_, .saving (.opening n.live), ?_, by simp⟩
  · rintro ⟨call, hcall', hrunning⟩
    exact hrunning (Option.some.inj (hcall'.symm.trans hcall))
  · exact List.getElem?_set_self (List.getElem?_eq_some_iff.mp hcall).1

/-- A rename is by a pending save. -/
theorem Node.pending_of_renamed {n n' : Node K} {i : ℕ}
    (hstep : n.step (.file i (.renamed true)) = some n') : n.pending i = true := by
  obtain ⟨replacing, replacing', put, hcall, hfile, rfl⟩ := Node.step_file hstep
  cases replacing <;> simp only [Replacing.step, reduceCtorEq] at hfile
  simp [Node.pending, hcall, Phase.pending, Replacing.pending]

/-! ### Saves in turn -/

/-- Whatever was captured before a snapshot that has been renamed onto the file has ended. -/
structure InTurn (h : History K) : Prop where
  ran : ∀ i ∈ h.captured, h.node.Ran i
  pending : ∀ i, h.node.pending i = true → i ∈ h.captured
  captured : ∀ j ∈ h.renamed, j ∈ h.captured
  ended : ∀ j ∈ h.renamed, ∀ i, h.Before i j → h.node.pending i = false

theorem inTurn_start (targets : List String) (initialState : Machine K) :
    InTurn (History.start targets initialState) := by
  constructor
  · simp [History.start]
  · intro i hpending
    cases i <;> simp [History.start, Node.start, Node.pending, Phase.pending] at hpending
  · simp [History.start]
  · simp [History.start]

/-- A turn that neither captures nor renames. -/
theorem InTurn.other {h : History K} (hturn : InTurn h) {event : Event K} {node : Node K}
    (hstep : h.node.step event = some node) (hcapture : ∀ i, event ≠ .ran i true) :
    InTurn { h with node } := by
  have hpending : ∀ i, node.pending i = true → h.node.pending i = true := fun i hi ↦
    (Node.pending_of_step hstep hi).resolve_right (hcapture i)
  refine ⟨fun i hi ↦ Node.ran_of_step hstep (hturn.ran i hi),
    fun i hi ↦ hturn.pending i (hpending i hi), hturn.captured, fun j hj i hbefore ↦ ?_⟩
  rw [Bool.eq_false_iff]
  intro hi
  exact Bool.false_ne_true ((hturn.ended j hj i hbefore).symm.trans (hpending i hi))

/-- A capture comes after all that were made before. -/
theorem before_append {captured : List ℕ} {i j k : ℕ} (hj : j ≠ k)
    (hbefore : [i, j].Sublist (captured ++ [k])) : [i, j].Sublist captured := by
  have hreverse := hbefore.reverse
  rw [List.reverse_append, List.reverse_singleton, List.singleton_append] at hreverse
  cases hreverse with
  | cons _ hrest =>
    rw [← List.reverse_sublist]
    exact hrest
  | cons_cons _ hrest => exact absurd rfl hj

theorem InTurn.captures {h : History K} (hturn : InTurn h) {k : ℕ} {node : Node K}
    (hstep : h.node.step (.ran k true) = some node) :
    InTurn { h with node, captured := h.captured ++ [k] } := by
  obtain ⟨hrunning, hran⟩ := Node.ran_of_captured hstep
  have hnew : k ∉ h.captured := fun hk ↦ hrunning (hturn.ran k hk)
  refine ⟨fun i hi ↦ ?_, fun i hi ↦ ?_,
    fun j hj ↦ List.mem_append_left _ (hturn.captured j hj), ?_⟩
  · rcases List.mem_append.mp hi with hold | hlast
    · exact Node.ran_of_step hstep (hturn.ran i hold)
    · rw [List.mem_singleton.mp hlast]
      exact hran
  · rcases Node.pending_of_step hstep hi with hold | hcapture
    · exact List.mem_append_left _ (hturn.pending i hold)
    · injection hcapture with hki
      exact List.mem_append_right _ (List.mem_singleton.mpr hki.symm)
  · intro j hj i hbefore
    have hjk : j ≠ k := ne_of_mem_of_not_mem (hturn.captured j hj) hnew
    have hold : h.Before i j := before_append hjk hbefore
    have hik : i ≠ k := ne_of_mem_of_not_mem (hold.subset List.mem_cons_self) hnew
    rw [Bool.eq_false_iff]
    intro hpending
    rcases Node.pending_of_step hstep hpending with hpending' | hcapture
    · exact Bool.false_ne_true ((hturn.ended j hj i hold).symm.trans hpending')
    · injection hcapture with hki
      exact hik hki.symm

theorem InTurn.renames {h : History K} (hturn : InTurn h) {k : ℕ} {node : Node K}
    (hstep : h.node.step (.file k (.renamed true)) = some node)
    (hended : ∀ i ∈ h.captured, h.Before i k → h.node.pending i = false) :
    InTurn { h with node, renamed := h.renamed ++ [k] } := by
  have hother := hturn.other hstep nofun
  have hcaptured := hturn.pending k (Node.pending_of_renamed hstep)
  refine ⟨hother.ran, hother.pending, fun j hj ↦ ?_, fun j hj i hbefore ↦ ?_⟩
  · rcases List.mem_append.mp hj with hold | hlast
    · exact hturn.captured j hold
    · rw [List.mem_singleton.mp hlast]
      exact hcaptured
  · rcases List.mem_append.mp hj with hold | hlast
    · exact hother.ended j hold i hbefore
    · rw [List.mem_singleton.mp hlast] at hbefore
      rw [Bool.eq_false_iff]
      intro hpending
      rcases Node.pending_of_step hstep hpending with hpending' | hcapture
      · have hmem : i ∈ h.captured := hbefore.subset List.mem_cons_self
        exact Bool.false_ne_true ((hended i hmem hbefore).symm.trans hpending')
      · cases hcapture

/-- What a turn does to the two orders. -/
theorem History.step_cases {h h' : History K} {event : Event K} (hstep : h.step event = some h') :
    ∃ node, h.node.step event = some node ∧
      ((∃ k, event = .ran k true ∧ h' = { h with node, captured := h.captured ++ [k] }) ∨
        (∃ k, event = .file k (.renamed true) ∧
          h' = { h with node, renamed := h.renamed ++ [k] }) ∨
        (∀ k, event ≠ .ran k true) ∧ (∀ k, event ≠ .file k (.renamed true)) ∧
          h' = { h with node }) := by
  unfold History.step at hstep
  split at hstep
  · cases hstep
  · rename_i node hnode
    refine ⟨node, hnode, ?_⟩
    split at hstep
    · rename_i k
      exact Or.inl ⟨k, rfl, (Option.some.inj hstep).symm⟩
    · rename_i k
      exact Or.inr (Or.inl ⟨k, rfl, (Option.some.inj hstep).symm⟩)
    · rename_i hcapture hrename
      exact Or.inr (Or.inr ⟨hcapture, hrename, (Option.some.inj hstep).symm⟩)

theorem InTurn.step {h h' : History K} (hturn : InTurn h) {event : Event K}
    (hsaves : SavesInTurn h event h') (hstep : h.step event = some h') : InTurn h' := by
  obtain ⟨node, hnode, ⟨k, rfl, rfl⟩ | ⟨k, rfl, rfl⟩ | ⟨hcapture, -, rfl⟩⟩ :=
    History.step_cases hstep
  · exact hturn.captures hnode
  · exact hturn.renames hnode hsaves
  · exact hturn.other hnode hcapture

/-- A rename is never by a save captured before a snapshot already renamed: that save has ended. -/
theorem InTurn.neverBackwards {h h' : History K} (hturn : InTurn h) {event : Event K}
    (hstep : h.step event = some h') : NeverBackwards h event h' := by
  obtain ⟨node, hnode, ⟨k, rfl, -⟩ | ⟨k, rfl, -⟩ | ⟨-, hrename, -⟩⟩ := History.step_cases hstep
  · trivial
  · intro j hj hbefore
    have hended := hturn.ended j hj k hbefore
    exact Bool.false_ne_true (hended.symm.trans (Node.pending_of_renamed hnode))
  · unfold NeverBackwards
    split
    · rename_i k
      exact absurd rfl (hrename k)
    · trivial

/-- In every run of the node, with any overlap of calls and any completions of their file
operations, in which a snapshot is renamed onto `swingstate.json` only when every save captured
before it has ended: no snapshot ever replaces one that was captured after it. -/
theorem neverBackwards_of_savesInTurn (targets : List String) (initialState : Machine K)
    (events : List (Event K))
    (hsaves : AllSteps History.step SavesInTurn (.start targets initialState) events) :
    AllSteps History.step NeverBackwards (.start targets initialState) events := by
  refine AllSteps.of_invariant (I := InTurn) ?_ ?_ (inTurn_start targets initialState) hsaves
  · intro h event h' hturn hsaves hstep
    exact hturn.step hsaves hstep
  · intro h event h' hturn _ hstep
    exact hturn.neverBackwards hstep

section Runs

/-- A machine with an empty mailbox map, of which only the kernel state matters. -/
def kernelAt (kernel : ℕ) : Machine ℕ := ⟨.empty, kernel⟩

/-- The file operations of call `i`, all of them successful. -/
def replaceTurns (i : ℕ) : List (Event ℕ) :=
  [.file i (.opened true), .file i (.wrote .all), .file i (.closed true), .file i (.renamed true)]

/-- The bootstrap run and two commands whose saves overlap: the second captures its snapshot while
the first is still pending, and the kernel has gone on in between. -/
def overlappingSaves : List (Event ℕ) :=
  [.ran 0 true] ++ replaceTurns 0 ++
    [.deliver 0, .deliverInboundCommand 1, .ran 1 true, .deliverInboundCommand 2,
      .crank 2 (kernelAt 3), .ran 2 true]

theorem neverBackwards_inTurn :
    AllSteps History.step NeverBackwards (.start [] (kernelAt 0))
      (overlappingSaves ++ replaceTurns 1 ++ replaceTurns 2) :=
  neverBackwards_of_savesInTurn _ _ _ (by decide)

/-- The operations of the second save complete first. -/
def overtakenSave : List (Event ℕ) :=
  overlappingSaves ++ replaceTurns 2 ++ replaceTurns 1

theorem overtakenSave_not_neverBackwards :
    (∃ h, run History.step (.start [] (kernelAt 0)) overtakenSave = some h ∧
        h.captured = [0, 1, 2] ∧ h.renamed = [0, 2, 1] ∧
        h.node.live = kernelAt 3 ∧ h.node.file = .whole (kernelAt 1)) ∧
      ¬ AllSteps History.step NeverBackwards (.start [] (kernelAt 0)) overtakenSave := by
  exact ⟨⟨_, rfl, rfl, rfl, rfl, rfl⟩, by decide⟩

end Runs

end CosmicSwingset.Solo
