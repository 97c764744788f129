import CosmicSwingset.Solo.Submissions

/-!
# A batch that the chain does not take

`ag-cosmos-helper` exits with an error when the message of a batch is not valid, an empty body among
its messages for instance, and `queuedHelper` starts it again for as long as it fails. Such a batch
is never sent, and it holds up all that were queued behind it: no call of theirs is ever made
(`blocked_of_run`). The invariant is that whatever is on its way or in a block, the batches ahead of
it are valid (`Vetted`), because the helper of a call is started only when the calls ahead of it
have ended, and a call ends only when its helper has broadcast.
-/

set_option autoImplicit false
set_option relaxedAutoImplicit false

namespace CosmicSwingset.Solo

open Foundation SwingSet Chain

/-- A helper process that exits without an error has broadcast its transaction. -/
def SpeaksOut (l : Link) (event : LinkEvent) (_ : Link) : Prop :=
  match event with
  | .sender (.delivery target (.exited entry (.reported _))) => (target, entry) ∈ l.spoken
  | _ => True

instance (l : Link) (event : LinkEvent) (l' : Link) : Decidable (SpeaksOut l event l') :=
  match event with
  | .sender (.delivery target (.exited entry (.reported _))) =>
    inferInstanceAs (Decidable ((target, entry) ∈ l.spoken))
  | .sender (.delivery _ (.exited _ .failed)) | .sender (.delivery _ (.opened _ _))
  | .sender (.delivery _ (.wrote _ _)) | .sender (.delivery _ (.closed _ _))
  | .sender (.delivery _ (.proceed _)) | .sender (.delivery _ (.retry _))
  | .sender (.delivery _ (.unlinked _ _)) | .sender (.exported _)
  | .sender (.addDeliveryTarget _) | .sender .deliver | .broadcast _ _ | .included _ _ _
  | .dropped _ => .isTrue trivial

/-- Helper call `entry` is for a batch that `ValidateBasic` lets through. -/
def Deliveries.Passes (a : Account) (c : Deliveries) (entry : ℕ) : Prop :=
  ∃ content, c.content entry = some content ∧ (a.message content).Valid

variable {a : Account}

theorem Deliveries.Grows.passes {c c' : Deliveries} (h : c.Grows c') {entry : ℕ}
    (hpasses : c.Passes a entry) : c'.Passes a entry := by
  obtain ⟨content, hcontent, hvalid⟩ := hpasses
  exact ⟨content, h.content hcontent, hvalid⟩

/-- What has been broadcast and what has ended is of a valid batch; what is on its way or in a block
has only valid batches ahead of it. -/
structure Vetted (a : Account) (l : Link) : Prop where
  fifo : ∀ target, (l.sender.deliveries target).deliverator.helper.Fifo
  spoken : ∀ x ∈ l.spoken, (l.sender.deliveries x.1).Passes a x.2
  finished : ∀ target entry, (l.sender.deliveries target).phase entry = some .finished →
    (l.sender.deliveries target).Passes a entry
  pool : ∀ s ∈ l.pool, ∀ i ≤ s.entry, (l.sender.deliveries s.target).Passes a i
  log : ∀ x ∈ l.log, ∀ i ≤ x.entry, (l.sender.deliveries x.target).Passes a i

theorem vetted_start (data : MailboxData) (ports : String → Ports) :
    Vetted a (.start data ports) :=
  ⟨fun _ ↦ HelperQueue.fifo_empty, nofun, nofun, nofun, nofun⟩

theorem Deliveries.fifo_of_step {c c' : Deliveries} (h : c.deliverator.helper.Fifo)
    {event : DeliveryEvent} (hstep : c.step event = some c') : c'.deliverator.helper.Fifo := by
  rcases step_turn hstep with ⟨turn, -, hturn⟩ | ⟨-, hsame⟩
  · rcases Deliverator.helper_of_step hturn with ⟨helperTurn, -, hhelper⟩ |
      ⟨-, hsame | ⟨i, hjoined⟩⟩
    · exact h.step hhelper
    · exact hsame ▸ h
    · exact hjoined ▸ h.call i
  · exact hsame ▸ h

/-- A call that has ended had ended before, or its helper process has exited without an error. -/
theorem Deliveries.finished_of_step {c c' : Deliveries} (h : c.deliverator.helper.Fifo)
    {event : DeliveryEvent} (hstep : c.step event = some c') {j : ℕ}
    (hj : c'.phase j = some .finished) :
    c.phase j = some .finished ∨ ∃ code, event = .exited j (.reported code) := by
  obtain ⟨call, hcall, hphase⟩ := Option.map_eq_some_iff.mp hj
  have hkeeps : c.deliverator.helper.calls[j]? = some call → c.phase j = some .finished :=
    fun hbefore ↦ Option.map_eq_some_iff.mpr ⟨call, hbefore, hphase⟩
  rcases step_turn hstep with ⟨turn, hevent, hturn⟩ | ⟨-, hsame⟩
  · rcases Deliverator.helper_of_step hturn with ⟨helperTurn, rfl, hhelper⟩ |
      ⟨-, hsame | ⟨i, hjoined⟩⟩
    · obtain ⟨before, hbefore, hended | hcancelled | rfl⟩ :=
        HelperQueue.finished_of_step hhelper hcall hphase
      · exact Or.inl (Option.map_eq_some_iff.mpr ⟨before, hbefore, hended⟩)
      · exact absurd (h.kept j before hbefore) (by simp [hcancelled])
      · cases event with
        | exited entry outcome =>
          cases outcome with
          | failed => cases hevent
          | reported code =>
            cases hevent
            exact Or.inr ⟨code, rfl⟩
        | _ => cases hevent
    · exact Or.inl (hkeeps (hsame ▸ hcall))
    · rw [hjoined] at hcall
      rcases HelperQueue.getElem?_call.mp hcall with hbefore | ⟨-, rfl⟩
      · exact Or.inl (hkeeps hbefore)
      · cases hphase
  · exact Or.inl (hkeeps (hsame ▸ hcall))

theorem Link.restart_subset (spoken : List (String × ℕ)) (event : SenderEvent) :
    restart spoken event ⊆ spoken := by
  unfold restart
  split
  · exact fun x hx ↦ List.mem_of_mem_filter hx
  · exact List.Subset.refl _

/-- A turn of the outbound side. -/
theorem Vetted.sender {l : Link} (h : Vetted a l) {event : SenderEvent} {sender : Sender}
    (hstep : l.sender.step event = some sender)
    (hspeaks : ∀ target entry code, event = .delivery target (.exited entry (.reported code)) →
      (target, entry) ∈ l.spoken) :
    Vetted a { l with sender, spoken := Link.restart l.spoken event } := by
  have hgrows := Sender.grows hstep
  refine ⟨fun target ↦ ?_, fun x hx ↦ (hgrows x.1).passes (h.spoken x
      (Link.restart_subset l.spoken event hx)), fun target entry hfinished ↦ ?_,
    fun s hs i hi ↦ (hgrows s.target).passes (h.pool s hs i hi),
    fun x hx i hi ↦ (hgrows x.target).passes (h.log x hx i hi)⟩
  · change (sender.deliveries target).deliverator.helper.Fifo
    rcases Sender.step_target hstep target with ⟨-, hsame, -⟩ |
      ⟨-, t, mailbox, -, -, -, hdeliver⟩ | ⟨turn, -, -, hturn⟩
    · exact hsame ▸ h.fifo target
    · exact hdeliver ▸ h.fifo target
    · exact Deliveries.fifo_of_step (h.fifo target) hturn
  · refine (hgrows target).passes ?_
    change (sender.deliveries target).phase entry = some .finished at hfinished
    rcases Sender.step_target hstep target with ⟨-, hsame, -⟩ |
      ⟨-, t, mailbox, -, -, -, hdeliver⟩ | ⟨turn, rfl, -, hturn⟩
    · exact h.finished target entry (hsame ▸ hfinished)
    · rw [hdeliver] at hfinished
      exact h.finished target entry hfinished
    · rcases Deliveries.finished_of_step (h.fifo target) hturn hfinished with
        hbefore | ⟨code, rfl⟩
      · exact h.finished target entry hbefore
      · exact h.spoken _ (hspeaks target entry code rfl)

theorem Vetted.step {l l' : Link} (h : Vetted a l) {event : LinkEvent}
    (hspeaks : SpeaksOut l event l') (hstep : l.step a event = some l') : Vetted a l' := by
  cases event with
  | sender event =>
    obtain ⟨sender, hsender, rfl⟩ := Link.step_sender hstep
    refine h.sender hsender ?_
    rintro target entry code rfl
    exact hspeaks
  | broadcast target entry =>
    obtain ⟨hrunning, -, msg, hmsg, rfl⟩ := Link.step_broadcast hstep
    obtain ⟨content, hcontent, rfl, hvalid⟩ := Account.submit_eq_some hmsg
    have hpasses : (l.sender.deliveries target).Passes a entry := ⟨content, hcontent, hvalid⟩
    refine ⟨h.fifo, fun x hx ↦ ?_, h.finished, fun s hs i hi ↦ ?_, h.log⟩
    · rcases List.mem_cons.mp hx with rfl | hold
      · exact hpasses
      · exact h.spoken x hold
    · rcases List.mem_append.mp hs with hold | hlast
      · exact h.pool s hold i hi
      · obtain rfl := List.mem_singleton.mp hlast
        rcases (show i ≤ entry from hi).eq_or_lt with rfl | hlt
        · exact hpasses
        · exact h.finished target i ((h.fifo target).finished_of_running hrunning hlt)
  | included k blockHeight reply =>
    obtain ⟨s, handled, call, hs, -, -, rfl⟩ := Link.step_included hstep
    refine ⟨h.fifo, h.spoken, h.finished, fun other hother ↦
      h.pool other (List.mem_of_mem_eraseIdx hother), fun x hx ↦ ?_⟩
    rcases List.mem_append.mp hx with hold | hlast
    · exact h.log x hold
    · obtain rfl := List.mem_singleton.mp hlast
      exact h.pool s (List.mem_of_getElem? hs)
  | dropped k =>
    rw [Link.step_dropped hstep]
    exact ⟨h.fifo, h.spoken, h.finished, fun s hs ↦ h.pool s (List.mem_of_mem_eraseIdx hs), h.log⟩

/-- In every run in which helper processes that exit without an error have broadcast: if the message
of a queued batch is not valid, then of this batch and of all that are queued behind it no call is
ever made in the chain's kernel, and no transaction is on its way. -/
theorem blocked_of_run (a : Account) (data : MailboxData) (ports : String → Ports)
    (events : List LinkEvent) (l : Link)
    (hspeaks : AllSteps (Link.step a) SpeaksOut (.start data ports) events)
    (hrun : run (Link.step a) (.start data ports) events = some l) (target : String) (entry : ℕ)
    (content : List Message × ℕ)
    (hcontent : (l.sender.deliveries target).content entry = some content)
    (hinvalid : ¬ (a.message content).Valid) :
    (∀ x ∈ l.log, x.target = target → x.entry < entry) ∧
      ∀ s ∈ l.pool, s.target = target → s.entry < entry := by
  have h : Vetted a l :=
    run_invariant (fun _ _ _ h hguard hstep ↦ h.step hguard hstep) (vetted_start data ports)
      hspeaks hrun
  have hblocked : ¬ (l.sender.deliveries target).Passes a entry := by
    rintro ⟨other, hother, hvalid⟩
    obtain rfl := Option.some.inj (hcontent.symm.trans hother)
    exact hinvalid hvalid
  refine ⟨fun x hx htarget ↦ not_le.mp fun hle ↦ hblocked ?_,
    fun s hs htarget ↦ not_le.mp fun hle ↦ hblocked ?_⟩
  · exact htarget ▸ h.log x hx entry hle
  · exact htarget ▸ h.pool s hs entry hle

section Runs

/-- A message with an empty body, and one after it; the helper fails on the first. -/
def emptyBody : List LinkEvent :=
  [.sender (.addDeliveryTarget "gci"), .sender (.exported (outboxOf [⟨1, ""⟩] 0)), .sender .deliver,
    .sender (.exported (outboxOf [⟨1, ""⟩, ⟨2, "b"⟩] 0)), .sender .deliver,
    .sender (.delivery "gci" (.opened 0 true)), .sender (.delivery "gci" (.wrote 0 true)),
    .sender (.delivery "gci" (.closed 0 true)), .sender (.delivery "gci" (.opened 1 true)),
    .sender (.delivery "gci" (.wrote 1 true)), .sender (.delivery "gci" (.closed 1 true)),
    .sender (.delivery "gci" (.proceed 0)), .sender (.delivery "gci" (.exited 0 .failed)),
    .sender (.delivery "gci" (.retry 0)), .sender (.delivery "gci" (.proceed 0))]

theorem blocked_emptyBody :
    ∃ l, run (Link.step agSolo) (.start .empty noPorts) emptyBody = some l ∧
      (l.sender.deliveries "gci").content 0 = some ([⟨1, ""⟩], 0) ∧
      (l.sender.deliveries "gci").content 1 = some ([⟨2, "b"⟩], 0) ∧
      (∀ x ∈ l.log, x.target = "gci" → x.entry < 0) ∧
      ∀ s ∈ l.pool, s.target = "gci" → s.entry < 0 := by
  have hinvalid : ¬ (agSolo.message ([⟨1, ""⟩], 0)).Valid := fun hvalid ↦
    hvalid.messages (encode "") (List.mem_singleton_self _) rfl
  exact ⟨_, rfl, rfl, rfl, blocked_of_run agSolo .empty noPorts emptyBody _ (by decide) rfl "gci" 0
    ([⟨1, ""⟩], 0) rfl hinvalid⟩

end Runs

end CosmicSwingset.Solo
