import CosmicSwingset.Captp.Questions
import CosmicSwingset.Captp.References

/-!
# Promises and their settlement

The settlement of a promise that has been exported is sent once, after the message with its slot,
and messages arrive in order. Where all values can be serialized, each promise is unsettled, or its
settlement is on its way, or it has arrived, and only one of these (`promises_of_run`). Where
moreover all values can be read and no slot arrives that the receiver has itself chosen, the
receiver waits for every promise whose settlement arrives, so that none is dropped (`reads_of_run`).
-/

set_option autoImplicit false
set_option relaxedAutoImplicit false

namespace CosmicSwingset.Captp

open Foundation Endpoint Tables

/-! ### Promises that are exported -/

def Message.resolve? : Message → Option ℕ
  | .resolve promiseID _ => some promiseID
  | _ => none

/-- The message has the slot of the sender's promise. -/
def Message.Brings (message : Message) (promiseID : ℕ) : Prop :=
  ∃ val : Ref, val.isOwn = true ∧ (val, .promise promiseID) ∈ message.refs

/-- All its values can be serialized. -/
def Endpoint.Action.passable : Action → Bool
  | .getBootstrap => true
  | .call _ _ passable => passable
  | .dispatch _ passable => passable
  | .throws _ => true
  | .answer _ _ _ passable => passable
  | .settle _ _ passable => passable

/-- What exports have to do with promises: the new ones are among the values. -/
structure NewPromises (t t' : Tables) (refs : List (Ref × Slot)) (count : ℕ) : Prop where
  last : t'.lastPromiseID = t.lastPromiseID + count
  unsettled : t'.unsettled = t.unsettled ++ List.range' (t.lastPromiseID + 1) count
  imports : t'.imports = t.imports
  brought : ∀ promiseID ∈ List.range' (t.lastPromiseID + 1) count,
    ∃ val : Ref, val.isOwn = true ∧ (val, .promise promiseID) ∈ refs

theorem exists_newPromises_exportVal {t : Tables} {val : Ref} (hval : t.Has val) :
    ∃ count, NewPromises t (t.exportVal val).2 [(val, (t.exportVal val).1)] count := by
  have hknown : NewPromises t t [(val, (t.exportVal val).1)] 0 :=
    ⟨rfl, (List.append_nil _).symm, rfl, fun _ h ↦ by cases h⟩
  unfold exportVal at hknown ⊢
  cases hslot : t.valToSlot.get val with
  | some slot =>
    rw [hslot] at hknown
    exact ⟨0, hknown⟩
  | none =>
    have hown : val.isOwn = true := by
      refine hval.resolve_right ?_
      rw [hslot]
      exact Bool.false_ne_true
    unfold newExport
    split_ifs with hpromise
    · refine ⟨1, rfl, rfl, rfl, fun promiseID hmem ↦ ⟨val, hown, ?_⟩⟩
      rw [List.range'_one, List.mem_singleton] at hmem
      rw [hmem]
      exact List.mem_singleton_self _
    · exact ⟨0, rfl, (List.append_nil _).symm, rfl, fun _ h ↦ by cases h⟩

theorem exists_newPromises_exportAll {t : Tables} (ht : t.Valid) {vals : List Ref}
    (hvals : ∀ val ∈ vals, t.Has val) :
    ∃ count, NewPromises t (t.exportAll vals).2 (vals.zip (t.exportAll vals).1) count := by
  unfold exportAll
  induction vals generalizing t with
  | nil => exact ⟨0, rfl, (List.append_nil _).symm, rfl, fun _ h ↦ by cases h⟩
  | cons val vals ih =>
    obtain ⟨hval, hrest⟩ := List.forall_mem_cons.mp hvals
    have hstep := exportStep_exportVal ht hval
    obtain ⟨count, hfirst⟩ := exists_newPromises_exportVal hval
    obtain ⟨count', hothers⟩ := ih hstep.valid fun val' hval' ↦ hstep.grows.has (hrest val' hval')
    refine ⟨count + count', ?_, ?_, hothers.imports.trans hfirst.imports, ?_⟩
    · rw [mapState, hothers.last, hfirst.last, Nat.add_assoc]
    · rw [mapState, hothers.unsettled, hfirst.unsettled, hfirst.last, List.append_assoc,
        Nat.add_right_comm, List.range'_append_1]
    · intro promiseID hmem
      rw [← List.range'_append_1, List.mem_append] at hmem
      rcases hmem with hmem | hmem
      · obtain ⟨val', hown, hrefs⟩ := hfirst.brought promiseID hmem
        exact ⟨val', hown, List.mem_cons.mpr (Or.inl (List.mem_singleton.mp hrefs))⟩
      · rw [Nat.add_right_comm, ← hfirst.last] at hmem
        obtain ⟨val', hown, hrefs⟩ := hothers.brought promiseID hmem
        exact ⟨val', hown, List.mem_cons_of_mem _ hrefs⟩

/-! ### What an action does with promises -/

/-- What it does with those of its own end. -/
structure Promising (e e' : Endpoint) (sent : List Message) (count : ℕ) : Prop where
  last : e'.tables.lastPromiseID = e.tables.lastPromiseID + count
  unsettled : (sent.filterMap Message.resolve? ++ e'.tables.unsettled).Perm
    (e.tables.unsettled ++ List.range' (e.tables.lastPromiseID + 1) count)
  settled : ∀ message ∈ sent, ∀ promiseID, message.resolve? = some promiseID →
    promiseID ∈ e.tables.unsettled
  brought : ∀ promiseID ∈ List.range' (e.tables.lastPromiseID + 1) count,
    ∃ message ∈ sent, message.Brings promiseID

/-- What it does with those of the other end. -/
inductive Taking (e : Endpoint) (action : Action) (e' : Endpoint) : Prop
  | idle (hinbox : e'.inbox = e.inbox) (himports : e'.tables.imports = e.tables.imports)
      (hdispatched : e.dispatched action = []) (hdelivered : e.delivered action = [])
  | read (message : Message) (hinbox : e.inbox = message :: e'.inbox)
      (hdispatched : e.dispatched action = [message])
      (hdelivered : e.delivered action = if e.Reads message then message.refs else [])
      (himports : ∀ promiseID, message.resolve? ≠ some promiseID →
        (promiseID ∈ e.tables.imports ∨ e.tables.slotToVal.get (.promise promiseID) = none ∧
          ∃ val, (val, .promise promiseID) ∈ e.delivered action) →
        promiseID ∈ e'.tables.imports)
  | throws (message : Message) (hinbox : e.inbox = message :: e'.inbox)
      (hdispatched : e.dispatched action = [message]) (hnot : ¬ action.Completes)

theorem mem_imports_receiveAll {t : Tables} {promiseID : ℕ} {slots : List Slot}
    (h : promiseID ∈ t.imports ∨
      t.slotToVal.get (.promise promiseID) = none ∧ .promise promiseID ∈ slots) :
    promiseID ∈ (t.receiveAll slots).imports := by
  induction slots generalizing t with
  | nil => exact h.resolve_right fun ⟨_, hmem⟩ ↦ by cases hmem
  | cons slot slots ih =>
    refine ih ?_
    rw [slotToVal_receive]
    have hkept : promiseID ∈ t.imports → promiseID ∈ (t.receive slot).imports := by
      intro hmem
      unfold receive
      grind
    rcases h with hmem | ⟨hunknown, hmem⟩
    · exact Or.inl (hkept hmem)
    · by_cases heq : Slot.promise promiseID = slot
      · refine Or.inl ?_
        unfold receive
        rw [← heq, hunknown]
        simp only
        split_ifs with hknown
        · exact hknown
        · exact List.mem_append_right _ (List.mem_singleton_self _)
      · rw [if_neg heq]
        exact Or.inr ⟨hunknown, (List.mem_cons.mp hmem).resolve_left heq⟩

/-- What is sent with exports, and without a settlement. -/
theorem exists_promising_of_send {e e₁ e' : Endpoint} {vals : List Ref} {message : Data → Message}
    {sent : List Message} (h : e₁.send vals true message = (e', sent))
    (htables : e₁.tables = e.tables) (ht : e.tables.Valid) (hvals : ∀ val ∈ vals, e.tables.Has val)
    (hrefs : ∀ data, data.refs ⊆ (message data).refs)
    (hresolve : ∀ data, (message data).resolve? = none) :
    ∃ count, Promising e e' sent count := by
  obtain ⟨count, hnew⟩ := exists_newPromises_exportAll ht hvals
  unfold send at h
  rw [htables] at h
  cases h
  refine ⟨count, hnew.last, ?_, fun m hm promiseID hresolved ↦ ?_, fun promiseID hmem ↦ ?_⟩
  · simp only [if_true, List.filterMap_cons, hresolve, List.filterMap_nil,
      List.nil_append]
    exact .of_eq hnew.unsettled
  · rw [List.mem_singleton.mp hm, hresolve] at hresolved
    cases hresolved
  · obtain ⟨val, hown, hval⟩ := hnew.brought promiseID hmem
    exact ⟨_, List.mem_singleton_self _, val, hown, hrefs _ hval⟩

/-- The settlement of a promise. -/
theorem exists_promising_of_settle {e e' : Endpoint} {promiseID : ℕ} {result : List Ref}
    {sent : List Message} (hmem : promiseID ∈ e.tables.unsettled)
    (h : { e with tables := { e.tables with unsettled := e.tables.unsettled.erase promiseID } }.send
      result true (.resolve promiseID) = (e', sent))
    (ht : e.tables.Valid) (hvals : ∀ val ∈ result, e.tables.Has val) :
    ∃ count, Promising e e' sent count := by
  have ht' : Valid { e.tables with unsettled := e.tables.unsettled.erase promiseID } :=
    ht.congr rfl rfl fun slot ↦ by cases slot <;> exact Iff.rfl
  obtain ⟨count, hnew⟩ := exists_newPromises_exportAll ht' hvals
  unfold send at h
  cases h
  refine ⟨count, hnew.last, ?_, fun m hm promiseID' hresolved ↦ ?_, fun promiseID' hmem' ↦ ?_⟩
  · simp only [if_true, List.filterMap_cons, Message.resolve?, List.filterMap_nil,
      hnew.unsettled]
    exact (List.perm_cons_erase hmem).symm.append_right _
  · rw [List.mem_singleton.mp hm] at hresolved
    exact Option.some.inj hresolved ▸ hmem
  · obtain ⟨val, hown, hval⟩ := hnew.brought promiseID' hmem'
    exact ⟨_, List.mem_singleton_self _, val, hown, hval⟩

/-- What is received only. -/
theorem promising_of_receive {e e' : Endpoint}
    (hlast : e'.tables.lastPromiseID = e.tables.lastPromiseID)
    (hunsettled : e'.tables.unsettled = e.tables.unsettled) : Promising e e' [] 0 where
  last := hlast
  unsettled := by
    rw [hunsettled, List.range'_zero, List.append_nil]
    exact .refl _
  settled message hmessage := by cases hmessage
  brought promiseID hmem := by cases hmem

theorem promises_receiveAll (t : Tables) (slots : List Slot) :
    (t.receiveAll slots).lastPromiseID = t.lastPromiseID ∧
      (t.receiveAll slots).unsettled = t.unsettled := by
  induction slots generalizing t with
  | nil => exact ⟨rfl, rfl⟩
  | cons slot slots ih =>
    have hreceive : (t.receive slot).lastPromiseID = t.lastPromiseID ∧
        (t.receive slot).unsettled = t.unsettled := by
      unfold receive
      cases t.slotToVal.get slot <;> exact ⟨rfl, rfl⟩
    obtain ⟨hlast, hunsettled⟩ := ih (t.receive slot)
    exact ⟨hlast.trans hreceive.1, hunsettled.trans hreceive.2⟩

theorem exists_promising_act {e e' : Endpoint} {action : Action} {sent : List Message}
    (ht : e.tables.Valid) (h : e.act action = some (e', sent))
    (hpassable : action.passable = true) :
    ∃ count, Promising e e' sent count := by
  cases action with
  | getBootstrap =>
    cases h
    refine ⟨0, rfl, ?_, fun message hmessage promiseID hresolved ↦ ?_, fun _ hmem ↦ by cases hmem⟩
    · rw [List.range'_zero, List.append_nil]
      exact .refl _
    · rw [List.mem_singleton.mp hmessage] at hresolved
      cases hresolved
  | call target args passable =>
    simp only [Action.passable] at hpassable
    simp only [act, hpassable] at h
    split_ifs at h with hhas
    exact exists_promising_of_send (Option.some.inj h) rfl ht hhas.2
      (fun _ ↦ List.subset_cons_self _ _) fun _ ↦ rfl
  | dispatch bootstrap passable =>
    simp only [Action.passable] at hpassable
    cases hinbox : e.inbox with
    | nil =>
      simp only [act, hinbox] at h
      cases h
    | cons message inbox =>
      simp only [act, hinbox, hpassable] at h
      split_ifs at h with hhas
      replace h := Option.some.inj h
      cases message with
      | bootstrap q =>
        exact exists_promising_of_send h rfl ht hhas (fun _ ↦ List.Subset.refl _) fun _ ↦ rfl
      | call q target method =>
        cases h
        exact ⟨0, promising_of_receive (promises_receiveAll _ _).1 (promises_receiveAll _ _).2⟩
      | «return» q result =>
        simp only [handle] at h
        split_ifs at h
        · cases h
          exact ⟨0, promising_of_receive (promises_receiveAll _ _).1 (promises_receiveAll _ _).2⟩
        · cases h
          exact ⟨0, promising_of_receive rfl rfl⟩
      | resolve p result =>
        simp only [handle] at h
        split_ifs at h
        · cases h
          exact ⟨0, promising_of_receive (promises_receiveAll _ _).1 (promises_receiveAll _ _).2⟩
        · cases h
          exact ⟨0, promising_of_receive rfl rfl⟩
  | throws count =>
    cases hinbox : e.inbox with
    | nil =>
      simp only [act, hinbox] at h
      cases h
    | cons message inbox =>
      simp only [act, hinbox] at h
      cases h
      unfold throws
      split_ifs
      · exact ⟨0, promising_of_receive (promises_receiveAll _ _).1 (promises_receiveAll _ _).2⟩
      · exact ⟨0, promising_of_receive rfl rfl⟩
  | answer q result fulfilled passable =>
    simp only [Action.passable] at hpassable
    simp only [act, hpassable, Bool.not_true, Bool.false_and, Bool.false_eq_true, if_false] at h
    split_ifs at h with hhas
    exact exists_promising_of_send (Option.some.inj h) rfl ht hhas.2 (fun _ ↦ List.Subset.refl _)
      fun _ ↦ rfl
  | settle p result passable =>
    simp only [Action.passable] at hpassable
    simp only [act, hpassable] at h
    split_ifs at h with hhas
    exact exists_promising_of_settle hhas.1 (Option.some.inj h) ht hhas.2

/-- What exports leave alone. -/
theorem imports_send {e₁ e' : Endpoint} {vals : List Ref} {passable : Bool}
    {message : Data → Message} {sent : List Message}
    (h : e₁.send vals passable message = (e', sent)) (ht : e₁.tables.Valid)
    (hvals : ∀ val ∈ vals, e₁.tables.Has val) :
    e'.inbox = e₁.inbox ∧ e'.tables.imports = e₁.tables.imports := by
  obtain ⟨_, hnew⟩ := exists_newPromises_exportAll ht hvals
  unfold send at h
  cases h
  exact ⟨rfl, hnew.imports⟩

theorem taking_handle {e e' : Endpoint} {bootstrap : List Ref} {passable : Bool}
    {message : Message} {inbox : List Message} {sent : List Message} (ht : e.tables.Valid)
    (hbootstrap : ∀ val ∈ bootstrap, e.tables.Has val) (hinbox : e.inbox = message :: inbox)
    (h : { e with inbox }.handle bootstrap passable message = (e', sent)) :
    Taking e (.dispatch bootstrap passable) e' := by
  have hdelivered : e.delivered (.dispatch bootstrap passable) =
      if e.Reads message then message.refs else [] := by
    simp only [delivered, hinbox]
  have hdispatched : e.dispatched (.dispatch bootstrap passable) = [message] := by
    rw [Endpoint.dispatched, hinbox]
    rfl
  -- the slots that are read are those of the references
  have hread : ∀ {slots : List Slot} {promiseID : ℕ},
      (∀ slot, (∃ val, (val, slot) ∈ e.delivered (.dispatch bootstrap passable)) → slot ∈ slots) →
      (promiseID ∈ e.tables.imports ∨ e.tables.slotToVal.get (.promise promiseID) = none ∧
        ∃ val, (val, .promise promiseID) ∈ e.delivered (.dispatch bootstrap passable)) →
      promiseID ∈ (e.tables.receiveAll slots).imports := fun hslots hknown ↦
    mem_imports_receiveAll (hknown.imp_right (And.imp_right (hslots _)))
  cases message with
  | bootstrap q =>
    obtain ⟨hrest, himports⟩ := imports_send h ht hbootstrap
    refine .read (.bootstrap q) (by rw [hinbox, hrest]) hdispatched hdelivered
      fun promiseID _ hknown ↦ ?_
    rw [himports]
    refine hknown.resolve_right ?_
    rintro ⟨_, val, hmem⟩
    rw [hdelivered, if_pos (show e.Reads (.bootstrap q) from trivial)] at hmem
    cases hmem
  | call q target method =>
    cases h
    refine .read (.call q target method) hinbox hdispatched hdelivered fun promiseID _ ↦ hread ?_
    rintro slot ⟨val, hmem⟩
    rw [hdelivered, if_pos (show e.Reads (.call q target method) from trivial)] at hmem
    rcases List.mem_cons.mp hmem with heq | hmem
    · rw [(Prod.mk.inj heq).2]
      exact List.mem_append_right _ (List.mem_singleton_self _)
    · exact List.mem_append_left _ ((method.mem_slots_iff slot).mpr ⟨val, hmem⟩)
  | «return» q result =>
    simp only [handle] at h
    split_ifs at h with hmem
    · cases h
      refine .read (.return q result) hinbox hdispatched hdelivered fun promiseID _ ↦
        hread fun slot hslot ↦ ?_
      rw [hdelivered, if_pos (show e.Reads (.return q result) from hmem)] at hslot
      exact (result.mem_slots_iff slot).mpr hslot
    · cases h
      refine .read (.return q result) hinbox hdispatched hdelivered fun promiseID _ hknown ↦ ?_
      refine hknown.resolve_right ?_
      rintro ⟨_, val, hval⟩
      rw [hdelivered, if_neg (show ¬ e.Reads (.return q result) from hmem)] at hval
      cases hval
  | resolve p result =>
    simp only [handle] at h
    split_ifs at h with hmem
    · cases h
      refine .read (.resolve p result) hinbox hdispatched hdelivered fun promiseID hne hknown ↦ ?_
      have hslots : ∀ slot, (∃ val, (val, slot) ∈ e.delivered (.dispatch bootstrap passable)) →
          slot ∈ result.slots := by
        intro slot hslot
        rw [hdelivered, if_pos (show e.Reads (.resolve p result) from hmem)] at hslot
        exact (result.mem_slots_iff slot).mpr hslot
      have hkept := hread hslots hknown
      exact (List.mem_erase_of_ne fun heq ↦ hne (congrArg some heq.symm)).mpr hkept
    · cases h
      refine .read (.resolve p result) hinbox hdispatched hdelivered fun promiseID _ hknown ↦ ?_
      refine hknown.resolve_right ?_
      rintro ⟨_, val, hval⟩
      rw [hdelivered, if_neg (show ¬ e.Reads (.resolve p result) from hmem)] at hval
      cases hval

theorem Taking.of_send {e e₁ e' : Endpoint} {action : Action} {vals : List Ref} {passable : Bool}
    {message : Data → Message} {sent : List Message}
    (h : e₁.send vals passable message = (e', sent)) (ht : e₁.tables.Valid)
    (hvals : ∀ val ∈ vals, e₁.tables.Has val) (hinbox : e₁.inbox = e.inbox)
    (himports : e₁.tables.imports = e.tables.imports) (hdispatched : e.dispatched action = [])
    (hdelivered : e.delivered action = []) : Taking e action e' := by
  obtain ⟨hinbox', himports'⟩ := imports_send h ht hvals
  exact .idle (hinbox'.trans hinbox) (himports'.trans himports) hdispatched hdelivered

theorem taking_act {e e' : Endpoint} {action : Action} {sent : List Message} (ht : e.tables.Valid)
    (h : e.act action = some (e', sent)) : Taking e action e' := by
  cases action with
  | getBootstrap =>
    cases h
    exact .idle rfl rfl rfl rfl
  | call target args passable =>
    simp only [act] at h
    split_ifs at h with hhas
    exact .of_send (Option.some.inj h) ht hhas.2 rfl rfl rfl rfl
  | dispatch bootstrap passable =>
    cases hinbox : e.inbox with
    | nil =>
      simp only [act, hinbox] at h
      cases h
    | cons message inbox =>
      simp only [act, hinbox] at h
      split_ifs at h with hhas
      exact taking_handle ht hhas hinbox (Option.some.inj h)
  | throws count =>
    cases hinbox : e.inbox with
    | nil =>
      simp only [act, hinbox] at h
      cases h
    | cons message inbox =>
      simp only [act, hinbox] at h
      cases h
      refine .throws message ?_ (by rw [Endpoint.dispatched, hinbox]; rfl) id
      unfold throws
      split_ifs <;> exact hinbox
  | answer q result fulfilled passable =>
    simp only [act] at h
    obtain ⟨⟨e₁, sent₁⟩, hsend⟩ : ∃ p, { e with answering := e.answering.erase q }.send result
        passable (.return q) = p := ⟨_, rfl⟩
    rw [hsend] at h
    split_ifs at h with hhas herror
    · cases h
      exact .of_send hsend ht hhas.2 rfl rfl rfl rfl
    · cases h
      exact .of_send hsend ht hhas.2 rfl rfl rfl rfl
  | settle p result passable =>
    simp only [act] at h
    split_ifs at h with hhas
    have ht' : Valid { e.tables with unsettled := e.tables.unsettled.erase p } :=
      ht.congr rfl rfl fun slot ↦ by cases slot <;> exact Iff.rfl
    exact .of_send (Option.some.inj h) ht' hhas.2 rfl rfl rfl rfl

/-! ### Each promise is settled once -/

/-- The settlements of the side's promises that are on their way. -/
def settlements (s : Connection) (side : Side) : List ℕ :=
  (s side.other).inbox.filterMap Message.resolve?

/-- The promises of the side whose settlement has been dispatched in the run. -/
def settled (side : Side) (s : Connection) (events : List (Side × Action)) : List ℕ :=
  (dispatched side.other s events).filterMap Message.resolve?

def Pending (side : Side) (log : List ℕ) (s : Connection) : Prop :=
  (log ++ (settlements s side ++ (s side).tables.unsettled)).Perm
    (List.range' 1 (s side).tables.lastPromiseID)

theorem Taking.dispatched {e e' : Endpoint} {action : Action} (htaking : Taking e action e') :
    e.inbox.filterMap Message.resolve? =
      (e.dispatched action).filterMap Message.resolve? ++ e'.inbox.filterMap Message.resolve? := by
  cases htaking with
  | idle hinbox himports hdispatched hdelivered =>
    rw [hdispatched, hinbox]
    rfl
  | read message hinbox hdispatched hdelivered himports =>
    rw [hdispatched, hinbox, ← List.filterMap_append]
    rfl
  | throws message hinbox hdispatched hnot =>
    rw [hdispatched, hinbox, ← List.filterMap_append]
    rfl

theorem Pending.step {side : Side} {log : List ℕ} {s s' : Connection} {event : Side × Action}
    (hpending : Pending side log s) (hs : Linked s) (hpassable : event.2.passable = true)
    (hstep : Connection.step s event = some s') :
    Pending side (log ++ if event.1 = side.other then
      ((s side.other).dispatched event.2).filterMap Message.resolve? else []) s' := by
  obtain ⟨actor, action⟩ := event
  obtain ⟨⟨e, sent⟩, hact, rfl⟩ := Option.map_eq_some_iff.mp hstep
  have htaking := taking_act (hs.valid actor) hact
  obtain ⟨count, hpromising⟩ := exists_promising_act (hs.valid actor) hact hpassable
  have hself := s.update_self actor e sent
  have hother := s.update_other actor e sent
  unfold Pending settlements at hpending ⊢
  rcases actor.eq_or_eq_other side with rfl | rfl
  · rw [if_neg (side.other_ne).symm, List.append_nil, hother, hself, hpromising.last,
      List.filterMap_append, List.append_assoc, ← List.range'_append_1, Nat.add_comm 1]
    refine .trans (.append_left _ (.append_left _ hpromising.unsettled)) ?_
    rw [← List.append_assoc, ← List.append_assoc, List.append_assoc log]
    exact hpending.append_right _
  · rw [actor.other_other] at hpending ⊢
    rw [if_pos rfl, hself, hother, List.append_assoc, ← List.append_assoc (List.filterMap _ _),
      ← htaking.dispatched]
    exact hpending

theorem Pending.run {side : Side} {events : List (Side × Action)} :
    ∀ {log : List ℕ} {s s' : Connection}, Pending side log s → Linked s →
      (∀ event ∈ events, event.2.passable = true) → run Connection.step s events = some s' →
      Pending side (log ++ settled side s events) s' := by
  induction events with
  | nil =>
    intro log s s' hpending _ _ h
    cases h
    rwa [settled, dispatched, List.filterMap_nil, List.append_nil]
  | cons event events ih =>
    intro log s s' hpending hs hpassable h
    obtain ⟨hfirst, hrest⟩ := List.forall_mem_cons.mp hpassable
    obtain ⟨s₁, hstep, h⟩ := run_cons_eq_some.mp h
    have hsettled : settled side s (event :: events) =
        (if event.1 = side.other then
          ((s side.other).dispatched event.2).filterMap Message.resolve? else []) ++
        settled side s₁ events := by
      rw [settled, dispatched_cons hstep, List.filterMap_append, settled]
      split_ifs <;> rfl
    rw [hsettled, ← List.append_assoc]
    exact ih (hpending.step hs hfirst hstep) (linked_step hs hstep) hrest h

/-- **Where all values can be serialized, each promise that has been exported is unsettled, or its
settlement is on its way, or it has been dispatched, and only one of these.** -/
theorem promises_of_run {events : List (Side × Action)} {s : Connection}
    (h : run Connection.step .init events = some s)
    (hpassable : ∀ event ∈ events, event.2.passable = true) (side : Side) :
    (settled side .init events ++ (settlements s side ++ (s side).tables.unsettled)).Perm
      (List.range' 1 (s side).tables.lastPromiseID) := by
  have hinit : Pending side [] .init := .refl _
  exact hinit.run linked_init hpassable h

theorem promises_greeting : ∃ s, run Connection.step .init greeting = some s ∧
    (settled .here .init greeting ++ (settlements s .here ++ (s .here).tables.unsettled)).Perm
      (List.range' 1 (s .here).tables.lastPromiseID) :=
  ⟨_, rfl, promises_of_run rfl (by decide) .here⟩

/-! ### Each settlement is awaited -/

/-- The promise is waited for, or a message before has its slot. -/
def Awaited (imports : List ℕ) (before : List Message) (message : Message) : Prop :=
  ∀ promiseID, message.resolve? = some promiseID →
    promiseID ∈ imports ∨ ∃ message' ∈ before, message'.Brings promiseID

structure Awaits (side : Side) (s : Connection) : Prop where
  unsettled : ∀ promiseID ∈ (s side).tables.unsettled,
    promiseID ∈ (s side.other).tables.imports ∨
      ∃ message ∈ (s side.other).inbox, message.Brings promiseID
  settlement : Justified (Awaited (s side.other).tables.imports) (s side.other).inbox
  known : ∀ promiseID, promiseID ∈ settlements s side ++ (s side).tables.unsettled →
    ((s side.other).tables.valToSlot.get (.remote (.promise promiseID))).isSome →
    promiseID ∈ (s side.other).tables.imports

theorem awaits_init (side : Side) : Awaits side .init where
  unsettled _ h := by cases h
  settlement := justified_nil
  known _ h := by cases h

/-- The next message is read, if it is not an answer that nobody waits for. -/
theorem Awaits.reads_head {side : Side} {s : Connection} (hawaits : Awaits side s)
    (hanswers : ∀ q ∈ (s side.other).answers, q ∈ (s side.other).questions) {message : Message}
    {inbox : List Message} (hinbox : (s side.other).inbox = message :: inbox) :
    (s side.other).Reads message := by
  cases message with
  | bootstrap q => trivial
  | call q target method => trivial
  | «return» q result =>
    refine hanswers q ?_
    rw [answers, hinbox]
    exact List.mem_cons_self
  | resolve p result =>
    refine (hawaits.settlement [] _ inbox hinbox p rfl).resolve_right ?_
    rintro ⟨_, hmem, -⟩
    cases hmem

/-- A step of the end that the promises are of. -/
theorem Awaits.step_self {side : Side} {s : Connection} {action : Action} {e : Endpoint}
    {sent : List Message} (hawaits : Awaits side s) (hs : Linked s)
    (hact : (s side).act action = some (e, sent)) (hpassable : action.passable = true) :
    Awaits side (s.update side e sent) := by
  obtain ⟨count, hpromising⟩ := exists_promising_act (hs.valid side) hact hpassable
  have hself := s.update_self side e sent
  have hother := s.update_other side e sent
  -- what is sent or still unsettled has been unsettled before, or is new
  have hcases : ∀ promiseID ∈ sent.filterMap Message.resolve? ++ e.tables.unsettled,
      promiseID ∈ (s side).tables.unsettled ∨
        promiseID ∈ List.range' ((s side).tables.lastPromiseID + 1) count := fun promiseID hmem ↦
    List.mem_append.mp (hpromising.unsettled.mem_iff.mp hmem)
  constructor
  · intro promiseID hmem
    rw [hself] at hmem
    rw [hother]
    rcases hcases promiseID (List.mem_append_right _ hmem) with hold | hnew
    · refine (hawaits.unsettled promiseID hold).imp_right fun ⟨message, hmessage, hbrings⟩ ↦ ?_
      exact ⟨message, List.mem_append_left _ hmessage, hbrings⟩
    · obtain ⟨message, hmessage, hbrings⟩ := hpromising.brought promiseID hnew
      exact Or.inr ⟨message, List.mem_append_right _ hmessage, hbrings⟩
  · rw [hother]
    refine hawaits.settlement.append fun before message hmessage promiseID hresolve ↦ ?_
    have hold := hpromising.settled message hmessage promiseID hresolve
    refine (hawaits.unsettled promiseID hold).imp_right fun ⟨message', hmessage', hbrings⟩ ↦ ?_
    exact ⟨message', List.mem_append_left _ hmessage', hbrings⟩
  · intro promiseID hmem hknown
    rw [settlements, hself, hother, List.filterMap_append, List.append_assoc,
      List.mem_append] at hmem
    rw [hother] at hknown ⊢
    have hold : promiseID ∈ settlements s side ∨ promiseID ∈ (s side).tables.unsettled := by
      refine hmem.imp_right fun hmem ↦ (hcases promiseID hmem).resolve_right fun hnew ↦ ?_
      -- the other end cannot know a promise that has not been exported
      have hexported := hs.remote side.other (.promise promiseID) hknown
      rw [side.other_other] at hexported
      have hle : promiseID ≤ (s side).tables.lastPromiseID := hexported.2
      have hlt := (List.mem_range'_1.mp hnew).1
      omega
    exact hawaits.known promiseID (List.mem_append.mpr hold) hknown

/-- A step of the other end. -/
theorem Awaits.step_other {side : Side} {s : Connection} {action : Action} {e : Endpoint}
    {sent : List Message} {log : List ℕ} (hawaits : Awaits side s) (hs : Linked s)
    (hpending : Pending side log s) (hcompletes : action.Completes)
    (hanswers : ∀ q ∈ (s side.other).answers, q ∈ (s side.other).questions)
    (hact : (s side.other).act action = some (e, sent))
    (hclean : ∀ p ∈ (s side.other).delivered action, p.1.isOwn = true →
      ¬ (s side.other).tables.Exported p.2) :
    Awaits side (s.update side.other e sent) := by
  have hself := s.update_self side.other e sent
  have hother := s.update_other side.other e sent
  rw [side.other_other] at hother
  have hexchange := exchange_act (hs.valid side.other) hact
  have hnodup : (settlements s side ++ (s side).tables.unsettled).Nodup :=
    (hpending.nodup_iff.mpr (List.nodup_range' ..)).of_append_right
  cases taking_act (hs.valid side.other) hact with
  | idle hinbox himports hdispatched hdelivered =>
    constructor
    · rw [hother, hself, hinbox, himports]
      exact hawaits.unsettled
    · rw [hself, hinbox, himports]
      exact hawaits.settlement
    · intro promiseID hmem hknown
      rw [settlements, hother, hself, hinbox] at hmem
      rw [hself] at hknown ⊢
      rw [himports]
      rcases hexchange.remotes _ hknown with hknown | ⟨-, val, hval⟩
      · exact hawaits.known promiseID hmem hknown
      · rw [hdelivered] at hval
        cases hval
  | read message hinbox hdispatched hdelivered himports =>
    have hsplit : settlements s side ++ (s side).tables.unsettled =
        [message].filterMap Message.resolve? ++
          (e.inbox.filterMap Message.resolve? ++ (s side).tables.unsettled) := by
      rw [settlements, hinbox, ← List.append_assoc, ← List.filterMap_append]
      rfl
    -- what is still to be settled is not what has been settled now
    have hne : ∀ promiseID,
        promiseID ∈ e.inbox.filterMap Message.resolve? ++ (s side).tables.unsettled →
        promiseID ∈ settlements s side ++ (s side).tables.unsettled ∧
          message.resolve? ≠ some promiseID := by
      intro promiseID hmem
      refine ⟨hsplit ▸ List.mem_append_right _ hmem, fun hresolve ↦ ?_⟩
      rw [hsplit] at hnodup
      refine List.disjoint_of_nodup_append hnodup ?_ hmem
      rw [List.filterMap_cons, hresolve]
      exact List.mem_cons_self
    have hreads := hawaits.reads_head hanswers hinbox
    rw [if_pos hreads] at hdelivered
    have hawaited : ∀ promiseID,
        promiseID ∈ e.inbox.filterMap Message.resolve? ++ (s side).tables.unsettled →
        promiseID ∈ (s side.other).tables.imports ∨ message.Brings promiseID →
        promiseID ∈ e.tables.imports := by
      intro promiseID hmem hknown
      obtain ⟨hpromise, hresolve⟩ := hne promiseID hmem
      refine himports promiseID hresolve ?_
      rcases hknown with hknown | ⟨val, hown, hval⟩
      · exact Or.inl hknown
      · rw [← hdelivered] at hval
        have hnot := hclean _ hval hown
        cases hget : (s side.other).tables.slotToVal.get (.promise promiseID) with
        | none => exact Or.inr ⟨rfl, val, hval⟩
        | some val' =>
          cases val' with
          | own isPromise identity =>
            exact absurd (((hs.valid side.other).exported_iff _).mpr ⟨_, rfl, hget⟩) hnot
          | remote slot =>
            have hslot := ((hs.valid side.other).slot_remote _ slot hget).2
            exact Or.inl (hawaits.known promiseID hpromise (by rw [hslot]; rfl))
    constructor
    · rw [hother, hself]
      intro promiseID hmem
      have hmem' := List.mem_append_right (e.inbox.filterMap Message.resolve?) hmem
      rcases hawaits.unsettled promiseID hmem with hknown | ⟨message', hmessage', hbrings⟩
      · exact Or.inl (hawaited promiseID hmem' (Or.inl hknown))
      · rw [hinbox] at hmessage'
        rcases List.mem_cons.mp hmessage' with rfl | hmessage'
        · exact Or.inl (hawaited promiseID hmem' (Or.inr hbrings))
        · exact Or.inr ⟨message', hmessage', hbrings⟩
    · rw [hself]
      intro before message' after hafter promiseID hresolve
      have hmem : promiseID ∈ e.inbox.filterMap Message.resolve? ++ (s side).tables.unsettled :=
        List.mem_append_left _ (List.mem_filterMap.mpr
          ⟨message', by rw [hafter]; exact List.mem_append_right _ List.mem_cons_self, hresolve⟩)
      have hbefore : (s side.other).inbox = (message :: before) ++ message' :: after := by
        rw [hinbox, hafter]
        rfl
      rcases hawaits.settlement _ _ _ hbefore promiseID hresolve with hknown | ⟨m, hm, hbrings⟩
      · exact Or.inl (hawaited promiseID hmem (Or.inl hknown))
      · rcases List.mem_cons.mp hm with rfl | hm
        · exact Or.inl (hawaited promiseID hmem (Or.inr hbrings))
        · exact Or.inr ⟨m, hm, hbrings⟩
    · intro promiseID hmem hknown
      rw [settlements, hother, hself] at hmem
      rw [hself] at hknown ⊢
      rcases hexchange.remotes _ hknown with hknown | ⟨hnone, hval⟩
      · exact hawaited promiseID hmem
          (Or.inl (hawaits.known promiseID (hne promiseID hmem).1 hknown))
      · exact himports promiseID (hne promiseID hmem).2 (Or.inr ⟨hnone, hval⟩)
  | throws message hinbox hdispatched hnot => exact absurd hcompletes hnot

/-! ### Over a run -/

/-- What the run keeps. -/
structure Kept (s : Connection) : Prop where
  linked : Linked s
  asked : ∀ side, ∃ log, Asked side log s
  pending : ∀ side, ∃ log, Pending side log s
  awaits : ∀ side, Awaits side s

theorem Asked.mem_questions {side : Side} {log : List ℕ} {s : Connection} (hs : Asked side log s) :
    ∀ q ∈ (s side).answers, q ∈ (s side).questions := fun _ hq ↦
  hs.awaited.subset (List.mem_append_right _ hq)

theorem kept_step {s s' : Connection} {event : Side × Action} (hs : Kept s)
    (hpermitted : (event.2.passable = true ∧ event.2.Completes) ∧ Clean s event s')
    (hstep : Connection.step s event = some s') : Kept s' := by
  obtain ⟨⟨hpassable, hcompletes⟩, hclean⟩ := hpermitted
  refine ⟨linked_step hs.linked hstep, fun side ↦ ?_, fun side ↦ ?_, fun side ↦ ?_⟩
  · obtain ⟨log, hasked⟩ := hs.asked side
    exact ⟨_, hasked.turn (turn_step hcompletes hstep side)⟩
  · obtain ⟨log, hpending⟩ := hs.pending side
    exact ⟨_, hpending.step hs.linked hpassable hstep⟩
  · obtain ⟨actor, action⟩ := event
    obtain ⟨⟨e, sent⟩, hact, rfl⟩ := Option.map_eq_some_iff.mp hstep
    rcases side.eq_or_eq_other actor with rfl | rfl
    · exact (hs.awaits actor).step_self hs.linked hact hpassable
    · obtain ⟨log, hpending⟩ := hs.pending side
      obtain ⟨_, hasked⟩ := hs.asked side.other
      exact (hs.awaits side).step_other hs.linked hpending hcompletes hasked.mem_questions hact
        hclean

/-- **Where all values can be serialized and read and no slot comes in that the receiver has itself
chosen, no handler throws: every answer and every settlement that arrives is waited for.** -/
theorem reads_of_run {events : List (Side × Action)} {s : Connection}
    (h : run Connection.step .init events = some s)
    (hpassable : ∀ event ∈ events, event.2.passable = true ∧ event.2.Completes)
    (hclean : AllSteps Connection.step Clean .init events) (side : Side) {message : Message}
    {inbox : List Message} (hinbox : (s side).inbox = message :: inbox) :
    (s side).Reads message := by
  have hinit : Kept .init := by
    refine ⟨linked_init, fun side ↦ ⟨[], .init side⟩, fun side ↦ ⟨[], ?_⟩, awaits_init⟩
    exact .refl _
  have hpermitted : AllSteps Connection.step
      (fun s event s' ↦ (event.2.passable = true ∧ event.2.Completes) ∧ Clean s event s')
      .init events :=
    .and (allSteps_of_forall_mem fun event hmem _ _ ↦ hpassable event hmem) hclean
  have hkeep : ∀ s event s', Kept s →
      (event.2.passable = true ∧ event.2.Completes) ∧ Clean s event s' →
      Connection.step s event = some s' → Kept s' := fun _ _ _ hs ↦ kept_step hs
  have hs := run_invariant hkeep hinit hpermitted h
  obtain ⟨_, hasked⟩ := hs.asked side
  have hawaits := hs.awaits side.other
  rw [← side.other_other] at hasked hinbox ⊢
  exact hawaits.reads_head hasked.mem_questions hinbox

theorem reads_greeting : ∃ s message inbox, run Connection.step .init greeting = some s ∧
    (s .there).inbox = message :: inbox ∧ (s .there).Reads message := by
  refine ⟨_, _, _, rfl, rfl, ?_⟩
  have hpassable : ∀ event ∈ greeting, event.2.passable = true ∧ event.2.Completes := by
    simp [greeting, Endpoint.Action.passable, Endpoint.Action.Completes]
  exact @reads_of_run greeting _ rfl hpassable (by decide) .there _ _ rfl

end CosmicSwingset.Captp
