import CosmicSwingset.Captp.Session

/-!
# What references mean

A reference that one end has means a value of one of the two ends: an own value itself, and a remote
one the value that the other end has for its slot (`meaning`). It always means something, and never
anything else later (`meaning_stable`).

The slots that the two ends choose for their values are of the same names. An end that reads a slot
takes it for its own if it has chosen that slot itself, even where the other end means its own value
of that name. So a reference arrives as what was sent if and only if it is not one to a value of the
sender with a slot that the receiver has chosen, too (`delivered_means_iff`). It is always right
where one of the ends exports nothing (`delivered_means_of_oneSided`); where both do, the first
value of one arrives as the first value of the other (`delivered_wrong_greeting`).
-/

set_option autoImplicit false
set_option relaxedAutoImplicit false

namespace CosmicSwingset.Captp

open Foundation Endpoint Tables

/-! ### What an action reads and sends -/

/-- The references that come in with the action. -/
def Endpoint.delivered (e : Endpoint) : Action → List (Ref × Slot)
  | .dispatch _ _ =>
    match e.inbox with
    | [] => []
    | message :: _ => if e.Reads message then message.refs else []
  | .throws count =>
    match e.inbox with
    | [] => []
    | message :: _ => if e.Reads message then message.data.refs.take count else []
  | _ => []

/-- What an action does to the tables. -/
structure Exchange (e : Endpoint) (action : Action) (e' : Endpoint) (sent : List Message) :
    Prop where
  valid : e'.tables.Valid
  grows : Grows e.tables e'.tables
  inbox : e'.inbox ⊆ e.inbox
  sent : ∀ message ∈ sent, ∀ p ∈ message.refs, e'.tables.valToSlot.get p.1 = some p.2
  remotes : ∀ slot, (e'.tables.valToSlot.get (.remote slot)).isSome →
    (e.tables.valToSlot.get (.remote slot)).isSome ∨
      e.tables.slotToVal.get slot = none ∧ ∃ val, (val, slot) ∈ e.delivered action
  delivered : ∀ p ∈ e.delivered action, e'.tables.valueOf p.2 = e.tables.valueOf p.2

theorem serialize_refs {t : Tables} (ht : t.Valid) {vals : List Ref}
    (hvals : ∀ val ∈ vals, t.Has val) (p : Ref × Slot) (hp : p ∈ (t.serialize vals).1.refs) :
    (t.serialize vals).2.valToSlot.get p.1 = some p.2 :=
  List.forall₂_zip (exportSteps_exportAll ht hvals).slots hp

/-- What is sent with exports only. -/
theorem Exchange.of_send {e e₁ e' : Endpoint} {action : Action} {vals : List Ref} {passable : Bool}
    {message : Data → Message} {sent : List Message}
    (h : e₁.send vals passable message = (e', sent)) (ht : e.tables.Valid)
    (hvals : ∀ val ∈ vals, e.tables.Has val) (hvalToSlot : e₁.tables.valToSlot = e.tables.valToSlot)
    (hslotToVal : e₁.tables.slotToVal = e.tables.slotToVal)
    (hexported : ∀ slot, e₁.tables.Exported slot ↔ e.tables.Exported slot)
    (hinbox : e₁.inbox ⊆ e.inbox) (hdelivered : e.delivered action = [])
    (hmessage : ∀ data, ∀ p ∈ (message data).refs,
      p ∈ data.refs ∨ e.tables.valToSlot.get p.1 = some p.2) : Exchange e action e' sent := by
  have ht₁ := ht.congr hvalToSlot hslotToVal hexported
  have hvals₁ : ∀ val ∈ vals, e₁.tables.Has val := by
    intro val hval
    rw [Has, hvalToSlot]
    exact hvals val hval
  have hsteps := exportSteps_exportAll ht₁ hvals₁
  have hrefs := serialize_refs ht₁ hvals₁
  unfold send at h
  cases h
  refine ⟨hsteps.valid, ⟨fun val slot hslot ↦ ?_, fun slot hslot ↦ ?_⟩, hinbox, ?_, ?_, ?_⟩
  · exact hsteps.grows.valToSlot val slot (hvalToSlot ▸ hslot)
  · exact hsteps.grows.exported slot ((hexported slot).mpr hslot)
  · intro m hm p hp
    have hm' : m = message (e₁.tables.serialize vals).1 := by
      cases passable
      · cases hm
      · exact List.mem_singleton.mp hm
    rcases hmessage _ p (hm' ▸ hp) with hp | hp
    · exact hrefs p hp
    · exact hsteps.grows.valToSlot p.1 p.2 (hvalToSlot ▸ hp)
  · intro slot hslot
    refine Or.inl ?_
    rw [← hvalToSlot, ← hsteps.remotes slot]
    exact hslot
  · rw [hdelivered]
    intro p hp
    cases hp

theorem Data.mem_take_slots_iff (data : Data) (count : ℕ) (slot : Slot) :
    slot ∈ data.slots.take count ↔ ∃ val, (val, slot) ∈ data.refs.take count := by
  have hslots : data.refs.map Prod.snd = data.slots := List.map_snd_zip data.length_eq.ge
  rw [← hslots, ← List.map_take, List.mem_map]
  simp

theorem Data.mem_slots_iff (data : Data) (slot : Slot) :
    slot ∈ data.slots ↔ ∃ val, (val, slot) ∈ data.refs := by
  have h := data.mem_take_slots_iff data.slots.length slot
  rwa [List.take_length, List.take_of_length_le (List.length_zip ▸ Nat.min_le_right ..)] at h

/-- What is read. -/
theorem Exchange.of_receive {e e' : Endpoint} {action : Action} (slots : List Slot)
    (ht : e.tables.Valid) (hvalToSlot : e'.tables.valToSlot = (e.tables.receiveAll slots).valToSlot)
    (hslotToVal : e'.tables.slotToVal = (e.tables.receiveAll slots).slotToVal)
    (hexported : ∀ slot, e'.tables.Exported slot ↔ (e.tables.receiveAll slots).Exported slot)
    (hinbox : e'.inbox ⊆ e.inbox)
    (hslots : ∀ slot, slot ∈ slots ↔ ∃ val, (val, slot) ∈ e.delivered action) :
    Exchange e action e' [] := by
  have hsteps := receiveSteps_receiveAll ht slots
  refine ⟨hsteps.valid.congr hvalToSlot hslotToVal hexported,
    ⟨fun val slot hslot ↦ ?_, fun slot hslot ↦ ?_⟩, hinbox, ?_, fun slot hslot ↦ ?_, ?_⟩
  · rw [hvalToSlot]
    exact hsteps.grows.valToSlot val slot hslot
  · exact (hexported slot).mpr (hsteps.grows.exported slot hslot)
  · intro message hmessage
    cases hmessage
  · rw [hvalToSlot] at hslot
    exact (hsteps.remotes slot hslot).imp_right fun ⟨hmem, hnone⟩ ↦ ⟨hnone, (hslots slot).mp hmem⟩
  · intro p hp
    have hmem : p.2 ∈ slots := (hslots p.2).mpr ⟨p.1, hp⟩
    rw [valueOf, hslotToVal, hsteps.slotToVal, if_pos hmem, Option.getD_some]

theorem exchange_handle {e e' : Endpoint} {bootstrap : List Ref} {passable : Bool}
    {message : Message} {inbox : List Message} {sent : List Message} (ht : e.tables.Valid)
    (hbootstrap : ∀ val ∈ bootstrap, e.tables.Has val) (hinbox : e.inbox = message :: inbox)
    (h : { e with inbox }.handle bootstrap passable message = (e', sent)) :
    Exchange e (.dispatch bootstrap passable) e' sent := by
  have hrest : inbox ⊆ e.inbox := by
    rw [hinbox]
    exact List.subset_cons_self message inbox
  have hdelivered : e.delivered (.dispatch bootstrap passable) =
      if e.Reads message then message.refs else [] := by
    simp only [delivered, hinbox]
  cases message with
  | bootstrap q =>
    exact .of_send h ht hbootstrap rfl rfl (fun _ ↦ Iff.rfl) hrest
      (hdelivered.trans (if_pos trivial)) fun _ _ ↦ Or.inl
  | call q target method =>
    cases h
    refine .of_receive _ ht rfl rfl (fun _ ↦ Iff.rfl) hrest fun slot ↦ ?_
    rw [hdelivered, if_pos (show e.Reads (.call q target method) from trivial), List.mem_append,
      method.mem_slots_iff, List.mem_singleton]
    simp only [Message.refs, List.mem_cons, Prod.mk.injEq]
    constructor
    · rintro (⟨val, hmem⟩ | rfl)
      · exact ⟨val, Or.inr hmem⟩
      · exact ⟨.remote slot, Or.inl ⟨rfl, rfl⟩⟩
    · rintro ⟨val, ⟨-, rfl⟩ | hmem⟩
      · exact Or.inr rfl
      · exact Or.inl ⟨val, hmem⟩
  | «return» q result =>
    simp only [handle] at h
    split_ifs at h with hmem
    · cases h
      refine .of_receive _ ht rfl rfl (fun _ ↦ Iff.rfl) hrest fun slot ↦ ?_
      rw [hdelivered, if_pos (show e.Reads (.return q result) from hmem)]
      exact result.mem_slots_iff slot
    · cases h
      refine .of_receive [] ht rfl rfl (fun _ ↦ Iff.rfl) hrest fun slot ↦ ?_
      rw [hdelivered, if_neg (show ¬ e.Reads (.return q result) from hmem)]
      simp
  | resolve p result =>
    simp only [handle] at h
    split_ifs at h with hmem
    · cases h
      refine .of_receive _ ht rfl rfl (fun slot ↦ ?_) hrest fun slot ↦ ?_
      · cases slot <;> exact Iff.rfl
      · rw [hdelivered, if_pos (show e.Reads (.resolve p result) from hmem)]
        exact result.mem_slots_iff slot
    · cases h
      refine .of_receive [] ht rfl rfl (fun _ ↦ Iff.rfl) hrest fun slot ↦ ?_
      rw [hdelivered, if_neg (show ¬ e.Reads (.resolve p result) from hmem)]
      simp

/-- What is read before the handler throws. -/
theorem exchange_throws {e : Endpoint} {count : ℕ} {message : Message} {inbox : List Message}
    (ht : e.tables.Valid) (hinbox : e.inbox = message :: inbox) :
    Exchange e (.throws count) ({ e with inbox }.throws count message) [] := by
  have hrest : inbox ⊆ e.inbox := by
    rw [hinbox]
    exact List.subset_cons_self message inbox
  have hdelivered : e.delivered (.throws count) =
      if e.Reads message then message.data.refs.take count else [] := by
    simp only [delivered, hinbox]
  have hreads : ({ e with inbox } : Endpoint).Reads message ↔ e.Reads message := by
    cases message <;> exact Iff.rfl
  unfold throws
  by_cases hmem : e.Reads message
  · rw [if_pos (hreads.mpr hmem)]
    refine .of_receive _ ht rfl rfl (fun _ ↦ Iff.rfl) hrest fun slot ↦ ?_
    rw [hdelivered, if_pos hmem]
    exact message.data.mem_take_slots_iff count slot
  · rw [if_neg fun hread ↦ hmem (hreads.mp hread)]
    refine .of_receive [] ht rfl rfl (fun _ ↦ Iff.rfl) hrest fun slot ↦ ?_
    rw [hdelivered, if_neg hmem]
    simp

theorem remote_of_has {t : Tables} (ht : t.Valid) {slot : Slot} (hslot : t.Has (.remote slot)) :
    t.valToSlot.get (.remote slot) = some slot := by
  rcases hslot with hown | hsome
  · cases hown
  · obtain ⟨slot', hslot'⟩ := Option.isSome_iff_exists.mp hsome
    rw [hslot', ht.remote_slot slot slot' hslot']

theorem exchange_act {e e' : Endpoint} {action : Action} {sent : List Message}
    (ht : e.tables.Valid) (h : e.act action = some (e', sent)) : Exchange e action e' sent := by
  cases action with
  | getBootstrap =>
    cases h
    refine ⟨ht, .refl _, List.Subset.refl _, fun message hmessage ↦ ?_, fun _ ↦ Or.inl, ?_⟩
    · rw [List.mem_singleton.mp hmessage]
      intro p hp
      cases hp
    · intro p hp
      cases hp
  | call target args passable =>
    simp only [act] at h
    split_ifs at h with hhas
    refine .of_send (Option.some.inj h) ht hhas.2 rfl rfl (fun _ ↦ Iff.rfl) (List.Subset.refl _) rfl
      fun data p hp ↦ ?_
    rcases List.mem_cons.mp hp with rfl | hp
    · exact Or.inr (remote_of_has ht hhas.1)
    · exact Or.inl hp
  | dispatch bootstrap passable =>
    cases hinbox : e.inbox with
    | nil =>
      simp only [act, hinbox] at h
      cases h
    | cons message inbox =>
      simp only [act, hinbox] at h
      split_ifs at h with hhas
      exact exchange_handle ht hhas hinbox (Option.some.inj h)
  | throws count =>
    cases hinbox : e.inbox with
    | nil =>
      simp only [act, hinbox] at h
      cases h
    | cons message inbox =>
      simp only [act, hinbox] at h
      cases h
      exact exchange_throws ht hinbox
  | answer q result fulfilled passable =>
    simp only [act] at h
    obtain ⟨⟨e₁, sent₁⟩, hsend⟩ : ∃ p, { e with answering := e.answering.erase q }.send result
        passable (.return q) = p := ⟨_, rfl⟩
    rw [hsend] at h
    have hexchange : (∀ val ∈ result, e.tables.Has val) →
        Exchange e (.answer q result fulfilled passable) e₁ sent₁ := fun hvals ↦
      .of_send hsend ht hvals rfl rfl (fun _ ↦ Iff.rfl) (List.Subset.refl _) rfl fun _ _ ↦ Or.inl
    split_ifs at h with hhas herror
    · cases h
      have hplain : ∀ message ∈ [Message.return q .plain], ∀ p ∈ message.refs,
          e₁.tables.valToSlot.get p.1 = some p.2 := by
        intro message hmessage p hp
        rw [List.mem_singleton.mp hmessage] at hp
        cases hp
      exact { hexchange hhas.2 with sent := hplain }
    · cases h
      exact hexchange hhas.2
  | settle p result passable =>
    simp only [act] at h
    split_ifs at h with hhas
    refine .of_send (Option.some.inj h) ht hhas.2 rfl rfl (fun slot ↦ ?_) (List.Subset.refl _) rfl
      fun _ _ ↦ Or.inl
    cases slot <;> exact Iff.rfl

/-! ### Both ends -/

/-- The tables of the two ends and the messages between them fit. -/
structure Linked (s : Connection) : Prop where
  valid : ∀ side, (s side).tables.Valid
  /-- A remote value is one that the other end has exported. -/
  remote : ∀ side slot, ((s side).tables.valToSlot.get (.remote slot)).isSome →
    (s side.other).tables.Exported slot
  inbox : ∀ side, ∀ message ∈ (s side).inbox, ∀ p ∈ message.refs,
    (s side.other).tables.valToSlot.get p.1 = some p.2

theorem linked_init : Linked .init where
  valid _ := valid_empty
  remote _ _ h := by simp [Connection.init, Endpoint.init, empty] at h
  inbox _ _ h := by cases h

theorem Message.data_refs_subset (message : Message) : message.data.refs ⊆ message.refs := by
  cases message with
  | bootstrap q => exact List.Subset.refl _
  | call q target method => exact List.subset_cons_self _ _
  | «return» q result => exact List.Subset.refl _
  | resolve p result => exact List.Subset.refl _

theorem mem_inbox_of_delivered {e : Endpoint} {action : Action} {p : Ref × Slot}
    (hp : p ∈ e.delivered action) : ∃ message ∈ e.inbox, p ∈ message.refs := by
  cases action with
  | dispatch bootstrap passable =>
    cases hinbox : e.inbox with
    | nil =>
      simp only [delivered, hinbox] at hp
      cases hp
    | cons message inbox =>
      simp only [delivered, hinbox] at hp
      split_ifs at hp
      · exact ⟨message, List.mem_cons_self, hp⟩
      · cases hp
  | throws count =>
    cases hinbox : e.inbox with
    | nil =>
      simp only [delivered, hinbox] at hp
      cases hp
    | cons message inbox =>
      simp only [delivered, hinbox] at hp
      split_ifs at hp
      · exact ⟨message, List.mem_cons_self, message.data_refs_subset (List.mem_of_mem_take hp)⟩
      · cases hp
  | _ => cases hp

theorem exported_of_own {t : Tables} (ht : t.Valid) {val : Ref} {slot : Slot}
    (hown : val.isOwn = true) (hslot : t.valToSlot.get val = some slot) : t.Exported slot :=
  (ht.exported_iff slot).mpr ⟨val, hown, ht.own_slot val slot hown hslot⟩

/-- A slot that comes in and that this end does not know has been chosen by the other one. -/
theorem Linked.exported_of_delivered {s : Connection} (hs : Linked s) {side : Side}
    {action : Action} {p : Ref × Slot} (hp : p ∈ (s side).delivered action)
    (hunknown : (s side).tables.slotToVal.get p.2 = none) :
    (s side.other).tables.Exported p.2 := by
  obtain ⟨message, hmessage, hmem⟩ := mem_inbox_of_delivered hp
  have hslot := hs.inbox side message hmessage p hmem
  obtain ⟨val, slot⟩ := p
  cases val with
  | own isPromise identity => exact exported_of_own (hs.valid _) rfl hslot
  | remote slot' =>
    -- it would be a value of this end
    obtain rfl := (hs.valid _).remote_slot slot' slot hslot
    have hexported := hs.remote side.other slot (by rw [hslot]; rfl)
    rw [side.other_other] at hexported
    obtain ⟨val, -, hval⟩ := ((hs.valid side).exported_iff slot).mp hexported
    rw [hunknown] at hval
    cases hval

theorem linked_step {s s' : Connection} {event : Side × Action} (hs : Linked s)
    (h : Connection.step s event = some s') : Linked s' := by
  obtain ⟨actor, action⟩ := event
  obtain ⟨⟨e, sent⟩, hact, rfl⟩ := Option.map_eq_some_iff.mp h
  have hexchange := exchange_act (hs.valid actor) hact
  have hself := s.update_self actor e sent
  have hother := s.update_other actor e sent
  constructor
  · intro side
    rcases actor.eq_or_eq_other side with rfl | rfl
    · rw [hself]
      exact hexchange.valid
    · rw [hother]
      exact hs.valid actor.other
  · intro side slot hslot
    rcases actor.eq_or_eq_other side with rfl | rfl
    · rw [hself] at hslot
      rw [hother]
      rcases hexchange.remotes slot hslot with hknown | ⟨hunknown, val, hmem⟩
      · exact hs.remote side slot hknown
      · exact hs.exported_of_delivered hmem hunknown
    · rw [hother] at hslot
      rw [actor.other_other, hself]
      have hexported := hs.remote actor.other slot hslot
      rw [actor.other_other] at hexported
      exact hexchange.grows.exported slot hexported
  · intro side message hmessage p hp
    rcases actor.eq_or_eq_other side with rfl | rfl
    · rw [hself] at hmessage
      rw [hother]
      exact hs.inbox side message (hexchange.inbox hmessage) p hp
    · rw [hother] at hmessage
      rw [actor.other_other, hself]
      rcases List.mem_append.mp hmessage with hmessage | hmessage
      · have hslot := hs.inbox actor.other message hmessage p hp
        rw [actor.other_other] at hslot
        exact hexchange.grows.valToSlot p.1 p.2 hslot
      · exact hexchange.sent message hmessage p hp

theorem linked_of_run {events : List (Side × Action)} {s : Connection}
    (h : run Connection.step .init events = some s) : Linked s :=
  run_inductive (fun _ _ _ hs hstep ↦ linked_step hs hstep) linked_init h

/-! ### What a reference means -/

/-- The end that the value is of, with the value there. -/
def meaning (s : Connection) (side : Side) : Ref → Option (Side × Ref)
  | .own isPromise identity => some (side, .own isPromise identity)
  | .remote slot => ((s side.other).tables.slotToVal.get slot).map fun val ↦ (side.other, val)

theorem meaning_own (s : Connection) (side : Side) {val : Ref} (hown : val.isOwn = true) :
    meaning s side val = some (side, val) := by
  cases val with
  | own isPromise identity => rfl
  | remote slot => cases hown

theorem meaning_remote {s : Connection} {side : Side} {slot : Slot} {val : Ref}
    (hval : (s side.other).tables.slotToVal.get slot = some val) :
    meaning s side (.remote slot) = some (side.other, val) := by
  rw [meaning, hval, Option.map_some]

theorem Linked.exists_meaning {s : Connection} (hs : Linked s) {side : Side} {val : Ref}
    (hval : (s side).tables.Has val) :
    ∃ owner own, own.isOwn = true ∧ meaning s side val = some (owner, own) := by
  cases val with
  | own isPromise identity => exact ⟨side, _, rfl, rfl⟩
  | remote slot =>
    have hexported := hs.remote side slot (hval.resolve_left Bool.false_ne_true)
    obtain ⟨own, hown, hslot⟩ := ((hs.valid side.other).exported_iff slot).mp hexported
    exact ⟨side.other, own, hown, meaning_remote hslot⟩

theorem grows_step {s s' : Connection} {event : Side × Action} (hs : Linked s)
    (h : Connection.step s event = some s') (side : Side) :
    Grows (s side).tables (s' side).tables := by
  obtain ⟨actor, action⟩ := event
  obtain ⟨⟨e, sent⟩, hact, rfl⟩ := Option.map_eq_some_iff.mp h
  rcases actor.eq_or_eq_other side with rfl | rfl
  · rw [s.update_self]
    exact (exchange_act (hs.valid side) hact).grows
  · rw [s.update_other]
    exact .refl _

theorem meaning_of_grows {s s' : Connection} (hs : Linked s) (hs' : Linked s') {side : Side}
    (hgrows : Grows (s side.other).tables (s' side.other).tables) {val : Ref} {owner : Side}
    {own : Ref} (hown : own.isOwn = true) (hmeaning : meaning s side val = some (owner, own)) :
    meaning s' side val = some (owner, own) := by
  cases val with
  | own isPromise identity => exact hmeaning
  | remote slot =>
    obtain ⟨val, hslot, heq⟩ := Option.map_eq_some_iff.mp hmeaning
    obtain ⟨rfl, rfl⟩ := Prod.mk.inj heq
    have hback := (hs.valid side.other).slot_own val slot hown hslot
    exact meaning_remote ((hs'.valid side.other).own_slot val slot hown
      (hgrows.valToSlot val slot hback))

/-- **A reference that an end has always means a value of one of the ends, and the same one in every
later state.** -/
theorem meaning_stable {events events' : List (Side × Action)} {s s' : Connection}
    (h : run Connection.step .init events = some s) (h' : run Connection.step s events' = some s')
    (side : Side) (val : Ref) (hval : (s side).tables.Has val) :
    ∃ owner own, own.isOwn = true ∧ meaning s side val = some (owner, own) ∧
      meaning s' side val = some (owner, own) := by
  have hs := linked_of_run h
  obtain ⟨owner, own, hown, hmeaning⟩ := hs.exists_meaning hval
  have hkeep : ∀ s₀ event s₁, Linked s₀ ∧ meaning s₀ side val = some (owner, own) →
      Connection.step s₀ event = some s₁ →
      Linked s₁ ∧ meaning s₁ side val = some (owner, own) := by
    rintro s₀ event s₁ ⟨hlinked, hmean⟩ hstep
    have hlinked' := linked_step hlinked hstep
    exact ⟨hlinked',
      meaning_of_grows hlinked hlinked' (grows_step hlinked hstep side.other) hown hmean⟩
  exact ⟨owner, own, hown, hmeaning, (run_inductive hkeep ⟨hs, hmeaning⟩ h').2⟩

theorem meaning_greeting : ∃ s s', run Connection.step .init greeting = some s ∧
    run Connection.step s [(.there, .dispatch [] true)] = some s' ∧
    ∃ owner own, own.isOwn = true ∧ meaning s .here (.remote (.object 1)) = some (owner, own) ∧
      meaning s' .here (.remote (.object 1)) = some (owner, own) := by
  refine ⟨_, _, rfl, rfl, ?_⟩
  exact @meaning_stable greeting [(.there, .dispatch [] true)] _ _ rfl rfl .here _ (by decide)

/-! ### What a reference arrives as -/

theorem Tables.Valid.valueOf_exported {t : Tables} (ht : t.Valid) {slot : Slot}
    (hslot : t.Exported slot) :
    ∃ own, own.isOwn = true ∧ t.slotToVal.get slot = some own ∧ t.valueOf slot = own := by
  obtain ⟨own, hown, hget⟩ := (ht.exported_iff slot).mp hslot
  exact ⟨own, hown, hget, by rw [valueOf, hget, Option.getD_some]⟩

theorem Tables.Valid.valueOf_not_exported {t : Tables} (ht : t.Valid) {slot : Slot}
    (hslot : ¬ t.Exported slot) : t.valueOf slot = .remote slot := by
  rw [valueOf]
  cases hget : t.slotToVal.get slot with
  | none => rfl
  | some val =>
    cases val with
    | own isPromise identity => exact absurd ((ht.exported_iff slot).mpr ⟨_, rfl, hget⟩) hslot
    | remote slot' => rw [Option.getD_some, (ht.slot_remote slot slot' hget).1]

theorem Linked.means_iff {s s' : Connection} (hs : Linked s) {side : Side}
    {action : Action} (hstep : Connection.step s (side, action) = some s') {val : Ref} {slot : Slot}
    (hdelivered : (val, slot) ∈ (s side).delivered action) :
    meaning s' side ((s' side).tables.valueOf slot) = meaning s' side.other val ↔
      ¬ (val.isOwn = true ∧ (s side).tables.Exported slot) := by
  have hs' := linked_step hs hstep
  have hvalue : (s' side).tables.valueOf slot = (s side).tables.valueOf slot := by
    obtain ⟨⟨e, sent⟩, hact, rfl⟩ := Option.map_eq_some_iff.mp hstep
    have hkept := (exchange_act (hs.valid side) hact).delivered _ hdelivered
    rwa [s.update_self]
  have hsent : (s side.other).tables.valToSlot.get val = some slot := by
    obtain ⟨message, hmessage, hmem⟩ := mem_inbox_of_delivered hdelivered
    exact hs.inbox side message hmessage _ hmem
  rw [hvalue]
  cases val with
  | own isPromise identity =>
    simp only [Ref.isOwn, true_and]
    have hsource : (s' side.other).tables.slotToVal.get slot = some (.own isPromise identity) :=
      (hs'.valid _).own_slot _ _ rfl ((grows_step hs hstep side.other).valToSlot _ _ hsent)
    by_cases hexported : (s side).tables.Exported slot
    · -- the receiver has it for one of its own values
      obtain ⟨own, hown, -, hget⟩ := (hs.valid side).valueOf_exported hexported
      rw [hget, meaning_own s' side hown]
      refine iff_of_false (fun heq ↦ ?_) (not_not_intro hexported)
      exact side.other_ne (Prod.mk.inj (Option.some.inj heq)).1.symm
    · rw [(hs.valid side).valueOf_not_exported hexported, meaning_remote hsource]
      exact iff_of_true rfl hexported
  | remote slot' =>
    obtain rfl := (hs.valid _).remote_slot slot' slot hsent
    have hexported := hs.remote side.other slot (by rw [hsent]; rfl)
    rw [side.other_other] at hexported
    obtain ⟨own, hown, hget, hvalueOf⟩ := (hs.valid side).valueOf_exported hexported
    have hback : (s' side).tables.slotToVal.get slot = some own :=
      (hs'.valid side).own_slot own slot hown ((grows_step hs hstep side).valToSlot _ _
        ((hs.valid side).slot_own own slot hown hget))
    have hmeaning : meaning s' side.other (.remote slot) = some (side, own) := by
      rw [meaning, side.other_other, hback, Option.map_some]
    rw [hvalueOf, meaning_own s' side hown, hmeaning]
    exact iff_of_true rfl fun hclash ↦ Bool.false_ne_true hclash.1

/-- **A reference arrives as what was sent, unless it is to a value of the sender whose slot the
receiver has itself chosen for one of its own; then it arrives as another.** -/
theorem delivered_means_iff {events : List (Side × Action)} {s s' : Connection}
    (h : run Connection.step .init events = some s) {side : Side} {action : Action}
    (hstep : Connection.step s (side, action) = some s') {val : Ref} {slot : Slot}
    (hdelivered : (val, slot) ∈ (s side).delivered action) :
    meaning s' side ((s' side).tables.valueOf slot) = meaning s' side.other val ↔
      ¬ (val.isOwn = true ∧ (s side).tables.Exported slot) :=
  (linked_of_run h).means_iff hstep hdelivered

/-- The first object of one end arrives as that of the other. -/
theorem delivered_wrong_greeting : ∃ s s', run Connection.step .init greeting = some s ∧
    Connection.step s (.there, .dispatch [] true) = some s' ∧
    (.own false 7, .object 1) ∈ (s .there).delivered (.dispatch [] true) ∧
    meaning s' .there ((s' .there).tables.valueOf (.object 1)) ≠
      meaning s' .here (.own false 7) := by
  refine ⟨_, _, rfl, rfl, ?_, ?_⟩
  · decide
  · have hmeans := @delivered_means_iff greeting _ _ rfl .there (.dispatch [] true) rfl
      (.own false 7) (.object 1) (by decide)
    exact fun heq ↦ hmeans.mp heq ⟨rfl, by decide⟩

/-- No slot comes in for a value of the sender that the receiver has itself chosen. -/
def Clean (s : Connection) (event : Side × Action) (_ : Connection) : Prop :=
  ∀ p ∈ (s event.1).delivered event.2, p.1.isOwn = true → ¬ (s event.1).tables.Exported p.2

instance (s : Connection) (event : Side × Action) (s' : Connection) :
    Decidable (Clean s event s') := by
  unfold Clean
  infer_instance

/-- **Where one of the ends has exported nothing, every reference arrives as what was sent.** -/
theorem delivered_means_of_oneSided {events : List (Side × Action)} {s s' : Connection}
    (h : run Connection.step .init events = some s) {side : Side} {action : Action}
    (hstep : Connection.step s (side, action) = some s') {exporter : Side}
    (hnone : ∀ slot, ¬ (s exporter.other).tables.Exported slot) {val : Ref} {slot : Slot}
    (hdelivered : (val, slot) ∈ (s side).delivered action) :
    meaning s' side ((s' side).tables.valueOf slot) = meaning s' side.other val := by
  have hs := linked_of_run h
  refine (hs.means_iff hstep hdelivered).mpr fun ⟨hown, hexported⟩ ↦ ?_
  rcases exporter.eq_or_eq_other side with rfl | rfl
  · obtain ⟨message, hmessage, hmem⟩ := mem_inbox_of_delivered hdelivered
    exact hnone slot (exported_of_own (hs.valid _) hown (hs.inbox side message hmessage _ hmem))
  · exact hnone slot hexported

theorem delivered_means_greeting : ∃ s s', run Connection.step .init (greeting.take 2) = some s ∧
    Connection.step s (.here, .dispatch [] true) = some s' ∧
    meaning s' .here ((s' .here).tables.valueOf (.object 1)) =
      meaning s' .there (.own false 0) := by
  refine ⟨_, _, rfl, rfl, ?_⟩
  have hnone : ∀ slot, ¬ Tables.empty.Exported slot := by
    rintro (exportID | promiseID) ⟨hpos, hle⟩
    · exact absurd hpos (Nat.not_le.mpr (Nat.lt_succ_of_le hle))
    · exact absurd hpos (Nat.not_le.mpr (Nat.lt_succ_of_le hle))
  exact @delivered_means_of_oneSided (greeting.take 2) _ _ rfl .here (.dispatch [] true) rfl .there
    hnone _ _ (by decide)

end CosmicSwingset.Captp
