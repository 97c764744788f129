import CosmicSwingset.Foundation.OrderedMap
import CosmicSwingset.Foundation.Traversal
import Mathlib.Data.List.Induction

/-!
# The tables of a connection

`makeCapTP` of `captp.umd.js` keeps, for each side of a connection, the slot of every value that has
crossed it and the value of every slot. A value that goes out for the first time gets the next
number of its kind, `o1` or `p1` and so on (`exportVal`); a slot that comes in for the first time
gets a remote presence or promise (`receive`). Both kinds of slots, those chosen here and those
chosen by the peer, are keys of the one map `slotToVal`.

A value is known by its identity on its side: one of its own, or the remote one made for a slot.
What is an invariant of the tables whatever comes in is `Tables.Valid`: among others, that a slot
chosen here has always the value that it was chosen for.
-/

set_option autoImplicit false
set_option relaxedAutoImplicit false

namespace CosmicSwingset.Captp

open Foundation

/-! ### Slots and values -/

/-- The slot of an object or of a promise, with its number. -/
inductive Slot
  | object (exportID : ℕ)
  | promise (promiseID : ℕ)
  deriving DecidableEq

def Slot.text : Slot → String
  | .object exportID => "o" ++ toString exportID
  | .promise promiseID => "p" ++ toString promiseID

/-- A value that is passed by reference. -/
inductive Ref
  | own (isPromise : Bool) (identity : ℕ)
  | remote (slot : Slot)
  deriving DecidableEq

def Slot.isPromise : Slot → Bool
  | .object _ => false
  | .promise _ => true

/-- `Promise.resolve(val) === val`. -/
def Ref.isPromise : Ref → Bool
  | .own isPromise _ => isPromise
  | .remote slot => slot.isPromise

def Ref.isOwn : Ref → Bool
  | .own _ _ => true
  | .remote _ => false

/-- The tables, with the promises of the peer that are waited for and those of this side whose
settlement is to be sent. -/
structure Tables where
  lastPromiseID : ℕ
  lastExportID : ℕ
  valToSlot : OrderedMap Ref Slot
  slotToVal : OrderedMap Slot Ref
  imports : List ℕ
  unsettled : List ℕ

namespace Tables

def empty : Tables := ⟨0, 0, .empty, .empty, [], []⟩

/-- A new slot for a value of this side. -/
def newExport (val : Ref) (t : Tables) : Slot × Tables :=
  if val.isPromise then
    let slot := .promise (t.lastPromiseID + 1)
    (slot, { t with
      lastPromiseID := t.lastPromiseID + 1
      unsettled := t.unsettled ++ [t.lastPromiseID + 1]
      valToSlot := t.valToSlot.set val slot
      slotToVal := t.slotToVal.set slot val })
  else
    let slot := .object (t.lastExportID + 1)
    (slot, { t with
      lastExportID := t.lastExportID + 1
      valToSlot := t.valToSlot.set val slot
      slotToVal := t.slotToVal.set slot val })

/-- The part of `serializeSlot` that has to do with the tables. -/
def exportVal (t : Tables) (val : Ref) : Slot × Tables :=
  match t.valToSlot.get val with
  | some slot => (slot, t)
  | none => t.newExport val

/-- `unserializeSlot`, once the slot is known. -/
def receive (t : Tables) (slot : Slot) : Tables :=
  match t.slotToVal.get slot with
  | some _ => t
  | none =>
    { t with
      imports :=
        match slot with
        | .object _ => t.imports
        | .promise promiseID =>
          if promiseID ∈ t.imports then t.imports else t.imports ++ [promiseID]
      slotToVal := t.slotToVal.set slot (.remote slot)
      valToSlot := t.valToSlot.set (.remote slot) slot }

/-- The values in a message that goes out, in the order of their slots. -/
def exportAll (t : Tables) (vals : List Ref) : List Slot × Tables := mapState exportVal t vals

/-- The slots of a message that comes in. -/
def receiveAll (t : Tables) (slots : List Slot) : Tables := slots.foldl receive t

/-- The slot has been chosen on this side. -/
def Exported (t : Tables) : Slot → Prop
  | .object exportID => 1 ≤ exportID ∧ exportID ≤ t.lastExportID
  | .promise promiseID => 1 ≤ promiseID ∧ promiseID ≤ t.lastPromiseID

instance (t : Tables) (slot : Slot) : Decidable (t.Exported slot) := by
  cases slot <;> exact inferInstanceAs (Decidable (_ ∧ _))

/-- This side has the value: it is one of its own, or has come in. -/
def Has (t : Tables) (val : Ref) : Prop := val.isOwn = true ∨ (t.valToSlot.get val).isSome = true

instance (t : Tables) (val : Ref) : Decidable (t.Has val) := inferInstanceAs (Decidable (_ ∨ _))

/-! ### What holds of the tables -/

structure Valid (t : Tables) : Prop where
  own_slot : ∀ val slot, val.isOwn = true → t.valToSlot.get val = some slot →
    t.slotToVal.get slot = some val
  slot_own : ∀ val slot, val.isOwn = true → t.slotToVal.get slot = some val →
    t.valToSlot.get val = some slot
  exported_iff : ∀ slot, t.Exported slot ↔ ∃ val, val.isOwn = true ∧ t.slotToVal.get slot = some val
  remote_slot : ∀ slot slot', t.valToSlot.get (.remote slot) = some slot' → slot' = slot
  slot_remote : ∀ slot slot', t.slotToVal.get slot = some (.remote slot') →
    slot' = slot ∧ t.valToSlot.get (.remote slot) = some slot
  remote_known : ∀ slot, (t.valToSlot.get (.remote slot)).isSome → (t.slotToVal.get slot).isSome
  own_kind : ∀ val slot, t.valToSlot.get val = some slot → slot.isPromise = val.isPromise

/-- Nothing of this is about the promises that are waited for or that are to be sent. -/
theorem Valid.congr {t t' : Tables} (ht : t.Valid) (hvalToSlot : t'.valToSlot = t.valToSlot)
    (hslotToVal : t'.slotToVal = t.slotToVal)
    (hexported : ∀ slot, t'.Exported slot ↔ t.Exported slot) :
    t'.Valid where
  own_slot := by rw [hvalToSlot, hslotToVal]; exact ht.own_slot
  slot_own := by rw [hvalToSlot, hslotToVal]; exact ht.slot_own
  exported_iff slot := by rw [hexported, hslotToVal]; exact ht.exported_iff slot
  remote_slot := by rw [hvalToSlot]; exact ht.remote_slot
  slot_remote := by rw [hvalToSlot, hslotToVal]; exact ht.slot_remote
  remote_known := by rw [hvalToSlot, hslotToVal]; exact ht.remote_known
  own_kind := by rw [hvalToSlot]; exact ht.own_kind

theorem valid_empty : empty.Valid where
  own_slot _ _ _ h := by simp [empty] at h
  slot_own _ _ _ h := by simp [empty] at h
  exported_iff slot := by
    cases slot <;> simp [empty, Exported] <;> omega
  remote_slot _ _ h := by simp [empty] at h
  slot_remote _ _ h := by simp [empty] at h
  remote_known _ h := by simp [empty] at h
  own_kind _ _ h := by simp [empty] at h

/-- What is never taken back. -/
structure Grows (t t' : Tables) : Prop where
  valToSlot : ∀ val slot, t.valToSlot.get val = some slot → t'.valToSlot.get val = some slot
  exported : ∀ slot, t.Exported slot → t'.Exported slot

theorem Grows.refl (t : Tables) : Grows t t := ⟨fun _ _ h ↦ h, fun _ h ↦ h⟩

theorem Grows.trans {t t' t'' : Tables} (hfirst : Grows t t') (hrest : Grows t' t'') :
    Grows t t'' :=
  ⟨fun val slot h ↦ hrest.valToSlot val slot (hfirst.valToSlot val slot h),
    fun slot h ↦ hrest.exported slot (hfirst.exported slot h)⟩

theorem Grows.has {t t' : Tables} (hgrows : Grows t t') {val : Ref} (hval : t.Has val) :
    t'.Has val := by
  refine hval.imp_right fun hsome ↦ ?_
  obtain ⟨slot, hslot⟩ := Option.isSome_iff_exists.mp hsome
  rw [hgrows.valToSlot val slot hslot]
  rfl

/-! ### Exports -/

/-- A value gets the next number of its kind. -/
structure NewSlot (t : Tables) (val : Ref) (slot : Slot) (t' : Tables) : Prop where
  valToSlot : t'.valToSlot = t.valToSlot.set val slot
  slotToVal : t'.slotToVal = t.slotToVal.set slot val
  unused : ¬ t.Exported slot
  exported : ∀ slot', t'.Exported slot' ↔ t.Exported slot' ∨ slot' = slot
  kind : slot.isPromise = val.isPromise
  imports : t'.imports = t.imports

theorem newSlot_newExport (t : Tables) (val : Ref) :
    NewSlot t val (t.newExport val).1 (t.newExport val).2 := by
  unfold newExport
  split_ifs with hpromise
  · refine ⟨rfl, rfl, by simp [Exported], fun slot' ↦ ?_, by simp [Slot.isPromise, hpromise], rfl⟩
    cases slot' with
    | object exportID => simp [Exported]
    | promise promiseID =>
      simp [Exported]
      omega
  · refine ⟨rfl, rfl, by simp [Exported], fun slot' ↦ ?_, by simp [Slot.isPromise, hpromise], rfl⟩
    cases slot' with
    | promise promiseID => simp [Exported]
    | object exportID =>
      simp [Exported]
      omega

theorem NewSlot.grows {t t' : Tables} {val : Ref} {slot : Slot} (hnew : NewSlot t val slot t')
    (hval : t.valToSlot.get val = none) : Grows t t' where
  valToSlot val' slot' h := by
    have hne : val' ≠ val := by
      rintro rfl
      rw [hval] at h
      cases h
    rw [hnew.valToSlot, OrderedMap.get_set, if_neg hne, h]
  exported slot' h := (hnew.exported slot').mpr (Or.inl h)

theorem NewSlot.valid {t t' : Tables} {val : Ref} {slot : Slot} (hnew : NewSlot t val slot t')
    (ht : t.Valid) (hown : val.isOwn = true) (hval : t.valToSlot.get val = none) : t'.Valid := by
  have hvalToSlot : ∀ val', t'.valToSlot.get val' =
      if val' = val then some slot else t.valToSlot.get val' := by
    intro val'
    rw [hnew.valToSlot, OrderedMap.get_set]
  have hslotToVal : ∀ slot', t'.slotToVal.get slot' =
      if slot' = slot then some val else t.slotToVal.get slot' := by
    intro slot'
    rw [hnew.slotToVal, OrderedMap.get_set]
  -- no value of this side has the slot yet
  have hunused : ∀ val', val'.isOwn = true → t.valToSlot.get val' ≠ some slot := by
    intro val' hown' hslot
    exact hnew.unused ((ht.exported_iff slot).mpr ⟨val', hown', ht.own_slot val' slot hown' hslot⟩)
  have hremote : ∀ slot', Ref.remote slot' ≠ val := by
    rintro slot' rfl
    cases hown
  constructor
  · intro val' slot' hown' h
    rw [hvalToSlot] at h
    rw [hslotToVal]
    have := ht.own_slot val' slot' hown'
    grind
  · intro val' slot' hown' h
    rw [hslotToVal] at h
    rw [hvalToSlot]
    have := ht.slot_own val' slot' hown'
    grind
  · intro slot'
    rw [hnew.exported]
    simp only [hslotToVal]
    by_cases heq : slot' = slot
    · simp only [heq, or_true, if_true, true_iff]
      exact ⟨val, hown, rfl⟩
    · simp only [heq, or_false, if_false]
      exact ht.exported_iff slot'
  · intro slot' slot'' h
    rw [hvalToSlot, if_neg (hremote slot')] at h
    exact ht.remote_slot slot' slot'' h
  · intro slot' slot'' h
    rw [hslotToVal] at h
    rw [hvalToSlot, if_neg (hremote slot')]
    split_ifs at h
    · exact absurd (Option.some.inj h).symm (hremote slot'')
    · exact ht.slot_remote slot' slot'' h
  · intro slot' h
    rw [hvalToSlot, if_neg (hremote slot')] at h
    rw [hslotToVal]
    split_ifs
    · rfl
    · exact ht.remote_known slot' h
  · intro val' slot' h
    rw [hvalToSlot] at h
    have := hnew.kind
    have := ht.own_kind val' slot'
    grind

/-- What an export does. -/
structure ExportStep (t : Tables) (val : Ref) (slot : Slot) (t' : Tables) : Prop where
  valid : t'.Valid
  grows : Grows t t'
  slot : t'.valToSlot.get val = some slot
  remotes : ∀ slot', t'.valToSlot.get (.remote slot') = t.valToSlot.get (.remote slot')

theorem exportStep_exportVal {t : Tables} (ht : t.Valid) {val : Ref} (hval : t.Has val) :
    ExportStep t val (t.exportVal val).1 (t.exportVal val).2 := by
  unfold exportVal
  cases hslot : t.valToSlot.get val with
  | some slot => exact ⟨ht, .refl t, hslot, fun _ ↦ rfl⟩
  | none =>
    have hown : val.isOwn = true := by
      rcases hval with hown | hsome
      · exact hown
      · rw [hslot] at hsome
        cases hsome
    have hnew := newSlot_newExport t val
    refine ⟨hnew.valid ht hown hslot, hnew.grows hslot, ?_, fun slot' ↦ ?_⟩
    · simp only [hnew.valToSlot, OrderedMap.get_set, if_true]
    · have hne : Ref.remote slot' ≠ val := by
        rintro rfl
        cases hown
      simp only [hnew.valToSlot, OrderedMap.get_set, if_neg hne]

/-- What the exports of a message do: every value has its slot then. -/
structure ExportSteps (t : Tables) (vals : List Ref) (slots : List Slot) (t' : Tables) : Prop where
  valid : t'.Valid
  grows : Grows t t'
  slots : List.Forall₂ (fun val slot ↦ t'.valToSlot.get val = some slot) vals slots
  remotes : ∀ slot', t'.valToSlot.get (.remote slot') = t.valToSlot.get (.remote slot')

theorem exportSteps_exportAll {t : Tables} (ht : t.Valid) {vals : List Ref}
    (hvals : ∀ val ∈ vals, t.Has val) :
    ExportSteps t vals (t.exportAll vals).1 (t.exportAll vals).2 := by
  unfold exportAll
  induction vals generalizing t with
  | nil => exact ⟨ht, .refl t, .nil, fun _ ↦ rfl⟩
  | cons val vals ih =>
    obtain ⟨hval, hrest⟩ := List.forall_mem_cons.mp hvals
    have hstep := exportStep_exportVal ht hval
    have hsteps := ih hstep.valid fun val' hval' ↦ hstep.grows.has (hrest val' hval')
    refine ⟨hsteps.valid, hstep.grows.trans hsteps.grows, ?_, fun slot' ↦ ?_⟩
    · exact .cons (hsteps.grows.valToSlot _ _ hstep.slot) hsteps.slots
    · exact (hsteps.remotes slot').trans (hstep.remotes slot')

/-! ### Imports -/

/-- The value of a slot after it has come in. -/
def valueOf (t : Tables) (slot : Slot) : Ref := (t.slotToVal.get slot).getD (.remote slot)

theorem slotToVal_receive (t : Tables) (slot slot' : Slot) :
    (t.receive slot).slotToVal.get slot' =
      if slot' = slot then some (t.valueOf slot) else t.slotToVal.get slot' := by
  unfold receive valueOf
  cases hslot : t.slotToVal.get slot with
  | none => rw [OrderedMap.get_set, Option.getD_none]
  | some val =>
    split_ifs with heq
    · rw [heq, hslot, Option.getD_some]
    · rfl

theorem exported_receive (t : Tables) (slot slot' : Slot) :
    (t.receive slot).Exported slot' ↔ t.Exported slot' := by
  unfold receive
  cases t.slotToVal.get slot <;> cases slot' <;> rfl

theorem valToSlot_receive (t : Tables) (slot : Slot) (val : Ref) :
    (t.receive slot).valToSlot.get val =
      if t.slotToVal.get slot = none ∧ val = .remote slot then some slot
      else t.valToSlot.get val := by
  unfold receive
  cases hslot : t.slotToVal.get slot with
  | none => simp only [OrderedMap.get_set, true_and]
  | some val' => simp

/-- A slot that comes in is the peer's, or one of this side with its value. -/
theorem valid_receive {t : Tables} (ht : t.Valid) (slot : Slot) : (t.receive slot).Valid := by
  cases hslot : t.slotToVal.get slot with
  | some val =>
    have hsame : t.receive slot = t := by simp only [receive, hslot]
    rwa [hsame]
  | none =>
    have hvalue : t.valueOf slot = .remote slot := by rw [valueOf, hslot, Option.getD_none]
    have hslotToVal : ∀ slot', (t.receive slot).slotToVal.get slot' =
        if slot' = slot then some (.remote slot) else t.slotToVal.get slot' := by
      intro slot'
      rw [slotToVal_receive, hvalue]
    have hvalToSlot : ∀ val, (t.receive slot).valToSlot.get val =
        if val = .remote slot then some slot else t.valToSlot.get val := by
      intro val
      rw [valToSlot_receive, hslot]
      simp
    have hremote : ∀ val : Ref, val.isOwn = true → val ≠ .remote slot := by
      rintro val hown rfl
      cases hown
    constructor
    · intro val slot' hown h
      rw [hvalToSlot, if_neg (hremote val hown)] at h
      have hval := ht.own_slot val slot' hown h
      have hne : slot' ≠ slot := by
        rintro rfl
        rw [hslot] at hval
        cases hval
      rw [hslotToVal, if_neg hne, hval]
    · intro val slot' hown h
      rw [hslotToVal] at h
      split_ifs at h
      · exact absurd (Option.some.inj h).symm (hremote val hown)
      · rw [hvalToSlot, if_neg (hremote val hown)]
        exact ht.slot_own val slot' hown h
    · intro slot'
      rw [exported_receive, ht.exported_iff]
      refine exists_congr fun val ↦ and_congr_right fun hown ↦ ?_
      rw [hslotToVal]
      split_ifs with heq
      · rw [heq, hslot]
        simp [(hremote val hown).symm]
      · exact Iff.rfl
    · intro slot' slot'' h
      rw [hvalToSlot] at h
      have := ht.remote_slot slot' slot''
      grind
    · intro slot' slot'' h
      rw [hslotToVal] at h
      rw [hvalToSlot]
      have := ht.slot_remote slot' slot''
      grind
    · intro slot' h
      rw [hvalToSlot] at h
      rw [hslotToVal]
      have := ht.remote_known slot'
      grind
    · intro val slot' h
      rw [hvalToSlot] at h
      split_ifs at h with heq
      · rw [heq, ← Option.some.inj h]
        rfl
      · exact ht.own_kind val slot' h

/-- What the slots of a message do: each has a value then, the one that it had if it had one, and a
remote one otherwise. -/
structure ReceiveSteps (t : Tables) (slots : List Slot) (t' : Tables) : Prop where
  valid : t'.Valid
  grows : Grows t t'
  slotToVal : ∀ slot, t'.slotToVal.get slot =
    if slot ∈ slots then some (t.valueOf slot) else t.slotToVal.get slot
  exported : ∀ slot, t'.Exported slot ↔ t.Exported slot
  remotes : ∀ slot, (t'.valToSlot.get (.remote slot)).isSome →
    (t.valToSlot.get (.remote slot)).isSome ∨ slot ∈ slots ∧ t.slotToVal.get slot = none

theorem grows_receive (t : Tables) (ht : t.Valid) (slot : Slot) : Grows t (t.receive slot) where
  valToSlot val slot' h := by
    rw [valToSlot_receive]
    split_ifs with hnew
    · rw [hnew.2] at h
      rw [ht.remote_slot slot slot' h]
    · exact h
  exported slot' h := (exported_receive t slot slot').mpr h

theorem receiveSteps_receiveAll {t : Tables} (ht : t.Valid) (slots : List Slot) :
    ReceiveSteps t slots (t.receiveAll slots) := by
  induction slots using List.reverseRecOn with
  | nil => exact ⟨ht, .refl t, by simp [receiveAll], fun _ ↦ Iff.rfl, fun _ h ↦ Or.inl h⟩
  | append_singleton slots slot ih =>
    have hreceive : t.receiveAll (slots ++ [slot]) = (t.receiveAll slots).receive slot := by
      rw [receiveAll, List.foldl_append]
      rfl
    have hvalue : (t.receiveAll slots).valueOf slot = t.valueOf slot := by
      rw [valueOf, ih.slotToVal]
      split_ifs
      · rfl
      · rfl
    rw [hreceive]
    refine ⟨valid_receive ih.valid slot, ih.grows.trans (grows_receive _ ih.valid slot), ?_, ?_, ?_⟩
    · intro slot'
      rw [slotToVal_receive, hvalue, ih.slotToVal]
      grind
    · intro slot'
      rw [exported_receive, ih.exported]
    · intro slot' h
      rw [valToSlot_receive] at h
      split_ifs at h with hnew
      · obtain ⟨hnone, heq⟩ := hnew
        cases heq
        rw [ih.slotToVal] at hnone
        split_ifs at hnone
        exact Or.inr ⟨List.mem_append_right _ (List.mem_singleton_self _), hnone⟩
      · exact (ih.remotes slot' h).imp_right (And.imp_left (List.mem_append_left _))

end Tables

end CosmicSwingset.Captp
