import CosmicSwingset.Foundation.Numbered
import CosmicSwingset.Foundation.Transition
import Mathlib.Data.List.Nodup
import Mathlib.Logic.Function.Basic

/-!
# The registry

`makeRegistry` of `vat-registry.js` keeps objects under ids that it makes itself, a name and a
counter in hexadecimal, and for every object the first of its ids. All methods are asynchronous:
they await their arguments, which are promises, and then do their work in one turn. So calls overlap
in every order in which promises can be resolved (`step`).

What the registry is for can be said without its two maps, by the list of what its calls have
returned so far (`Sound`): the ids are all different, a lookup gives what was registered under the
id, and a reverse lookup the first id of the object. `Stored` relates the maps to that list.
-/

set_option autoImplicit false
set_option relaxedAutoImplicit false

namespace CosmicSwingset.Vats

open Foundation

variable {ω : Type*}

/-! ### The methods -/

/-- `i`, `map` and `rmap`. The counter is exact, because a `Map` has no room for `2 ^ 53` ids. -/
structure Registry (ω : Type*) where
  i : ℕ
  map : String → Option ω
  rmap : ω → Option String

def Registry.empty : Registry ω := ⟨0, fun _ ↦ none, fun _ ↦ none⟩

namespace Registry

def get (registry : Registry ω) (id : String) : Option ω := registry.map id

/-- The name, `#`, and `i.toString(16)`. -/
def id (name : String) (i : ℕ) : String := numbered '#' 16 name i

def set [DecidableEq ω] (registry : Registry ω) (name : String) (obj : ω) :
    Registry ω × String :=
  let i := registry.i + 1
  let id := id name i
  ({ i
     map := Function.update registry.map id (some obj)
     rmap :=
      if (registry.rmap obj).isSome then registry.rmap
      else Function.update registry.rmap obj (some id) }, id)

def reverseGet (registry : Registry ω) (obj : ω) : Option String := registry.rmap obj

end Registry

/-! ### Calls -/

/-- A call, with what its arguments have been resolved to so far. -/
inductive RegistryCall (ω : Type*)
  | get (id : Option String)
  | set (name : Option String) (obj : Option ω)
  | reverseGet (obj : Option ω)
  | settled

/-- What a call has returned, with its arguments. -/
inductive Returned (ω : Type*)
  | get (id : String) (result : Option ω)
  | set (obj : ω) (id : String)
  | reverseGet (obj : ω) (result : Option String)

/-- * `get`, `set`, `reverseGet`: a method is called.
* `resolveId`, `resolveName`, `resolveObj`: an argument of a call is resolved.
* `reject`: an argument of a call is rejected, and so is the call.
* `resume`: a call whose arguments are all resolved does its work and returns. -/
inductive RegistryEvent (ω : Type*)
  | get
  | set
  | reverseGet
  | resolveId (call : ℕ) (id : String)
  | resolveName (call : ℕ) (name : String)
  | resolveObj (call : ℕ) (obj : ω)
  | reject (call : ℕ)
  | resume (call : ℕ)

namespace RegistryCall

def resolveId (id : String) : RegistryCall ω → Option (RegistryCall ω)
  | .get none => some (.get (some id))
  | _ => none

def resolveName (name : String) : RegistryCall ω → Option (RegistryCall ω)
  | .set none obj => some (.set (some name) obj)
  | _ => none

def resolveObj (obj : ω) : RegistryCall ω → Option (RegistryCall ω)
  | .set name none => some (.set name (some obj))
  | .reverseGet none => some (.reverseGet (some obj))
  | _ => none

def reject : RegistryCall ω → Option (RegistryCall ω)
  | .settled => none
  | _ => some .settled

/-- The turn of a call whose arguments are resolved. -/
def work [DecidableEq ω] (registry : Registry ω) :
    RegistryCall ω → Option (Registry ω × Returned ω)
  | .get (some id) => some (registry, .get id (registry.get id))
  | .set (some name) (some obj) =>
    let (registry, id) := registry.set name obj
    some (registry, .set obj id)
  | .reverseGet (some obj) => some (registry, .reverseGet obj (registry.reverseGet obj))
  | _ => none

end RegistryCall

/-- The registry, its calls, and what they have returned, in order. -/
structure RegistryVat (ω : Type*) where
  registry : Registry ω
  calls : List (RegistryCall ω)
  returned : List (Returned ω)

namespace RegistryVat

def fresh : RegistryVat ω := ⟨.empty, [], []⟩

/-- A call that goes on waiting, or ends without having done anything. -/
def advance (s : RegistryVat ω) (call : ℕ)
    (f : RegistryCall ω → Option (RegistryCall ω)) : Option (RegistryVat ω) :=
  (s.calls[call]?.bind f).map fun c ↦ { s with calls := s.calls.set call c }

def step [DecidableEq ω] (s : RegistryVat ω) : RegistryEvent ω → Option (RegistryVat ω)
  | .get => some { s with calls := s.calls ++ [.get none] }
  | .set => some { s with calls := s.calls ++ [.set none none] }
  | .reverseGet => some { s with calls := s.calls ++ [.reverseGet none] }
  | .resolveId call id => s.advance call (RegistryCall.resolveId id)
  | .resolveName call name => s.advance call (RegistryCall.resolveName name)
  | .resolveObj call obj => s.advance call (RegistryCall.resolveObj obj)
  | .reject call => s.advance call RegistryCall.reject
  | .resume call =>
    (s.calls[call]?.bind (RegistryCall.work s.registry)).map fun (registry, result) ↦
      ⟨registry, s.calls.set call .settled, s.returned ++ [result]⟩

end RegistryVat

/-! ### What the calls return -/

/-- The id that `set` has returned, if that is what returned. -/
def Returned.setId : Returned ω → Option String
  | .set _ id => some id
  | _ => none

/-- The first id under which the object was registered. -/
def firstId [DecidableEq ω] (returned : List (Returned ω)) (obj : ω) : Option String :=
  returned.findSome? fun
    | .set other id => if other = obj then some id else none
    | _ => none

variable [DecidableEq ω]

/-- What a call returns is right in view of what has returned before. -/
def Returned.Right (before : List (Returned ω)) : Returned ω → Prop
  | .get id result =>
    (∀ obj, result = some obj ↔ .set obj id ∈ before) ∧
      ∀ obj, .reverseGet obj (some id) ∈ before → result = some obj
  | .set _ id => ∀ obj, .set obj id ∉ before
  | .reverseGet obj result => result = firstId before obj

/-- All ids that `set` has returned are different, and every call has returned what is right. -/
structure Sound (returned : List (Returned ω)) : Prop where
  distinct : (returned.filterMap Returned.setId).Nodup
  right : Justified Returned.Right returned

/-- The invariant: the ids have numbers that have been used, and the maps hold what has been
returned. -/
structure Stored (registry : Registry ω) (returned : List (Returned ω)) : Prop where
  counted : ∀ obj id, .set obj id ∈ returned → ∃ name, ∃ i ≤ registry.i, id = Registry.id name i
  map : ∀ id obj, registry.map id = some obj ↔ .set obj id ∈ returned
  rmap : ∀ obj, registry.rmap obj = firstId returned obj
  sound : Sound returned

theorem stored_empty : Stored Registry.empty ([] : List (Returned ω)) where
  counted := fun _ _ h ↦ nomatch h
  map := by simp [Registry.empty]
  rmap := fun _ ↦ rfl
  sound := ⟨List.nodup_nil, justified_nil⟩

/-! ### Ids -/

theorem Registry.id_inj {name name' : String} {i i' : ℕ} :
    Registry.id name i = Registry.id name' i' ↔ name = name' ∧ i = i' :=
  numbered_inj (by decide) (by decide) (by decide)

section Lists

variable {returned : List (Returned ω)} {obj : ω} {id : String}

omit [DecidableEq ω] in
theorem mem_setIds : id ∈ returned.filterMap Returned.setId ↔ ∃ obj, .set obj id ∈ returned := by
  rw [List.mem_filterMap]
  constructor
  · rintro ⟨result, hmem, hid⟩
    cases result with
    | set obj other => exact ⟨obj, Option.some.inj hid ▸ hmem⟩
    | get _ _ => exact absurd hid (by simp [Returned.setId])
    | reverseGet _ _ => exact absurd hid (by simp [Returned.setId])
  · rintro ⟨obj, hmem⟩
    exact ⟨_, hmem, rfl⟩

theorem mem_of_firstId (h : firstId returned obj = some id) : .set obj id ∈ returned := by
  obtain ⟨result, hmem, hid⟩ := List.exists_of_findSome?_eq_some h
  split at hid
  · split_ifs at hid with hobj
    exact hobj ▸ Option.some.inj hid ▸ hmem
  · exact absurd hid (by simp)

/-- An object has no first id as long as it has not been registered. -/
theorem firstId_eq_none_iff : firstId returned obj = none ↔ ∀ id, .set obj id ∉ returned := by
  rw [firstId, List.findSome?_eq_none_iff]
  constructor
  · intro h id hmem
    exact absurd (h _ hmem) (by simp)
  · intro h result hmem
    cases result with
    | set other id =>
      have hne : other ≠ obj := fun hobj ↦ h id (hobj ▸ hmem)
      simp [hne]
    | get _ _ => rfl
    | reverseGet _ _ => rfl

/-- The first id stays the first one. -/
theorem firstId_concat (result : Returned ω) :
    firstId (returned ++ [result]) obj = (firstId returned obj).or (firstId [result] obj) :=
  List.findSome?_append

theorem firstId_singleton {other : ω} :
    firstId [.set other id] obj = if other = obj then some id else none := by
  simp [firstId]

theorem Sound.concat (h : Sound returned) {result : Returned ω} (hright : result.Right returned) :
    Sound (returned ++ [result]) where
  distinct := by
    rw [List.filterMap_append]
    refine List.nodup_append.mpr ⟨h.distinct, ?_, ?_⟩
    · cases result with
      | set _ _ => exact List.nodup_singleton _
      | get _ _ | reverseGet _ _ => exact List.nodup_nil
    · intro id hid other hother
      cases result with
      | set obj new =>
        have hnew : other = new := by simpa [Returned.setId] using hother
        obtain ⟨registered, hmem⟩ := mem_setIds.mp hid
        rintro rfl
        exact hright registered (hnew ▸ hmem)
      | get _ _ => simp [Returned.setId] at hother
      | reverseGet _ _ => simp [Returned.setId] at hother
  right := h.right.concat hright

end Lists

/-! ### One turn -/

namespace Stored

variable {registry : Registry ω} {returned : List (Returned ω)}

/-- A lookup changes nothing, and its result is no registration. -/
theorem concat_of_lookup (h : Stored registry returned) {result : Returned ω}
    (hlookup : result.setId = none) (hright : result.Right returned) :
    Stored registry (returned ++ [result]) := by
  have hset : ∀ obj id, .set obj id ∈ returned ++ [result] ↔ .set obj id ∈ returned := by
    intro obj id
    rw [List.mem_append, List.mem_singleton]
    refine or_iff_left fun heq ↦ ?_
    rw [← heq] at hlookup
    exact absurd hlookup (by simp [Returned.setId])
  have hfirst : ∀ obj, firstId [result] obj = none := by
    intro obj
    rw [firstId_eq_none_iff]
    intro id hmem
    exact absurd ((hset obj id).mp (List.mem_append_right returned hmem)) fun hold ↦ by
      rw [← List.mem_singleton.mp hmem] at hlookup
      exact absurd hlookup (by simp [Returned.setId])
  exact
    { counted := fun obj id hmem ↦ h.counted obj id ((hset obj id).mp hmem)
      map := fun id obj ↦ (h.map id obj).trans (hset obj id).symm
      rmap := fun obj ↦ by rw [firstId_concat, hfirst, Option.or_none, h.rmap]
      sound := h.sound.concat hright }

theorem get (h : Stored registry returned) (id : String) :
    Stored registry (returned ++ [.get id (registry.get id)]) := by
  have hget : ∀ obj, registry.get id = some obj ↔ .set obj id ∈ returned := h.map id
  refine h.concat_of_lookup rfl ⟨hget, fun obj hreverse ↦ (hget obj).mpr ?_⟩
  -- what the reverse lookup has returned is the first id of what had been registered before
  obtain ⟨before, after, hsplit⟩ := List.append_of_mem hreverse
  have hfirst : some id = firstId before obj := h.sound.right before _ after hsplit
  rw [hsplit]
  exact List.mem_append_left _ (mem_of_firstId hfirst.symm)

theorem reverseGet (h : Stored registry returned) (obj : ω) :
    Stored registry (returned ++ [.reverseGet obj (registry.reverseGet obj)]) :=
  h.concat_of_lookup rfl (h.rmap obj)

/-- A new id has a number that has not been used. -/
theorem set_right (h : Stored registry returned) (name : String) (obj : ω) :
    (Returned.set obj (Registry.id name (registry.i + 1))).Right returned := by
  intro other hmem
  obtain ⟨name', i, hi, hid⟩ := h.counted other _ hmem
  have hsame : registry.i + 1 = i := (Registry.id_inj.mp hid).2
  omega

theorem set (h : Stored registry returned) (name : String) (obj : ω) :
    Stored (registry.set name obj).1 (returned ++ [.set obj (registry.set name obj).2]) where
  counted := by
    intro other id hmem
    rcases List.mem_append.mp hmem with hold | hnew
    · obtain ⟨name', i, hi, hid⟩ := h.counted other id hold
      exact ⟨name', i, Nat.le_succ_of_le hi, hid⟩
    · obtain ⟨-, rfl⟩ := Returned.set.inj (List.mem_singleton.mp hnew)
      exact ⟨name, registry.i + 1, Nat.le_refl _, rfl⟩
  map := by
    intro id other
    have hfresh := h.set_right name obj
    rw [List.mem_append, List.mem_singleton, Returned.set.injEq]
    change Function.update registry.map (Registry.id name (registry.i + 1)) (some obj) id =
      some other ↔ _ ∨ other = obj ∧ id = Registry.id name (registry.i + 1)
    by_cases hid : id = Registry.id name (registry.i + 1)
    · subst hid
      rw [Function.update_self, Option.some.injEq]
      simp [hfresh other, eq_comm]
    · rw [Function.update_of_ne hid, h.map]
      simp [hid]
  rmap := by
    intro other
    rw [firstId_concat, firstId_singleton, ← h.rmap]
    change (if (registry.rmap obj).isSome then registry.rmap
      else Function.update registry.rmap obj (some (Registry.id name (registry.i + 1)))) other = _
    by_cases hobj : obj = other
    · subst hobj
      cases hmap : registry.rmap obj with
      | none =>
        simp only [Option.isSome_none, Bool.false_eq_true, if_false, Function.update_self,
          Option.none_or, if_true]
        rfl
      | some id => simp [hmap]
    · rw [if_neg hobj, Option.or_none]
      split_ifs
      · rfl
      · exact Function.update_of_ne (Ne.symm hobj) _ _
  sound := h.sound.concat (h.set_right name obj)

theorem work (h : Stored registry returned) {call : RegistryCall ω} {registry' : Registry ω}
    {result : Returned ω} (hwork : call.work registry = some (registry', result)) :
    Stored registry' (returned ++ [result]) := by
  unfold RegistryCall.work at hwork
  split at hwork
  · obtain ⟨rfl, rfl⟩ := Prod.mk.inj (Option.some.inj hwork)
    exact h.get _
  · obtain ⟨rfl, rfl⟩ := Prod.mk.inj (Option.some.inj hwork)
    exact h.set _ _
  · obtain ⟨rfl, rfl⟩ := Prod.mk.inj (Option.some.inj hwork)
    exact h.reverseGet _
  · exact absurd hwork (by simp)

theorem step {s s' : RegistryVat ω} {event : RegistryEvent ω} (h : Stored s.registry s.returned)
    (hstep : s.step event = some s') : Stored s'.registry s'.returned := by
  have hadvance : ∀ call f, s.advance call f = some s' → Stored s'.registry s'.returned := by
    intro call f hadvance
    obtain ⟨c, -, rfl⟩ := Option.map_eq_some_iff.mp hadvance
    exact h
  cases event with
  | get | set | reverseGet =>
    obtain rfl := Option.some.inj hstep
    exact h
  | resolveId call id => exact hadvance call _ hstep
  | resolveName call name => exact hadvance call _ hstep
  | resolveObj call obj => exact hadvance call _ hstep
  | reject call => exact hadvance call _ hstep
  | resume call =>
    obtain ⟨⟨registry, result⟩, hwork, rfl⟩ := Option.map_eq_some_iff.mp hstep
    obtain ⟨c, -, hwork⟩ := Option.bind_eq_some_iff.mp hwork
    exact h.work hwork

end Stored

/-- In every interleaving of calls whose arguments are resolved in any order, the ids that `set`
returns are pairwise distinct, `get` gives what was registered under the id, `reverseGet` the first
id of the object, if it has one, and `get` of that gives the object. -/
theorem registry_sound (events : List (RegistryEvent ω)) :
    AllSteps RegistryVat.step (fun _ _ s' ↦ Sound s'.returned) (.fresh : RegistryVat ω) events := by
  have hkeep : ∀ (s : RegistryVat ω) (event : RegistryEvent ω) (s' : RegistryVat ω),
      Stored s.registry s.returned → s.step event = some s' →
        Stored s'.registry s'.returned := fun _ _ _ h hstep ↦ h.step hstep
  have hprop : ∀ (s : RegistryVat ω) (event : RegistryEvent ω) (s' : RegistryVat ω),
      Stored s.registry s.returned → s.step event = some s' → Sound s'.returned :=
    fun _ _ _ h hstep ↦ (h.step hstep).sound
  exact AllSteps.of_inductive hkeep hprop stored_empty

/-- The ids of one object under two names; the second call ends first. -/
example : ((run RegistryVat.step (.fresh : RegistryVat ℕ)
    [.set, .set, .resolveName 0 "a#1", .resolveName 1 "a", .resolveObj 1 7, .resolveObj 0 7,
      .resume 1, .resume 0, .reverseGet, .resolveObj 2 7, .resume 2]).map fun s ↦
        (s.registry.reverseGet 7, s.registry.get "a#1", s.registry.get "a#1#2")) =
    some (some "a#1", some 7, some 7) := by
  decide

end CosmicSwingset.Vats
