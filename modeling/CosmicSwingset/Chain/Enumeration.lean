import CosmicSwingset.Chain.StorageReplies

/-!
# Enumeration of the keeper's storage

`entries` and `values` list the values below a path. The handler makes the path of a child by
putting a dot and the name of the child after the path, where `SetStorage` takes a path apart into
segments that a dot separates. The two are inverse to each other at every path but the root: the
children of the empty path have no dot before them, so that the root's entries are looked up at
paths that begin with a dot and come out empty. Enumeration agrees with lookup everywhere else, and
at the root as long as it has no keys (`enumerationAgrees_iff`).
-/

set_option autoImplicit false
set_option relaxedAutoImplicit false

namespace CosmicSwingset.Chain

open Foundation

/-- The slices that `entries` and `values` reply with have the same values in the same places, and
each of them is what `get` replies with for the child of its key, and is not empty. -/
def EnumerationAgrees (k : Keeper) (store : KVStore) (path : GoString) : Prop :=
  ∃ (ents : List (GoString × GoString)) (vals : List GoString),
    k.ents store path = some ents ∧ k.vals store path = some vals ∧
    Replies k store .entries path
      (.arr (ents.map fun ent ↦ .arr [stringJson ent.1, stringJson ent.2])) ∧
    Replies k store .values path (.arr (vals.map stringJson)) ∧ vals.length = ents.length ∧
    ∀ (i : ℕ) key value val, ents[i]? = some (key, value) → vals[i]? = some val →
      value ≠ [] ∧ val = value ∧ Replies k store .get (childPath path key) (stringJson value)

variable {k : Keeper} {store : KVStore} {m : ValueMap} {path : GoString}

theorem replies_ents {ents : List (GoString × GoString)} (h : k.ents store path = some ents) :
    Replies k store .entries path
      (.arr (ents.map fun ent ↦ .arr [stringJson ent.1, stringJson ent.2])) := by
  refine (replies_marshal_iff fun order value ↦ ?_).mpr rfl
  rw [Keeper.reply, Keeper.receiveEntries, h]
  rfl

theorem replies_vals {vals : List GoString} (h : k.vals store path = some vals) :
    Replies k store .values path (.arr (vals.map stringJson)) := by
  refine (replies_marshal_iff fun order value ↦ ?_).mpr rfl
  rw [Keeper.reply, Keeper.receiveValues, h]
  rfl

theorem Refines.replies_get (h : Refines k store m) {p : GoString} (hvalue : m p ≠ []) :
    Replies k store .get p (stringJson (m p)) := by
  refine (replies_marshal_iff fun order value ↦ ?_).mpr rfl
  rw [Keeper.reply, receiveGet_eq, h.getStorage p, Option.map_some, if_neg hvalue]
  rfl

/-- The handler looks for the values below a path at the path, a dot and the name. -/
theorem Refines.valueBelow (h : Refines k store m) (path key : GoString) :
    k.valueBelow store path key = some (m (path ++ dot :: key)) := by
  rw [Keeper.valueBelow, h.getStorage, Option.map_some]

theorem Refines.ents (h : Refines k store m) {names : List GoString}
    (hget : k.getKeys store path = some ⟨names⟩) :
    k.ents store path = some (names.map fun key ↦ (key, m (path ++ dot :: key))) := by
  simp only [Keeper.ents, hget, Option.bind_eq_bind, Option.bind_some, h.valueBelow,
    Option.map_some]
  exact List.mapM_pure

theorem Refines.vals (h : Refines k store m) {names : List GoString}
    (hget : k.getKeys store path = some ⟨names⟩) :
    k.vals store path = some (names.map fun key ↦ m (path ++ dot :: key)) := by
  simp only [Keeper.vals, hget, Option.bind_eq_bind, Option.bind_some]
  rw [funext (h.valueBelow path)]
  exact List.mapM_pure

/-- At a path whose children are found below it, enumeration agrees with lookup. -/
theorem Refines.enumerationAgrees (h : Refines k store m) {names : List GoString}
    (hget : k.getKeys store path = some ⟨names⟩)
    (hchildren : ∀ key ∈ names, path ++ dot :: key = childPath path key ∧
      m (childPath path key) ≠ []) :
    EnumerationAgrees k store path := by
  refine ⟨_, _, h.ents hget, h.vals hget, replies_ents (h.ents hget), replies_vals (h.vals hget),
    by simp, fun i key value val hent hval ↦ ?_⟩
  rw [List.getElem?_map, Option.map_eq_some_iff] at hent hval
  obtain ⟨name, hname, hpair⟩ := hent
  obtain ⟨name', hname', rfl⟩ := hval
  rw [hname, Option.some.injEq] at hname'
  obtain ⟨rfl, rfl⟩ := Prod.mk.inj hpair
  obtain ⟨hchild, hvalue⟩ := hchildren name (List.mem_of_getElem? hname)
  rw [hchild]
  exact ⟨hvalue, by rw [← hname', hchild], h.replies_get hvalue⟩

/-- The values that the handler finds below the root are empty. -/
theorem Refines.not_enumerationAgrees_root (h : Refines k store m) {names : List GoString}
    (hget : k.getKeys store [] = some ⟨names⟩) (hnames : names ≠ []) :
    ¬ EnumerationAgrees k store [] := by
  rintro ⟨ents, vals, hents, hvals, -, -, -, hall⟩
  rw [h.ents hget, Option.some.injEq] at hents
  rw [h.vals hget, Option.some.injEq] at hvals
  obtain ⟨key, names, rfl⟩ := List.exists_cons_of_ne_nil hnames
  subst hents hvals
  have hvalue := (hall 0 key (m (dot :: key)) _ rfl rfl).1
  exact hvalue (h.rooted (dot :: key) fun hrooted ↦ hrooted rfl)

/-- After any sequence of `SetStorage` calls at paths that do not begin with a dot, every entry of a
path and the value in the same place are the value, not empty, that `get` finds for the child,
exactly when the path is not the root or the root has no keys. -/
theorem enumerationAgrees_iff (k : Keeper) (writes : List Write)
    (hrooted : ∀ w ∈ writes, Rooted w.path) :
    ∃ store, k.setAll .empty writes = some store ∧
      ∀ path, EnumerationAgrees k store path ↔ path ≠ [] ∨ k.getKeys store [] = some ⟨[]⟩ := by
  obtain ⟨store, hstore, hrefines⟩ := (refines_empty k).setAll hrooted
  refine ⟨store, hstore, fun path ↦ ?_⟩
  obtain ⟨names, hget, -, hmem⟩ := hrefines.getKeys path
  by_cases hroot : path = []
  · subst hroot
    by_cases hnames : names = []
    · subst hnames
      exact iff_of_true (hrefines.enumerationAgrees hget (by simp)) (Or.inr hget)
    · refine iff_of_false (hrefines.not_enumerationAgrees_root hget hnames) ?_
      rw [hget]
      simpa using hnames
  · refine iff_of_true (hrefines.enumerationAgrees hget fun key hkey ↦ ?_) (Or.inl hroot)
    exact ⟨(if_neg hroot).symm, ((hmem key).mp hkey).2⟩

theorem enumerationAgrees_publishing :
    ∃ store, aminoKeeper.setAll .empty publishing = some store ∧
      ∀ path, EnumerationAgrees aminoKeeper store path ↔
        path ≠ [] ∨ aminoKeeper.getKeys store [] = some ⟨[]⟩ :=
  enumerationAgrees_iff aminoKeeper publishing (by decide)

/-- After one write at `mailbox` the root's only entry is `["mailbox", ""]`. -/
theorem rootEntry_not_enumerationAgrees :
    ∃ store, aminoKeeper.setAll .empty [⟨.forward, go "mailbox", ⟨go "x"⟩⟩] = some store ∧
      ¬ EnumerationAgrees aminoKeeper store [] := by
  have hrooted : ∀ w ∈ [Write.mk .forward (go "mailbox") ⟨go "x"⟩], Rooted w.path := by decide
  obtain ⟨store, hstore, hrefines⟩ := (refines_empty aminoKeeper).setAll hrooted
  obtain ⟨names, hget, -, hmem⟩ := hrefines.getKeys []
  refine ⟨store, hstore, hrefines.not_enumerationAgrees_root hget
    (List.ne_nil_of_mem (a := go "mailbox") ?_)⟩
  rw [hmem]
  exact ⟨by decide, by decide⟩

end CosmicSwingset.Chain
