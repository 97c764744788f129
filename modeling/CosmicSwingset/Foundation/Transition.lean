import Mathlib.Data.List.Basic
import Mathlib.Data.List.Induction

/-!
# Runs of guarded step functions

A system is a step function `step : σ → ε → Option σ`: the event `e` is enabled in the state `s`
when `step s e` is `some s'`, and then leads to `s'`. The same function replays a concrete run and
is what invariants are proved about, so the two cannot drift apart.

`run` replays a list of events. `AllSteps P` says of a run that every step taken in it is as `P`
allows; `P` sees the state before, the event and the state after. A condition on the environment
and a property of the code are both such predicates, and `AllSteps.of_invariant` turns the first
into the second with an invariant that a permitted step keeps. `run_invariant` gives the invariant
at the end of a run, and `allSteps_congr_of_invariant` an equivalence of the two predicates. Where
every step keeps the invariant, there is no condition (`run_inductive`, `AllSteps.of_inductive`).

Two systems are in lockstep when related states have the same events enabled and these lead to
related states; then their runs are the same (`run_rel`).

A state may keep a log of what has happened. `Justified` says of a log that every entry is right in
view of those before it.
-/

set_option autoImplicit false
set_option relaxedAutoImplicit false

namespace CosmicSwingset.Foundation

variable {σ ε : Type*}

/-- The state after a list of events, `none` when one of them is not enabled where it comes. -/
def run (step : σ → ε → Option σ) : σ → List ε → Option σ
  | s, [] => some s
  | s, e :: es => (step s e).bind fun s' ↦ run step s' es

/-- Every step of the run is as `P` allows. A run ends at the first event that is not enabled. -/
def AllSteps (step : σ → ε → Option σ) (P : σ → ε → σ → Prop) : σ → List ε → Prop
  | _, [] => True
  | s, e :: es =>
    match step s e with
    | none => True
    | some s' => P s e s' ∧ AllSteps step P s' es

variable {step : σ → ε → Option σ}

instance AllSteps.instDecidable {P : σ → ε → σ → Prop} [∀ s e s', Decidable (P s e s')]
    (s : σ) (es : List ε) : Decidable (AllSteps step P s es) :=
  match es with
  | [] => .isTrue trivial
  | e :: es =>
    match h : step s e with
    | none => .isTrue (by simp only [AllSteps, h])
    | some s' =>
      have := AllSteps.instDecidable (P := P) s' es
      decidable_of_iff (P s e s' ∧ AllSteps step P s' es) (by simp only [AllSteps, h])

@[simp] theorem run_nil (s : σ) : run step s [] = some s := rfl

theorem run_cons_eq_some {s t : σ} {e : ε} {es : List ε} :
    run step s (e :: es) = some t ↔ ∃ s', step s e = some s' ∧ run step s' es = some t := by
  simp only [run, Option.bind_eq_some_iff]

theorem run_append (s : σ) (es es' : List ε) :
    run step s (es ++ es') = (run step s es).bind fun t ↦ run step t es' := by
  induction es generalizing s with
  | nil => rfl
  | cons e es ih =>
    rw [List.cons_append, run, run, Option.bind_assoc]
    exact congrArg _ (funext fun s' ↦ ih s')

theorem allSteps_cons {P : σ → ε → σ → Prop} {s : σ} {e : ε} {es : List ε} :
    AllSteps step P s (e :: es) ↔
      ∀ s', step s e = some s' → P s e s' ∧ AllSteps step P s' es := by
  cases h : step s e with
  | none => simp [AllSteps, h]
  | some s' => simp [AllSteps, h]

theorem allSteps_append {P : σ → ε → σ → Prop} {s : σ} {es es' : List ε} :
    AllSteps step P s (es ++ es') ↔
      AllSteps step P s es ∧ ∀ t, run step s es = some t → AllSteps step P t es' := by
  induction es generalizing s with
  | nil => simp [AllSteps]
  | cons e es ih =>
    rw [List.cons_append, allSteps_cons, allSteps_cons]
    simp only [ih, run_cons_eq_some]
    grind

/-- A condition that every event of a run meets in any state. -/
theorem allSteps_of_forall_mem {P : σ → ε → σ → Prop} {s : σ} {es : List ε}
    (h : ∀ e ∈ es, ∀ s s', P s e s') : AllSteps step P s es := by
  induction es generalizing s with
  | nil => trivial
  | cons e es ih =>
    rw [allSteps_cons]
    intro s' _
    exact ⟨h e List.mem_cons_self s s', ih fun e' he' ↦ h e' (List.mem_cons_of_mem e he')⟩

theorem AllSteps.and {P Q : σ → ε → σ → Prop} {s : σ} {es : List ε} (hP : AllSteps step P s es)
    (hQ : AllSteps step Q s es) : AllSteps step (fun s e s' ↦ P s e s' ∧ Q s e s') s es := by
  induction es generalizing s with
  | nil => trivial
  | cons e es ih =>
    rw [allSteps_cons] at hP hQ ⊢
    intro s' hstep
    obtain ⟨hp, hP'⟩ := hP s' hstep
    obtain ⟨hq, hQ'⟩ := hQ s' hstep
    exact ⟨⟨hp, hq⟩, ih hP' hQ'⟩

theorem allSteps_true (s : σ) (es : List ε) : AllSteps step (fun _ _ _ ↦ True) s es :=
  allSteps_of_forall_mem fun _ _ _ _ ↦ trivial

/-- An invariant that every permitted step keeps holds at the end of a permitted run. -/
theorem run_invariant {G : σ → ε → σ → Prop} {I : σ → Prop}
    (hkeep : ∀ s e s', I s → G s e s' → step s e = some s' → I s') {s t : σ} {es : List ε}
    (hinit : I s) (hguard : AllSteps step G s es) (hrun : run step s es = some t) : I t := by
  induction es generalizing s with
  | nil =>
    simp only [run_nil, Option.some.injEq] at hrun
    exact hrun ▸ hinit
  | cons e es ih =>
    obtain ⟨s', hstep, hrest⟩ := run_cons_eq_some.mp hrun
    obtain ⟨hg, hguard'⟩ := allSteps_cons.mp hguard s' hstep
    exact ih (hkeep s e s' hinit hg hstep) hguard' hrest

/-- A permitted run has the property `P` at every step, when a permitted step from a state with the
invariant has it and keeps the invariant. -/
theorem AllSteps.of_invariant {G P : σ → ε → σ → Prop} {I : σ → Prop}
    (hkeep : ∀ s e s', I s → G s e s' → step s e = some s' → I s')
    (hprop : ∀ s e s', I s → G s e s' → step s e = some s' → P s e s') {s : σ} {es : List ε}
    (hinit : I s) (hguard : AllSteps step G s es) : AllSteps step P s es := by
  induction es generalizing s with
  | nil => trivial
  | cons e es ih =>
    rw [allSteps_cons] at hguard ⊢
    intro s' hstep
    obtain ⟨hg, hguard'⟩ := hguard s' hstep
    exact ⟨hprop s e s' hinit hg hstep, ih (hkeep s e s' hinit hg hstep) hguard'⟩

/-- An invariant that every step keeps holds at the end of a run. -/
theorem run_inductive {I : σ → Prop} (hkeep : ∀ s e s', I s → step s e = some s' → I s')
    {s t : σ} {es : List ε} (hinit : I s) (hrun : run step s es = some t) : I t := by
  have hpermitted : ∀ s e s', I s → True → step s e = some s' → I s' :=
    fun s e s' hs _ hstep ↦ hkeep s e s' hs hstep
  exact run_invariant hpermitted hinit (allSteps_true s es) hrun

/-- Every run has the property `P` at every step, when a step from a state with the invariant has it
and keeps the invariant. -/
theorem AllSteps.of_inductive {P : σ → ε → σ → Prop} {I : σ → Prop}
    (hkeep : ∀ s e s', I s → step s e = some s' → I s')
    (hprop : ∀ s e s', I s → step s e = some s' → P s e s') {s : σ} {es : List ε}
    (hinit : I s) : AllSteps step P s es := by
  have hpermitted : ∀ s e s', I s → True → step s e = some s' → I s' :=
    fun s e s' hs _ hstep ↦ hkeep s e s' hs hstep
  have hstepwise : ∀ s e s', I s → True → step s e = some s' → P s e s' :=
    fun s e s' hs _ hstep ↦ hprop s e s' hs hstep
  exact .of_invariant hpermitted hstepwise hinit (allSteps_true s es)

/-- What every step keeps of a state and the events that led to it holds of a run. -/
theorem run_history {I : List ε → σ → Prop}
    (hkeep : ∀ es s e s', I es s → step s e = some s' → I (es ++ [e]) s') {s t : σ} {es : List ε}
    (hinit : I [] s) (hrun : run step s es = some t) : I es t := by
  induction es using List.reverseRecOn generalizing t with
  | nil => exact Option.some.inj hrun ▸ hinit
  | append_singleton es e ih =>
    rw [run_append] at hrun
    obtain ⟨s', hfirst, hlast⟩ := Option.bind_eq_some_iff.mp hrun
    obtain ⟨t', hstep, ht⟩ := run_cons_eq_some.mp hlast
    obtain rfl := Option.some.inj ht
    exact hkeep es s' e t' (ih hfirst) hstep

/-- Where the property of a step and the condition on it are the same in every state with an
invariant, and a permitted step keeps the invariant, they are the same of runs. All this may be for
certain events only, if the run has no others. -/
theorem allSteps_congr_of_forall_mem {G P : σ → ε → σ → Prop} {I : σ → Prop} {A : ε → Prop}
    (hkeep : ∀ s e s', I s → A e → G s e s' → step s e = some s' → I s')
    (hiff : ∀ s e s', I s → A e → step s e = some s' → (P s e s' ↔ G s e s')) {s : σ} {es : List ε}
    (hinit : I s) (hall : ∀ e ∈ es, A e) : AllSteps step P s es ↔ AllSteps step G s es := by
  induction es generalizing s with
  | nil => exact Iff.rfl
  | cons e es ih =>
    obtain ⟨he, hes⟩ := List.forall_mem_cons.mp hall
    rw [allSteps_cons, allSteps_cons]
    refine forall₂_congr fun s' hstep ↦ ?_
    rw [hiff s e s' hinit he hstep]
    exact and_congr_right fun hg ↦ ih (hkeep s e s' hinit he hg hstep) hes

theorem allSteps_congr_of_invariant {G P : σ → ε → σ → Prop} {I : σ → Prop}
    (hkeep : ∀ s e s', I s → G s e s' → step s e = some s' → I s')
    (hiff : ∀ s e s', I s → step s e = some s' → (P s e s' ↔ G s e s')) {s : σ} {es : List ε}
    (hinit : I s) : AllSteps step P s es ↔ AllSteps step G s es := by
  have hall : ∀ e ∈ es, True := fun _ _ ↦ trivial
  exact allSteps_congr_of_forall_mem (fun s e s' hs _ ↦ hkeep s e s' hs)
    (fun s e s' hs _ ↦ hiff s e s' hs) hinit hall

/-! ### Lockstep -/

section Lockstep

variable {τ δ : Type*} {step' : τ → δ → Option τ} {R : σ → τ → Prop} {f : ε → δ}

/-- Systems in lockstep, for the events that a run has, have the same runs. -/
theorem run_rel {A : ε → Prop}
    (hstep : ∀ s t e, R s t → A e → Option.Rel R (step s e) (step' t (f e))) {s : σ} {t : τ}
    (h : R s t) {es : List ε} (hall : ∀ e ∈ es, A e) :
    Option.Rel R (run step s es) (run step' t (es.map f)) := by
  induction es generalizing s t with
  | nil => exact .some h
  | cons e es ih =>
    obtain ⟨he, hes⟩ := List.forall_mem_cons.mp hall
    have hfirst := hstep s t e h he
    rw [List.map_cons, run, run]
    cases hs : step s e with
    | none =>
      rw [hs] at hfirst
      cases ht : step' t (f e) with
      | none => exact .none
      | some t' => rw [ht] at hfirst; cases hfirst
    | some s' =>
      rw [hs] at hfirst
      cases ht : step' t (f e) with
      | none => rw [ht] at hfirst; cases hfirst
      | some t' =>
        rw [ht] at hfirst
        cases hfirst with
        | some hnext => exact ih hnext hes

/-- What the run of the one comes to, the run of the other does. -/
theorem exists_of_rel {x : Option σ} {y : Option τ} (h : Option.Rel R x y) {s : σ}
    (hx : x = some s) : ∃ t, y = some t ∧ R s t := by
  subst hx
  cases h with
  | some hrel => exact ⟨_, rfl, hrel⟩

theorem isSome_eq_of_rel {x : Option σ} {y : Option τ} (h : Option.Rel R x y) :
    x.isSome = y.isSome := by
  cases h <;> rfl

/-- A run is determined by the one that it is in lockstep with, if the relation determines the
states. -/
theorem eq_of_rel {x y : Option σ} {z : Option τ} (hunique : ∀ s s' t, R s t → R s' t → s = s')
    (hx : Option.Rel R x z) (hy : Option.Rel R y z) : x = y := by
  cases hx with
  | none => cases hy; rfl
  | some hs =>
    cases hy with
    | some hs' => rw [hunique _ _ _ hs hs']

end Lockstep

/-! ### Logs -/

section Logs

variable {α : Type*} {R : List α → α → Prop} {log : List α}

/-- Every entry of the log stands in the relation to the list of those before it. -/
def Justified (R : List α → α → Prop) (log : List α) : Prop :=
  ∀ before entry after, log = before ++ entry :: after → R before entry

theorem justified_nil : Justified R [] :=
  fun before _ _ h ↦ absurd h.symm (by simp)

theorem Justified.concat (h : Justified R log) {entry : α} (hentry : R log entry) :
    Justified R (log ++ [entry]) := by
  intro before other after hsplit
  rcases List.eq_nil_or_concat after with rfl | ⟨init, last, rfl⟩
  · obtain ⟨hbefore, hlast⟩ := List.append_inj' hsplit rfl
    rw [← hbefore, ← List.singleton_inj.mp hlast]
    exact hentry
  · rw [List.concat_eq_append, ← List.cons_append, ← List.append_assoc] at hsplit
    exact h before other init (List.append_inj' hsplit rfl).1

theorem Justified.append (h : Justified R log) {entries : List α}
    (hentries : ∀ before, ∀ entry ∈ entries, R (log ++ before) entry) :
    Justified R (log ++ entries) := by
  induction entries using List.reverseRecOn with
  | nil => rwa [List.append_nil]
  | append_singleton entries entry ih =>
    rw [← List.append_assoc]
    have hbefore : Justified R (log ++ entries) :=
      ih fun before other hother ↦ hentries before other (List.mem_append_left _ hother)
    exact hbefore.concat
      (hentries entries entry (List.mem_append_right _ (List.mem_singleton_self _)))

theorem justified_concat_iff {entry : α} :
    Justified R (log ++ [entry]) ↔ Justified R log ∧ R log entry := by
  refine ⟨fun h ↦ ⟨fun before other after hsplit ↦ ?_, h log entry [] rfl⟩, fun h ↦ h.1.concat h.2⟩
  refine h before other (after ++ [entry]) ?_
  rw [hsplit, List.append_assoc, List.cons_append]

end Logs

end CosmicSwingset.Foundation
