import CosmicSwingset.Foundation.Json
import CosmicSwingset.Foundation.Transition
import Mathlib.Data.List.Perm.Basic

/-!
# Provisioning the public keys of a database

`doEnablePubkeys` enables the records of a list one after the other. `doLatest` takes the last
record and calls `enablePubkey`; it is called again as a callback of the Deferred that it gets, and
by the errback `showError`. As `showError` comes before the callback and returns, a Deferred that
fails has both called: `doLatest` by `showError`, and after that `doLatest` as the callback. From
then on there are two loops that take records from one list.

What Twisted does is made explicit. A Deferred that has fired runs a callback at once when it is
added; an exception in a callback becomes a failure of its Deferred, and goes no further. So the
state has a stack of what is to be done when a call of `doLatest` returns, and the reactor settles
a call only when the stack is empty.

In a run that has ended every record has been enabled. Everything else holds exactly if no Deferred
fails (`enablesAll_iff`). That `finished.callback` is called twice is not the only consequence: when
a call that fails is followed by one that does not settle at once, then another call is made, or
`finished` fires, while that one is unfinished (`orderly_iff`).
-/

set_option autoImplicit false
set_option relaxedAutoImplicit false

namespace CosmicSwingset.Provisioning

open Foundation Json

universe u

variable {ν : Type u}

/-- What a call of `enablePubkey` does: it raises an exception, or gives a Deferred that has fired
or fires later, with a result or with a failure. -/
inductive Outcome
  | raises
  | now (ok : Bool)
  | later (ok : Bool)
  deriving DecidableEq

/-- A record, with the outcome of the call for it. -/
structure Record (ν : Type u) where
  pkobj : Json ν
  outcome : Outcome

/-- The record has what `doLatest` reads of it; it raises an exception otherwise. -/
def Record.wellFormed (r : Record ν) : Bool :=
  (property "chainName" r.pkobj).isSome && (property "nickname" r.pkobj).isSome &&
    (property "pubkey" r.pkobj).isSome

/-- The call for the record gives a Deferred that fails. -/
def Record.fails (r : Record ν) : Bool :=
  r.wellFormed && (r.outcome = .now false || r.outcome = .later false)

/-- The call for the record does not settle at once. -/
def Record.delayed (r : Record ν) : Bool :=
  r.wellFormed && (r.outcome = .later true || r.outcome = .later false)

/-- What is still to be done. -/
inductive Frame
  /-- `doLatest` is to be called. -/
  | doLatest
  /-- A Deferred whose errback `showError` has called `doLatest`: its callback is to be called. -/
  | thenCallback
  /-- A Deferred that runs its callback. -/
  | callback
  deriving DecidableEq

inductive LogEntry (ν : Type u)
  | called (r : Record ν)
  | settled (r : Record ν)
  /-- `finished` fires. -/
  | finished
  /-- `finished.callback` is called again, and raises an exception. -/
  | alreadyCalled

/-- `pkobjs` is turned round: its head is the record that is popped next. -/
structure DoEnablePubkeys (ν : Type u) where
  pkobjs : List (Record ν)
  unfinished : List (Record ν)
  stack : List Frame
  fired : Bool
  log : List (LogEntry ν)

namespace DoEnablePubkeys

/-- An exception is caught by the next Deferred that runs a callback, which runs no other one. -/
def unwind : List Frame → List Frame
  | [] => []
  | .doLatest :: stack => unwind stack
  | .thenCallback :: stack | .callback :: stack => stack

/-- The frames of a Deferred with a result, or with a failure. -/
def settling (ok : Bool) : List Frame := [.doLatest, if ok then .callback else .thenCallback]

/-- `doLatest` with what is below it on the stack, up to the next call of `doLatest`. -/
def doLatest (s : DoEnablePubkeys ν) (stack : List Frame) : DoEnablePubkeys ν :=
  match s.pkobjs with
  | [] =>
    if s.fired then { s with stack := unwind stack, log := s.log ++ [.alreadyCalled] }
    else { s with stack := stack, fired := true, log := s.log ++ [.finished] }
  | r :: pkobjs =>
    if r.wellFormed then
      match r.outcome with
      | .raises =>
        { s with
          pkobjs := pkobjs
          stack := .doLatest :: stack
          log := s.log ++ [.called r, .settled r] }
      | .now ok =>
        { s with
          pkobjs := pkobjs
          stack := settling ok ++ stack
          log := s.log ++ [.called r, .settled r] }
      | .later _ =>
        { s with
          pkobjs := pkobjs
          unfinished := s.unfinished ++ [r]
          stack := stack
          log := s.log ++ [.called r] }
    else { s with pkobjs := pkobjs, stack := .doLatest :: stack }

/-- `doEnablePubkeys` calls `doLatest` once. -/
def start (records : List (Record ν)) : DoEnablePubkeys ν :=
  ⟨records.reverse, [], [.doLatest], false, []⟩

inductive Event
  /-- What is on the stack goes on. -/
  | turn
  /-- The reactor settles an unfinished call. -/
  | settle (i : ℕ)

def step (s : DoEnablePubkeys ν) : Event → Option (DoEnablePubkeys ν)
  | .turn =>
    match s.stack with
    | [] => none
    | .doLatest :: stack => some (s.doLatest stack)
    | .thenCallback :: stack => some { s with stack := .doLatest :: .callback :: stack }
    | .callback :: stack => some { s with stack := stack }
  | .settle i =>
    match s.stack, s.unfinished[i]? with
    | [], some r =>
      some
        { s with
          unfinished := s.unfinished.eraseIdx i
          stack := settling (r.outcome = .later true)
          log := s.log ++ [.settled r] }
    | _, _ => none

/-- Nothing is left to be done, or `finished` has fired and `react` stops the reactor. -/
def Ended (s : DoEnablePubkeys ν) : Prop := s.stack = [] ∧ (s.unfinished = [] ∨ s.fired = true)

end DoEnablePubkeys

/-! ### What should hold of a run -/

section Log

def LogEntry.call : LogEntry ν → Option (Record ν)
  | .called r => some r
  | _ => none

def LogEntry.settling : LogEntry ν → Option (Record ν)
  | .settled r => some r
  | _ => none

/-- `finished.callback` is called. -/
def LogEntry.isFinish : LogEntry ν → Bool
  | .finished | .alreadyCalled => true
  | _ => false

def calls (log : List (LogEntry ν)) : List (Record ν) := log.filterMap LogEntry.call

def settled (log : List (LogEntry ν)) : List (Record ν) := log.filterMap LogEntry.settling

/-- Every call of a log has settled. -/
def Settled (log : List (LogEntry ν)) : Prop := (calls log).length = (settled log).length

/-- A call is made when no other one is unfinished, and `finished` fires after the last one. -/
def InOrder (records : List (Record ν)) (before : List (LogEntry ν)) : LogEntry ν → Prop
  | .called _ => Settled before
  | .finished => Settled before ∧ calls before = records.reverse.filter Record.wellFormed
  | .settled _ | .alreadyCalled => True

def Orderly (records : List (Record ν)) (log : List (LogEntry ν)) : Prop :=
  Justified (InOrder records) log

structure EnablesAll (records : List (Record ν)) (log : List (LogEntry ν)) : Prop where
  orderly : Orderly records log
  /-- Every record is enabled once, but for those that lack something. -/
  once : calls log = records.reverse.filter Record.wellFormed
  finishedOnce : (log.filter LogEntry.isFinish).length = 1

end Log

namespace DoEnablePubkeys

variable {s s' : DoEnablePubkeys ν}

/-! ### What a step can do -/

/-- The steps, by what is done in them. -/
inductive Step : DoEnablePubkeys ν → DoEnablePubkeys ν → Prop
  | thenCallback {pkobjs unfinished stack fired log} :
    Step ⟨pkobjs, unfinished, .thenCallback :: stack, fired, log⟩
      ⟨pkobjs, unfinished, .doLatest :: .callback :: stack, fired, log⟩
  | callback {pkobjs unfinished stack fired log} :
    Step ⟨pkobjs, unfinished, .callback :: stack, fired, log⟩
      ⟨pkobjs, unfinished, stack, fired, log⟩
  | alreadyCalled {unfinished stack log} :
    Step ⟨[], unfinished, .doLatest :: stack, true, log⟩
      ⟨[], unfinished, unwind stack, true, log ++ [.alreadyCalled]⟩
  | finished {unfinished stack log} :
    Step ⟨[], unfinished, .doLatest :: stack, false, log⟩
      ⟨[], unfinished, stack, true, log ++ [.finished]⟩
  | malformed {pkobjs unfinished stack fired log} (r : Record ν) (hwell : r.wellFormed = false) :
    Step ⟨r :: pkobjs, unfinished, .doLatest :: stack, fired, log⟩
      ⟨pkobjs, unfinished, .doLatest :: stack, fired, log⟩
  | raises {pkobjs unfinished stack fired log} (r : Record ν) (hwell : r.wellFormed = true)
      (houtcome : r.outcome = .raises) :
    Step ⟨r :: pkobjs, unfinished, .doLatest :: stack, fired, log⟩
      ⟨pkobjs, unfinished, .doLatest :: stack, fired, log ++ [.called r, .settled r]⟩
  | now {pkobjs unfinished stack fired log} (r : Record ν) (hwell : r.wellFormed = true) (ok : Bool)
      (houtcome : r.outcome = .now ok) :
    Step ⟨r :: pkobjs, unfinished, .doLatest :: stack, fired, log⟩
      ⟨pkobjs, unfinished, settling ok ++ stack, fired, log ++ [.called r, .settled r]⟩
  | later {pkobjs unfinished stack fired log} (r : Record ν) (hwell : r.wellFormed = true)
      (ok : Bool) (houtcome : r.outcome = .later ok) :
    Step ⟨r :: pkobjs, unfinished, .doLatest :: stack, fired, log⟩
      ⟨pkobjs, unfinished ++ [r], stack, fired, log ++ [.called r]⟩
  | settle {pkobjs unfinished fired log} (i : ℕ) (r : Record ν) (hr : unfinished[i]? = some r) :
    Step ⟨pkobjs, unfinished, [], fired, log⟩
      ⟨pkobjs, unfinished.eraseIdx i, settling (r.outcome = .later true), fired,
        log ++ [.settled r]⟩

theorem step_doLatest (pkobjs unfinished : List (Record ν)) (stack : List Frame) (fired : Bool)
    (log : List (LogEntry ν)) :
    Step ⟨pkobjs, unfinished, .doLatest :: stack, fired, log⟩
      (doLatest ⟨pkobjs, unfinished, .doLatest :: stack, fired, log⟩ stack) := by
  cases pkobjs with
  | nil =>
    cases fired with
    | true => exact .alreadyCalled
    | false => exact .finished
  | cons r pkobjs =>
    cases hwell : r.wellFormed with
    | false =>
      simp only [doLatest, hwell, Bool.false_eq_true, if_false]
      exact .malformed r hwell
    | true =>
      simp only [doLatest, hwell, if_true]
      cases houtcome : r.outcome with
      | raises => exact .raises r hwell houtcome
      | now ok => exact .now r hwell ok houtcome
      | later ok => exact .later r hwell ok houtcome

theorem Step.of_step {e : Event} (h : step s e = some s') : Step s s' := by
  obtain ⟨pkobjs, unfinished, stack, fired, log⟩ := s
  cases e with
  | turn =>
    cases stack with
    | nil => simp [step] at h
    | cons frame stack =>
      cases frame with
      | doLatest =>
        rw [← Option.some.inj h]
        exact step_doLatest pkobjs unfinished stack fired log
      | thenCallback =>
        rw [← Option.some.inj h]
        exact .thenCallback
      | callback =>
        rw [← Option.some.inj h]
        exact .callback
  | settle i =>
    cases stack with
    | cons frame stack => simp [step] at h
    | nil =>
      cases hr : unfinished[i]? with
      | none => simp [step, hr] at h
      | some r =>
        simp only [step, hr, Option.some.injEq] at h
        exact h ▸ .settle i r hr

/-! ### The loops -/

/-- How many calls of `doLatest` are still to be made by the frames. -/
def loopsIn (stack : List Frame) : ℕ := stack.countP fun frame ↦ frame ≠ .callback

/-- How often `finished.callback` has been called. -/
def finishes (log : List (LogEntry ν)) : ℕ := (log.filter LogEntry.isFinish).length

/-- The loops that are at work, in the reactor too, or have come to their end. -/
def loops (s : DoEnablePubkeys ν) : ℕ := finishes s.log + loopsIn s.stack + s.unfinished.length

section Counts

variable (stack : List Frame) (log : List (LogEntry ν))

@[simp] theorem loopsIn_nil : loopsIn [] = 0 := rfl

@[simp] theorem loopsIn_doLatest : loopsIn (.doLatest :: stack) = loopsIn stack + 1 := by
  simp [loopsIn]

@[simp] theorem loopsIn_thenCallback : loopsIn (.thenCallback :: stack) = loopsIn stack + 1 := by
  simp [loopsIn]

@[simp] theorem loopsIn_callback : loopsIn (.callback :: stack) = loopsIn stack := by
  simp [loopsIn]

@[simp] theorem loopsIn_settling (ok : Bool) :
    loopsIn (settling ok ++ stack) = loopsIn stack + if ok then 1 else 2 := by
  cases ok <;> simp [settling]

attribute [simp] LogEntry.isFinish InOrder

@[simp] theorem loopsIn_settling_nil (ok : Bool) :
    loopsIn (settling ok) = if ok then 1 else 2 := by
  cases ok <;> rfl

@[simp] theorem finishes_append (entries : List (LogEntry ν)) :
    finishes (log ++ entries) = finishes log + finishes entries := by
  rw [finishes, List.filter_append, List.length_append]
  rfl

@[simp] theorem finishes_cons (entry : LogEntry ν) (entries : List (LogEntry ν)) :
    finishes (entry :: entries) = finishes entries + if entry.isFinish then 1 else 0 := by
  cases entry <;> rfl

@[simp] theorem finishes_nil : finishes ([] : List (LogEntry ν)) = 0 := rfl

@[simp] theorem calls_append (entries : List (LogEntry ν)) :
    calls (log ++ entries) = calls log ++ calls entries := List.filterMap_append

@[simp] theorem settled_append (entries : List (LogEntry ν)) :
    settled (log ++ entries) = settled log ++ settled entries := List.filterMap_append

@[simp] theorem calls_cons (entry : LogEntry ν) (entries : List (LogEntry ν)) :
    calls (entry :: entries) = entry.call.toList ++ calls entries := by
  cases entry <;> rfl

@[simp] theorem settled_cons (entry : LogEntry ν) (entries : List (LogEntry ν)) :
    settled (entry :: entries) = entry.settling.toList ++ settled entries := by
  cases entry <;> rfl

@[simp] theorem calls_nil : calls ([] : List (LogEntry ν)) = [] := rfl

@[simp] theorem settled_nil : settled ([] : List (LogEntry ν)) = [] := rfl

attribute [simp] LogEntry.call LogEntry.settling

@[simp] theorem orderly_concat (records : List (Record ν)) (entry : LogEntry ν) :
    Orderly records (log ++ [entry]) ↔ Orderly records log ∧ InOrder records log entry :=
  justified_concat_iff

@[simp] theorem orderly_called_settled (records : List (Record ν)) (r : Record ν) :
    Orderly records (log ++ [.called r, .settled r]) ↔ Orderly records log ∧ Settled log := by
  have hpair : log ++ [.called r, .settled r] = log ++ [.called r] ++ [.settled r] := by
    rw [List.append_assoc]
    rfl
  rw [hpair, orderly_concat, orderly_concat]
  exact and_iff_left trivial

@[simp] theorem loops_mk (pkobjs unfinished : List (Record ν)) (fired : Bool) :
    loops ⟨pkobjs, unfinished, stack, fired, log⟩ =
      finishes log + loopsIn stack + unfinished.length := rfl

end Counts

/-- What the log says is what the state has. -/
structure Tied (records : List (Record ν)) (s : DoEnablePubkeys ν) : Prop where
  calls : calls s.log ++ s.pkobjs.filter Record.wellFormed =
    records.reverse.filter Record.wellFormed
  unfinished : (Provisioning.calls s.log).length = (settled s.log).length + s.unfinished.length
  fired : s.fired = true → s.pkobjs = [] ∧ 0 < finishes s.log
  notFired : s.fired = false → finishes s.log = 0
  delayed : ∀ r ∈ s.unfinished, r.delayed = true
  loops : 0 < s.loops

section Tied

variable {records : List (Record ν)}

theorem tied_start (records : List (Record ν)) : Tied records (start records) where
  calls := rfl
  unfinished := rfl
  fired := fun h ↦ absurd h Bool.false_ne_true
  notFired := fun _ ↦ rfl
  delayed := fun _ hr ↦ absurd hr List.not_mem_nil
  loops := Nat.succ_pos 0

theorem Tied.settled_iff (h : Tied records s) : Settled s.log ↔ s.unfinished = [] := by
  have hcount := h.unfinished
  rw [Settled, ← List.length_eq_zero_iff]
  omega

theorem Tied.not_fired (h : Tied records s) (hpkobjs : s.pkobjs ≠ []) : s.fired = false :=
  Bool.eq_false_iff.mpr fun hfired ↦ hpkobjs (h.fired hfired).1

/-- `finished.callback` is called, with or without success. -/
theorem Tied.finish {unfinished : List (Record ν)} {stack : List Frame} {fired : Bool}
    {log : List (LogEntry ν)} (h : Tied records ⟨[], unfinished, stack, fired, log⟩)
    {entry : LogEntry ν} (hfinish : entry.isFinish = true) (hcall : entry.call = none)
    (hsettling : entry.settling = none) (stack' : List Frame) :
    Tied records ⟨[], unfinished, stack', true, log ++ [entry]⟩ := by
  have hcalls : Provisioning.calls (log ++ [entry]) = Provisioning.calls log := by
    rw [Provisioning.calls, List.filterMap_append, List.filterMap_cons_none hcall]
    exact List.append_nil _
  have hsettled : settled (log ++ [entry]) = settled log := by
    rw [settled, List.filterMap_append, List.filterMap_cons_none hsettling]
    exact List.append_nil _
  have hfinishes : finishes (log ++ [entry]) = finishes log + 1 := by
    rw [finishes_append, finishes_cons, if_pos hfinish, finishes_nil]
  have hcount : (Provisioning.calls (log ++ [entry])).length =
      (settled (log ++ [entry])).length + unfinished.length := by
    rw [hcalls, hsettled]
    exact h.unfinished
  refine ⟨?_, hcount, fun _ ↦ ⟨rfl, ?_⟩, fun hfalse ↦ absurd hfalse.symm Bool.false_ne_true,
    h.delayed, ?_⟩
  · dsimp only
    rw [hcalls]
    exact h.calls
  · dsimp only
    omega
  · rw [loops_mk]
    omega

theorem Tied.step (h : Tied records s) (hstep : Step s s') : Tied records s' := by
  have ⟨hcalls, hunfinished, hfired, hnotFired, hdelayed, hloops⟩ := h
  cases hstep with
  | thenCallback =>
    refine ⟨hcalls, hunfinished, hfired, hnotFired, hdelayed, ?_⟩
    rw [loops_mk, loopsIn_doLatest]
    omega
  | callback =>
    rw [loops_mk, loopsIn_callback] at hloops
    exact ⟨hcalls, hunfinished, hfired, hnotFired, hdelayed, hloops⟩
  | alreadyCalled => exact h.finish rfl rfl rfl _
  | finished => exact h.finish rfl rfl rfl _
  | malformed r hwell =>
    refine ⟨?_, hunfinished, fun hyes ↦ ?_, hnotFired, hdelayed, hloops⟩
    · rwa [List.filter_cons_of_neg (Bool.eq_false_iff.mp hwell)] at hcalls
    · exact absurd (hfired hyes).1 (List.cons_ne_nil _ _)
  | raises r hwell houtcome =>
    rw [List.filter_cons_of_pos hwell] at hcalls
    refine ⟨by simpa using hcalls, ?_, fun hyes ↦ ?_, by simpa using hnotFired, hdelayed, ?_⟩
    · simp at hunfinished ⊢
      omega
    · exact absurd (hfired hyes).1 (List.cons_ne_nil _ _)
    · rw [loops_mk, loopsIn_doLatest]
      omega
  | now r hwell ok houtcome =>
    rw [List.filter_cons_of_pos hwell] at hcalls
    refine ⟨by simpa using hcalls, ?_, fun hyes ↦ ?_, by simpa using hnotFired, hdelayed, ?_⟩
    · simp at hunfinished ⊢
      omega
    · exact absurd (hfired hyes).1 (List.cons_ne_nil _ _)
    · simp only [loops_mk, loopsIn_settling]
      split_ifs <;> omega
  | later r hwell ok houtcome =>
    rw [List.filter_cons_of_pos hwell] at hcalls
    refine ⟨by simpa using hcalls, ?_, fun hyes ↦ ?_, by simpa using hnotFired, fun r' hr' ↦ ?_, ?_⟩
    · simp at hunfinished ⊢
      omega
    · exact absurd (hfired hyes).1 (List.cons_ne_nil _ _)
    · rcases List.mem_append.mp hr' with hold | hnew
      · exact hdelayed r' hold
      · rw [List.mem_singleton.mp hnew, Record.delayed, hwell, houtcome]
        cases ok <;> decide
    · simp only [loops_mk, List.length_append, List.length_singleton]
      omega
  | settle i r hr =>
    obtain ⟨hi, -⟩ := List.getElem?_eq_some_iff.mp hr
    refine ⟨by simpa using hcalls, ?_, fun hyes ↦ ?_, by simpa using hnotFired, fun r' hr' ↦ ?_, ?_⟩
    · simp [List.length_eraseIdx_of_lt hi] at hunfinished ⊢
      omega
    · exact ⟨(hfired hyes).1, by simpa using (hfired hyes).2⟩
    · exact hdelayed r' (List.mem_of_mem_eraseIdx hr')
    · simp only [loops_mk, loopsIn_settling_nil]
      split_ifs <;> omega

/-- A property that a step keeps holds in every state of a run. -/
theorem of_run {P : DoEnablePubkeys ν → Prop}
    (hkeep : ∀ {s s' : DoEnablePubkeys ν}, Tied records s → P s → Step s s' → P s')
    (hstart : P (start records)) {events : List Event}
    (hrun : run step (start records) events = some s) : Tied records s ∧ P s := by
  have hboth : ∀ (s : DoEnablePubkeys ν) (e : Event) (s' : DoEnablePubkeys ν),
      Tied records s ∧ P s → DoEnablePubkeys.step s e = some s' → Tied records s' ∧ P s' :=
    fun _ _ _ h hstep ↦ ⟨h.1.step (.of_step hstep), hkeep h.1 h.2 (.of_step hstep)⟩
  exact run_inductive hboth ⟨tied_start records, hstart⟩ hrun

/-- When a run has ended, `finished` has fired and every record was popped. -/
theorem Tied.ended (h : Tied records s) (hended : s.Ended) : s.fired = true ∧ s.pkobjs = [] := by
  have hfired : s.fired = true := by
    by_contra hnot
    have hloops := h.loops
    have hunfinished := hended.2.resolve_right hnot
    rw [DoEnablePubkeys.loops, h.notFired (Bool.eq_false_iff.mpr hnot), hended.1,
      hunfinished] at hloops
    exact absurd hloops (lt_irrefl 0)
  exact ⟨hfired, (h.fired hfired).1⟩

/-- After `finished` has fired in order, no call is unfinished. -/
def Closed (records : List (Record ν)) (s : DoEnablePubkeys ν) : Prop :=
  Orderly records s.log → s.fired = true → s.unfinished = []

theorem Closed.step (hclosed : Closed records s) (htied : Tied records s) (hstep : Step s s') :
    Closed records s' := by
  cases hstep with
  | thenCallback => exact hclosed
  | callback => exact hclosed
  | alreadyCalled => exact fun horderly ↦ hclosed ((orderly_concat _ _ _).mp horderly).1
  | finished =>
    exact fun horderly _ ↦ htied.settled_iff.mp ((orderly_concat _ _ _).mp horderly).2.1
  | malformed r hwell => exact hclosed
  | raises r hwell houtcome =>
    exact fun horderly ↦ hclosed ((orderly_called_settled _ _ _).mp horderly).1
  | now r hwell ok houtcome =>
    exact fun horderly ↦ hclosed ((orderly_called_settled _ _ _).mp horderly).1
  | later r hwell ok houtcome =>
    exact fun _ hfired ↦ absurd (htied.fired hfired).1 (List.cons_ne_nil _ _)
  | settle i r hr =>
    intro horderly hfired
    have hnone := hclosed ((orderly_concat _ _ _).mp horderly).1 hfired
    exact congrArg (List.eraseIdx · i) hnone

end Tied

/-! ### Two loops -/

section Forks

variable {records : List (Record ν)}

/-- A Deferred is still to fail, or there are two loops. -/
def Forks (s : DoEnablePubkeys ν) : Prop :=
  (∃ r ∈ s.pkobjs ++ s.unfinished, r.fails = true) ∨ 2 ≤ s.loops

theorem exists_fails_tail {r : Record ν} {l : List (Record ν)} (hr : r.fails = false)
    (h : ∃ r' ∈ r :: l, r'.fails = true) : ∃ r' ∈ l, r'.fails = true := by
  simpa [hr] using h

theorem fails_of_delayed {r : Record ν} (hdelayed : r.delayed = true) :
    r.fails = !decide (r.outcome = .later true) := by
  simp only [Record.delayed, Bool.and_eq_true, Bool.or_eq_true, decide_eq_true_eq] at hdelayed
  obtain ⟨hwell, houtcome | houtcome⟩ := hdelayed <;> simp [Record.fails, hwell, houtcome]

theorem Forks.step (hforks : Forks s) (htied : Tied records s) (hstep : Step s s') : Forks s' := by
  have hloops := htied.loops
  cases hstep with
  | thenCallback => exact hforks
  | callback => simpa [Forks] using hforks
  | alreadyCalled =>
    have hfinishes := (htied.fired rfl).2
    right
    simp only [loops_mk, finishes_append, finishes_cons, LogEntry.isFinish, if_true]
    dsimp only at hfinishes
    omega
  | finished =>
    refine hforks.imp_right fun htwo ↦ ?_
    simp at htwo ⊢
    omega
  | malformed r hwell =>
    exact hforks.imp_left (exists_fails_tail (by simp [Record.fails, hwell]))
  | raises r hwell houtcome =>
    exact hforks.imp (exists_fails_tail (by simp [Record.fails, houtcome])) (by simp)
  | now r hwell ok houtcome =>
    cases ok with
    | true => exact hforks.imp (exists_fails_tail (by simp [Record.fails, houtcome])) (by simp)
    | false =>
      right
      simp at hloops ⊢
      omega
  | later r hwell ok houtcome =>
    refine hforks.imp ?_ fun htwo ↦ ?_
    · rintro ⟨r', hmem, hfails⟩
      exact ⟨r', by simpa [or_comm, or_left_comm] using hmem, hfails⟩
    · simp at htwo ⊢
      omega
  | settle i r hr =>
    have hdelayed := htied.delayed r (List.mem_of_getElem? hr)
    obtain ⟨hi, hget⟩ := List.getElem?_eq_some_iff.mp hr
    cases hfails : r.fails with
    | true =>
      right
      rw [fails_of_delayed hdelayed, Bool.not_eq_true'] at hfails
      simp [hfails]
      omega
    | false =>
      rw [fails_of_delayed hdelayed, Bool.not_eq_false'] at hfails
      refine hforks.imp ?_ fun htwo ↦ ?_
      · rintro ⟨r', hmem, hfails'⟩
        refine ⟨r', ?_, hfails'⟩
        rw [List.mem_append] at hmem ⊢
        refine hmem.imp_right fun hunfinished ↦ ?_
        obtain ⟨j, hj⟩ := List.mem_iff_getElem?.mp hunfinished
        refine List.mem_eraseIdx_iff_getElem?.mpr ⟨j, ?_, hj⟩
        rintro rfl
        obtain rfl := Option.some.inj (hr.symm.trans hj)
        rw [fails_of_delayed hdelayed, hfails] at hfails'
        exact Bool.false_ne_true hfails'
      · simp [hfails, List.length_eraseIdx_of_lt hi] at htwo ⊢
        omega

/-- No Deferred is to fail, and there is one loop. -/
structure Alone (s : DoEnablePubkeys ν) : Prop where
  succeeds : ∀ r ∈ s.pkobjs ++ s.unfinished, r.fails = false
  loops : s.loops = 1

theorem Alone.step (halone : Alone s) (htied : Tied records s) (hstep : Step s s') : Alone s' := by
  obtain ⟨hsucceeds, hloops⟩ := halone
  cases hstep with
  | thenCallback => exact ⟨hsucceeds, by simpa using hloops⟩
  | callback => exact ⟨hsucceeds, by simpa using hloops⟩
  | alreadyCalled =>
    have hfinishes := (htied.fired rfl).2
    simp at hfinishes hloops
    omega
  | finished => exact ⟨hsucceeds, by simp at hloops ⊢; omega⟩
  | malformed r hwell =>
    exact ⟨fun r' hr' ↦ hsucceeds r' (List.mem_cons_of_mem _ hr'), hloops⟩
  | raises r hwell houtcome =>
    exact ⟨fun r' hr' ↦ hsucceeds r' (List.mem_cons_of_mem _ hr'), by simpa using hloops⟩
  | now r hwell ok houtcome =>
    have hok : ok = true := by
      have hr := hsucceeds r List.mem_cons_self
      simpa [Record.fails, hwell, houtcome] using hr
    refine ⟨fun r' hr' ↦ hsucceeds r' (List.mem_cons_of_mem _ hr'), ?_⟩
    simpa [hok] using hloops
  | later r hwell ok houtcome =>
    refine ⟨fun r' hr' ↦ hsucceeds r' (by simpa [or_comm, or_left_comm] using hr'), ?_⟩
    simp at hloops ⊢
    omega
  | settle i r hr =>
    obtain ⟨hi, -⟩ := List.getElem?_eq_some_iff.mp hr
    have hmem := List.mem_of_getElem? hr
    have hok : r.outcome = .later true := by
      have hsucceed := hsucceeds r (List.mem_append_right _ hmem)
      simpa [fails_of_delayed (htied.delayed r hmem)] using hsucceed
    refine ⟨fun r' hr' ↦ hsucceeds r' ?_, ?_⟩
    · exact (List.mem_append.mp hr').elim (List.mem_append_left _)
        fun h ↦ List.mem_append_right _ (List.mem_of_mem_eraseIdx h)
    · simp [hok, List.length_eraseIdx_of_lt hi] at hloops ⊢
      omega

/-! ### The order of the calls -/

/-- A call that fails does not come before one that does not settle at once. -/
def Separate (r r' : Record ν) : Prop := r.fails = true → r'.delayed = false

/-- There is one loop; or there may be more, but no call to come is delayed. -/
structure Calm (records : List (Record ν)) (s : DoEnablePubkeys ν) : Prop where
  orderly : Orderly records s.log
  separate : s.pkobjs.Pairwise Separate
  quiet : (s.loops = 1 ∧ ∀ r ∈ s.unfinished, ∀ r' ∈ s.pkobjs, Separate r r') ∨
    s.unfinished = [] ∧ ∀ r ∈ s.pkobjs, r.delayed = false

/-- While `doLatest` is called, nothing is unfinished. -/
theorem Calm.unfinished_eq_nil (hcalm : Calm records s) {stack : List Frame}
    (hstack : s.stack = .doLatest :: stack) : s.unfinished = [] := by
  rcases hcalm.quiet with ⟨hloops, -⟩ | ⟨hunfinished, -⟩
  · rw [DoEnablePubkeys.loops, hstack, loopsIn_doLatest] at hloops
    exact List.length_eq_zero_iff.mp (by omega)
  · exact hunfinished

theorem Calm.step (hcalm : Calm records s) (htied : Tied records s) (hstep : Step s s') :
    Calm records s' := by
  have hnone : ∀ stack, s.stack = .doLatest :: stack → Settled s.log :=
    fun stack hstack ↦ htied.settled_iff.mpr (hcalm.unfinished_eq_nil hstack)
  cases hstep with
  | thenCallback => exact ⟨hcalm.orderly, hcalm.separate, hcalm.quiet⟩
  | callback => exact ⟨hcalm.orderly, hcalm.separate, by simpa using hcalm.quiet⟩
  | alreadyCalled =>
    exact ⟨by simpa using hcalm.orderly, hcalm.separate,
      Or.inr ⟨hcalm.unfinished_eq_nil rfl, List.forall_mem_nil _⟩⟩
  | finished =>
    have hall := htied.calls
    rw [List.filter_nil, List.append_nil] at hall
    exact ⟨(orderly_concat _ _ _).mpr ⟨hcalm.orderly, hnone _ rfl, hall⟩, hcalm.separate,
      Or.inr ⟨hcalm.unfinished_eq_nil rfl, List.forall_mem_nil _⟩⟩
  | malformed r hwell =>
    obtain ⟨-, hseparate⟩ := List.pairwise_cons.mp hcalm.separate
    refine ⟨hcalm.orderly, hseparate, hcalm.quiet.imp ?_ ?_⟩
    · exact fun h ↦ ⟨h.1, fun r' hr' r'' hr'' ↦ h.2 r' hr' r'' (List.mem_cons_of_mem _ hr'')⟩
    · exact fun h ↦ ⟨h.1, fun r' hr' ↦ h.2 r' (List.mem_cons_of_mem _ hr')⟩
  | raises r hwell houtcome =>
    obtain ⟨-, hseparate⟩ := List.pairwise_cons.mp hcalm.separate
    refine ⟨(orderly_called_settled _ _ _).mpr ⟨hcalm.orderly, hnone _ rfl⟩, hseparate,
      hcalm.quiet.imp ?_ ?_⟩
    · exact fun h ↦ ⟨by simpa using h.1,
        fun r' hr' r'' hr'' ↦ h.2 r' hr' r'' (List.mem_cons_of_mem _ hr'')⟩
    · exact fun h ↦ ⟨h.1, fun r' hr' ↦ h.2 r' (List.mem_cons_of_mem _ hr')⟩
  | now r hwell ok houtcome =>
    obtain ⟨hr, hseparate⟩ := List.pairwise_cons.mp hcalm.separate
    refine ⟨(orderly_called_settled _ _ _).mpr ⟨hcalm.orderly, hnone _ rfl⟩, hseparate, ?_⟩
    cases ok with
    | true =>
      refine hcalm.quiet.imp ?_ ?_
      · exact fun h ↦ ⟨by simpa using h.1,
          fun r' hr' r'' hr'' ↦ h.2 r' hr' r'' (List.mem_cons_of_mem _ hr'')⟩
      · exact fun h ↦ ⟨h.1, fun r' hr' ↦ h.2 r' (List.mem_cons_of_mem _ hr')⟩
    | false =>
      have hfails : r.fails = true := by simp [Record.fails, hwell, houtcome]
      exact Or.inr ⟨hcalm.unfinished_eq_nil rfl, fun r' hr' ↦ hr r' hr' hfails⟩
  | later r hwell ok houtcome =>
    obtain ⟨hr, hseparate⟩ := List.pairwise_cons.mp hcalm.separate
    refine ⟨(orderly_concat _ _ _).mpr ⟨hcalm.orderly, hnone _ rfl⟩, hseparate, Or.inl ?_⟩
    have hunfinished := hcalm.unfinished_eq_nil rfl
    dsimp only at hunfinished
    rcases hcalm.quiet with ⟨hloops, -⟩ | ⟨-, hdelayed⟩
    · simp only [hunfinished, loops_mk, loopsIn_doLatest, List.length_nil] at hloops
      refine ⟨by simp [hunfinished]; omega, fun r' hr' ↦ ?_⟩
      rw [hunfinished, List.nil_append, List.mem_singleton] at hr'
      exact hr' ▸ hr
    · have hnot := hdelayed r List.mem_cons_self
      cases ok <;> simp [Record.delayed, hwell, houtcome] at hnot
  | settle i r hr =>
    obtain ⟨hi, -⟩ := List.getElem?_eq_some_iff.mp hr
    have hmem := List.mem_of_getElem? hr
    rcases hcalm.quiet with ⟨hloops, hbehind⟩ | ⟨hunfinished, -⟩
    · simp only [loops_mk, loopsIn_nil] at hloops
      have hlength := List.length_eraseIdx_of_lt hi
      have hempty := List.length_eq_zero_iff.mp (hlength.trans (by omega))
      refine ⟨by simpa using hcalm.orderly, hcalm.separate, ?_⟩
      cases hfails : r.fails with
      | true => exact Or.inr ⟨hempty, fun r' hr' ↦ hbehind r hmem r' hr' hfails⟩
      | false =>
        rw [fails_of_delayed (htied.delayed r hmem), Bool.not_eq_false'] at hfails
        refine Or.inl ⟨?_, fun r' hr' ↦ ?_⟩
        · simp [hfails, hempty]
          omega
        · dsimp only at hr'
          rw [hempty] at hr'
          exact absurd hr' List.not_mem_nil
    · dsimp only at hunfinished
      rw [hunfinished] at hmem
      exact absurd hmem List.not_mem_nil

/-- How many loops there will be when all unfinished calls have settled. -/
def loopsToCome (s : DoEnablePubkeys ν) : ℕ :=
  loopsIn s.stack + s.unfinished.length + s.unfinished.countP Record.fails

/-- As long as all is in order, a call that fails is still before one that is delayed; or there are
two loops, and a call to come is delayed; or a loop goes on while a call is unfinished. -/
def Doomed (records : List (Record ν)) (s : DoEnablePubkeys ν) : Prop :=
  Orderly records s.log →
    ¬ s.pkobjs.Pairwise Separate ∨
      (2 ≤ s.loopsToCome ∧ ∃ r ∈ s.pkobjs, r.delayed = true) ∨
      s.unfinished ≠ [] ∧ 0 < loopsIn s.stack ∧ s.fired = false

theorem not_pairwise_cons {r : Record ν} {l : List (Record ν)}
    (h : ¬ (r :: l).Pairwise Separate) :
    ¬ l.Pairwise Separate ∨ r.fails = true ∧ ∃ r' ∈ l, r'.delayed = true := by
  rw [List.pairwise_cons, not_and_or] at h
  refine h.symm.imp_right fun hhead ↦ ?_
  simp only [Separate] at hhead
  push Not at hhead
  obtain ⟨r', hmem, hfails, hdelayed⟩ := hhead
  exact ⟨hfails, r', hmem, Bool.eq_true_of_not_eq_false hdelayed⟩

theorem exists_delayed_tail {r : Record ν} {l : List (Record ν)} (hr : r.delayed = false)
    (h : ∃ r' ∈ r :: l, r'.delayed = true) : ∃ r' ∈ l, r'.delayed = true := by
  simpa [hr] using h

/-- Settling a call makes no loops but those that were to come. -/
theorem loopsToCome_settle {unfinished : List (Record ν)} {i : ℕ} {r : Record ν}
    (hr : unfinished[i]? = some r) (hdelayed : r.delayed = true) {pkobjs : List (Record ν)}
    {fired : Bool} {log log' : List (LogEntry ν)} :
    loopsToCome ⟨pkobjs, unfinished.eraseIdx i, settling (r.outcome = .later true), fired, log'⟩ =
      loopsToCome ⟨pkobjs, unfinished, [], fired, log⟩ := by
  obtain ⟨hi, hget⟩ := List.getElem?_eq_some_iff.mp hr
  have hperm := List.getElem_cons_eraseIdx_perm hi
  rw [hget] at hperm
  have hlength := hperm.length_eq
  have hcount := hperm.countP_eq Record.fails
  rw [List.length_cons] at hlength
  rw [List.countP_cons] at hcount
  have hfails := fails_of_delayed hdelayed
  simp only [loopsToCome, loopsIn_settling_nil, loopsIn_nil]
  cases hok : decide (r.outcome = .later true) <;> simp [hfails, hok] at hcount ⊢ <;> omega

theorem Doomed.step (hdoomed : Doomed records s) (htied : Tied records s) (hstep : Step s s') :
    Doomed records s' := by
  cases hstep with
  | thenCallback => simpa [Doomed, loopsToCome] using hdoomed
  | callback => simpa [Doomed, loopsToCome] using hdoomed
  | alreadyCalled =>
    intro horderly
    have hbefore := hdoomed ((orderly_concat _ _ _).mp horderly).1
    simp at hbefore
  | finished =>
    intro horderly
    obtain ⟨hbefore, hsettled, -⟩ := (orderly_concat _ _ _).mp horderly
    have hunfinished := htied.settled_iff.mp hsettled
    have hnot := hdoomed hbefore
    simp at hnot
    exact absurd hunfinished hnot
  | malformed r hwell =>
    intro horderly
    refine (hdoomed horderly).imp ?_ (Or.imp_left ?_)
    · exact fun h ↦ (not_pairwise_cons h).resolve_right fun hr ↦ by
        simp [Record.fails, hwell] at hr
    · exact fun h ↦ ⟨h.1, exists_delayed_tail (by simp [Record.delayed, hwell]) h.2⟩
  | raises r hwell houtcome =>
    intro horderly
    obtain ⟨hbefore, hsettled⟩ := (orderly_called_settled _ _ _).mp horderly
    have hunfinished := htied.settled_iff.mp hsettled
    obtain h | h | h := hdoomed hbefore
    · exact Or.inl ((not_pairwise_cons h).resolve_right fun hr ↦ by
        simp [Record.fails, houtcome] at hr)
    · exact Or.inr (Or.inl ⟨h.1, exists_delayed_tail (by simp [Record.delayed, houtcome]) h.2⟩)
    · exact absurd hunfinished h.1
  | now r hwell ok houtcome =>
    intro horderly
    obtain ⟨hbefore, hsettled⟩ := (orderly_called_settled _ _ _).mp horderly
    have hunfinished := htied.settled_iff.mp hsettled
    obtain h | h | h := hdoomed hbefore
    · refine (not_pairwise_cons h).imp_right fun ⟨hfails, hdelayed⟩ ↦ Or.inl ⟨?_, hdelayed⟩
      have hok : ok = false := by simpa [Record.fails, hwell, houtcome] using hfails
      simp [loopsToCome, hok]
      omega
    · refine Or.inr (Or.inl ⟨?_, exists_delayed_tail (by simp [Record.delayed, houtcome]) h.2⟩)
      have htwo := h.1
      simp only [loopsToCome, loopsIn_doLatest, loopsIn_settling] at htwo ⊢
      split_ifs <;> omega
    · exact absurd hunfinished h.1
  | later r hwell ok houtcome =>
    intro horderly
    obtain ⟨hbefore, hsettled⟩ := (orderly_concat _ _ _).mp horderly
    have hunfinished := htied.settled_iff.mp hsettled
    dsimp only at hunfinished
    obtain h | h | h := hdoomed hbefore
    · refine (not_pairwise_cons h).imp_right fun ⟨hfails, hdelayed⟩ ↦ Or.inl ⟨?_, hdelayed⟩
      simp [loopsToCome, hunfinished, hfails]
    · have htwo := h.1
      simp [loopsToCome, hunfinished] at htwo
      exact Or.inr (Or.inr ⟨by simp, htwo, htied.not_fired (List.cons_ne_nil _ _)⟩)
    · exact absurd hunfinished h.1
  | settle i r hr =>
    intro horderly
    have hdelayed := htied.delayed r (List.mem_of_getElem? hr)
    refine (hdoomed ((orderly_concat _ _ _).mp horderly).1).imp_right ?_
    rintro (h | h)
    · refine Or.inl ⟨?_, h.2⟩
      rw [loopsToCome_settle hr hdelayed]
      exact h.1
    · exact absurd h.2.1 (lt_irrefl 0)

end Forks

/-! ### Runs come to an end -/

/-- How much a frame has still to do. -/
def frameRank : Frame → ℕ
  | .doLatest | .callback => 1
  | .thenCallback => 3

def stackRank : List Frame → ℕ
  | [] => 0
  | frame :: stack => frameRank frame + stackRank stack

def rank (s : DoEnablePubkeys ν) : ℕ :=
  5 * (s.pkobjs.length + s.unfinished.length) + stackRank s.stack

theorem stackRank_unwind (stack : List Frame) : stackRank (unwind stack) ≤ stackRank stack := by
  induction stack with
  | nil => exact le_rfl
  | cons frame stack ih =>
    cases frame with
    | doLatest => exact ih.trans (Nat.le_add_left _ _)
    | thenCallback => exact Nat.le_add_left _ _
    | callback => exact Nat.le_add_left _ _

theorem rank_step (hstep : Step s s') : s'.rank < s.rank := by
  cases hstep with
  | thenCallback => simp [rank, stackRank, frameRank]; omega
  | callback => simp [rank, stackRank, frameRank]
  | alreadyCalled =>
    rename_i unfinished stack log
    have hunwind := stackRank_unwind stack
    simp [rank, stackRank, frameRank]
    omega
  | finished => simp [rank, stackRank, frameRank]
  | malformed r hwell => simp [rank, stackRank, frameRank]
  | raises r hwell houtcome => simp [rank, stackRank, frameRank]
  | now r hwell ok houtcome =>
    cases ok <;> simp [rank, stackRank, settling, frameRank] <;> omega
  | later r hwell ok houtcome => simp [rank, stackRank, frameRank]; omega
  | settle i r hr =>
    obtain ⟨hi, -⟩ := List.getElem?_eq_some_iff.mp hr
    have hlength := List.length_eraseIdx_of_lt hi
    cases hok : decide (r.outcome = .later true) <;>
      simp [rank, stackRank, settling, frameRank, hlength] <;> omega

/-- In a state that is no end, something can happen. -/
theorem exists_step (hended : ¬ s.Ended) : ∃ e s', step s e = some s' := by
  cases hstack : s.stack with
  | cons frame stack => exact ⟨.turn, by cases frame <;> simp [step, hstack]⟩
  | nil =>
    have hunfinished : s.unfinished ≠ [] := fun hnil ↦ hended ⟨hstack, Or.inl hnil⟩
    obtain ⟨r, rest, hr⟩ := List.exists_cons_of_ne_nil hunfinished
    exact ⟨.settle 0, by simp [step, hstack, hr]⟩

/-- Every run goes on until it has ended, and cannot go on forever. -/
theorem exists_ended (s : DoEnablePubkeys ν) :
    ∃ events t, run step s events = some t ∧ t.Ended := by
  induction hrank : s.rank using Nat.strongRecOn generalizing s with
  | ind n ih =>
    by_cases hended : s.Ended
    · exact ⟨[], s, rfl, hended⟩
    · obtain ⟨e, s', hstep⟩ := exists_step hended
      obtain ⟨events, t, hrun, ht⟩ := ih s'.rank (hrank ▸ rank_step (.of_step hstep)) s' rfl
      exact ⟨e :: events, t, run_cons_eq_some.mpr ⟨s', hstep, hrun⟩, ht⟩

theorem length_le_rank {events : List Event} (hrun : run step s events = some s') :
    events.length ≤ s.rank := by
  induction events generalizing s with
  | nil => exact Nat.zero_le _
  | cons e events ih =>
    obtain ⟨t, hstep, hrest⟩ := run_cons_eq_some.mp hrun
    exact Nat.lt_of_le_of_lt (ih hrest) (rank_step (.of_step hstep))

/-! ### Exactly when it holds -/

section Exact

variable {records : List (Record ν)} {events : List Event}

/-- In every run to the end, everything is in order just if no call that fails comes before one that
is delayed, in the order in which the records are popped. -/
theorem orderly_iff (hrun : run step (start records) events = some s) (hended : s.Ended) :
    Orderly records s.log ↔ records.reverse.Pairwise Separate := by
  constructor
  · intro horderly
    by_contra hpair
    have hstart : Doomed records (start records) := fun _ ↦ Or.inl hpair
    obtain ⟨htied, hdoomed⟩ := of_run (fun htied h hstep ↦ h.step htied hstep) hstart hrun
    obtain ⟨hfired, hpkobjs⟩ := htied.ended hended
    obtain h | ⟨-, r, hr, -⟩ | ⟨-, -, h⟩ := hdoomed horderly
    · rw [hpkobjs] at h
      exact h List.Pairwise.nil
    · rw [hpkobjs] at hr
      exact List.not_mem_nil hr
    · exact Bool.false_ne_true (h.symm.trans hfired)
  · intro hpair
    have hstart : Calm records (start records) :=
      ⟨justified_nil, hpair, Or.inl ⟨rfl, List.forall_mem_nil _⟩⟩
    exact (of_run (fun htied h hstep ↦ h.step htied hstep) hstart hrun).2.orderly

/-- In a run to the end, in which all is in order, no call is unfinished. -/
theorem unfinished_of_ended (hrun : run step (start records) events = some s)
    (hended : s.Ended) (horderly : Orderly records s.log) : s.unfinished = [] := by
  have hstart : Closed records (start records) := fun _ _ ↦ rfl
  obtain ⟨htied, hclosed⟩ := of_run (fun htied h hstep ↦ h.step htied hstep) hstart hrun
  exact hclosed horderly (htied.ended hended).1

theorem succeeds_of_enablesAll (h : EnablesAll records s.log)
    (hrun : run step (start records) events = some s) (hended : s.Ended) :
    ∀ r ∈ records, r.fails = false := by
  intro r hr
  by_contra hfails
  have hstart : Forks (start records) :=
    Or.inl ⟨r, by simpa [start] using hr, Bool.eq_true_of_not_eq_false hfails⟩
  obtain ⟨htied, hforks⟩ := of_run (fun htied h hstep ↦ h.step htied hstep) hstart hrun
  have hunfinished := unfinished_of_ended hrun hended h.orderly
  have hpkobjs := (htied.ended hended).2
  have hfinished : finishes s.log = 1 := h.finishedOnce
  rcases hforks with ⟨r', hr', -⟩ | htwo
  · rw [hpkobjs, hunfinished] at hr'
    exact List.not_mem_nil hr'
  · rw [loops, hended.1, hunfinished, hfinished] at htwo
    simp at htwo

theorem enablesAll_of_succeeds (hsucceeds : ∀ r ∈ records, r.fails = false)
    (hrun : run step (start records) events = some s) (hended : s.Ended) :
    EnablesAll records s.log := by
  have hstart : Alone (start records) := ⟨fun r hr ↦ hsucceeds r (by simpa [start] using hr), rfl⟩
  obtain ⟨htied, halone⟩ := of_run (fun htied h hstep ↦ h.step htied hstep) hstart hrun
  have horderly : Orderly records s.log := by
    refine (orderly_iff hrun hended).mpr ?_
    refine List.pairwise_of_forall_mem_list fun r hr r' _ hfails ↦ ?_
    rw [hsucceeds r (List.mem_reverse.mp hr)] at hfails
    exact absurd hfails Bool.false_ne_true
  refine ⟨horderly, ?_, ?_⟩
  · have hcalls := htied.calls
    rwa [(htied.ended hended).2, List.filter_nil, List.append_nil] at hcalls
  · have hloops := halone.loops
    rwa [loops, hended.1, unfinished_of_ended hrun hended horderly] at hloops

/-- In every run to the end, all records are enabled as they should be just if no Deferred fails.
Calls overlap, or `finished` fires too soon, just if a call that fails is followed by one that is
delayed. -/
theorem enablesAll_iff (hrun : run step (start records) events = some s) (hended : s.Ended) :
    (EnablesAll records s.log ↔ ∀ r ∈ records, r.fails = false) ∧
      (Orderly records s.log ↔ records.reverse.Pairwise Separate) :=
  ⟨⟨fun h ↦ succeeds_of_enablesAll h hrun hended, fun h ↦ enablesAll_of_succeeds h hrun hended⟩,
    orderly_iff hrun hended⟩

end Exact

section Example

def exampleRecord (nickname : String) (outcome : Outcome) : Record ℕ :=
  ⟨.obj [("chainName", .str "testnet-1.14"), ("pubkey", .str ("agoric1" ++ nickname)),
    ("nickname", .str nickname)], outcome⟩

/-- One record lacks everything, one call is delayed, and one settles at once. -/
def wellRecords : List (Record ℕ) :=
  [exampleRecord "alice" (.now true), ⟨.obj [], .now true⟩, exampleRecord "bob" (.later true)]

theorem enablesAll_wellRecords :
    ∃ events s, run step (start wellRecords) events = some s ∧ s.Ended ∧
      EnablesAll wellRecords s.log := by
  refine ⟨[.turn, .settle 0, .turn, .turn, .turn, .turn, .turn], _, rfl, ⟨rfl, Or.inr rfl⟩, ?_⟩
  have hrun : run step (start wellRecords)
      [.turn, .settle 0, .turn, .turn, .turn, .turn, .turn] = some _ := rfl
  refine (enablesAll_iff hrun ⟨rfl, Or.inr rfl⟩).1.mpr ?_
  decide

/-- The controller refuses the connection for the record that is popped first. -/
def failingRecords : List (Record ℕ) :=
  [exampleRecord "alice" (.later true), exampleRecord "bob" (.later true),
    exampleRecord "carol" (.later false)]

/-- The transfers to Bob and to Alice are made at the same time, and `finished` fires twice. -/
theorem not_enablesAll_failingRecords :
    ∃ events s, run step (start failingRecords) events = some s ∧ s.Ended ∧
      ¬ EnablesAll failingRecords s.log := by
  refine ⟨[.turn, .settle 0, .turn, .turn, .turn, .turn, .settle 0, .turn, .turn, .settle 0, .turn],
    _, rfl, ⟨rfl, Or.inr rfl⟩, fun h ↦ ?_⟩
  exact absurd h.finishedOnce (by decide)

end Example

end DoEnablePubkeys

end CosmicSwingset.Provisioning
