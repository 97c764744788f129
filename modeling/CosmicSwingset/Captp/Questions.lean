import CosmicSwingset.Captp.Session
import Mathlib.Data.List.Perm.Subperm

/-!
# Questions and answers

A question is in one place as long as it is open: on its way to the other end, with the method that
was called, or on its way back as an answer (`inflight`). So an answer that is dispatched is that of
a question that is waited for, and no question is answered twice, in whatever order the ends act
(`asked_of_run`). Only an answer at which `unserialize` throws leaves its question open.

A question can only be lost with a value that cannot be serialized or read. Where all values can,
the open questions are those in flight: when nothing is on its way and no method is running, every
question has been answered (`inflight_perm_of_run`).
-/

set_option autoImplicit false
set_option relaxedAutoImplicit false

namespace CosmicSwingset.Captp

open Foundation Endpoint

/-! ### Where a question is -/

def Message.ask? : Message → Option ℕ
  | .bootstrap questionID => some questionID
  | .call questionID _ _ => some questionID
  | _ => none

def Message.answer? : Message → Option ℕ
  | .return answerID _ => some answerID
  | _ => none

/-- The questions of the other end that are here. -/
def Endpoint.held (e : Endpoint) : List ℕ := e.inbox.filterMap Message.ask? ++ e.answering

/-- The answers that have arrived. -/
def Endpoint.answers (e : Endpoint) : List ℕ := e.inbox.filterMap Message.answer?

/-- The questions of an end that are somewhere. -/
def inflight (s : Connection) (side : Side) : List ℕ := (s side.other).held ++ (s side).answers

/-- The handler does not throw where it reads values. -/
def Endpoint.Action.Completes : Action → Prop
  | .throws _ => False
  | _ => True

/-- No value has been met that cannot be serialized and is not replaced by the error, or that cannot
be read. -/
def Endpoint.Action.Passable : Action → Prop
  | .getBootstrap => True
  | .call _ _ passable => passable = true
  | .dispatch _ passable => passable = true
  | .throws _ => False
  | .answer _ _ fulfilled passable => passable = true ∨ fulfilled = true
  | .settle _ _ passable => passable = true

theorem Endpoint.Action.Passable.completes {action : Action} (h : action.Passable) :
    action.Completes := by
  cases action with
  | throws count => exact h
  | _ => trivial

/-- The message that the action dispatches. -/
def Endpoint.dispatched (e : Endpoint) : Action → List Message
  | .dispatch _ _ | .throws _ => e.inbox.take 1
  | _ => []

/-- The question that the action takes the answer of. -/
def Endpoint.taken (e : Endpoint) (action : Action) : List ℕ :=
  (e.dispatched action).filterMap Message.answer?

/-! ### What an action does -/

/-- It asks a question, it takes an answer, or it goes on with the questions of the other end. -/
inductive Effect (e : Endpoint) (action : Action) (e' : Endpoint) (sent : List Message) : Prop
  | ask (hlast : e'.lastQuestionID = e.lastQuestionID + 1)
      (hquestions : e'.questions = e.questions ++ [e.lastQuestionID + 1])
      (htaken : e.taken action = [])
      (hheld : e'.held = e.held)
      (hinbox : e'.answers = e.answers)
      (hasks : sent.filterMap Message.ask? = [e.lastQuestionID + 1] ∨
        ¬ action.Passable ∧ sent.filterMap Message.ask? = [])
      (hanswers : sent.filterMap Message.answer? = [])
  | answer (q : ℕ) (hlast : e'.lastQuestionID = e.lastQuestionID)
      (hquestions : e'.questions = e.questions.erase q)
      (htaken : e.taken action = [q])
      (hheld : e'.held = e.held)
      (hinbox : e.answers = q :: e'.answers)
      (hsent : sent = [])
  | serve (hlast : e'.lastQuestionID = e.lastQuestionID)
      (hquestions : e'.questions = e.questions)
      (htaken : e.taken action = [])
      (hheld : (e'.held ++ sent.filterMap Message.answer?).Subperm e.held)
      (hpassable : action.Passable → (e'.held ++ sent.filterMap Message.answer?).Perm e.held)
      (hinbox : e'.answers = e.answers)
      (hasks : sent.filterMap Message.ask? = [])

/-- What is sent is the one message, or nothing if the values cannot be serialized. -/
theorem send_cases {e e' : Endpoint} {vals : List Ref} {passable : Bool} {message : Data → Message}
    {sent : List Message} (h : e.send vals passable message = (e', sent)) :
    e' = { e with tables := e'.tables } ∧
      ((∃ data, sent = [message data]) ∨ passable = false ∧ sent = []) := by
  unfold send at h
  simp only [Prod.mk.injEq] at h
  obtain ⟨rfl, rfl⟩ := h
  refine ⟨rfl, ?_⟩
  cases passable
  · exact Or.inr ⟨rfl, rfl⟩
  · exact Or.inl ⟨_, rfl⟩

/-- The answer to a question that was held, or none. -/
theorem Effect.of_answered {e e' : Endpoint} {action : Action} {sent : List Message} {q : ℕ}
    (hlast : e'.lastQuestionID = e.lastQuestionID) (hquestions : e'.questions = e.questions)
    (htaken : e.taken action = []) (hinbox : e'.answers = e.answers)
    (hheld : e.held.Perm (q :: e'.held))
    (hsent : (∃ data, sent = [.return q data]) ∨ ¬ action.Passable ∧ sent = []) :
    Effect e action e' sent := by
  rcases hsent with ⟨data, rfl⟩ | ⟨hnot, rfl⟩
  · have hperm : (e'.held ++ [q]).Perm e.held :=
      (List.perm_append_singleton q e'.held).trans hheld.symm
    exact .serve hlast hquestions htaken hperm.subperm (fun _ ↦ hperm) hinbox rfl
  · refine .serve hlast hquestions htaken ?_ (fun hpassable ↦ absurd hpassable hnot) hinbox rfl
    simpa using (List.sublist_cons_self q e'.held).subperm.trans hheld.symm.subperm

/-- What has nothing to do with questions. -/
theorem Effect.of_held_perm {e e' : Endpoint} {action : Action} {sent : List Message}
    (hlast : e'.lastQuestionID = e.lastQuestionID) (hquestions : e'.questions = e.questions)
    (htaken : e.taken action = []) (hinbox : e'.answers = e.answers)
    (hasks : sent.filterMap Message.ask? = []) (hanswers : sent.filterMap Message.answer? = [])
    (hheld : e'.held.Perm e.held) : Effect e action e' sent := by
  refine .serve hlast hquestions htaken ?_ (fun _ ↦ ?_) hinbox hasks
  · rw [hanswers, List.append_nil]
    exact hheld.subperm
  · rwa [hanswers, List.append_nil]

theorem effect_handle {e e' : Endpoint} {bootstrap : List Ref} {passable : Bool}
    {message : Message} {inbox : List Message} {sent : List Message}
    (hinbox : e.inbox = message :: inbox)
    (h : { e with inbox }.handle bootstrap passable message = (e', sent)) :
    Effect e (.dispatch bootstrap passable) e' sent := by
  have htaken : e.taken (.dispatch bootstrap passable) = [message].filterMap Message.answer? := by
    rw [taken, dispatched, hinbox]
    rfl
  have hanswers : e.answers = [message].filterMap Message.answer? ++
      inbox.filterMap Message.answer? := by
    rw [answers, hinbox, ← List.filterMap_append, List.singleton_append]
  have hheld : e.held = [message].filterMap Message.ask? ++
      (inbox.filterMap Message.ask? ++ e.answering) := by
    rw [held, hinbox, ← List.append_assoc, ← List.filterMap_append, List.singleton_append]
  cases message with
  | bootstrap q =>
    obtain ⟨he, hsent⟩ := send_cases h
    rw [he]
    refine .of_answered (q := q) rfl rfl htaken hanswers.symm (.of_eq hheld) ?_
    refine hsent.imp_right fun ⟨hnot, hnone⟩ ↦ ⟨?_, hnone⟩
    rw [hnot]
    exact Bool.false_ne_true
  | call q target method =>
    cases h
    refine .of_held_perm rfl rfl htaken hanswers.symm rfl rfl ?_
    rw [hheld]
    -- the question is no longer in the inbox, but among those whose method is being called
    have hmoved : (inbox.filterMap Message.ask? ++ (e.answering ++ [q])).Perm
        (q :: (inbox.filterMap Message.ask? ++ e.answering)) := by
      rw [← List.append_assoc]
      exact List.perm_append_singleton q _
    exact hmoved
  | «return» q result =>
    simp only [handle] at h
    split_ifs at h with hmem
    · cases h
      exact .answer q rfl rfl htaken hheld.symm hanswers rfl
    · cases h
      exact .answer q rfl (List.erase_of_not_mem hmem).symm htaken hheld.symm hanswers rfl
  | resolve p result =>
    simp only [handle] at h
    split_ifs at h with hmem
    · cases h
      exact .of_held_perm rfl rfl htaken hanswers.symm rfl rfl (.of_eq hheld.symm)
    · cases h
      exact .of_held_perm rfl rfl htaken hanswers.symm rfl rfl (.of_eq hheld.symm)

theorem effect_act {e e' : Endpoint} {action : Action} {sent : List Message}
    (hcompletes : action.Completes) (h : e.act action = some (e', sent)) :
    Effect e action e' sent := by
  cases action with
  | getBootstrap =>
    cases h
    exact .ask rfl rfl rfl rfl rfl (Or.inl rfl) rfl
  | call target args passable =>
    simp only [act] at h
    split_ifs at h with hhas
    obtain ⟨he, hsent⟩ := send_cases (Option.some.inj h)
    rw [he]
    rcases hsent with ⟨data, rfl⟩ | ⟨hnot, rfl⟩
    · exact .ask rfl rfl rfl rfl rfl (Or.inl rfl) rfl
    · refine .ask rfl rfl rfl rfl rfl (Or.inr ⟨?_, rfl⟩) rfl
      rw [hnot]
      exact Bool.false_ne_true
  | dispatch bootstrap passable =>
    cases hinbox : e.inbox with
    | nil =>
      simp only [act, hinbox] at h
      cases h
    | cons message inbox =>
      simp only [act, hinbox] at h
      split_ifs at h with hhas
      exact effect_handle hinbox (Option.some.inj h)
  | throws count => exact hcompletes.elim
  | answer q result fulfilled passable =>
    simp only [act] at h
    obtain ⟨⟨e₁, sent₁⟩, hsend⟩ : ∃ p, { e with answering := e.answering.erase q }.send result
        passable (.return q) = p := ⟨_, rfl⟩
    rw [hsend] at h
    obtain ⟨he, hsent⟩ := send_cases hsend
    have hheld : q ∈ e.answering → e.held.Perm
        (q :: ({ e with answering := e.answering.erase q } : Endpoint).held) := fun hmem ↦
      (List.Perm.append_left _ (List.perm_cons_erase hmem)).trans List.perm_middle
    split_ifs at h with hhas herror
    · cases h
      rw [he]
      exact .of_answered (q := q) rfl rfl rfl rfl (hheld hhas.1) (Or.inl ⟨_, rfl⟩)
    · cases h
      rw [he]
      refine .of_answered (q := q) rfl rfl rfl rfl (hheld hhas.1) ?_
      refine hsent.imp_right fun ⟨hnot, hnone⟩ ↦ ⟨?_, hnone⟩
      -- a fulfilment that cannot be serialized would have been replaced by the error
      rw [hnot, Bool.not_false, Bool.true_and] at herror
      rw [hnot]
      exact not_or.mpr ⟨Bool.false_ne_true, herror⟩
  | settle p result passable =>
    simp only [act] at h
    split_ifs at h with hhas
    obtain ⟨he, hsent⟩ := send_cases (Option.some.inj h)
    rw [he]
    refine .of_held_perm rfl rfl rfl rfl ?_ ?_ (.refl _)
    · rcases hsent with ⟨data, rfl⟩ | ⟨_, rfl⟩ <;> rfl
    · rcases hsent with ⟨data, rfl⟩ | ⟨_, rfl⟩ <;> rfl

/-! ### Over a run -/

theorem held_update_other (s : Connection) (side : Side) (e : Endpoint) (sent : List Message) :
    (s.update side e sent side.other).held.Perm
      ((s side.other).held ++ sent.filterMap Message.ask?) := by
  rw [s.update_other side e sent, held, held, List.filterMap_append, List.append_assoc,
    List.append_assoc]
  exact .append_left _ List.perm_append_comm

theorem answers_update_other (s : Connection) (side : Side) (e : Endpoint) (sent : List Message) :
    (s.update side e sent side.other).answers =
      (s side.other).answers ++ sent.filterMap Message.answer? := by
  rw [s.update_other side e sent, answers, answers, List.filterMap_append]

/-- The questions of a side after a step of either side. -/
inductive Turn (s : Connection) (event : Side × Action) (s' : Connection) (side : Side) : Prop
  | ask (hlast : (s' side).lastQuestionID = (s side).lastQuestionID + 1)
      (hquestions : (s' side).questions = (s side).questions ++ [(s side).lastQuestionID + 1])
      (hside : event.1 = side) (htaken : (s side).taken event.2 = [])
      (hinflight : (inflight s' side).Perm (inflight s side ++ [(s side).lastQuestionID + 1]) ∨
        ¬ event.2.Passable ∧ (inflight s' side).Perm (inflight s side))
  | answer (q : ℕ) (hlast : (s' side).lastQuestionID = (s side).lastQuestionID)
      (hquestions : (s' side).questions = (s side).questions.erase q)
      (hside : event.1 = side) (htaken : (s side).taken event.2 = [q])
      (hinflight : (inflight s side).Perm (q :: inflight s' side))
  | serve (hlast : (s' side).lastQuestionID = (s side).lastQuestionID)
      (hquestions : (s' side).questions = (s side).questions)
      (hside : event.1 = side → (s side).taken event.2 = [])
      (hinflight : (inflight s' side).Subperm (inflight s side))
      (hpassable : event.2.Passable → (inflight s' side).Perm (inflight s side))

theorem turn_step {s s' : Connection} {event : Side × Action} (hcompletes : event.2.Completes)
    (h : Connection.step s event = some s') (side : Side) : Turn s event s' side := by
  obtain ⟨actor, action⟩ := event
  obtain ⟨⟨e, sent⟩, hact, rfl⟩ := Option.map_eq_some_iff.mp h
  rcases actor.eq_or_eq_other side with rfl | rfl
  · have hself := s.update_self side e sent
    have hinflight : (inflight (s.update side e sent) side).Perm
        ((s side.other).held ++ sent.filterMap Message.ask? ++ e.answers) := by
      rw [inflight, hself]
      exact (held_update_other s side e sent).append_right _
    cases effect_act hcompletes hact with
    | ask hlast hquestions htaken hheld hinbox hasks hanswers =>
      refine .ask (by rw [hself, hlast]) (by rw [hself, hquestions]) rfl htaken ?_
      rw [hinbox] at hinflight
      rcases hasks with hasks | ⟨hnot, hnone⟩
      · rw [hasks] at hinflight
        refine Or.inl (hinflight.trans ?_)
        rw [inflight, List.append_assoc, List.append_assoc]
        exact .append_left _ List.perm_append_comm
      · rw [hnone, List.append_nil] at hinflight
        exact Or.inr ⟨hnot, hinflight⟩
    | answer q hlast hquestions htaken hheld hinbox hsent =>
      refine .answer q (by rw [hself, hlast]) (by rw [hself, hquestions]) rfl htaken ?_
      rw [hsent, List.filterMap_nil, List.append_nil] at hinflight
      rw [inflight, hinbox]
      exact List.perm_middle.trans (hsent ▸ hinflight.symm.cons q)
    | serve hlast hquestions htaken hheld hpassable hinbox hasks =>
      rw [hasks, List.append_nil, hinbox] at hinflight
      exact .serve (by rw [hself, hlast]) (by rw [hself, hquestions]) (fun _ ↦ htaken)
        hinflight.subperm fun _ ↦ hinflight
  · have hother := s.update_other actor e sent
    have hinflight : (inflight (s.update actor e sent) actor.other).Perm
        (e.held ++ sent.filterMap Message.answer? ++ (s actor.other).answers) := by
      rw [inflight, actor.other_other, s.update_self, answers_update_other, List.append_assoc]
      exact .append_left _ List.perm_append_comm
    have hbefore : inflight s actor.other = (s actor).held ++ (s actor.other).answers := by
      rw [inflight, actor.other_other]
    have hlast' : (s.update actor e sent actor.other).lastQuestionID =
        (s actor.other).lastQuestionID := by rw [hother]
    have hquestions' : (s.update actor e sent actor.other).questions =
        (s actor.other).questions := by rw [hother]
    have hside : actor = actor.other → (s actor.other).taken action = [] := fun heq ↦
      absurd heq.symm actor.other_ne
    cases effect_act hcompletes hact with
    | ask hlast hquestions htaken hheld hinbox hasks hanswers =>
      rw [hanswers, List.append_nil, hheld, ← hbefore] at hinflight
      exact .serve hlast' hquestions' hside hinflight.subperm fun _ ↦ hinflight
    | answer q hlast hquestions htaken hheld hinbox hsent =>
      rw [hsent, List.filterMap_nil, List.append_nil, hheld, ← hbefore] at hinflight
      exact .serve hlast' hquestions' hside (hsent ▸ hinflight.subperm) fun _ ↦ hsent ▸ hinflight
    | serve hlast hquestions htaken hheld hpassable hinbox hasks =>
      refine .serve hlast' hquestions' hside ?_ fun hpass ↦ ?_
      · rw [hbefore]
        exact hinflight.subperm.trans ((List.subperm_append_right _).mpr hheld)
      · rw [hbefore]
        exact hinflight.trans ((hpassable hpass).append_right _)

/-- The messages that the side dispatches in the run, in order. -/
def dispatched (side : Side) : Connection → List (Side × Action) → List Message
  | _, [] => []
  | s, event :: events =>
    (if event.1 = side then (s side).dispatched event.2 else []) ++
      match Connection.step s event with
      | none => []
      | some s' => dispatched side s' events

theorem dispatched_cons {side : Side} {s s' : Connection} {event : Side × Action}
    (hstep : Connection.step s event = some s') (events : List (Side × Action)) :
    dispatched side s (event :: events) =
      (if event.1 = side then (s side).dispatched event.2 else []) ++
        dispatched side s' events := by
  rw [dispatched, hstep]

/-- The questions of the side whose answers are taken in the run, in order. -/
def answered (side : Side) (s : Connection) (events : List (Side × Action)) : List ℕ :=
  (dispatched side s events).filterMap Message.answer?

/-- Every question has been answered or is open, and those in flight are open. -/
structure Asked (side : Side) (log : List ℕ) (s : Connection) : Prop where
  all : (log ++ (s side).questions).Perm (List.range' 1 (s side).lastQuestionID)
  awaited : (inflight s side).Subperm (s side).questions

theorem Asked.init (side : Side) : Asked side [] .init where
  all := .refl _
  awaited := .refl _

theorem Asked.turn {side : Side} {log : List ℕ} {s s' : Connection} {event : Side × Action}
    (hs : Asked side log s) (hturn : Turn s event s' side) :
    Asked side (log ++ if event.1 = side then (s side).taken event.2 else []) s' := by
  cases hturn with
  | ask hlast hquestions hside htaken hinflight =>
    rw [if_pos hside, htaken, List.append_nil]
    constructor
    · rw [hquestions, hlast, ← List.append_assoc, List.range'_1_concat, Nat.add_comm 1]
      exact hs.all.append_right _
    · rw [hquestions]
      rcases hinflight with hinflight | ⟨-, hinflight⟩
      · exact hinflight.subperm.trans ((List.subperm_append_right _).mpr hs.awaited)
      · exact hinflight.subperm.trans
          (hs.awaited.trans (List.sublist_append_left _ _).subperm)
  | answer q hlast hquestions hside htaken hinflight =>
    have hsub : (q :: inflight s' side).Subperm (s side).questions :=
      hinflight.symm.subperm.trans hs.awaited
    have hmem : q ∈ (s side).questions := hsub.subset (List.mem_cons_self ..)
    rw [if_pos hside, htaken]
    constructor
    · rw [hquestions, hlast, List.append_assoc]
      exact ((List.perm_cons_erase hmem).symm.append_left log).trans hs.all
    · rw [hquestions]
      have := hsub.erase q
      rwa [List.erase_cons_head] at this
  | serve hlast hquestions hside hinflight hpassable =>
    have htaken : (if event.1 = side then (s side).taken event.2 else []) = [] := by
      split_ifs with heq
      · exact hside heq
      · rfl
    rw [htaken, List.append_nil]
    exact ⟨by rw [hquestions, hlast]; exact hs.all,
      by rw [hquestions]; exact hinflight.trans hs.awaited⟩

theorem Asked.run {side : Side} {events : List (Side × Action)} :
    ∀ {log : List ℕ} {s s' : Connection}, Asked side log s →
      (∀ event ∈ events, event.2.Completes) → run Connection.step s events = some s' →
      Asked side (log ++ answered side s events) s' := by
  induction events with
  | nil =>
    intro log s s' hs _ h
    cases h
    rwa [answered, dispatched, List.filterMap_nil, List.append_nil]
  | cons event events ih =>
    intro log s s' hs hcompletes h
    obtain ⟨hfirst, hothers⟩ := List.forall_mem_cons.mp hcompletes
    obtain ⟨s₁, hstep, hrest⟩ := run_cons_eq_some.mp h
    have htaken : answered side s (event :: events) =
        (if event.1 = side then (s side).taken event.2 else []) ++ answered side s₁ events := by
      rw [answered, dispatched_cons hstep, List.filterMap_append, answered]
      split_ifs <;> rfl
    rw [htaken, ← List.append_assoc]
    exact ih (hs.turn (turn_step hfirst hstep side)) hothers hrest

/-- **Where all values can be read, the questions are numbered from 1, and each has been answered
once or is still open: no answer that arrives is one that is not waited for.** -/
theorem asked_of_run {events : List (Side × Action)} {s : Connection}
    (h : run Connection.step .init events = some s)
    (hcompletes : ∀ event ∈ events, event.2.Completes) (side : Side) :
    (answered side .init events ++ (s side).questions).Perm
        (List.range' 1 (s side).lastQuestionID) ∧
      (answered side .init events ++ (s side).questions).Nodup ∧
      ∀ q ∈ (s side).answers, q ∈ (s side).questions := by
  obtain ⟨hall, hinflight⟩ := (Asked.init side).run hcompletes h
  rw [List.nil_append] at hall
  refine ⟨hall, hall.nodup_iff.mpr (List.nodup_range' ..), fun q hq ↦ ?_⟩
  exact hinflight.subset (List.mem_append_right _ hq)

theorem asked_greeting : ∃ s, run Connection.step .init greeting = some s ∧
    (answered .here .init greeting ++ (s .here).questions).Perm
        (List.range' 1 (s .here).lastQuestionID) ∧
      (answered .here .init greeting ++ (s .here).questions).Nodup ∧
      ∀ q ∈ (s .here).answers, q ∈ (s .here).questions :=
  ⟨_, rfl, asked_of_run rfl (by simp [greeting, Endpoint.Action.Completes]) .here⟩

/-- An answer that cannot be read has been dispatched, and its question is still open. -/
example : (run Connection.step .init (greeting.take 2 ++ [(.here, .throws 0)])).map
    (fun s ↦ ((s .here).questions, (s .here).answers)) = some ([1], []) := rfl

/-! ### Where all values can be serialized and read -/

theorem inflight_perm_turn {side : Side} {s s' : Connection} {event : Side × Action}
    (hopen : (inflight s side).Perm (s side).questions) (hpassable : event.2.Passable)
    (hturn : Turn s event s' side) : (inflight s' side).Perm (s' side).questions := by
  cases hturn with
  | ask hlast hquestions hside htaken hinflight =>
    rw [hquestions]
    rcases hinflight with hinflight | ⟨hnot, -⟩
    · exact hinflight.trans (hopen.append_right _)
    · exact absurd hpassable hnot
  | answer q hlast hquestions hside htaken hinflight =>
    rw [hquestions]
    have := (hinflight.symm.trans hopen).erase q
    rwa [List.erase_cons_head] at this
  | serve hlast hquestions hside hinflight hpass =>
    rw [hquestions]
    exact (hpass hpassable).trans hopen

/-- **Where all values can be serialized and read, no question is lost: the open ones are in flight,
and when nothing is, all have been answered.** -/
theorem inflight_perm_of_run {events : List (Side × Action)} {s : Connection}
    (h : run Connection.step .init events = some s)
    (hpassable : ∀ event ∈ events, event.2.Passable) (side : Side) :
    (inflight s side).Perm (s side).questions ∧
      (inflight s side = [] →
        (answered side .init events).Perm (List.range' 1 (s side).lastQuestionID)) := by
  have hkeep : ∀ s (event : Side × Action) s', (inflight s side).Perm (s side).questions →
      event.2.Passable → Connection.step s event = some s' →
      (inflight s' side).Perm (s' side).questions := fun _ _ _ hopen hpass hstep ↦
    inflight_perm_turn hopen hpass (turn_step hpass.completes hstep side)
  have hopen := run_invariant (G := fun _ event _ ↦ event.2.Passable) hkeep (.refl _)
    (allSteps_of_forall_mem fun event hmem _ _ ↦ hpassable event hmem) h
  refine ⟨hopen, fun hquiet ↦ ?_⟩
  rw [hquiet] at hopen
  have hcompletes : ∀ event ∈ events, event.2.Completes := fun event hmem ↦
    (hpassable event hmem).completes
  have hall := ((Asked.init side).run hcompletes h).all
  rwa [List.nil_append, ← hopen.nil_eq, List.append_nil] at hall

theorem inflight_greeting : ∃ s, run Connection.step .init greeting = some s ∧
    (inflight s .here).Perm (s .here).questions ∧
      (inflight s .here = [] →
        (answered .here .init greeting).Perm (List.range' 1 (s .here).lastQuestionID)) :=
  ⟨_, rfl, inflight_perm_of_run rfl (by simp [greeting, Endpoint.Action.Passable]) .here⟩

end CosmicSwingset.Captp
