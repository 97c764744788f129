import CosmicSwingset.Foundation.Coercion
import CosmicSwingset.Vats.Repl

/-!
# The number of a command

The number of a `doEval` comes from the body of an HTTP request, and is any value or missing.
`doEval` compares it with that of the command which was accepted last by `<=`, keeps it as it is,
and assigns the slot that it names. What is no number is never `<=`, so that commands without a
number are all accepted, for one slot, and so is every number after them.

The history is append-only as long as every command that is accepted has the number of a slot, be it
as a text, and is not a text that only sorts after the last one, as `"9"` does after `"10"`
(`doEval_appendOnly_iff`). On integers this is the handler in `Repl`
(`Repl.highestHistory_of_run`).
-/

set_option autoImplicit false
set_option relaxedAutoImplicit false

namespace CosmicSwingset.Vats

open Foundation Json JsNumbers

universe u v w

/-- What `doEval` keeps of the numbers, and the slots of `commands` that it has assigned, the newest
first. -/
structure History (ν : Type u) where
  highestHistory : Option (Json ν)
  slots : List String

namespace History

variable {ν : Type u} [LinearOrder ν] (js : JsNumbers ν)

/-- Of `initial` only the order matters; it is -1. -/
def fresh (initial : ν) : History ν := ⟨some (.num initial), []⟩

/-- `doEval`, up to where the command is kept. Making a number primitive may throw, as the
comparison with the last one may. -/
def doEval (s : History ν) (number : Option (Json ν)) : History ν :=
  match js.toPrimitive number, js.toPrimitive s.highestHistory with
  | some histnum, some highestHistory =>
    -- an error is thrown: "histnum is not larger than highestHistory"
    if js.lessEqual histnum highestHistory then s
    else ⟨number, js.propertyKey histnum :: s.slots⟩
  | _, _ => s

def step (s : History ν) (number : Option (Json ν)) : Option (History ν) :=
  some (s.doEval js number)

/-- No slot is assigned twice, and the slots are those of integers that increase. -/
def AppendOnly (s : History ν) : Prop :=
  s.slots.Nodup ∧
    ∃ ns : List ν, ns.Pairwise (· > ·) ∧ (∀ n ∈ ns, js.isInteger n = true) ∧
      s.slots = ns.map js.text

/-- The command is refused, or it has the number of a slot; and where its number and the last one
are both texts, which are compared as such, it is the greater one as a number, too. -/
def Numbered (s : History ν) (number : Option (Json ν)) : Prop :=
  ∀ histnum ∈ js.toPrimitive number, ∀ highestHistory ∈ js.toPrimitive s.highestHistory,
    js.lessEqual histnum highestHistory = false →
      ∃ n ∈ js.slotNumber histnum, histnum.isText = true → highestHistory.isText = true →
        ∀ m ∈ js.slotNumber highestHistory, m < n

/-- What the code relies on: the last slot is that of the number it has kept. -/
structure Linked (s : History ν) (ns : List ν) (highestHistory : Primitive ν) : Prop where
  decreasing : ns.Pairwise (· > ·)
  integers : ∀ n ∈ ns, js.isInteger n = true
  slots : s.slots = ns.map js.text
  highest : js.toPrimitive s.highestHistory = some highestHistory
  last : ∀ n ∈ ns.head?, js.slotNumber highestHistory = some n
  first : ns = [] → highestHistory.isText = false

variable {js} {s s' : History ν} {ns : List ν} {p q : Primitive ν} {number : Option (Json ν)}

theorem Linked.appendOnly (h : Linked js s ns q) : s.AppendOnly js := by
  refine ⟨?_, ns, h.decreasing, h.integers, h.slots⟩
  rw [h.slots, List.nodup_map_iff js.text_injective]
  exact h.decreasing.imp fun hlt ↦ hlt.ne'

/-- Every step refuses the number, or takes it. -/
theorem doEval_cases (h : Linked js s ns q) (number : Option (Json ν)) :
    (s.doEval js number = s ∧ s.Numbered js number) ∨
      ∃ p, js.toPrimitive number = some p ∧ js.lessEqual p q = false ∧
        s.doEval js number = ⟨number, js.propertyKey p :: s.slots⟩ := by
  cases hp : js.toPrimitive number with
  | none => exact Or.inl ⟨by simp only [doEval, hp], by simp [Numbered, hp]⟩
  | some p =>
    cases hle : js.lessEqual p q with
    | true =>
      refine Or.inl ⟨?_, ?_⟩
      · simp only [doEval, hp, h.highest, hle, if_true]
      · simp [Numbered, hp, h.highest, hle]
    | false =>
      refine Or.inr ⟨p, rfl, hle, ?_⟩
      simp only [doEval, hp, h.highest, hle, Bool.false_eq_true, if_false]

/-- A number that is taken, and is that of a slot, is greater than the last one. -/
theorem Linked.take (h : Linked js s ns q) (hp : js.toPrimitive number = some p)
    (hle : js.lessEqual p q = false) {n : ν} (hn : js.slotNumber p = some n)
    (htexts : p.isText = true → q.isText = true → ∀ m ∈ js.slotNumber q, m < n) :
    Linked js ⟨number, js.propertyKey p :: s.slots⟩ (n :: ns) p := by
  obtain ⟨hinteger, hkey⟩ := slotNumber_eq_some.mp hn
  have hhead : ∀ m ∈ ns.head?, m < n := by
    intro m hm
    have hlast := h.last m hm
    by_cases hboth : (p.isText && q.isText) = true
    · rw [Bool.and_eq_true] at hboth
      exact htexts hboth.1 hboth.2 m hlast
    · rw [Bool.not_eq_true] at hboth
      rw [lessEqual_of_slotNumber hn (toNumber_of_slotNumber hlast) hboth] at hle
      exact not_le.mp (of_decide_eq_false hle)
  refine ⟨?_, List.forall_mem_cons.mpr ⟨hinteger, h.integers⟩, ?_, hp, ?_, ?_⟩
  · refine List.pairwise_cons.mpr ⟨fun m hm ↦ ?_, h.decreasing⟩
    cases ns with
    | nil => exact absurd hm (by simp)
    | cons last rest =>
      have hlast : last < n := hhead last rfl
      rcases List.mem_cons.mp hm with rfl | hrest
      · exact hlast
      · exact (List.rel_of_pairwise_cons h.decreasing hrest).trans hlast
  · rw [hkey, h.slots, List.map_cons]
  · intro m hm
    rw [List.head?_cons, Option.mem_some_iff] at hm
    rw [← hm, hn]
  · exact fun hnil ↦ absurd hnil (List.cons_ne_nil n ns)

/-- One that is taken for the next slot is numbered. -/
theorem Linked.numbered (h : Linked js s ns q) (hp : js.toPrimitive number = some p)
    (happend : AppendOnly js ⟨number, js.propertyKey p :: s.slots⟩) : s.Numbered js number := by
  obtain ⟨-, ns', hdecreasing, hintegers, hslots⟩ := happend
  cases ns' with
  | nil => exact absurd hslots (by simp)
  | cons n rest =>
    rw [List.map_cons, List.cons.injEq, h.slots] at hslots
    obtain ⟨hkey, hrest⟩ := hslots
    obtain rfl := List.map_injective_iff.mpr js.text_injective hrest
    have hn : js.slotNumber p = some n :=
      slotNumber_eq_some.mpr ⟨hintegers n List.mem_cons_self, hkey⟩
    intro p' hp' q' hq' _
    rw [hp, Option.mem_some_iff] at hp'
    rw [h.highest, Option.mem_some_iff] at hq'
    subst hp' hq'
    refine ⟨n, hn, fun _ hq m hm ↦ ?_⟩
    cases ns with
    | nil => exact absurd (h.first rfl) (by simp [hq])
    | cons last rest =>
      have hlast := h.last last rfl
      rw [Option.mem_def, hlast, Option.some.injEq] at hm
      exact hm ▸ List.rel_of_pairwise_cons hdecreasing List.mem_cons_self

/-- Every run, of any numbers, keeps the history append-only in every state if and only if every
command in it is refused or numbered. -/
theorem doEval_appendOnly_iff (js : JsNumbers ν) (initial : ν) (numbers : List (Option (Json ν))) :
    AllSteps (step js) (fun _ _ s' ↦ s'.AppendOnly js) (fresh initial) numbers ↔
      AllSteps (step js) (fun s number _ ↦ s.Numbered js number) (fresh initial) numbers := by
  refine allSteps_congr_of_invariant (I := fun s ↦ ∃ ns q, Linked js s ns q) ?_ ?_ ?_
  · rintro s number s' ⟨ns, q, h⟩ hnumbered hstep
    obtain rfl := Option.some.inj hstep
    rcases doEval_cases h number with ⟨heq, -⟩ | ⟨p, hp, hle, heq⟩
    · exact ⟨ns, q, heq.symm ▸ h⟩
    · obtain ⟨n, hn, htexts⟩ := hnumbered p hp q h.highest hle
      exact ⟨n :: ns, p, heq.symm ▸ h.take hp hle hn htexts⟩
  · rintro s number s' ⟨ns, q, h⟩ hstep
    obtain rfl := Option.some.inj hstep
    rcases doEval_cases h number with ⟨heq, hnumbered⟩ | ⟨p, hp, hle, heq⟩
    · exact iff_of_true (heq.symm ▸ h.appendOnly) hnumbered
    · rw [heq]
      refine ⟨h.numbered hp, fun hnumbered ↦ ?_⟩
      obtain ⟨n, hn, htexts⟩ := hnumbered p hp q h.highest hle
      exact (h.take hp hle hn htexts).appendOnly
  · exact ⟨[], .num initial, .nil, by simp, rfl, rfl, by simp, fun _ ↦ rfl⟩

/-- Two commands without a number are both for the slot `undefined`. -/
theorem not_doEval_appendOnly :
    ¬ AllSteps (step JsNumbers.integers) (fun _ _ s' ↦ s'.AppendOnly JsNumbers.integers)
      (fresh (-1)) [none, none] := by
  rw [allSteps_cons]
  intro h
  obtain ⟨-, h⟩ := h _ rfl
  rw [allSteps_cons] at h
  obtain ⟨⟨hnodup, -⟩, -⟩ := h _ rfl
  exact absurd hnodup (by decide)

/-- And `"9"` comes after `"10"`, where both come as texts. -/
example : (run (step JsNumbers.integers) (fresh (-1)) [some (.str "10"), some (.str "9")]).map
    History.slots = some ["9", "10"] := by decide

end History

/-! ### The handler on integers -/

namespace Repl

variable {ν : Type u} {ω : Type v} {values : CommandValues ω} {numerals : Numerals ν}
  {s s' : Repl ν ω}

/-- The number of a command. -/
def Event.number : Event ν ω → Option ℤ
  | .doEval number _ _ _ => some number
  | _ => none

theorem highestHistory_rebroadcastSlots (histnums : List ℤ) :
    (s.rebroadcastSlots values histnums).1.highestHistory = s.highestHistory := by
  induction histnums generalizing s with
  | nil => rfl
  | cons histnum histnums ih =>
    have hupdate : (s.updateHistorySlot values histnum).1.highestHistory = s.highestHistory :=
      highestHistory_update
    rw [rebroadcastSlots]
    split
    · rename_i t heq
      rw [ih, ← hupdate, heq]
    · rename_i t heq
      rw [← hupdate, heq]

theorem highestHistory_rebroadcastHistory :
    (s.rebroadcastHistory values).highestHistory = s.highestHistory := by
  have hloop : (s.rebroadcastSlots values
      ((List.range (s.highestHistory + 1).toNat).map Int.ofNat)).1.highestHistory =
        s.highestHistory := highestHistory_rebroadcastSlots _
  rw [rebroadcastHistory]
  split
  · rename_i t heq
    rw [← hloop, heq]
  · rename_i t heq
    rw [← hloop, heq]

theorem highestHistory_evaluate (n : ℤ) (es : List (Edit ω)) (result : Result ν) :
    (s.evaluate values numerals n es result).highestHistory = s.highestHistory := by
  rw [evaluate]
  split
  · rw [highestHistory_edits]
  · rw [highestHistory_update]
    split <;> exact highestHistory_edits es

theorem highestHistory_react (n : ℤ) (es : List (Edit ω)) (settlement : Settlement ν) :
    (s.react numerals n es settlement).highestHistory = s.highestHistory := by
  rw [react]
  split <;> exact highestHistory_edits es

theorem highestHistory_doEval (n : ℤ) (body : ω) (es : List (Edit ω)) (result : Result ν) :
    (s.doEval values numerals n body es result).highestHistory =
      if n ≤ s.highestHistory then s.highestHistory else n := by
  by_cases hle : n ≤ s.highestHistory
  · rw [doEval, if_pos hle, if_pos hle]
  · simp only [doEval, if_neg hle]
    split
    · rfl
    · split
      · rfl
      · rename_i text htext
        have hupdate : (updateHistorySlot values (setDisplay
            { s with highestHistory := n, commands := s.commands.set n body } n
            (some ("working on eval(" ++ text ++ ")"))) n).1.highestHistory = n :=
          highestHistory_update
        split
        · rename_i t heq
          rw [heq] at hupdate
          exact hupdate
        · rename_i t heq
          rw [heq] at hupdate
          rw [highestHistory_evaluate, hupdate]

/-- Only a command that is accepted changes `highestHistory`. -/
theorem highestHistory_step {e : Event ν ω} (hstep : step values numerals s e = some s') :
    s'.highestHistory = match e.number with
      | some n => if n ≤ s.highestHistory then s.highestHistory else n
      | none => s.highestHistory := by
  cases e with
  | doEval n body es result =>
    obtain rfl := Option.some.inj hstep
    exact highestHistory_doEval n body es result
  | settle n settlement =>
    obtain ⟨-, rfl⟩ := step_settle hstep
    rfl
  | react n es =>
    obtain ⟨settlement, -, rfl⟩ := step_react hstep
    exact highestHistory_react n es settlement
  | update n =>
    obtain ⟨-, rfl⟩ := step_update hstep
    exact highestHistory_update
  | program es =>
    obtain rfl := Option.some.inj hstep
    exact highestHistory_edits es
  | rebroadcastHistory =>
    obtain rfl := Option.some.inj hstep
    exact highestHistory_rebroadcastHistory
  | clear | setNextHistNum =>
    obtain rfl := Option.some.inj hstep
    rfl

theorem doEval_integers {h : History ℤ} {m : ℤ} (hm : h.highestHistory = some (.num m)) (n : ℤ) :
    (h.doEval JsNumbers.integers (some (.num n))).highestHistory =
      some (.num (if n ≤ m then m else n)) := by
  by_cases hle : n ≤ m
  · simp [History.doEval, hm, toPrimitive, lessEqual, toNumber, hle]
  · simp [History.doEval, hm, toPrimitive, lessEqual, toNumber, hle]

/-- A run of the handler takes and refuses the numbers of its commands as `History` does. -/
theorem highestHistory_of_run {h : History ℤ} (hh : h.highestHistory = some (.num s.highestHistory))
    {es : List (Event ν ω)} (hrun : Foundation.run (step values numerals) s es = some s') :
    ∃ h', Foundation.run (History.step JsNumbers.integers) h
        (es.filterMap fun e ↦ e.number.map fun n ↦ some (.num n)) = some h' ∧
      h'.highestHistory = some (.num s'.highestHistory) := by
  induction es generalizing s h with
  | nil =>
    obtain rfl := Option.some.inj hrun
    exact ⟨h, rfl, hh⟩
  | cons e es ih =>
    obtain ⟨t, hstep, hrest⟩ := run_cons_eq_some.mp hrun
    have ht := highestHistory_step hstep
    cases hnumber : e.number with
    | none =>
      rw [hnumber] at ht
      rw [List.filterMap_cons_none (by rw [hnumber, Option.map_none])]
      exact ih (hh.trans (by rw [ht])) hrest
    | some n =>
      rw [hnumber] at ht
      obtain ⟨h', hrun', hh'⟩ := ih ((doEval_integers hh n).trans (by rw [ht])) hrest
      rw [List.filterMap_cons_some (by rw [hnumber, Option.map_some])]
      exact ⟨h', run_cons_eq_some.mpr ⟨_, rfl, hrun'⟩, hh'⟩

end Repl

end CosmicSwingset.Vats
