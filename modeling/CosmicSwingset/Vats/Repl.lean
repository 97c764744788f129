import CosmicSwingset.Foundation.OrderedMap
import CosmicSwingset.Foundation.SortedJson
import CosmicSwingset.Foundation.Transition

/-!
# The slots of the REPL

`getReplHandler` keeps the command and the display of every slot, and `updateHistorySlot` broadcasts
both to the pages. A slot is displayed first as being worked on, then with its value or exception,
or as an unresolved promise, and, in a reaction of its own, with what the promise has settled to.
Each of these is followed by a broadcast: at once, or in the next reaction.

The object `commands` is an endowment of the programs that are evaluated, and they can write it. So
the last broadcast of a slot has the command of the slot if no program has written it since, and its
display whatever programs do, unless the command device has refused to send what a program has put
into `commands` (`broadcasts_current`). A page that was cleared before a `rebroadcastHistory` which
has returned shows of every slot what was broadcast last.

What programs do is data of the events: what they write, and what comes of them. The object
`history` is left out, which only they read.
-/

set_option autoImplicit false
set_option relaxedAutoImplicit false

namespace CosmicSwingset.Vats

open Foundation Json

universe u v

variable {ν : Type u} {ω : Type v}

/-! ### `stringify` -/

/-- What is thrown, as the text that a template makes of it; there may be none. -/
abbrev Thrown := Option String

/-- A text, or `undefined`. -/
abbrev Shown := Option String

def Shown.text (shown : Shown) : String := shown.getD "undefined"

/-- The values that `stringify` tells apart. Of a function, there is also what it returns when it is
called as a method. -/
inductive Value (ν : Type u)
  | undefined
  | null
  | bool (b : Bool)
  | num (n : ν)
  | str (s : String)
  | function (name : String) (returns : Except Thrown String)
  | promise
  | array (elements : List (Value ν))
  | object (properties : List (String × Value ν))

/-- `JSON.stringify` of a string. -/
def quote (s : String) : String := String.ofList ('"' :: literalTail s)

section Stringify

variable (numerals : Numerals ν)

mutual

def stringify : Value ν → Except Thrown Shown
  | .undefined => .ok none
  | .null => .ok (some "null")
  | .bool b => .ok (some (if b then "true" else "false"))
  | .num n => .ok (some (String.ofList (numerals.write n)))
  | .str s => .ok (some (quote s))
  | .function name _ => .ok (some ("[Function " ++ (if name = "" then "<anon>" else name) ++ "]"))
  | .promise => .ok (some "[Promise]")
  | .array elements => stringifyElements "[" "" elements
  | .object properties => stringifyProperties "\x7b" "" properties

def stringifyElements (ret sep : String) : List (Value ν) → Except Thrown Shown
  | [] => .ok (some (ret ++ "]"))
  | value :: elements =>
    (stringify value).bind fun shown ↦
      stringifyElements (ret ++ sep ++ shown.text) "," elements

/-- An object with a method `toString` is shown as it wants. -/
def stringifyProperties (ret sep : String) : List (String × Value ν) → Except Thrown Shown
  | [] => .ok (some (ret ++ "\x7d"))
  | (key, value) :: properties =>
    match key, value with
    | "toString", .function _ returns => returns.map some
    | key, value =>
      (stringify value).bind fun shown ↦
        stringifyProperties (ret ++ sep ++ quote key ++ ":" ++ shown.text) "," properties

end

end Stringify

/-! ### The page -/

/-- What there is to know of the values in `commands`: the text that a template makes of one, which
may throw, and whether the command device sends it. -/
structure CommandValues (ω : Type v) where
  template : Option ω → Option String
  sends : Option ω → Bool

/-- A broadcast `updateHistory`. -/
structure Broadcast (ω : Type v) where
  histnum : ℤ
  command : Option ω
  display : Shown

/-- The page of a client: the rows, by their numbers, with the texts of command and display. -/
structure Client where
  rows : OrderedMap ℤ (String × String)
  nextHistNum : ℤ
  historyNumber : ℤ

def Client.fresh : Client := ⟨.empty, 0, 0⟩

/-- A listener catches what is thrown when there is no text of the command; the row is as before. -/
def Client.updateHistory (values : CommandValues ω) (client : Client) (b : Broadcast ω) : Client :=
  { client with
    nextHistNum := if client.nextHistNum ≤ b.histnum then b.histnum + 1 else client.nextHistNum
    rows := match values.template b.command with
      | some text => client.rows.set b.histnum (text, b.display.text)
      | none => client.rows }

def Client.setNextHistNum (client : Client) (max : ℤ) : Client :=
  { client with
    nextHistNum := Max.max client.nextHistNum max
    historyNumber := Max.max client.nextHistNum max }

/-! ### The handler -/

/-- What the reactions to the promise of a slot have still to do. -/
inductive Settlement (ν : Type u)
  | resolved (res : Value ν)
  /-- With the text that a template makes of `rej`. -/
  | rejected (rej : Thrown)

inductive Reaction (ν : Type u)
  /-- The promise is unresolved. -/
  | unresolved
  /-- It has settled, and the display is to be set. -/
  | settled (settlement : Settlement ν)
  /-- The display has been set, and is to be broadcast. -/
  | updating

/-- What a program does to `commands`. -/
inductive Edit (ω : Type v)
  | set (histnum : ℤ) (value : ω)
  | delete (histnum : ℤ)
  | freeze

inductive Result (ν : Type u)
  | returns (r : Value ν)
  | throws (e : Thrown)

/-- The handler, its broadcasts with the newest first, and a page that has every broadcast. The
last four fields record what has happened: the slots for which a program was evaluated; the slots
that a program has written since they were broadcast, and those of which a broadcast was refused
since; and whether `rebroadcastHistory` has returned since the page was cleared. -/
structure Repl (ν : Type u) (ω : Type v) where
  commands : OrderedMap ℤ ω
  frozen : Bool
  display : OrderedMap ℤ Shown
  highestHistory : ℤ
  reactions : OrderedMap ℤ (Reaction ν)
  broadcasts : List (Broadcast ω)
  client : Client
  evaluated : List ℤ
  written : List ℤ
  refused : List ℤ
  rebroadcast : Bool

namespace Repl

def fresh : Repl ν ω := ⟨.empty, false, .empty, -1, .empty, [], .fresh, [], [], [], false⟩

/-- `display[histnum]`. -/
def shown (s : Repl ν ω) (histnum : ℤ) : Shown := (s.display.get histnum).getD none

def setDisplay (s : Repl ν ω) (histnum : ℤ) (shown : Shown) : Repl ν ω :=
  { s with display := s.display.set histnum shown }

def edit (s : Repl ν ω) (e : Edit ω) : Repl ν ω :=
  if s.frozen then s
  else
    match e with
    | .set histnum value =>
      { s with commands := s.commands.set histnum value, written := histnum :: s.written }
    | .delete histnum =>
      { s with commands := s.commands.delete histnum, written := histnum :: s.written }
    | .freeze => { s with frozen := true }

/-- What a program does, from some point to where it ends or waits. -/
def edits (s : Repl ν ω) (es : List (Edit ω)) : Repl ν ω := es.foldl edit s

section Handler

variable (values : CommandValues ω) (numerals : Numerals ν)

/-- The broadcast that is due of a slot. -/
def due (s : Repl ν ω) (histnum : ℤ) : Broadcast ω :=
  ⟨histnum, s.commands.get histnum, s.shown histnum⟩

def send (s : Repl ν ω) (histnum : ℤ) : Repl ν ω :=
  { s with
    broadcasts := s.due histnum :: s.broadcasts
    client := s.client.updateHistory values (s.due histnum)
    written := s.written.filter (· ≠ histnum)
    refused := s.refused.filter (· ≠ histnum) }

/-- `updateHistorySlot`, and whether it returns; `sendBroadcast` may throw. -/
def updateHistorySlot (s : Repl ν ω) (histnum : ℤ) : Repl ν ω × Bool :=
  if values.sends (s.commands.get histnum) then (s.send values histnum, true)
  else ({ s with refused := histnum :: s.refused }, false)

/-- The loop of `rebroadcastHistory`, and whether it comes to its end. -/
def rebroadcastSlots (s : Repl ν ω) : List ℤ → Repl ν ω × Bool
  | [] => (s, true)
  | histnum :: histnums =>
    match s.updateHistorySlot values histnum with
    | (s, true) => rebroadcastSlots s histnums
    | (s, false) => (s, false)

def rebroadcastHistory (s : Repl ν ω) : Repl ν ω :=
  let histnums := (List.range (s.highestHistory + 1).toNat).map Int.ofNat
  match s.rebroadcastSlots values histnums with
  | (s, true) => { s with rebroadcast := true }
  | (s, false) => s

def getHighestHistory (s : Repl ν ω) : ℤ := s.highestHistory

/-- What is displayed of an exception, unless there is no text of it. -/
def exceptionShown (e : Thrown) : Option Shown := e.map fun text ↦ some ("exception: " ++ text)

/-- What is displayed of a result, unless an exception leaves `doEval`. -/
def resultShown : Result ν → Option Shown
  | .throws e => exceptionShown e
  | .returns .promise => some (some "unresolved Promise")
  | .returns r =>
    match stringify numerals r with
    | .ok shown => some shown
    | .error e => exceptionShown e

def Result.isPromise : Result ν → Bool
  | .returns .promise => true
  | _ => false

/-- `doEval` from the evaluation on, with what the program does in it. -/
def evaluate (s : Repl ν ω) (histnum : ℤ) (es : List (Edit ω)) (result : Result ν) : Repl ν ω :=
  let s := edits { s with evaluated := histnum :: s.evaluated } es
  match resultShown numerals result with
  | none => s
  | some shown =>
    let s := s.setDisplay histnum shown
    let s := if Result.isPromise result then
        { s with reactions := s.reactions.set histnum .unresolved }
      else s
    (s.updateHistorySlot values histnum).1

def doEval (s : Repl ν ω) (histnum : ℤ) (body : ω) (es : List (Edit ω)) (result : Result ν) :
    Repl ν ω :=
  -- an error is thrown
  if histnum ≤ s.highestHistory then s
  else
    let s := { s with highestHistory := histnum }
    -- a frozen object is not written, which throws
    if s.frozen then s
    else
      let s := { s with commands := s.commands.set histnum body }
      match values.template (some body) with
      | none => s
      | some text =>
        let s := s.setDisplay histnum (some ("working on eval(" ++ text ++ ")"))
        match s.updateHistorySlot values histnum with
        | (s, false) => s
        | (s, true) => s.evaluate values numerals histnum es result

/-- What the first reaction displays, unless it throws. -/
def settlementShown : Settlement ν → Option Shown
  | .resolved res => (stringify numerals res).toOption
  | .rejected rej => rej.map fun text ↦ some ("Promise.reject(" ++ quote text ++ ")")

/-- The first reaction to the promise of a slot, with what a program does in it. When it throws, the
second one is not run. -/
def react (s : Repl ν ω) (histnum : ℤ) (es : List (Edit ω)) (settlement : Settlement ν) :
    Repl ν ω :=
  let s := s.edits es
  match settlementShown numerals settlement with
  | some shown =>
    { s.setDisplay histnum shown with reactions := s.reactions.set histnum .updating }
  | none => { s with reactions := s.reactions.delete histnum }

end Handler

inductive Event (ν : Type u) (ω : Type v)
  | doEval (number : ℤ) (body : ω) (edits : List (Edit ω)) (result : Result ν)
  /-- The promise of a slot settles. -/
  | settle (histnum : ℤ) (settlement : Settlement ν)
  /-- The first reaction to it. -/
  | react (histnum : ℤ) (edits : List (Edit ω))
  /-- The second reaction. -/
  | update (histnum : ℤ)
  /-- A program goes on. -/
  | program (edits : List (Edit ω))
  | rebroadcastHistory
  /-- The page is cleared when its socket opens. -/
  | clear
  /-- The page has the answer to `getHighestHistory`. -/
  | setNextHistNum

def step (values : CommandValues ω) (numerals : Numerals ν) (s : Repl ν ω) :
    Event ν ω → Option (Repl ν ω)
  | .doEval number body edits result => some (s.doEval values numerals number body edits result)
  | .settle histnum settlement =>
    match s.reactions.get histnum with
    | some .unresolved =>
      some { s with reactions := s.reactions.set histnum (.settled settlement) }
    | _ => none
  | .react histnum edits =>
    match s.reactions.get histnum with
    | some (.settled settlement) => some (s.react numerals histnum edits settlement)
    | _ => none
  | .update histnum =>
    match s.reactions.get histnum with
    | some .updating =>
      let s := { s with reactions := s.reactions.delete histnum }
      some (s.updateHistorySlot values histnum).1
    | _ => none
  | .program edits => some (s.edits edits)
  | .rebroadcastHistory => some (s.rebroadcastHistory values)
  | .clear => some { s with client := .fresh, rebroadcast := false }
  | .setNextHistNum =>
    some { s with client := s.client.setNextHistNum (s.getHighestHistory + 1) }

/-! ### What should hold of a run -/

/-- The last broadcast of a slot. -/
def last (s : Repl ν ω) (histnum : ℤ) : Option (Broadcast ω) :=
  s.broadcasts.find? fun b ↦ b.histnum = histnum

/-- No reaction to the promise of the slot is due. -/
def Idle (s : Repl ν ω) (histnum : ℤ) : Prop :=
  s.reactions.get histnum = none ∨ s.reactions.get histnum = some .unresolved

/-- The last broadcast of every slot is current, but for what programs have written since. -/
def Current (s : Repl ν ω) : Prop :=
  ∀ n ∈ s.evaluated, (n ∈ s.refused → n ∈ s.written) ∧
    ∃ b, s.last n = some b ∧ (n ∉ s.written → b.command = s.commands.get n) ∧
      (s.Idle n → n ∉ s.refused → b.display = s.shown n)

/-- The page shows of every slot what was broadcast last. -/
def Shows (values : CommandValues ω) (s : Repl ν ω) : Prop :=
  s.rebroadcast = true → ∀ n ∈ s.evaluated, ∀ b, s.last n = some b →
    ∀ text, values.template b.command = some text →
      s.client.rows.get n = some (text, b.display.text)

/-- The slot of a promise that settles, or to which there is a reaction. -/
def Event.settles : Event ν ω → Option ℤ
  | .settle histnum _ | .react histnum _ | .update histnum => some histnum
  | _ => none

def Event.edits : Event ν ω → List (Edit ω)
  | .doEval _ _ edits _ | .react _ edits | .program edits => edits
  | _ => []

def Edit.histnum : Edit ω → Option ℤ
  | .set histnum _ | .delete histnum => some histnum
  | .freeze => none

/-- Nothing of the slot is changed, but for what a program does. -/
structure Untouched (es : List (Edit ω)) (s s' : Repl ν ω) (n : ℤ) : Prop where
  display : s'.shown n = s.shown n
  last : s'.last n = s.last n
  reaction : s'.reactions.get n = s.reactions.get n
  command : (∀ e ∈ es, Edit.histnum e ≠ some n) → s'.commands.get n = s.commands.get n

structure Sound (values : CommandValues ω) (s : Repl ν ω) (e : Event ν ω) (s' : Repl ν ω) :
    Prop where
  current : s'.Current
  shows : s'.Shows values
  rejected : ∀ number body es result, e = .doEval number body es result →
    number ≤ s.highestHistory → s' = s
  untouched : ∀ n, e.settles = some n → ∀ m, m ≠ n → Untouched e.edits s s' m

/-! ### One slot -/

section Slot

variable {values : CommandValues ω} {s : Repl ν ω} {m n : ℤ}

/-- The command that was broadcast last is that of the slot, unless a program has written it. -/
structure Sent (values : CommandValues ω) (s : Repl ν ω) (n : ℤ) : Prop where
  command : ∃ b, s.last n = some b ∧ values.sends b.command = true ∧
    (n ∉ s.written → b.command = s.commands.get n)
  refused : n ∈ s.refused → n ∈ s.written

/-- So is the display, unless it is to be broadcast. -/
def Displayed (s : Repl ν ω) (n : ℤ) : Prop :=
  ∀ b, s.last n = some b → s.reactions.get n ≠ some .updating → n ∉ s.refused →
    b.display = s.shown n

def Row (values : CommandValues ω) (s : Repl ν ω) (n : ℤ) : Prop :=
  ∀ b, s.last n = some b → ∀ text, values.template b.command = some text →
    s.client.rows.get n = some (text, b.display.text)

structure Slot (values : CommandValues ω) (s : Repl ν ω) (n : ℤ) : Prop where
  sent : s.Sent values n
  displayed : s.Displayed n
  row : s.rebroadcast = true → s.Row values n

@[simp] theorem last_send_self : (s.send values n).last n = some (s.due n) := by
  simp [last, send, due]

@[simp] theorem last_send_of_ne (hne : m ≠ n) : (s.send values n).last m = s.last m := by
  simp [last, send, due, Ne.symm hne]

theorem shown_setDisplay_of_ne (hne : m ≠ n) (shown : Shown) :
    (s.setDisplay n shown).shown m = s.shown m := by
  simp [Repl.shown, setDisplay, OrderedMap.get_set, hne]

theorem row_send_self : (s.send values n).Row values n := by
  intro b hb text htext
  obtain rfl : s.due n = b := by simpa using hb
  simp only [send, Client.updateHistory, htext]
  simp [due, OrderedMap.get_set]

theorem Row.send_of_ne (h : s.Row values m) (hne : m ≠ n) : (s.send values n).Row values m := by
  intro b hb text htext
  rw [last_send_of_ne hne] at hb
  have hrow := h b hb text htext
  cases htemplate : values.template (s.due n).command with
  | none => simpa [Repl.send, Client.updateHistory, htemplate] using hrow
  | some text' =>
    simp only [Repl.send, Client.updateHistory, htemplate, OrderedMap.get_set]
    rwa [if_neg (show m ≠ (s.due n).histnum from hne)]

/-- A broadcast makes its slot current. -/
theorem slot_send_self (hsends : values.sends (s.commands.get n) = true) :
    (s.send values n).Slot values n where
  sent :=
    { command := ⟨s.due n, last_send_self, hsends, fun _ ↦ rfl⟩
      refused := fun hmem ↦ by simp [send] at hmem }
  displayed := by
    intro b hb _ _
    obtain rfl : s.due n = b := by simpa using hb
    rfl
  row := fun _ ↦ row_send_self

theorem Slot.send_of_ne (h : s.Slot values m) (hne : m ≠ n) : (s.send values n).Slot values m where
  sent :=
    { command := by
        obtain ⟨b, hb, hsends, hcommand⟩ := h.sent.command
        refine ⟨b, by rwa [last_send_of_ne hne], hsends, fun hnot ↦ hcommand fun hmem ↦ hnot ?_⟩
        exact List.mem_filter.mpr ⟨hmem, by simpa using hne⟩
      refused := by
        intro hmem
        have hwritten : m ∈ s.written := h.sent.refused (List.mem_filter.mp hmem).1
        exact List.mem_filter.mpr ⟨hwritten, by simpa using hne⟩ }
  displayed := by
    intro b hb hreaction hnot
    rw [last_send_of_ne hne] at hb
    refine h.displayed b hb hreaction fun hmem ↦ hnot ?_
    exact List.mem_filter.mpr ⟨hmem, by simpa using hne⟩
  row := fun hrebroadcast ↦ (h.row hrebroadcast).send_of_ne hne

theorem updateHistorySlot_of_sends (hsends : values.sends (s.commands.get n) = true) :
    s.updateHistorySlot values n = (s.send values n, true) := if_pos hsends

theorem updateHistorySlot_of_not_sends (hsends : ¬ values.sends (s.commands.get n) = true) :
    s.updateHistorySlot values n = ({ s with refused := n :: s.refused }, false) := if_neg hsends

/-- Whether the broadcast is sent or refused, the slot is current after it. -/
theorem slot_update_self (hsent : s.Sent values n)
    (hrow : s.rebroadcast = true → s.Row values n) :
    (s.updateHistorySlot values n).1.Slot values n := by
  by_cases hsends : values.sends (s.commands.get n) = true
  · rw [updateHistorySlot_of_sends hsends]
    exact slot_send_self hsends
  · rw [updateHistorySlot_of_not_sends hsends]
    refine ⟨⟨hsent.command, fun _ ↦ ?_⟩, fun b _ _ hnot ↦ absurd List.mem_cons_self hnot, hrow⟩
    -- what the program has not written has been sent before
    by_contra hwritten
    obtain ⟨b, -, hold, hcommand⟩ := hsent.command
    exact hsends (hcommand hwritten ▸ hold)

theorem Slot.update_of_ne (h : s.Slot values m) (hne : m ≠ n) :
    (s.updateHistorySlot values n).1.Slot values m := by
  by_cases hsends : values.sends (s.commands.get n) = true
  · rw [updateHistorySlot_of_sends hsends]
    exact h.send_of_ne hne
  · rw [updateHistorySlot_of_not_sends hsends]
    have hrefused : m ∈ n :: s.refused ↔ m ∈ s.refused := by simp [hne]
    refine ⟨⟨h.sent.command, fun hmem ↦ h.sent.refused (hrefused.mp hmem)⟩, ?_, h.row⟩
    exact fun b hb hreaction hnot ↦ h.displayed b hb hreaction (mt hrefused.mpr hnot)

theorem Slot.update (h : s.Slot values m) (n : ℤ) :
    (s.updateHistorySlot values n).1.Slot values m := by
  by_cases hne : m = n
  · subst hne
    exact slot_update_self h.sent h.row
  · exact h.update_of_ne hne

theorem Row.update (h : s.Row values m) (n : ℤ) :
    (s.updateHistorySlot values n).1.Row values m := by
  by_cases hsends : values.sends (s.commands.get n) = true
  · rw [updateHistorySlot_of_sends hsends]
    by_cases hne : m = n
    · subst hne
      exact row_send_self
    · exact h.send_of_ne hne
  · rw [updateHistorySlot_of_not_sends hsends]
    exact h

/-- A program writes `commands`, and nothing else of a slot. -/
theorem Slot.edit (h : s.Slot values n) (e : Edit ω) : (s.edit e).Slot values n := by
  unfold Repl.edit
  split_ifs with hfrozen
  · exact h
  · obtain ⟨⟨⟨b, hb, hsends, hcommand⟩, hrefused⟩, hdisplayed, hrow⟩ := h
    cases e with
    | freeze => exact ⟨⟨⟨b, hb, hsends, hcommand⟩, hrefused⟩, hdisplayed, hrow⟩
    | set histnum value =>
      refine ⟨⟨⟨b, hb, hsends, fun hnot ↦ ?_⟩, fun hmem ↦ ?_⟩, hdisplayed, hrow⟩
      · obtain ⟨hne, hold⟩ := not_or.mp (mt List.mem_cons.mpr hnot)
        rw [hcommand hold, OrderedMap.get_set, if_neg hne]
      · exact List.mem_cons_of_mem _ (hrefused hmem)
    | delete histnum =>
      refine ⟨⟨⟨b, hb, hsends, fun hnot ↦ ?_⟩, fun hmem ↦ ?_⟩, hdisplayed, hrow⟩
      · obtain ⟨hne, hold⟩ := not_or.mp (mt List.mem_cons.mpr hnot)
        rw [hcommand hold, OrderedMap.get_delete, if_neg hne]
      · exact List.mem_cons_of_mem _ (hrefused hmem)

theorem Slot.edits (h : s.Slot values n) (es : List (Edit ω)) : (s.edits es).Slot values n := by
  induction es generalizing s with
  | nil => exact h
  | cons e es ih => exact ih (h.edit e)

/-- A display that is to be broadcast is still to be broadcast. -/
theorem Slot.reactions (h : s.Slot values n) {reactions : OrderedMap ℤ (Reaction ν)}
    (hkeep : s.reactions.get n = some .updating → reactions.get n = some .updating) :
    Slot values { s with reactions := reactions } n where
  sent := ⟨h.sent.command, h.sent.refused⟩
  displayed := fun b hb hreaction hnot ↦ h.displayed b hb (mt hkeep hreaction) hnot
  row := h.row

theorem Slot.setDisplay_of_ne (h : s.Slot values m) (hne : m ≠ n) (shown : Shown) :
    (s.setDisplay n shown).Slot values m where
  sent := ⟨h.sent.command, h.sent.refused⟩
  displayed := by
    intro b hb hreaction hnot
    rw [shown_setDisplay_of_ne hne]
    exact h.displayed b hb hreaction hnot
  row := h.row

/-! ### The steps -/

theorem step_settle {numerals : Numerals ν} {settlement : Settlement ν} {s' : Repl ν ω}
    (hstep : step values numerals s (.settle n settlement) = some s') :
    s.reactions.get n = some .unresolved ∧
      s' = { s with reactions := s.reactions.set n (.settled settlement) } := by
  simp only [Repl.step] at hstep
  split at hstep
  · rename_i hunresolved
    exact ⟨hunresolved, (Option.some.inj hstep).symm⟩
  · simp at hstep

theorem step_react {numerals : Numerals ν} {es : List (Edit ω)} {s' : Repl ν ω}
    (hstep : step values numerals s (.react n es) = some s') :
    ∃ settlement, s.reactions.get n = some (.settled settlement) ∧
      s' = s.react numerals n es settlement := by
  simp only [Repl.step] at hstep
  split at hstep
  · rename_i settlement hsettled
    exact ⟨settlement, hsettled, (Option.some.inj hstep).symm⟩
  · simp at hstep

theorem step_update {numerals : Numerals ν} {s' : Repl ν ω}
    (hstep : step values numerals s (.update n) = some s') :
    s.reactions.get n = some .updating ∧
      s' = (updateHistorySlot values { s with reactions := s.reactions.delete n } n).1 := by
  simp only [Repl.step] at hstep
  split at hstep
  · rename_i hupdating
    exact ⟨hupdating, (Option.some.inj hstep).symm⟩
  · simp at hstep

/-- The slots for which a program was evaluated are up to the highest one, and all are current. -/
structure Kept (values : CommandValues ω) (s : Repl ν ω) : Prop where
  highest : -1 ≤ s.highestHistory
  bounds : ∀ n ∈ s.evaluated, 0 ≤ n ∧ n ≤ s.highestHistory
  slots : ∀ n ∈ s.evaluated, s.Slot values n

/-- Which slots there are stays, and they are as they should be. -/
theorem Kept.of_slots (h : s.Kept values) {t : Repl ν ω}
    (hhighest : t.highestHistory = s.highestHistory) (hevaluated : t.evaluated = s.evaluated)
    (hslots : ∀ m ∈ s.evaluated, t.Slot values m) : t.Kept values where
  highest := by
    rw [hhighest]
    exact h.highest
  bounds := by
    rw [hhighest, hevaluated]
    exact h.bounds
  slots := by
    rw [hevaluated]
    exact hslots

theorem kept_fresh : (fresh : Repl ν ω).Kept values :=
  ⟨le_rfl, List.forall_mem_nil _, List.forall_mem_nil _⟩

/-- What a program does is to write `commands`, or to freeze it. -/
theorem exists_edits (s : Repl ν ω) (es : List (Edit ω)) : ∃ commands frozen written,
    s.edits es = { s with commands := commands, frozen := frozen, written := written } := by
  induction es generalizing s with
  | nil => exact ⟨s.commands, s.frozen, s.written, rfl⟩
  | cons e es ih =>
    have hedit : ∃ commands frozen written,
        s.edit e = { s with commands := commands, frozen := frozen, written := written } := by
      unfold edit
      split_ifs
      · exact ⟨s.commands, s.frozen, s.written, rfl⟩
      · cases e <;> exact ⟨_, _, _, rfl⟩
    obtain ⟨commands, frozen, written, hedit⟩ := hedit
    obtain ⟨commands', frozen', written', hedits⟩ := ih (s.edit e)
    refine ⟨commands', frozen', written', ?_⟩
    rw [show s.edits (e :: es) = (s.edit e).edits es from rfl, hedits, hedit]

@[simp] theorem evaluated_edits (es : List (Edit ω)) : (s.edits es).evaluated = s.evaluated := by
  obtain ⟨commands, frozen, written, hedits⟩ := s.exists_edits es
  rw [hedits]

@[simp] theorem highestHistory_edits (es : List (Edit ω)) :
    (s.edits es).highestHistory = s.highestHistory := by
  obtain ⟨commands, frozen, written, hedits⟩ := s.exists_edits es
  rw [hedits]

@[simp] theorem evaluated_update : (s.updateHistorySlot values n).1.evaluated = s.evaluated := by
  unfold updateHistorySlot
  split_ifs <;> rfl

@[simp] theorem highestHistory_update :
    (s.updateHistorySlot values n).1.highestHistory = s.highestHistory := by
  unfold updateHistorySlot
  split_ifs <;> rfl

theorem Kept.edits (h : s.Kept values) (es : List (Edit ω)) : (s.edits es).Kept values := by
  refine h.of_slots (highestHistory_edits es) (evaluated_edits es) fun m hm ↦ ?_
  exact (h.slots m hm).edits es

theorem Kept.update (h : s.Kept values) (n : ℤ) :
    (s.updateHistorySlot values n).1.Kept values := by
  refine h.of_slots highestHistory_update evaluated_update fun m hm ↦ ?_
  exact (h.slots m hm).update n

theorem kept_rebroadcastSlots (h : s.Kept values) (histnums : List ℤ) :
    (s.rebroadcastSlots values histnums).1.Kept values ∧
      (s.rebroadcastSlots values histnums).1.highestHistory = s.highestHistory ∧
      ((s.rebroadcastSlots values histnums).2 = true →
        ∀ n, n ∈ histnums ∨ s.Row values n →
          (s.rebroadcastSlots values histnums).1.Row values n) := by
  induction histnums generalizing s with
  | nil => exact ⟨h, rfl, fun _ n hn ↦ hn.resolve_left List.not_mem_nil⟩
  | cons histnum histnums ih =>
    by_cases hsends : values.sends (s.commands.get histnum) = true
    · have hloop : s.rebroadcastSlots values (histnum :: histnums) =
          (s.send values histnum).rebroadcastSlots values histnums := by
        rw [rebroadcastSlots, updateHistorySlot_of_sends hsends]
      have hupdate := h.update histnum
      rw [updateHistorySlot_of_sends hsends] at hupdate
      obtain ⟨hkept, hhighest, hrows⟩ := ih hupdate
      rw [hloop]
      refine ⟨hkept, hhighest, fun hreturns n hn ↦ hrows hreturns n ?_⟩
      by_cases hne : n = histnum
      · subst hne
        exact Or.inr row_send_self
      · refine hn.imp (fun hmem ↦ (List.mem_cons.mp hmem).resolve_left hne) fun hrow ↦ ?_
        exact hrow.send_of_ne hne
    · have hloop : s.rebroadcastSlots values (histnum :: histnums) =
          ({ s with refused := histnum :: s.refused }, false) := by
        rw [rebroadcastSlots, updateHistorySlot_of_not_sends hsends]
      have hupdate := h.update histnum
      rw [updateHistorySlot_of_not_sends hsends] at hupdate
      rw [hloop]
      exact ⟨hupdate, rfl, fun hreturns ↦ absurd hreturns Bool.false_ne_true⟩

/-- A broadcast after the display of the slot has been set, and what is due of its promise. -/
theorem Kept.refresh (h : s.Kept values) {display : OrderedMap ℤ Shown}
    {reactions : OrderedMap ℤ (Reaction ν)}
    (hdisplay : ∀ m, m ≠ n → display.get m = s.display.get m)
    (hreactions : ∀ m, m ≠ n → reactions.get m = s.reactions.get m) :
    (updateHistorySlot values { s with display := display, reactions := reactions } n).1.Kept
      values := by
  refine h.of_slots highestHistory_update evaluated_update fun m hm ↦ ?_
  obtain ⟨hsent, hdisplayed, hrow⟩ := h.slots m hm
  by_cases hne : m = n
  · subst hne
    exact slot_update_self ⟨hsent.command, hsent.refused⟩ hrow
  · refine Slot.update_of_ne ⟨⟨hsent.command, hsent.refused⟩, ?_, hrow⟩ hne
    intro b hb hreaction hnot
    refine (hdisplayed b hb ?_ hnot).trans ?_
    · rwa [← hreactions m hne]
    · change (s.display.get m).getD none = (display.get m).getD none
      rw [hdisplay m hne]

theorem get_set_of_ne {κ : Type*} (map : OrderedMap ℤ κ) (value : κ) (m : ℤ) (hne : m ≠ n) :
    (map.set n value).get m = map.get m := by
  rw [OrderedMap.get_set, if_neg hne]

theorem Kept.evaluate {numerals : Numerals ν} (h : s.Kept values) (hslot : s.Slot values n)
    (hbounds : 0 ≤ n ∧ n ≤ s.highestHistory) (es : List (Edit ω)) (result : Result ν) :
    (s.evaluate values numerals n es result).Kept values := by
  have hadded : Kept values { s with evaluated := n :: s.evaluated } := by
    refine ⟨h.highest, List.forall_mem_cons.mpr ⟨hbounds, h.bounds⟩, ?_⟩
    have hsame : ∀ m, s.Slot values m → Slot values { s with evaluated := n :: s.evaluated } m :=
      fun m hm ↦ ⟨⟨hm.sent.command, hm.sent.refused⟩, hm.displayed, hm.row⟩
    exact List.forall_mem_cons.mpr ⟨hsame n hslot, fun m hm ↦ hsame m (h.slots m hm)⟩
  have hedited := hadded.edits es
  simp only [Repl.evaluate]
  cases resultShown numerals result with
  | none => exact hedited
  | some shown =>
    cases Result.isPromise result with
    | true =>
      exact hedited.refresh (get_set_of_ne _ shown) (get_set_of_ne _ Reaction.unresolved)
    | false => exact hedited.refresh (get_set_of_ne _ shown) fun _ _ ↦ rfl

theorem Kept.doEval {numerals : Numerals ν} (h : s.Kept values) (body : ω)
    (es : List (Edit ω)) (result : Result ν) :
    (s.doEval values numerals n body es result).Kept values := by
  simp only [Repl.doEval]
  by_cases hrejected : n ≤ s.highestHistory
  · rw [if_pos hrejected]
    exact h
  rw [if_neg hrejected]
  have hlow := h.highest
  have hnew : ∀ m ∈ s.evaluated, m ≠ n := by
    rintro m hm rfl
    exact hrejected (h.bounds m hm).2
  have hbounds : ∀ m ∈ s.evaluated, 0 ≤ m ∧ m ≤ n := fun m hm ↦
    ⟨(h.bounds m hm).1, (h.bounds m hm).2.trans (by omega)⟩
  have hhighest : Kept values { s with highestHistory := n } :=
    ⟨by change -1 ≤ n; omega, hbounds, fun m hm ↦
      ⟨⟨(h.slots m hm).sent.command, (h.slots m hm).sent.refused⟩, (h.slots m hm).displayed,
        (h.slots m hm).row⟩⟩
  split_ifs with hfrozen
  · exact hhighest
  have hcommand : Kept values
      { s with highestHistory := n, commands := s.commands.set n body } := by
    refine ⟨hhighest.highest, hbounds, fun m hm ↦ ?_⟩
    obtain ⟨⟨⟨b, hb, hsends, hsame⟩, hrefused⟩, hdisplayed, hrow⟩ := h.slots m hm
    refine ⟨⟨⟨b, hb, hsends, fun hnot ↦ ?_⟩, hrefused⟩, hdisplayed, hrow⟩
    rw [hsame hnot, OrderedMap.get_set, if_neg (hnew m hm)]
  cases values.template (some body) with
  | none => exact hcommand
  | some text =>
    dsimp only
    have hrefresh : Kept values (updateHistorySlot values
        (setDisplay { s with highestHistory := n, commands := s.commands.set n body } n
          (some ("working on eval(" ++ text ++ ")"))) n).1 :=
      hcommand.refresh (get_set_of_ne _ _) fun _ _ ↦ rfl
    by_cases hsends : values.sends ((s.commands.set n body).get n) = true
    · rw [updateHistorySlot_of_sends hsends] at hrefresh ⊢
      exact hrefresh.evaluate (slot_send_self hsends) ⟨by omega, le_rfl⟩ es result
    · rw [updateHistorySlot_of_not_sends hsends] at hrefresh ⊢
      exact hrefresh

theorem Kept.react {numerals : Numerals ν} (h : s.Kept values) {settlement : Settlement ν}
    (hsettled : s.reactions.get n = some (.settled settlement)) (es : List (Edit ω)) :
    (s.react numerals n es settlement).Kept values := by
  have hedited := h.edits es
  have hreaction : (s.edits es).reactions = s.reactions := by
    obtain ⟨commands, frozen, written, hedits⟩ := s.exists_edits es
    rw [hedits]
  simp only [Repl.react]
  cases settlementShown numerals settlement with
  | none =>
    refine hedited.of_slots rfl rfl fun m hm ↦ (hedited.slots m hm).reactions ?_
    intro hupdating
    rw [hreaction] at hupdating ⊢
    have hne : m ≠ n := by
      rintro rfl
      simp [hsettled] at hupdating
    rwa [OrderedMap.get_delete, if_neg hne]
  | some shown =>
    refine hedited.of_slots rfl rfl fun m hm ↦ ?_
    by_cases hne : m = n
    · subst hne
      -- what is displayed now is to be broadcast by the second reaction
      obtain ⟨hsent, -, hrow⟩ := hedited.slots m hm
      refine ⟨⟨hsent.command, hsent.refused⟩, fun b _ hreaction _ ↦ absurd ?_ hreaction, hrow⟩
      change OrderedMap.get (OrderedMap.set _ m _) m = _
      rw [OrderedMap.get_set, if_pos rfl]
    · refine ((hedited.slots m hm).setDisplay_of_ne hne shown).reactions fun hupdating ↦ ?_
      rw [get_set_of_ne _ _ _ hne]
      exact hupdating

theorem Kept.rebroadcastHistory (h : s.Kept values) :
    (s.rebroadcastHistory values).Kept values := by
  obtain ⟨hkept, hhighest, hrows⟩ := kept_rebroadcastSlots h
    ((List.range (s.highestHistory + 1).toNat).map Int.ofNat)
  simp only [Repl.rebroadcastHistory]
  generalize s.rebroadcastSlots values
    ((List.range (s.highestHistory + 1).toNat).map Int.ofNat) = loop at hkept hhighest hrows ⊢
  obtain ⟨t, returns⟩ := loop
  cases returns with
  | false => exact hkept
  | true =>
    refine hkept.of_slots rfl rfl fun n hn ↦ ?_
    obtain ⟨hsent, hdisplayed, -⟩ := hkept.slots n hn
    obtain ⟨hnonneg, hle⟩ := hkept.bounds n hn
    have hmem : n ∈ (List.range (s.highestHistory + 1).toNat).map Int.ofNat := by
      dsimp only at hhighest hle
      refine List.mem_map.mpr ⟨n.toNat, List.mem_range.mpr (by omega), ?_⟩
      exact Int.toNat_of_nonneg hnonneg
    have hrow : t.Row values n := hrows rfl n (Or.inl hmem)
    exact ⟨⟨hsent.command, hsent.refused⟩, hdisplayed, fun _ ↦ hrow⟩

theorem Kept.step {numerals : Numerals ν} (h : s.Kept values) {e : Event ν ω} {s' : Repl ν ω}
    (hstep : step values numerals s e = some s') : s'.Kept values := by
  cases e with
  | doEval number body edits result =>
    obtain rfl := Option.some.inj hstep
    exact h.doEval body edits result
  | settle histnum settlement =>
    obtain ⟨hunresolved, rfl⟩ := step_settle hstep
    refine h.of_slots rfl rfl fun n hn ↦ (h.slots n hn).reactions fun hupdating ↦ ?_
    have hne : n ≠ histnum := by
      rintro rfl
      simp [hunresolved] at hupdating
    rwa [get_set_of_ne _ _ _ hne]
  | react histnum edits =>
    obtain ⟨settlement, hsettled, rfl⟩ := step_react hstep
    exact h.react hsettled edits
  | update histnum =>
    obtain ⟨-, rfl⟩ := step_update hstep
    refine h.refresh (fun _ _ ↦ rfl) fun m hne ↦ ?_
    rw [OrderedMap.get_delete, if_neg hne]
  | program edits =>
    obtain rfl := Option.some.inj hstep
    exact h.edits edits
  | rebroadcastHistory =>
    obtain rfl := Option.some.inj hstep
    exact h.rebroadcastHistory
  | clear =>
    obtain rfl := Option.some.inj hstep
    refine h.of_slots rfl rfl fun n hn ↦ ?_
    obtain ⟨hsent, hdisplayed, -⟩ := h.slots n hn
    exact ⟨⟨hsent.command, hsent.refused⟩, hdisplayed, fun hfalse ↦
      absurd hfalse Bool.false_ne_true⟩
  | setNextHistNum =>
    obtain rfl := Option.some.inj hstep
    refine h.of_slots rfl rfl fun n hn ↦ ?_
    obtain ⟨hsent, hdisplayed, hrow⟩ := h.slots n hn
    exact ⟨⟨hsent.command, hsent.refused⟩, hdisplayed, hrow⟩

theorem Kept.current (h : s.Kept values) : s.Current := by
  intro n hn
  obtain ⟨⟨⟨b, hb, -, hcommand⟩, hrefused⟩, hdisplayed, -⟩ := h.slots n hn
  refine ⟨hrefused, b, hb, hcommand, fun hidle ↦ hdisplayed b hb fun hupdating ↦ ?_⟩
  rcases hidle with hnone | hunresolved
  · simp [hnone] at hupdating
  · simp [hunresolved] at hupdating

theorem Kept.shows (h : s.Kept values) : s.Shows values :=
  fun hrebroadcast n hn ↦ (h.slots n hn).row hrebroadcast

theorem get_commands_edits {es : List (Edit ω)} (hes : ∀ e ∈ es, Edit.histnum e ≠ some m) :
    (s.edits es).commands.get m = s.commands.get m := by
  induction es generalizing s with
  | nil => rfl
  | cons e es ih =>
    refine (ih (s := s.edit e) fun e' he' ↦ hes e' (List.mem_cons_of_mem _ he')).trans ?_
    have hne := hes e List.mem_cons_self
    unfold edit
    split_ifs
    · rfl
    · cases e with
      | set histnum value => exact get_set_of_ne _ _ _ fun heq ↦ hne (congrArg some heq.symm)
      | delete histnum =>
        exact (OrderedMap.get_delete _ _ _).trans (if_neg fun heq ↦ hne (congrArg some heq.symm))
      | freeze => rfl

theorem untouched_update (hne : m ≠ n) :
    Untouched ([] : List (Edit ω)) s (s.updateHistorySlot values n).1 m := by
  by_cases hsends : values.sends (s.commands.get n) = true
  · rw [updateHistorySlot_of_sends hsends]
    exact ⟨rfl, last_send_of_ne hne, rfl, fun _ ↦ rfl⟩
  · rw [updateHistorySlot_of_not_sends hsends]
    exact ⟨rfl, rfl, rfl, fun _ ↦ rfl⟩

theorem untouched_react {numerals : Numerals ν} (hne : m ≠ n) (es : List (Edit ω))
    (settlement : Settlement ν) : Untouched es s (s.react numerals n es settlement) m := by
  have hcommand : (∀ e ∈ es, Edit.histnum e ≠ some m) →
      (s.edits es).commands.get m = s.commands.get m := get_commands_edits
  obtain ⟨commands, frozen, written, hedits⟩ := s.exists_edits es
  simp only [react, hedits] at hcommand ⊢
  cases settlementShown numerals settlement with
  | none => exact ⟨rfl, rfl, (OrderedMap.get_delete _ _ _).trans (if_neg hne), hcommand⟩
  | some shown =>
    exact ⟨shown_setDisplay_of_ne hne shown, rfl, get_set_of_ne _ _ _ hne, hcommand⟩

/-- What happens to the promise of a slot is nothing to another slot. -/
theorem untouched_of_settles {numerals : Numerals ν} {e : Event ν ω} {s' : Repl ν ω}
    (hsettles : e.settles = some n) (hne : m ≠ n)
    (hstep : step values numerals s e = some s') : Untouched e.edits s s' m := by
  cases e with
  | settle histnum settlement =>
    obtain rfl := Option.some.inj hsettles
    obtain ⟨-, rfl⟩ := step_settle hstep
    exact ⟨rfl, rfl, get_set_of_ne _ _ _ hne, fun _ ↦ rfl⟩
  | react histnum edits =>
    obtain rfl := Option.some.inj hsettles
    obtain ⟨settlement, -, rfl⟩ := step_react hstep
    exact untouched_react hne edits settlement
  | update histnum =>
    obtain rfl := Option.some.inj hsettles
    obtain ⟨-, rfl⟩ := step_update hstep
    obtain ⟨hdisplay, hlast, hreaction, hcommand⟩ : Untouched []
        { s with reactions := s.reactions.delete histnum }
        (updateHistorySlot values { s with reactions := s.reactions.delete histnum } histnum).1
        m := untouched_update hne
    refine ⟨hdisplay, hlast, hreaction.trans ?_, hcommand⟩
    exact (OrderedMap.get_delete _ _ _).trans (if_neg hne)
  | _ => simp [Event.settles] at hsettles

/-! ### Programs that leave `commands` alone -/

theorem written_update (h : s.written = []) : (s.updateHistorySlot values n).1.written = [] := by
  unfold updateHistorySlot
  split_ifs
  · change s.written.filter _ = []
    rw [h, List.filter_nil]
  · exact h

theorem written_rebroadcastSlots (h : s.written = []) (histnums : List ℤ) :
    (s.rebroadcastSlots values histnums).1.written = [] := by
  induction histnums generalizing s with
  | nil => exact h
  | cons histnum histnums ih =>
    have hupdate : (s.updateHistorySlot values histnum).1.written = [] := written_update h
    unfold rebroadcastSlots
    split
    · rename_i t hloop
      rw [hloop] at hupdate
      exact ih hupdate
    · rename_i t hloop
      rw [hloop] at hupdate
      exact hupdate

theorem written_evaluate {numerals : Numerals ν} (h : s.written = []) (result : Result ν) :
    (s.evaluate values numerals n [] result).written = [] := by
  simp only [Repl.evaluate]
  cases resultShown numerals result with
  | none => exact h
  | some shown =>
    refine written_update ?_
    split_ifs
    · exact h
    · exact h

theorem written_doEval {numerals : Numerals ν} (h : s.written = []) (body : ω)
    (result : Result ν) : (s.doEval values numerals n body [] result).written = [] := by
  simp only [Repl.doEval]
  split_ifs
  · exact h
  · exact h
  cases values.template (some body) with
  | none => exact h
  | some text =>
    dsimp only
    split
    · rename_i t hupdate
      have ht : (t, false).1.written = [] := hupdate ▸ written_update h
      exact ht
    · rename_i t hupdate
      have ht : (t, true).1.written = [] := hupdate ▸ written_update h
      exact written_evaluate ht result

theorem written_step {numerals : Numerals ν} (h : s.written = []) {e : Event ν ω}
    (hedits : e.edits = []) {s' : Repl ν ω} (hstep : step values numerals s e = some s') :
    s'.written = [] := by
  cases e with
  | doEval number body edits result =>
    obtain rfl : edits = [] := hedits
    obtain rfl := Option.some.inj hstep
    exact written_doEval h body result
  | settle histnum settlement =>
    obtain ⟨-, rfl⟩ := step_settle hstep
    exact h
  | react histnum edits =>
    obtain rfl : edits = [] := hedits
    obtain ⟨settlement, -, rfl⟩ := step_react hstep
    simp only [Repl.react]
    cases settlementShown numerals settlement with
    | none => exact h
    | some shown => exact h
  | update histnum =>
    obtain ⟨-, rfl⟩ := step_update hstep
    exact written_update h
  | program edits =>
    obtain rfl : edits = [] := hedits
    obtain rfl := Option.some.inj hstep
    exact h
  | rebroadcastHistory =>
    obtain rfl := Option.some.inj hstep
    have hloop : (s.rebroadcastSlots values
        ((List.range (s.highestHistory + 1).toNat).map Int.ofNat)).1.written = [] :=
      written_rebroadcastSlots h _
    simp only [Repl.rebroadcastHistory]
    split
    · rename_i t hreturns
      rw [hreturns] at hloop
      exact hloop
    · rename_i t hreturns
      rw [hreturns] at hloop
      exact hloop
  | clear =>
    obtain rfl := Option.some.inj hstep
    exact h
  | setNextHistNum =>
    obtain rfl := Option.some.inj hstep
    exact h

end Slot

/-- In a run of programs that do not write `commands`, the last broadcast of each slot has the
command and, when no reaction is due, the display of the slot. -/
theorem last_eq_due_of_no_edits (values : CommandValues ω) (numerals : Numerals ν)
    (events : List (Event ν ω)) (hedits : ∀ e ∈ events, e.edits = []) {s : Repl ν ω}
    (hrun : run (step values numerals) fresh events = some s) :
    ∀ n ∈ s.evaluated, s.Idle n → ∃ b, s.last n = some b ∧
      b.command = s.commands.get n ∧ b.display = s.shown n := by
  have hguard : AllSteps (step values numerals) (fun _ e _ ↦ e.edits = []) fresh events :=
    allSteps_of_forall_mem fun e he _ _ ↦ hedits e he
  have hkeep : ∀ (s : Repl ν ω) (e : Event ν ω) (s' : Repl ν ω), s.Kept values ∧ s.written = [] →
      e.edits = [] → step values numerals s e = some s' → s'.Kept values ∧ s'.written = [] :=
    fun _ _ _ h he hstep ↦ ⟨h.1.step hstep, written_step h.2 he hstep⟩
  obtain ⟨hkept, hwritten⟩ := run_invariant hkeep ⟨kept_fresh, rfl⟩ hguard hrun
  intro n hn hidle
  obtain ⟨hrefused, b, hb, hcommand, hdisplay⟩ := hkept.current n hn
  have hnot : n ∉ s.written := hwritten ▸ List.not_mem_nil
  exact ⟨b, hb, hcommand hnot, hdisplay hidle (mt hrefused hnot)⟩

/-- In every run, after every step: the last broadcast of each slot is current, unless a program has
written the command since; a page that was cleared before it shows all this after a
`rebroadcastHistory`; an evaluation with too low a number changes nothing; and the promise of one
slot changes no other slot. -/
theorem broadcasts_current (values : CommandValues ω) (numerals : Numerals ν)
    (events : List (Event ν ω)) :
    AllSteps (step values numerals) (Sound values) fresh events := by
  have hkeep : ∀ (s : Repl ν ω) (e : Event ν ω) (s' : Repl ν ω), s.Kept values →
      step values numerals s e = some s' → s'.Kept values :=
    fun _ _ _ h hstep ↦ h.step hstep
  have hsound : ∀ (s : Repl ν ω) (e : Event ν ω) (s' : Repl ν ω), s.Kept values →
      step values numerals s e = some s' → Sound values s e s' := by
    intro s e s' h hstep
    refine ⟨(h.step hstep).current, (h.step hstep).shows, ?_, ?_⟩
    · rintro number body es result rfl hrejected
      exact (Option.some.inj hstep).symm.trans (if_pos hrejected)
    · exact fun n hsettles m hne ↦ untouched_of_settles hsettles hne hstep
  exact .of_inductive hkeep hsound kept_fresh

section Example

def textValues : CommandValues String where
  template := fun command ↦ some (command.getD "undefined")
  sends := fun _ ↦ true

/-- The second program writes the command of the first one, and returns a string. -/
theorem not_current_command :
    ∃ s, run (step textValues Numerals.nat) fresh
        [.doEval 0 "6*7" [] (.returns (.num 42)),
          .doEval 1 "commands[0]='x'" [.set 0 "x"] (.returns (.str "x"))] = some s ∧
      (∀ n, s.Idle n) ∧ 0 ∈ s.evaluated ∧
        ∀ b, s.last 0 = some b → b.command ≠ s.commands.get 0 := by
  refine ⟨_, rfl, fun _ ↦ Or.inl rfl, by decide, fun b hb ↦ ?_⟩
  obtain rfl := Option.some.inj hb
  decide

end Example

end Repl

end CosmicSwingset.Vats
