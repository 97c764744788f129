import CosmicSwingset.Captp.Tables
import CosmicSwingset.Foundation.Transition
import Mathlib.Logic.Function.Basic

/-!
# A connection

The two ends of a connection of `makeCapTP`, each with its tables, its questions and the messages
that are on their way to it, in order. An end acts when its program asks for the bootstrap object or
calls a method of a remote presence, when it dispatches the next message, when a method that it was
called for has a result, and when a promise that it has exported is settled; in between, the other
end may do anything.

What a message carries of a value are the slots of the references in it (`Data.slots`). The values
that the sender had for them (`Data.vals`) are not sent; no end reads them, and they are here to say
what the slots were meant for. A value that is not passable makes `serialize` throw after some
exports, and the message is not sent. Of a result there is kept whether it is one that can be sent:
an answer that cannot is followed by one with the error, a rejection that cannot by nothing. A value
with a cycle can be sent, but at the other end `unserialize` throws at it, after some of its slots
and before the question or the promise of the message is removed (`Endpoint.throws`).
-/

set_option autoImplicit false
set_option relaxedAutoImplicit false

namespace CosmicSwingset.Captp

open Foundation

/-! ### Messages -/

/-- What `serialize` makes of values: the slots, and the values that they are for. -/
structure Data where
  slots : List Slot
  vals : List Ref
  length_eq : vals.length = slots.length

def Data.refs (data : Data) : List (Ref × Slot) := data.vals.zip data.slots

/-- A value with no references in it. -/
def Data.plain : Data := ⟨[], [], rfl⟩

inductive Message
  | bootstrap (questionID : ℕ)
  | call (questionID : ℕ) (target : Slot) (method : Data)
  | return (answerID : ℕ) (result : Data)
  | resolve (promiseID : ℕ) (result : Data)

/-- What the handler of the message has `unserialize` read first. -/
def Message.data : Message → Data
  | .bootstrap _ => .plain
  | .call _ _ method => method
  | .return _ result => result
  | .resolve _ result => result

/-- The values of a message, each with its slot. -/
def Message.refs : Message → List (Ref × Slot)
  | .bootstrap _ => []
  | .call _ target method => (.remote target, target) :: method.refs
  | .return _ result => result.refs
  | .resolve _ result => result.refs

def Tables.serialize (t : Tables) (vals : List Ref) : Data × Tables :=
  (⟨(t.exportAll vals).1, vals, (length_mapState t vals).symm⟩, (t.exportAll vals).2)

/-! ### One end -/

structure Endpoint where
  tables : Tables
  lastQuestionID : ℕ
  questions : List ℕ
  /-- The questions of the other end whose method is being called. -/
  answering : List ℕ
  inbox : List Message

namespace Endpoint

def init : Endpoint := ⟨.empty, 0, [], [], []⟩

inductive Action
  | getBootstrap
  | call (target : Slot) (args : List Ref) (passable : Bool)
  | dispatch (bootstrap : List Ref) (passable : Bool)
  | throws (count : ℕ)
  | answer (questionID : ℕ) (result : List Ref) (fulfilled passable : Bool)
  | settle (promiseID : ℕ) (result : List Ref) (passable : Bool)

/-- `serialize`, with the message that is sent with its result. -/
def send (e : Endpoint) (vals : List Ref) (passable : Bool) (message : Data → Message) :
    Endpoint × List Message :=
  let (data, tables) := e.tables.serialize vals
  ({ e with tables }, if passable then [message data] else [])

/-- The handler of the message. What it reads of an answer that it does not wait for, it throws
before it reads the values. -/
def handle (e : Endpoint) (bootstrap : List Ref) (passable : Bool) :
    Message → Endpoint × List Message
  | .bootstrap questionID => e.send bootstrap passable (.return questionID)
  | .call questionID target method =>
    ({ e with
      tables := e.tables.receiveAll (method.slots ++ [target])
      answering := e.answering ++ [questionID] }, [])
  | .return answerID result =>
    if answerID ∈ e.questions then
      ({ e with
        tables := e.tables.receiveAll result.slots
        questions := e.questions.erase answerID }, [])
    else (e, [])
  | .resolve promiseID result =>
    if promiseID ∈ e.tables.imports then
      let tables := e.tables.receiveAll result.slots
      ({ e with tables := { tables with imports := tables.imports.erase promiseID } }, [])
    else (e, [])

/-- The handler does not throw before it reads the values. -/
def Reads (e : Endpoint) : Message → Prop
  | .return answerID _ => answerID ∈ e.questions
  | .resolve promiseID _ => promiseID ∈ e.tables.imports
  | _ => True

instance (e : Endpoint) (message : Message) : Decidable (e.Reads message) := by
  cases message <;> unfold Reads <;> infer_instance

/-- The handler where it throws, in a call of `bootstrapObj` or in `unserialize` after so many
slots: nothing else of it is done. -/
def throws (e : Endpoint) (count : ℕ) (message : Message) : Endpoint :=
  if e.Reads message then
    { e with tables := e.tables.receiveAll (message.data.slots.take count) }
  else e

def act (e : Endpoint) : Action → Option (Endpoint × List Message)
  | .getBootstrap =>
    some ({ e with
      lastQuestionID := e.lastQuestionID + 1
      questions := e.questions ++ [e.lastQuestionID + 1] }, [.bootstrap (e.lastQuestionID + 1)])
  | .call target args passable =>
    if e.tables.Has (.remote target) ∧ ∀ val ∈ args, e.tables.Has val then
      some ({ e with
        lastQuestionID := e.lastQuestionID + 1
        questions := e.questions ++ [e.lastQuestionID + 1] }.send args passable
          (.call (e.lastQuestionID + 1) target))
    else none
  | .dispatch bootstrap passable =>
    match e.inbox with
    | [] => none
    | message :: inbox =>
      if ∀ val ∈ bootstrap, e.tables.Has val then
        some ({ e with inbox }.handle bootstrap passable message)
      else none
  | .throws count =>
    match e.inbox with
    | [] => none
    | message :: inbox => some ({ e with inbox }.throws count message, [])
  | .answer questionID result fulfilled passable =>
    if questionID ∈ e.answering ∧ ∀ val ∈ result, e.tables.Has val then
      let (e', sent) := { e with answering := e.answering.erase questionID }.send result passable
        (.return questionID)
      -- what cannot be serialized is caught, and the error is sent
      some (e', if !passable && fulfilled then [.return questionID .plain] else sent)
    else none
  | .settle promiseID result passable =>
    if promiseID ∈ e.tables.unsettled ∧ ∀ val ∈ result, e.tables.Has val then
      let tables := { e.tables with unsettled := e.tables.unsettled.erase promiseID }
      some ({ e with tables }.send result passable (.resolve promiseID))
    else none

end Endpoint

/-! ### Both ends -/

inductive Side
  | here
  | there
  deriving DecidableEq

def Side.other : Side → Side
  | .here => .there
  | .there => .here

@[simp] theorem Side.other_other (side : Side) : side.other.other = side := by
  cases side <;> rfl

theorem Side.other_ne (side : Side) : side.other ≠ side := by
  cases side <;> decide

theorem Side.eq_or_eq_other (side side' : Side) : side' = side ∨ side' = side.other := by
  cases side <;> cases side' <;> decide

abbrev Connection := Side → Endpoint

def Connection.init : Connection := fun _ ↦ .init

/-- What an end does, and what it sends arrives at the end of the other one's messages. -/
def Connection.update (s : Connection) (side : Side) (e : Endpoint) (sent : List Message) :
    Connection :=
  fun side' ↦ if side' = side then e else { s side' with inbox := (s side').inbox ++ sent }

def Connection.step (s : Connection) (event : Side × Endpoint.Action) : Option Connection :=
  ((s event.1).act event.2).map fun p ↦ s.update event.1 p.1 p.2

theorem Connection.update_self (s : Connection) (side : Side) (e : Endpoint)
    (sent : List Message) : s.update side e sent side = e := if_pos rfl

theorem Connection.update_other (s : Connection) (side : Side) (e : Endpoint)
    (sent : List Message) :
    s.update side e sent side.other =
      { s side.other with inbox := (s side.other).inbox ++ sent } := if_neg side.other_ne

/-- One end gets the bootstrap object of the other and calls it with a promise. It settles the
promise with an object of its own when the answer has come. -/
def greeting : List (Side × Endpoint.Action) :=
  [(.here, .getBootstrap),
    (.there, .dispatch [.own false 0] true),
    (.here, .dispatch [] true),
    (.here, .call (.object 1) [.own true 5] true),
    (.there, .dispatch [] true),
    (.there, .answer 2 [.own false 0] true true),
    (.here, .dispatch [] true),
    (.here, .settle 1 [.own false 7] true)]

end CosmicSwingset.Captp
