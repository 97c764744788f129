import Mathlib.Order.Basic

/-!
# Replacing a file by rename

`atomicReplaceFile` of `start.js` writes a temporary file in the target's directory, closes it and
renames it onto the target, each step awaited; when one of the three fails it unlinks the temporary
file and rethrows. `fs.write` may report success after writing fewer bytes than it was given, and
the code does not look at the count.

`Replacing` says where one call stands, and `Replacing.step` what each completion does to the call
and, in the case of the rename, to the target file.
-/

set_option autoImplicit false
set_option relaxedAutoImplicit false

namespace CosmicSwingset.Solo

variable {α : Type*}

/-- What a file holds: the text of `a`, or only the beginning of it. -/
inductive Contents (α : Type*)
  | whole (a : α)
  | short (a : α)
  deriving DecidableEq

/-- What `fs.write` reports: an error, or success after writing all or only some of the bytes. -/
inductive WriteOutcome
  | error
  | all
  | some
  deriving DecidableEq

/-- The completion of the file operation that a call of `atomicReplaceFile` awaits. -/
inductive FileEvent
  | opened (ok : Bool)
  | wrote (outcome : WriteOutcome)
  | closed (ok : Bool)
  | renamed (ok : Bool)
  | unlinked (ok : Bool)
  deriving DecidableEq

/-- Where a call of `atomicReplaceFile` stands: which operation it awaits, and on what. -/
inductive Replacing (α : Type*)
  | opening (contents : α)
  | writing (contents : α)
  | closing (written : Contents α)
  | replacing (written : Contents α)
  | unlinking
  | returned
  | threw
  deriving DecidableEq

/-- The call after the operation it awaits has completed, and what the rename put in the target
file. A failed unlink is ignored: the call throws the error it already had. -/
def Replacing.step : Replacing α → FileEvent → Option (Replacing α × Option (Contents α))
  | .opening _, .opened false => some (.threw, none)
  | .opening contents, .opened true => some (.writing contents, none)
  | .writing _, .wrote .error => some (.unlinking, none)
  | .writing contents, .wrote .all => some (.closing (.whole contents), none)
  | .writing contents, .wrote .some => some (.closing (.short contents), none)
  | .closing _, .closed false => some (.unlinking, none)
  | .closing written, .closed true => some (.replacing written, none)
  | .replacing _, .renamed false => some (.unlinking, none)
  | .replacing written, .renamed true => some (.returned, some written)
  | .unlinking, .unlinked _ => some (.threw, none)
  | _, _ => none

/-- Between the capture of the contents and the return of the call. -/
def Replacing.underway : Replacing α → Bool
  | .opening _ | .writing _ | .closing _ | .replacing _ | .returned => true
  | .unlinking | .threw => false

/-- What the call may still put in the target file is the whole text of something with `P`. -/
def Replacing.Carries (P : α → Prop) : Replacing α → Prop
  | .opening contents | .writing contents => P contents
  | .closing written | .replacing written => ∃ contents, written = .whole contents ∧ P contents
  | .unlinking | .returned | .threw => True

theorem Replacing.Carries.imp {P Q : α → Prop} (hPQ : ∀ contents, P contents → Q contents)
    {call : Replacing α} (h : call.Carries P) : call.Carries Q := by
  match call with
  | .opening contents | .writing contents => exact hPQ contents h
  | .closing _ | .replacing _ =>
    obtain ⟨contents, hwritten, hcontents⟩ := h
    exact ⟨contents, hwritten, hPQ contents hcontents⟩
  | .unlinking | .returned | .threw => trivial

/-- Only the rename touches the target file, and the call returns only by it. -/
theorem Replacing.step_cases {call call' : Replacing α} {event : FileEvent}
    {put : Option (Contents α)} (hstep : call.step event = some (call', put)) :
    (call' ≠ .returned ∧ put = none) ∨
      ∃ written, call = .replacing written ∧ call' = .returned ∧ put = some written := by
  revert hstep
  fun_cases Replacing.step call event
  case case9 written =>
    rintro ⟨⟩
    exact Or.inr ⟨written, rfl, rfl, rfl⟩
  case case11 => rintro ⟨⟩
  all_goals
    rintro ⟨⟩
    exact Or.inl ⟨by simp, rfl⟩

/-- Unless `fs.write` stops short, a call goes on carrying what it carries. -/
theorem Replacing.carries_of_step {P : α → Prop} {call call' : Replacing α} {event : FileEvent}
    {put : Option (Contents α)} (hstep : call.step event = some (call', put))
    (hshort : event ≠ .wrote .some) (hcarries : call.Carries P) : call'.Carries P := by
  revert hstep hshort hcarries
  fun_cases Replacing.step call event
  case case5 contents =>
    intro _ hshort
    exact absurd rfl hshort
  case case4 contents =>
    rintro ⟨⟩ - hcarries
    exact ⟨contents, rfl, hcarries⟩
  case case11 => rintro ⟨⟩
  all_goals
    rintro ⟨⟩ - hcarries
    first | exact hcarries | trivial

end CosmicSwingset.Solo
