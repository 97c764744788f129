import Mathlib.Data.List.TakeDrop
import Mathlib.Logic.Function.Basic
import CosmicSwingset.Foundation.Transition
import CosmicSwingset.Solo.AtomicReplaceFile

/-!
# What a file holds after its replacement

`atomicReplaceFile` of the solo node and `createFile` of the setup commands are one program: a
temporary file beside the target is opened, written, closed and renamed onto the target, and any
failure after the opening unlinks it and is thrown again. `FileM` runs the program on the files of a
disk, where each operation comes out as `Outcomes` says. A write that fails may have written
something, and one that does not may have written less than it was given: `fs.write` reports the
number of bytes, and nobody reads it.

So the target has its old contents or the new ones exactly when no short write gets as far as the
rename (`allOrNothing_iff_not_truncates`). `Replacing` describes one call from the point of view of
the node that awaits it; `run_replacing_eq` says that it agrees with the program.
-/

set_option autoImplicit false
set_option relaxedAutoImplicit false

namespace CosmicSwingset.Solo

open Foundation

/-! ### Files -/

structure FilePath where
  dirname : String
  basename : String
  deriving DecidableEq

abbrev Files := FilePath → Option (List UInt8)

inductive FileError
  | open
  | write
  | close
  | rename
  | unlink
  deriving DecidableEq

/-- A program on files. What an operation has done before an error stays done. -/
abbrev FileM := ExceptT FileError (StateM Files)

/-- What `fs.write` comes to, with the number of bytes that it has written. -/
inductive Written
  | failed (count : ℕ)
  | reported (count : ℕ)
  deriving DecidableEq

/-- How the operations of one replacement come out. The name of the temporary file ends at random;
there is none where it cannot be opened. -/
structure Outcomes where
  opened : Option String
  written : Written
  closed : Bool
  renamed : Bool
  unlinked : Bool
  deriving DecidableEq

/-- `temp.open({ dir, prefix })`. -/
def tempOpen (opened : Option String) (dir namePrefix : String) : FileM FilePath :=
  match opened with
  | none => throw .open
  | some ending => do
    let path : FilePath := ⟨dir, namePrefix ++ ending⟩
    modify fun files ↦ Function.update files path (some [])
    return path

/-- `fsWrite(fd, contents)` to a file that has just been opened. -/
def fsWrite (written : Written) (path : FilePath) (contents : List UInt8) : FileM ℕ :=
  match written with
  | .failed count => do
    modify fun files ↦ Function.update files path (some (contents.take count))
    throw .write
  | .reported count => do
    modify fun files ↦ Function.update files path (some (contents.take count))
    return count

def fsClose (closed : Bool) : FileM Unit :=
  if closed then return else throw .close

def rename (renamed : Bool) (source target : FilePath) : FileM Unit :=
  if renamed then
    modify fun files ↦ Function.update (Function.update files target (files source)) source none
  else throw .rename

def unlink (unlinked : Bool) (path : FilePath) : FileM Unit :=
  if unlinked then modify fun files ↦ Function.update files path none else throw .unlink

/-! ### The two functions -/

/-- The common text of `atomicReplaceFile` and `createFile`. -/
def replaceFile (outcomes : Outcomes) (filename : FilePath) (contents : List UInt8) :
    FileM Unit := do
  let info ← tempOpen outcomes.opened filename.dirname (filename.basename ++ ".")
  try
    -- Write the contents, close, and rename.
    let _ ← fsWrite outcomes.written info contents
    fsClose outcomes.closed
    rename outcomes.renamed info filename
  catch e =>
    -- Unlink on error; when that fails, we're already failing.
    try unlink outcomes.unlinked info catch _ => pure ()
    throw e

/-- `atomicReplaceFile` of `start.js`. -/
def atomicReplaceFile (outcomes : Outcomes) (filename : FilePath) (contents : List UInt8) :
    FileM Unit :=
  replaceFile outcomes filename contents

/-- `createFile` of `setup/files.js`, which also says on the console what it creates. -/
def createFile (outcomes : Outcomes) (path : FilePath) (contents : List UInt8) : FileM Unit :=
  replaceFile outcomes path contents

/-- The file has the new contents after the program has returned, and what it had before after the
program has thrown. -/
def AllOrNothing (program : FileM Unit) (filename : FilePath) (contents : List UInt8)
    (files : Files) : Prop :=
  match (program.run).run files with
  | (.ok (), files') => files' filename = some contents
  | (.error _, files') => files' filename = files filename

/-- The write stops short and reports it, and nothing fails up to the rename. -/
def Outcomes.Truncates (outcomes : Outcomes) (contents : List UInt8) : Prop :=
  outcomes.opened.isSome ∧ (∃ count < contents.length, outcomes.written = .reported count) ∧
    outcomes.closed = true ∧ outcomes.renamed = true

/-- The temporary file is another one than the target. -/
theorem temp_ne (filename : FilePath) (ending : String) :
    filename ≠ ⟨filename.dirname, filename.basename ++ "." ++ ending⟩ := by
  intro heq
  have hlength := congrArg (fun path : FilePath ↦ path.basename.length) heq
  simp only [String.length_append] at hlength
  have hdot : ".".length = 1 := rfl
  omega

/-- What the rename puts under the name of the target, if it comes to the rename. -/
def Outcomes.put (outcomes : Outcomes) (contents : List UInt8) : Option (List UInt8) :=
  match outcomes with
  | ⟨some _, .reported count, true, true, _⟩ => some (contents.take count)
  | _ => none

/-- The program returns exactly where something has been put under the name of the target, and
nothing else that it does changes the target. -/
theorem run_replaceFile (outcomes : Outcomes) (filename : FilePath) (contents : List UInt8)
    (files : Files) :
    match outcomes.put contents with
    | some bytes => ∃ files', ((replaceFile outcomes filename contents).run).run files =
        (.ok (), files') ∧ files' filename = some bytes
    | none => ∃ e files', ((replaceFile outcomes filename contents).run).run files =
        (.error e, files') ∧ files' filename = files filename := by
  obtain ⟨opened, written, closed, renamed, unlinked⟩ := outcomes
  match opened, written, closed, renamed, unlinked with
  | none, _, _, _, _ => exact ⟨_, _, rfl, rfl⟩
  -- the write, the closing or the rename fails, and the temporary file is unlinked or stays
  | some ending, .failed _, _, _, true | some ending, .failed _, _, _, false
  | some ending, .reported _, false, _, true | some ending, .reported _, false, _, false
  | some ending, .reported _, true, false, true
  | some ending, .reported _, true, false, false =>
    have hne := temp_ne filename ending
    refine ⟨_, _, rfl, ?_⟩
    simp [hne]
  | some ending, .reported _, true, true, _ =>
    have hne := temp_ne filename ending
    refine ⟨_, rfl, ?_⟩
    simp [hne]

/-- What is put is not all of the contents where the write stops short. -/
theorem Outcomes.truncates_iff (outcomes : Outcomes) (contents : List UInt8) :
    outcomes.Truncates contents ↔
      ∃ bytes, outcomes.put contents = some bytes ∧ bytes ≠ contents := by
  obtain ⟨opened, written, closed, renamed, unlinked⟩ := outcomes
  match opened, written, closed, renamed with
  | none, _, _, _ | some _, .failed _, _, _ | some _, .reported _, false, _
  | some _, .reported _, true, false => simp [Truncates, put]
  | some _, .reported count, true, true => simp [Truncates, put]

theorem allOrNothing_replaceFile_iff (outcomes : Outcomes) (filename : FilePath)
    (contents : List UInt8) (files : Files) :
    AllOrNothing (replaceFile outcomes filename contents) filename contents files ↔
      ¬ outcomes.Truncates contents := by
  have hrun := run_replaceFile outcomes filename contents files
  rw [outcomes.truncates_iff]
  cases hput : outcomes.put contents with
  | none =>
    simp only [hput] at hrun
    obtain ⟨e, files', hresult, hkept⟩ := hrun
    simp [AllOrNothing, hresult, hkept]
  | some bytes =>
    simp only [hput] at hrun
    obtain ⟨files', hresult, hnew⟩ := hrun
    simp [AllOrNothing, hresult, hnew]

/-- A file is replaced all or not at all, by either function, exactly when no short write gets as
far as the rename. -/
theorem allOrNothing_iff_not_truncates (outcomes : Outcomes) (filename : FilePath)
    (contents : List UInt8) (files : Files) :
    (AllOrNothing (atomicReplaceFile outcomes filename contents) filename contents files ↔
        ¬ outcomes.Truncates contents) ∧
      (AllOrNothing (createFile outcomes filename contents) filename contents files ↔
        ¬ outcomes.Truncates contents) :=
  ⟨allOrNothing_replaceFile_iff outcomes filename contents files,
    allOrNothing_replaceFile_iff outcomes filename contents files⟩

/-- The disk has room for two bytes of three. -/
theorem not_allOrNothing_nearly_full_disk :
    ¬ AllOrNothing (atomicReplaceFile ⟨some "1", .reported 2, true, true, true⟩
      ⟨"state", "swingset.json"⟩ [123, 125, 10]) ⟨"state", "swingset.json"⟩ [123, 125, 10]
      fun _ ↦ none := by
  intro h
  have hheld : some ([123, 125] : List UInt8) = some [123, 125, 10] := h
  exact absurd hheld (by decide)

/-! ### The call as its node sees it -/

/-- The completions that the node sees. -/
def Outcomes.events (outcomes : Outcomes) (contents : List UInt8) : List FileEvent :=
  let undo : List FileEvent := [.unlinked outcomes.unlinked]
  match outcomes.opened, outcomes.written with
  | none, _ => [.opened false]
  | some _, .failed _ => .opened true :: .wrote .error :: undo
  | some _, .reported count =>
    .opened true :: .wrote (if count < contents.length then .some else .all) ::
      match outcomes.closed, outcomes.renamed with
      | false, _ => .closed false :: undo
      | true, false => .closed true :: .renamed false :: undo
      | true, true => [.closed true, .renamed true]

/-- `Replacing.step`, with what has been put under the name of the target. -/
def putStep (s : Replacing (List UInt8) × Option (Contents (List UInt8))) (event : FileEvent) :
    Option (Replacing (List UInt8) × Option (Contents (List UInt8))) :=
  (s.1.step event).map fun next ↦ (next.1, next.2.orElse fun _ ↦ s.2)

/-- What `bytes` are of the contents. -/
def contentsOf (contents bytes : List UInt8) : Contents (List UInt8) :=
  if bytes = contents then .whole contents else .short contents

/-- The node sees the call return exactly where the program does, and of the target it knows
whether the contents are there as a whole. -/
theorem run_replacing_eq (outcomes : Outcomes) (contents : List UInt8) :
    run putStep (.opening contents, none) (outcomes.events contents) =
      match outcomes.put contents with
      | some bytes => some (.returned, some (contentsOf contents bytes))
      | none => some (.threw, none) := by
  obtain ⟨opened, written, closed, renamed, unlinked⟩ := outcomes
  match opened, written, closed, renamed with
  | none, _, _, _ | some _, .failed _, _, _ => rfl
  | some _, .reported count, false, _ | some _, .reported count, true, false =>
    by_cases hshort : count < contents.length <;>
      simp [Outcomes.events, Outcomes.put, putStep, Replacing.step, run, hshort]
  | some _, .reported count, true, true =>
    by_cases hshort : count < contents.length
    · have htake : contents.take count ≠ contents := by simpa using hshort
      simp [Outcomes.events, Outcomes.put, putStep, Replacing.step, run, contentsOf, hshort]
    · have htake : contents.take count = contents := by simpa using hshort
      simp [Outcomes.events, Outcomes.put, putStep, Replacing.step, run, contentsOf, hshort]

end CosmicSwingset.Solo
