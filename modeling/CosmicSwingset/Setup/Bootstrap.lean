import CosmicSwingset.Foundation.Transition
import Mathlib.Data.List.DropRight
import Mathlib.Data.List.Nodup

/-!
# Stamps of the bootstrap

`bootstrap` can be run again after it was interrupted: each of its steps is guarded by a file that
`guardFile` writes when the step has succeeded, and is skipped when the file is there. A new chain
name makes it remove the directories of the old chain first, which takes many operations and may be
interrupted as well (`Bootstrap.step`).

Whatever the runs and the interruptions, the stamps that are there when there is a chain name are
those of steps that succeeded under that name, and only these are skipped (`stamps_fresh`); a run
that reaches its end has all of them (`stamps_complete`).
-/

set_option autoImplicit false
set_option relaxedAutoImplicit false

namespace CosmicSwingset.Setup

open Foundation

/-! ### Files -/

def cosmosDir : String := "ag-chain-cosmos"

def controllerDir : String := "ag-pserver"

/-- The files in the two directories that guard a step, `chain-name.txt` apart. -/
inductive StampFile
  | controllerPrepare
  | cosmosPrepare
  | cosmosGenesis
  | cosmosPeers
  | cosmosInstall
  | cosmosService
  | cosmosStart
  | cosmosValidators
  | controllerChain
  | controllerGci
  | controllerRpcAddrs
  | controllerInstall
  | controllerSoloService
  | controllerSoloStart
  | controllerPubkeys
  | controllerService
  | controllerStart
  deriving DecidableEq

def StampFile.all : List StampFile :=
  [controllerPrepare, cosmosPrepare, cosmosGenesis, cosmosPeers, cosmosInstall, cosmosService,
    cosmosStart, cosmosValidators, controllerChain, controllerGci, controllerRpcAddrs,
    controllerInstall, controllerSoloService, controllerSoloStart, controllerPubkeys,
    controllerService, controllerStart]

theorem StampFile.mem_all (file : StampFile) : file ∈ all := by
  cases file <;> decide

def StampFile.path : StampFile → String
  | controllerPrepare => controllerDir ++ "/prepare.stamp"
  | cosmosPrepare => cosmosDir ++ "/prepare.stamp"
  | cosmosGenesis => cosmosDir ++ "/genesis.stamp"
  | cosmosPeers => cosmosDir ++ "/data/peers.txt"
  | cosmosInstall => cosmosDir ++ "/install.stamp"
  | cosmosService => cosmosDir ++ "/service.stamp"
  | cosmosStart => cosmosDir ++ "/start.stamp"
  | cosmosValidators => cosmosDir ++ "/validators.stamp"
  | controllerChain => controllerDir ++ "/data/cosmos-chain.json"
  | controllerGci => controllerDir ++ "/gci.txt"
  | controllerRpcAddrs => controllerDir ++ "/rpcaddrs.txt"
  | controllerInstall => controllerDir ++ "/install.stamp"
  | controllerSoloService => controllerDir ++ "/solo-service.stamp"
  | controllerSoloStart => controllerDir ++ "/solo-start.stamp"
  | controllerPubkeys => controllerDir ++ "/pubkeys.stamp"
  | controllerService => controllerDir ++ "/service.stamp"
  | controllerStart => controllerDir ++ "/start.stamp"

/-- No two steps share a guard. -/
theorem StampFile.path_injective : Function.Injective StampFile.path := by
  have hnodup : (all.map path).Nodup := by decide
  intro a b hpath
  exact List.inj_on_of_nodup_map hnodup a.mem_all b.mem_all hpath

/-- A command that must succeed, without the flags that carry a value of the run. -/
abbrev Command := List String

/-- The commands of the guarded step, in their order. The text of `cosmos-chain.json` is that of an
earlier `show-config`. -/
def StampFile.commands : StampFile → List Command
  | controllerPrepare => [["play", "prepare-controller"]]
  | cosmosPrepare => [["play", "prepare-cosmos"]]
  | cosmosGenesis => [["play", "cosmos-genesis"], ["set-json.js", "--agoric-genesis-overrides"]]
  | cosmosPeers => [["show-peers"]]
  | cosmosInstall => [["play", "install-cosmos"]]
  | cosmosService => [["play", "install"]]
  | cosmosStart => [["play", "start"]]
  | cosmosValidators => [["play", "cosmos-validators"]]
  | controllerChain => []
  | controllerGci => [["show-gci"]]
  | controllerRpcAddrs => [["show-rpcaddrs"]]
  | controllerInstall => [["play", "install-controller"]]
  | controllerSoloService =>
    [["play", "install", "-eservice=ag-controller", "-euser=ag-pserver"]]
  | controllerSoloStart =>
    [["play", "start", "-eservice=ag-controller", "-euser=ag-pserver"],
      ["status", "-euser=ag-pserver", "-lnode0", "-eservice=ag-controller"]]
  | controllerPubkeys =>
    [["ssh", "ag-pserver", "sudo", "-u", "ag-pserver", "/usr/src/app/ve3/bin/ag-pserver",
      "add-pubkeys", "-c", "http://localhost:8000/vat"]]
  | controllerService => [["play", "install", "-eservice=ag-pserver"]]
  | controllerStart => [["play", "start", "-eservice=ag-pserver"]]

/-- White space and line terminators, which `trimRight` removes. -/
def isTrimmed (c : Char) : Bool :=
  c.toNat ∈ [0x9, 0xA, 0xB, 0xC, 0xD, 0x20, 0xA0, 0x1680, 0x2028, 0x2029, 0x202F, 0x205F, 0x3000,
    0xFEFF] || (0x2000 ≤ c.toNat && c.toNat ≤ 0x200A)

def trimRight (s : String) : String := String.ofList (s.toList.rdropWhile isTrimmed)

/-- The name of a chain, from the text of `network.txt` and that of `chain-version.txt`. -/
def chainName (networkTxt versionTxt : String) : String :=
  trimRight networkTxt ++ "-" ++ trimRight versionTxt

/-! ### Runs of `bootstrap` -/

/-- * `init`: creates `network.txt` unless it is there.
* `plain`: runs a command, perhaps one guarded by a file elsewhere, that leaves these files alone.
* `bump`: `bump-chain-version`.
* `version`, `name`, `stamp`: `guardFile` of `chain-version.txt`, `chain-name.txt` or a stamp.
* `compare`: compares the chain name with the file.
* `remove`: `rm -rf` of the two directories. -/
inductive Step
  | init (networkName : String)
  | plain (command : Command)
  | bump
  | version
  | compare
  | remove
  | name
  | stamp (file : StampFile)
  deriving DecidableEq

/-- Where `guardFile` stands: it looks for the file, or it has called the maker, with these commands
left; when there are none it creates the file. -/
inductive Phase
  | checking
  | making (left : List Command)

/-- The name is the one that the run has compared, and `rest` what it has yet to do. `ran` lists the
commands of the current step that have succeeded, each with what `chain-name.txt` said then. -/
structure Run where
  chainName : String
  rest : List Step
  phase : Phase
  ran : List (Command × Option String)

/-- What a stamp is known by: the commands that had succeeded when it was created, and what
`chain-name.txt` said then. -/
structure Stamp where
  ran : List (Command × Option String)
  name : Option String
  deriving DecidableEq

/-- The stamp was created under the chain name `X`, after the commands of its step had succeeded
under that name. -/
def Stamp.Valid (stamp : Stamp) (file : StampFile) (X : String) : Prop :=
  stamp.ran = file.commands.map (fun command ↦ (command, some X)) ∧ stamp.name = some X

/-- `networkTxt`, `versionTxt` and `nameTxt` are the contents of `network.txt`, `chain-version.txt`
and `chain-name.txt`. -/
structure Bootstrap where
  networkTxt : Option String
  versionTxt : Option String
  nameTxt : Option String
  stamps : StampFile → Option Stamp
  run : Option Run

/-- * `start`: someone runs `bootstrap`, perhaps with `--bump`.
* `next`: the run takes its next step, or the next command of it succeeds.
* `bumped`: `bump-chain-version` writes a version.
* `unlink`, `unlinkName`: `rm -rf` removes a file.
* `crash`: the run is interrupted, or the command it runs fails. -/
inductive BootstrapEvent
  | start (networkName : String) (bump : Bool)
  | next
  | bumped (vstr : String)
  | unlink (file : StampFile)
  | unlinkName
  | crash

/-- The services that are stopped before the directories are removed; it does not matter whether
that succeeds. -/
def stops : List Step :=
  [.plain ["play", "stop", "-eservice=ag-pserver"],
    .plain ["play", "stop", "-eservice=ag-controller", "-euser=ag-pserver"],
    .plain ["play", "stop", "-eservice=ag-chain-cosmos"]]

/-- What follows `chain-name.txt`. -/
def stampSteps : List Step :=
  [.stamp .controllerPrepare, .stamp .cosmosPrepare, .stamp .cosmosGenesis, .stamp .cosmosPeers,
    .stamp .cosmosInstall, .plain ["show-bootstrap-address"], .stamp .cosmosService,
    .stamp .cosmosStart, .plain ["wait-for-any"], .stamp .cosmosValidators, .plain ["show-config"],
    .stamp .controllerChain, .stamp .controllerGci, .stamp .controllerRpcAddrs,
    .stamp .controllerInstall, .stamp .controllerSoloService, .stamp .controllerSoloStart,
    .stamp .controllerPubkeys, .stamp .controllerService, .stamp .controllerStart,
    .plain ["show-rpcaddrs"]]

/-- `bootstrap` up to where it compares the chain names. -/
def firstSteps (networkName : String) (bump : Bool) : List Step :=
  [.init networkName, .plain ["provision", "-auto-approve"], .plain ["play", "update_known_hosts"],
    .plain ["play", "prepare-machine"]] ++ (if bump then [.bump] else []) ++ [.version]

def bootstrapSteps (networkName : String) (bump : Bool) : List Step :=
  firstSteps networkName bump ++ .compare :: .name :: stampSteps

/-- The run has done the first of its steps. -/
def Run.goOn (r : Run) (rest : List Step) : Run :=
  { r with rest := rest, phase := .checking }

namespace Bootstrap

/-- `guardFile` until its next command has succeeded: `present` tells whether the file is there, and
`create` creates it. The other steps follow when it returns. -/
def guardFile (s : Bootstrap) (r : Run) (rest : List Step) (present : Bool)
    (commands : List Command) (create : Bootstrap) : Bootstrap :=
  match r.phase with
  | .checking =>
    if present then { s with run := some (r.goOn rest) }
    else { s with run := some { r with phase := .making commands, ran := [] } }
  | .making (command :: left) =>
    { s with run := some { r with phase := .making left, ran := r.ran ++ [(command, s.nameTxt)] } }
  | .making [] => { create with run := some (r.goOn rest) }

/-- The next step of the run. -/
def next (s : Bootstrap) (r : Run) : Option Bootstrap :=
  match r.rest with
  | [] => some { s with run := none }
  | .init networkName :: rest =>
    some { s with
      networkTxt := some (s.networkTxt.getD networkName)
      run := some (r.goOn rest) }
  | .plain _ :: rest => some { s with run := some (r.goOn rest) }
  | .bump :: _ => none
  | .version :: rest =>
    some (s.guardFile r rest s.versionTxt.isSome [] { s with versionTxt := some "0.0.0" })
  | .compare :: rest =>
    match s.networkTxt, s.versionTxt with
    | some networkTxt, some versionTxt =>
      let name := chainName networkTxt versionTxt
      let r := { r with chainName := name }
      if s.nameTxt.map trimRight = some name then some { s with run := some (r.goOn rest) }
      else some { s with run := some (r.goOn (stops ++ .remove :: rest)) }
    -- there is nothing to read: the run fails
    | _, _ => none
  | .remove :: rest =>
    if s.nameTxt = none ∧ ∀ file ∈ StampFile.all, s.stamps file = none then
      some { s with run := some (r.goOn rest) }
    else none
  | .name :: rest =>
    some (s.guardFile r rest s.nameTxt.isSome [] { s with nameTxt := some r.chainName })
  | .stamp file :: rest =>
    some (s.guardFile r rest (s.stamps file).isSome file.commands
      { s with stamps := Function.update s.stamps file (some ⟨r.ran, s.nameTxt⟩) })

def step (s : Bootstrap) : BootstrapEvent → Option Bootstrap
  | .start networkName bump =>
    match s.run with
    | none => some { s with run := some ⟨"", bootstrapSteps networkName bump, .checking, []⟩ }
    | some _ => none
  | .next => s.run.bind s.next
  | .bumped vstr =>
    s.run.bind fun r ↦
      match r.rest with
      | .bump :: rest => some { s with versionTxt := some vstr, run := some (r.goOn rest) }
      | _ => none
  | .unlink file =>
    s.run.bind fun r ↦
      match r.rest with
      | .remove :: _ => some { s with stamps := Function.update s.stamps file none }
      | _ => none
  | .unlinkName =>
    s.run.bind fun r ↦
      match r.rest with
      | .remove :: _ => some { s with nameTxt := none }
      | _ => none
  | .crash => some { s with run := none }

/-- A setup directory in which `bootstrap` was never run. -/
def initial (networkTxt versionTxt : Option String) : Bootstrap :=
  ⟨networkTxt, versionTxt, none, fun _ ↦ none, none⟩

/-! ### Chain names -/

theorem rdropWhile_append_cons {α : Type*} {p : α → Bool} {c : α} (hc : ¬ p c) (xs : List α)
    {ys : List α} (hys : ys.rdropWhile p = ys) :
    (xs ++ c :: ys).rdropWhile p = xs ++ c :: ys := by
  rcases List.eq_nil_or_concat' ys with rfl | ⟨zs, d, rfl⟩
  · exact List.rdropWhile_concat_neg _ _ _ hc
  · have hd : ¬ p d := by
      have hlast := List.rdropWhile_eq_self_iff.mp hys (by simp)
      rwa [List.getLast_append_singleton] at hlast
    have hassoc : xs ++ c :: (zs ++ [d]) = (xs ++ c :: zs) ++ [d] := by simp
    rw [hassoc]
    exact List.rdropWhile_concat_neg _ _ _ hd

/-- A chain name reads back as it was written. -/
theorem trimRight_chainName (networkTxt versionTxt : String) :
    trimRight (chainName networkTxt versionTxt) = chainName networkTxt versionTxt := by
  have hlist : (chainName networkTxt versionTxt).toList =
      (trimRight networkTxt).toList ++ '-' :: versionTxt.toList.rdropWhile isTrimmed := by
    simp [chainName, trimRight]
  apply String.toList_inj.mp
  rw [trimRight, String.toList_ofList, hlist]
  apply rdropWhile_append_cons
  · decide
  · exact List.rdropWhile_idempotent _ _

/-! ### The invariant -/

variable {s s' : Bootstrap} {r : Run} {rest : List Step}

/-- The steps that come before the chain names are compared. -/
def Before : Step → Prop
  | .init _ | .plain _ | .bump | .version => True
  | .compare | .remove | .name | .stamp _ => False

/-- The steps that come after `chain-name.txt`. -/
def After : Step → Prop
  | .plain _ | .stamp _ => True
  | .init _ | .bump | .version | .compare | .remove | .name => False

/-- All the stamps are those of the chain `X`. -/
def Stamped (s : Bootstrap) (X : String) : Prop :=
  ∀ file stamp, s.stamps file = some stamp → stamp.Valid file X

/-- The commands of the current step that have succeeded and those that are left are all of them,
under the name of the run. -/
def OnTrack (r : Run) : Prop :=
  ∀ file rest left, r.rest = .stamp file :: rest → r.phase = .making left →
    r.ran ++ left.map (fun command ↦ (command, some r.chainName)) =
      file.commands.map fun command ↦ (command, some r.chainName)

/-- How far a run has got. It has not compared the names; it has found another name, and the files
of the old chain are going; the file with its own name is there, or it and the stamps are gone; or
its own name stays where it is while the stamps come. -/
inductive Progress (s : Bootstrap) (r : Run) : Prop
  | before (first : List Step) (hfirst : ∀ x ∈ first, Before x)
      (hrest : r.rest = first ++ .compare :: .name :: stampSteps)
  | removing (first : List Step) (hfirst : ∀ x ∈ first, ∃ command, x = .plain command)
      (hrest : r.rest = first ++ .remove :: .name :: stampSteps)
      (htrim : trimRight r.chainName = r.chainName)
  | naming (hrest : r.rest = .name :: stampSteps) (htrim : trimRight r.chainName = r.chainName)
      (hname : s.nameTxt = some r.chainName ∧ r.phase = .checking ∨
        s.nameTxt = none ∧ ∀ file, s.stamps file = none)
  | stamping (hrest : ∀ x ∈ r.rest, After x) (hname : s.nameTxt = some r.chainName)
      (htrack : OnTrack r) (hcover : ∀ file, .stamp file ∈ r.rest ∨ s.stamps file ≠ none)

/-- The stamps are those of the chain in `chain-name.txt`, which reads back as it was written, and
the run has got somewhere. -/
structure Sound (s : Bootstrap) : Prop where
  stamped : ∀ X, s.nameTxt = some X → s.Stamped X
  trimmed : ∀ X, s.nameTxt = some X → trimRight X = X
  progress : ∀ r, s.run = some r → s.Progress r

theorem sound_initial (networkTxt versionTxt : Option String) :
    (initial networkTxt versionTxt).Sound where
  stamped _ hname := nomatch hname
  trimmed _ hname := nomatch hname
  progress _ hrun := nomatch hrun

/-! ### Steps -/

theorem guardFile_cases {present : Bool} {commands : List Command} {create : Bootstrap}
    (h : s.guardFile r rest present commands create = s') :
    r.phase = .checking ∧ present = true ∧ s' = { s with run := some (r.goOn rest) } ∨
    r.phase = .checking ∧ present = false ∧
      s' = { s with run := some { r with phase := .making commands, ran := [] } } ∨
    (∃ command left, r.phase = .making (command :: left) ∧
      s' = { s with
        run := some { r with phase := .making left, ran := r.ran ++ [(command, s.nameTxt)] } }) ∨
    r.phase = .making [] ∧ s' = { create with run := some (r.goOn rest) } := by
  subst h
  cases hphase : r.phase with
  | checking => cases present <;> simp [guardFile, hphase]
  | making left => cases left <;> simp [guardFile, hphase]

/-- `chain-name.txt` and the stamps are as they were. -/
theorem Sound.of_unchanged (h : s.Sound) (hname : s'.nameTxt = s.nameTxt)
    (hstamps : s'.stamps = s.stamps) (hprogress : ∀ r, s'.run = some r → s'.Progress r) :
    s'.Sound where
  stamped X hX file stamp hstamp := by
    rw [hname] at hX
    rw [hstamps] at hstamp
    exact h.stamped X hX file stamp hstamp
  trimmed X hX := by
    rw [hname] at hX
    exact h.trimmed X hX
  progress := hprogress

theorem Progress.congr (h : s.Progress r) (hname : s'.nameTxt = s.nameTxt)
    (hstamps : s'.stamps = s.stamps) : s'.Progress r := by
  cases h with
  | before first hfirst hrest => exact .before first hfirst hrest
  | removing first hfirst hrest htrim => exact .removing first hfirst hrest htrim
  | naming hrest htrim hfound =>
    apply Progress.naming hrest htrim
    rwa [hname, hstamps]
  | stamping hafter hown htrack hcover =>
    apply Progress.stamping hafter _ htrack
    · rwa [hstamps]
    · rwa [hname]

/-- The run goes on, and `chain-name.txt` and the stamps are as they were. -/
theorem Sound.goOn (h : s.Sound) (hname : s'.nameTxt = s.nameTxt) (hstamps : s'.stamps = s.stamps)
    (hrun : s'.run = some r) (hprogress : s.Progress r) : s'.Sound := by
  refine h.of_unchanged hname hstamps fun r' hr' ↦ ?_
  cases hrun.symm.trans hr'
  exact hprogress.congr hname hstamps

theorem mem_stampSteps (file : StampFile) : .stamp file ∈ stampSteps := by
  cases file <;> decide

theorem after_stampSteps : ∀ x ∈ stampSteps, After x := by
  simp [stampSteps, After]

theorem onTrack_of_checking (hphase : r.phase = .checking) : OnTrack r := by
  intro file rest left _ hmaking
  rw [hphase] at hmaking
  contradiction

/-- With its own name in `chain-name.txt` a run turns to the stamps. -/
theorem Progress.turn (hname : s.nameTxt = some r.chainName) (hrest : r.rest = stampSteps)
    (hphase : r.phase = .checking) : s.Progress r := by
  refine .stamping ?_ hname (onTrack_of_checking hphase) ?_
  · rw [hrest]
    exact after_stampSteps
  · intro file
    rw [hrest]
    exact Or.inl (mem_stampSteps file)

/-- The names are compared: the run goes on to `chain-name.txt`, or removes the directories
first. -/
theorem Sound.next_compare (h : s.Sound) (hrest : r.rest = .compare :: .name :: stampSteps)
    (hnext : s.next r = some s') : s'.Sound := by
  simp only [next, hrest] at hnext
  split at hnext
  · split at hnext
    · rename_i networkTxt versionTxt hnetwork hversion heq
      cases hnext
      obtain ⟨X, hX, htrim⟩ := Option.map_eq_some_iff.mp heq
      rw [h.trimmed X hX] at htrim
      rw [htrim] at hX
      have htrimmed := trimRight_chainName networkTxt versionTxt
      exact h.goOn rfl rfl rfl (.naming rfl htrimmed (Or.inl ⟨hX, rfl⟩))
    · rename_i networkTxt versionTxt hnetwork hversion hne
      cases hnext
      have htrimmed := trimRight_chainName networkTxt versionTxt
      refine h.goOn rfl rfl rfl (.removing stops ?_ rfl htrimmed)
      simp [stops]
  · contradiction

theorem Sound.next_before (h : s.Sound) {first : List Step} (hfirst : ∀ x ∈ first, Before x)
    (hrest : r.rest = first ++ .compare :: .name :: stampSteps) (hnext : s.next r = some s') :
    s'.Sound := by
  cases first with
  | nil => exact h.next_compare hrest hnext
  | cons x first =>
    have hfirst' : ∀ x ∈ first, Before x := fun x hx ↦ hfirst x (List.mem_cons_of_mem _ hx)
    rw [List.cons_append] at hrest
    cases x with
    | init networkName =>
      simp only [next, hrest, Option.some.injEq] at hnext
      subst hnext
      exact h.goOn rfl rfl rfl (.before first hfirst' rfl)
    | plain command =>
      simp only [next, hrest, Option.some.injEq] at hnext
      subst hnext
      exact h.goOn rfl rfl rfl (.before first hfirst' rfl)
    | bump => simp [next, hrest] at hnext
    | version =>
      simp only [next, hrest, Option.some.injEq] at hnext
      rcases guardFile_cases hnext with ⟨-, -, rfl⟩ | ⟨-, -, rfl⟩ | ⟨_, _, -, rfl⟩ | ⟨-, rfl⟩
      · exact h.goOn rfl rfl rfl (.before first hfirst' rfl)
      · exact h.goOn rfl rfl rfl (.before (.version :: first) hfirst hrest)
      · exact h.goOn rfl rfl rfl (.before (.version :: first) hfirst hrest)
      · exact h.goOn rfl rfl rfl (.before first hfirst' rfl)
    | compare | remove | name | stamp file => exact (hfirst _ List.mem_cons_self).elim

/-- `rm -rf` has succeeded when nothing is left. -/
theorem Sound.next_removing (h : s.Sound) {first : List Step}
    (hfirst : ∀ x ∈ first, ∃ command, x = .plain command)
    (hrest : r.rest = first ++ .remove :: .name :: stampSteps)
    (htrim : trimRight r.chainName = r.chainName) (hnext : s.next r = some s') : s'.Sound := by
  cases first with
  | nil =>
    simp only [next, hrest, List.nil_append] at hnext
    split at hnext
    · rename_i hgone
      cases hnext
      have hstamps : ∀ file, s.stamps file = none := fun file ↦ hgone.2 file file.mem_all
      exact h.goOn rfl rfl rfl (.naming rfl htrim (Or.inr ⟨hgone.1, hstamps⟩))
    · contradiction
  | cons x first =>
    obtain ⟨command, rfl⟩ := hfirst x List.mem_cons_self
    simp only [next, hrest, List.cons_append, Option.some.injEq] at hnext
    subst hnext
    have hfirst' : ∀ x ∈ first, ∃ command, x = .plain command :=
      fun x hx ↦ hfirst x (List.mem_cons_of_mem _ hx)
    exact h.goOn rfl rfl rfl (.removing first hfirst' rfl htrim)

/-- `chain-name.txt` is written only when no stamp is left. -/
theorem Sound.next_naming (h : s.Sound) (hrest : r.rest = .name :: stampSteps)
    (htrim : trimRight r.chainName = r.chainName)
    (hname : s.nameTxt = some r.chainName ∧ r.phase = .checking ∨
      s.nameTxt = none ∧ ∀ file, s.stamps file = none)
    (hnext : s.next r = some s') : s'.Sound := by
  simp only [next, hrest, Option.some.injEq] at hnext
  rcases hname with ⟨hname, hchecking⟩ | ⟨hname, hgone⟩
  · rcases guardFile_cases hnext with ⟨-, -, rfl⟩ | ⟨-, habsent, -⟩ | ⟨_, _, hmaking, -⟩ |
      ⟨hmaking, -⟩
    · exact h.goOn rfl rfl rfl (Progress.turn hname rfl rfl)
    · simp [hname] at habsent
    · simp [hchecking] at hmaking
    · simp [hchecking] at hmaking
  · rcases guardFile_cases hnext with ⟨-, hpresent, -⟩ | ⟨-, -, rfl⟩ | ⟨_, _, -, rfl⟩ | ⟨-, rfl⟩
    · simp [hname] at hpresent
    · exact h.goOn rfl rfl rfl (.naming hrest htrim (Or.inr ⟨hname, hgone⟩))
    · exact h.goOn rfl rfl rfl (.naming hrest htrim (Or.inr ⟨hname, hgone⟩))
    · constructor
      · intro X _ file stamp hstamp
        rw [hgone file] at hstamp
        contradiction
      · intro X hX
        cases hX
        exact htrim
      · intro r' hr'
        cases hr'
        exact Progress.turn rfl rfl rfl

/-- A stamp comes after the commands of its step, under the name of the run. -/
theorem Sound.create (h : s.Sound) (hname : s.nameTxt = some r.chainName) {file : StampFile}
    (hran : r.ran = file.commands.map fun command ↦ (command, some r.chainName)) {other : StampFile}
    {stamp : Stamp}
    (hstamp : Function.update s.stamps file (some ⟨r.ran, s.nameTxt⟩) other = some stamp) :
    stamp.Valid other r.chainName := by
  rcases eq_or_ne other file with rfl | hne
  · rw [Function.update_self, Option.some.injEq] at hstamp
    subst hstamp
    exact ⟨hran, hname⟩
  · rw [Function.update_of_ne hne] at hstamp
    exact h.stamped _ hname other stamp hstamp

/-- A run on its way through the stamps goes on to the next step, when that of `file` is stamped. -/
theorem Progress.pass (file : StampFile) (hafter : ∀ x ∈ rest, After x)
    (hname : s.nameTxt = some r.chainName)
    (hcover : ∀ other, other = file ∨ .stamp other ∈ rest ∨ s.stamps other ≠ none)
    (hfile : s.stamps file ≠ none) : s.Progress (r.goOn rest) := by
  refine .stamping hafter hname (onTrack_of_checking rfl) fun other ↦ ?_
  rcases hcover other with rfl | hother
  · exact Or.inr hfile
  · exact hother

theorem Sound.next_stamp (h : s.Sound) {file : StampFile} (hrest : r.rest = .stamp file :: rest)
    (hafter : ∀ x ∈ r.rest, After x) (hname : s.nameTxt = some r.chainName) (htrack : OnTrack r)
    (hcover : ∀ file, .stamp file ∈ r.rest ∨ s.stamps file ≠ none)
    (hnext : s.next r = some s') : s'.Sound := by
  have hafter' : ∀ x ∈ rest, After x := by
    intro x hx
    exact hafter x (hrest ▸ List.mem_cons_of_mem _ hx)
  have hcover' : ∀ other, other = file ∨ .stamp other ∈ rest ∨ s.stamps other ≠ none := by
    intro other
    simpa [hrest, or_assoc] using hcover other
  simp only [next, hrest, Option.some.injEq] at hnext
  rcases guardFile_cases hnext with ⟨-, hpresent, rfl⟩ | ⟨-, -, rfl⟩ |
    ⟨command, left, hmaking, rfl⟩ | ⟨hmaking, rfl⟩
  · have hfile : s.stamps file ≠ none := Option.isSome_iff_ne_none.mp hpresent
    exact h.goOn rfl rfl rfl (.pass file hafter' hname hcover' hfile)
  · refine h.goOn rfl rfl rfl (.stamping hafter hname ?_ hcover)
    intro other rest' left hrest' hmaking
    cases hrest.symm.trans hrest'
    cases hmaking
    rfl
  · refine h.goOn rfl rfl rfl (.stamping hafter hname ?_ hcover)
    intro other rest' left' hrest' hmaking'
    cases hrest.symm.trans hrest'
    cases hmaking'
    have hran := htrack file rest (command :: left) hrest hmaking
    simpa [hname] using hran
  · have hran := htrack file rest [] hrest hmaking
    rw [List.map_nil, List.append_nil] at hran
    constructor
    · intro X hX other stamp hstamp
      cases hname.symm.trans hX
      exact h.create hname hran hstamp
    · exact h.trimmed
    · intro r' hr'
      cases hr'
      refine .pass file hafter' hname ?_ (by simp)
      intro other
      rcases eq_or_ne other file with rfl | hne
      · exact Or.inl rfl
      · simpa [Function.update_of_ne hne] using hcover' other

theorem Sound.next_stamping (h : s.Sound) (hafter : ∀ x ∈ r.rest, After x)
    (hname : s.nameTxt = some r.chainName) (htrack : OnTrack r)
    (hcover : ∀ file, .stamp file ∈ r.rest ∨ s.stamps file ≠ none)
    (hnext : s.next r = some s') : s'.Sound := by
  cases hrest : r.rest with
  | nil =>
    simp only [next, hrest, Option.some.injEq] at hnext
    subst hnext
    exact h.of_unchanged rfl rfl fun r' hr' ↦ nomatch hr'
  | cons x rest =>
    have hx : After x := hafter x (hrest ▸ List.mem_cons_self)
    cases x with
    | plain command =>
      simp only [next, hrest, Option.some.injEq] at hnext
      subst hnext
      refine h.goOn rfl rfl rfl (.stamping ?_ hname (onTrack_of_checking rfl) fun file ↦ ?_)
      · intro x hx
        exact hafter x (hrest ▸ List.mem_cons_of_mem _ hx)
      · change .stamp file ∈ rest ∨ s.stamps file ≠ none
        simpa [hrest] using hcover file
    | stamp file => exact h.next_stamp hrest hafter hname htrack hcover hnext
    | init _ | bump | version | compare | remove | name => exact hx.elim

theorem Sound.next (h : s.Sound) (hrun : s.run = some r) (hnext : s.next r = some s') :
    s'.Sound := by
  cases h.progress r hrun with
  | before first hfirst hrest => exact h.next_before hfirst hrest hnext
  | removing first hfirst hrest htrim => exact h.next_removing hfirst hrest htrim hnext
  | naming hrest htrim hname => exact h.next_naming hrest htrim hname hnext
  | stamping hafter hname htrack hcover => exact h.next_stamping hafter hname htrack hcover hnext

theorem before_firstSteps (networkName : String) (bump : Bool) :
    ∀ x ∈ firstSteps networkName bump, Before x := by
  cases bump <;> simp [firstSteps, Before]

/-- The next step of a run that has some steps of a kind before it. -/
theorem head_cases {P : Step → Prop} {x y : Step} {first tail : List Step}
    (hfirst : ∀ x ∈ first, P x) (hrest : r.rest = x :: rest)
    (hsplit : r.rest = first ++ y :: tail) :
    x = y ∧ rest = tail ∨ P x ∧ ∃ first, (∀ x ∈ first, P x) ∧ rest = first ++ y :: tail := by
  rw [hrest] at hsplit
  cases first with
  | nil => exact Or.inl (List.cons.inj hsplit)
  | cons z first =>
    obtain ⟨rfl, htail⟩ := List.cons.inj hsplit
    have hfirst' : ∀ x ∈ first, P x := fun x hx ↦ hfirst x (List.mem_cons_of_mem _ hx)
    exact Or.inr ⟨hfirst x List.mem_cons_self, first, hfirst', htail⟩

/-- What is known of a run by its next step. -/
theorem Progress.next_cases {x : Step} (h : s.Progress r) (hrest : r.rest = x :: rest) :
    (Before x ∧ ∃ first, (∀ x ∈ first, Before x) ∧
      rest = first ++ .compare :: .name :: stampSteps) ∨
    (x = .compare ∨ x = .name ∨ ∃ command, x = .plain command) ∨
    (x = .remove ∧ rest = .name :: stampSteps ∧ trimRight r.chainName = r.chainName) ∨
    After x ∧ s.nameTxt = some r.chainName := by
  cases h with
  | before first hfirst hsplit =>
    rcases head_cases hfirst hrest hsplit with ⟨hx, -⟩ | hbefore
    · exact Or.inr (Or.inl (Or.inl hx))
    · exact Or.inl hbefore
  | removing first hfirst hsplit htrim =>
    rcases head_cases hfirst hrest hsplit with ⟨hx, hchain⟩ | ⟨hx, -⟩
    · exact Or.inr (Or.inr (Or.inl ⟨hx, hchain, htrim⟩))
    · exact Or.inr (Or.inl (Or.inr (Or.inr hx)))
  | naming hname htrim =>
    have hx : x = .name := (List.cons.inj (hrest.symm.trans hname)).1
    exact Or.inr (Or.inl (Or.inr (Or.inl hx)))
  | stamping hafter hname htrack hcover =>
    exact Or.inr (Or.inr (Or.inr ⟨hafter x (hrest ▸ List.mem_cons_self), hname⟩))

/-- Before it bumps the version, a run has not compared the names. -/
theorem Progress.bumped (h : s.Progress r) (hrest : r.rest = .bump :: rest) :
    ∃ first, (∀ x ∈ first, Before x) ∧ rest = first ++ .compare :: .name :: stampSteps := by
  rcases h.next_cases hrest with ⟨-, hbefore⟩ | hx | ⟨hx, -⟩ | ⟨hx, -⟩
  · exact hbefore
  · simp at hx
  · contradiction
  · exact hx.elim

/-- `rm -rf` runs only when the names have been found to differ. -/
theorem Progress.removed (h : s.Progress r) (hrest : r.rest = .remove :: rest) :
    rest = .name :: stampSteps ∧ trimRight r.chainName = r.chainName := by
  rcases h.next_cases hrest with ⟨hx, -⟩ | hx | ⟨-, hremoved⟩ | ⟨hx, -⟩
  · exact hx.elim
  · simp at hx
  · exact hremoved
  · exact hx.elim

/-- A run that has come to a stamp has found or written its own name. -/
theorem Progress.named {file : StampFile} (h : s.Progress r)
    (hrest : r.rest = .stamp file :: rest) : s.nameTxt = some r.chainName := by
  rcases h.next_cases hrest with ⟨hx, -⟩ | hx | ⟨hx, -⟩ | ⟨-, hnamed⟩
  · exact hx.elim
  · simp at hx
  · contradiction
  · exact hnamed

/-- A run with nothing left to do has come past all the stamps. -/
theorem Progress.covered (h : s.Progress r) (hrest : r.rest = []) :
    s.nameTxt = some r.chainName ∧ ∀ file, s.stamps file ≠ none := by
  cases h with
  | before first hfirst hsplit => simp [hrest] at hsplit
  | removing first hfirst hsplit htrim => simp [hrest] at hsplit
  | naming hname htrim => simp [hrest] at hname
  | stamping hafter hname htrack hcover =>
    refine ⟨hname, fun file ↦ ?_⟩
    simpa [hrest] using hcover file

theorem Sound.step {e : BootstrapEvent} (h : s.Sound) (hstep : s.step e = some s') :
    s'.Sound := by
  cases e with
  | start networkName bump =>
    simp only [Bootstrap.step] at hstep
    split at hstep
    · cases hstep
      exact h.goOn rfl rfl rfl (.before _ (before_firstSteps networkName bump) rfl)
    · contradiction
  | next =>
    obtain ⟨r, hrun, hnext⟩ := Option.bind_eq_some_iff.mp hstep
    exact h.next hrun hnext
  | bumped vstr =>
    obtain ⟨r, hrun, hstep⟩ := Option.bind_eq_some_iff.mp hstep
    split at hstep
    · rename_i rest hrest
      cases hstep
      obtain ⟨first, hfirst, hsplit⟩ := (h.progress r hrun).bumped hrest
      exact h.goOn rfl rfl rfl (.before first hfirst hsplit)
    · contradiction
  | unlink file =>
    obtain ⟨r, hrun, hstep⟩ := Option.bind_eq_some_iff.mp hstep
    split at hstep
    · rename_i rest hrest
      cases hstep
      obtain ⟨hchain, htrim⟩ := (h.progress r hrun).removed hrest
      constructor
      · intro X hX other stamp hstamp
        rcases eq_or_ne other file with rfl | hne
        · simp at hstamp
        · simp only [Function.update_of_ne hne] at hstamp
          exact h.stamped X hX other stamp hstamp
      · exact h.trimmed
      · intro r' hr'
        cases hrun.symm.trans hr'
        exact .removing [] (by simp) (by rw [hrest, hchain, List.nil_append]) htrim
    · contradiction
  | unlinkName =>
    obtain ⟨r, hrun, hstep⟩ := Option.bind_eq_some_iff.mp hstep
    split at hstep
    · rename_i rest hrest
      cases hstep
      obtain ⟨hchain, htrim⟩ := (h.progress r hrun).removed hrest
      constructor
      · intro X hX
        contradiction
      · intro X hX
        contradiction
      · intro r' hr'
        cases hrun.symm.trans hr'
        exact .removing [] (by simp) (by rw [hrest, hchain, List.nil_append]) htrim
    · contradiction
  | crash =>
    cases hstep
    exact h.of_unchanged rfl rfl fun r' hr' ↦ nomatch hr'

/-! ### Whole runs -/

/-- The run `r` skips the step that `file` guards. -/
def Skips (s : Bootstrap) (e : BootstrapEvent) (r : Run) (file : StampFile) : Prop :=
  e = .next ∧ s.run = some r ∧ r.phase = .checking ∧ (∃ rest, r.rest = .stamp file :: rest) ∧
    s.stamps file ≠ none

/-- When there is a chain name, the stamps are those of steps that succeeded under it; and a run
skips only a step that has succeeded under the name of that run. -/
structure Fresh (s : Bootstrap) (e : BootstrapEvent) (s' : Bootstrap) : Prop where
  stamped : ∀ X, s'.nameTxt = some X → s'.Stamped X
  skipped : ∀ r file, s.Skips e r file →
    s.nameTxt = some r.chainName ∧
      ∃ stamp, s.stamps file = some stamp ∧ stamp.Valid file r.chainName

theorem Sound.valid (h : s.Sound) {X : String} {file : StampFile} (hname : s.nameTxt = some X)
    (hpresent : s.stamps file ≠ none) :
    ∃ stamp, s.stamps file = some stamp ∧ stamp.Valid file X := by
  obtain ⟨stamp, hstamp⟩ := Option.ne_none_iff_exists'.mp hpresent
  exact ⟨stamp, hstamp, h.stamped X hname file stamp hstamp⟩

theorem Sound.skipped {e : BootstrapEvent} {file : StampFile} (h : s.Sound)
    (hskips : s.Skips e r file) :
    s.nameTxt = some r.chainName ∧
      ∃ stamp, s.stamps file = some stamp ∧ stamp.Valid file r.chainName := by
  obtain ⟨-, hrun, -, ⟨rest, hrest⟩, hpresent⟩ := hskips
  have hname := (h.progress r hrun).named hrest
  exact ⟨hname, h.valid hname hpresent⟩

/-- Whatever is run and wherever it is interrupted, no stamp outlives its chain. -/
theorem stamps_fresh (networkTxt versionTxt : Option String) (events : List BootstrapEvent) :
    AllSteps step Fresh (initial networkTxt versionTxt) events := by
  have hkeep : ∀ s e s', Sound s → step s e = some s' → Sound s' :=
    fun s e s' hs hstep ↦ hs.step hstep
  have hprop : ∀ s e s', Sound s → step s e = some s' → Fresh s e s' :=
    fun s e s' hs hstep ↦ ⟨(hs.step hstep).stamped, fun r file hskips ↦ hs.skipped hskips⟩
  exact AllSteps.of_inductive hkeep hprop (sound_initial networkTxt versionTxt)

/-- A run that comes to its end has the stamps of all steps, under its own name. -/
def Complete (s : Bootstrap) (e : BootstrapEvent) (_ : Bootstrap) : Prop :=
  ∀ r, e = .next → s.run = some r → r.rest = [] →
    s.nameTxt = some r.chainName ∧
      ∀ file, ∃ stamp, s.stamps file = some stamp ∧ stamp.Valid file r.chainName

theorem Sound.complete {e : BootstrapEvent} (h : s.Sound) : s.Complete e s' := by
  intro r _ hrun hrest
  obtain ⟨hname, hcover⟩ := (h.progress r hrun).covered hrest
  exact ⟨hname, fun file ↦ h.valid hname (hcover file)⟩

/-- The same of the runs that are not interrupted: they leave no step out. -/
theorem stamps_complete (networkTxt versionTxt : Option String) (events : List BootstrapEvent) :
    AllSteps step Complete (initial networkTxt versionTxt) events := by
  have hkeep : ∀ s e s', Sound s → step s e = some s' → Sound s' :=
    fun s e s' hs hstep ↦ hs.step hstep
  have hprop : ∀ s e s', Sound s → step s e = some s' → Complete s e s' :=
    fun s e s' hs _ ↦ hs.complete
  exact AllSteps.of_inductive hkeep hprop (sound_initial networkTxt versionTxt)

/-- A run is interrupted, another one while it removes the directories, and a third one comes to its
end. -/
def interrupted : List BootstrapEvent :=
  .start "net" false :: List.replicate 25 .next ++ .crash ::
    .start "net" true :: List.replicate 4 .next ++ .bumped "0.0.1" ::
    List.replicate 5 .next ++ .unlink .cosmosPrepare :: .crash ::
    .start "net" false :: List.replicate 9 .next ++ .unlinkName ::
    StampFile.all.map .unlink ++ List.replicate 60 .next

example :
    (Foundation.run step (initial none none) interrupted).map (fun s ↦ (s.nameTxt, s.run.isNone)) =
      some (some "net-0.0.1", true) := by
  decide

end Bootstrap

end CosmicSwingset.Setup
