import CosmicSwingset.Foundation.SortedJson
import CosmicSwingset.Foundation.Transition
import Mathlib.Data.List.Induction

/-!
# Provisioning a public key

`enablePubkey` of the provisioning server sends one token to a public key with `ag-cosmos-helper`,
up to ten times until the helper reports success, and then asks the controller to provision it. What
the helper reports is its exit code, or the code in its output where the exit code is 0; whether the
transfer has been committed is something else. A transfer that was committed although a failure is
reported is made again.

So not more than one transfer is committed, and a reply that all is well means exactly one, in every
call whose helpers report the truth (`safe_of_truthful`): none that reports a failure has committed
its transfer, and every one that reports success has.

What Python does with numbers and texts is a parameter (`Python`). The waits between the attempts
and the output on the console have no effect here.
-/

set_option autoImplicit false
set_option relaxedAutoImplicit false

namespace CosmicSwingset.Provisioning

open Foundation Json

universe u

variable {ν : Type u}

/-- Numbers as Python compares and prints them, and `json.loads(output.decode('utf-8'))`, which may
raise an exception. -/
structure Python (ν : Type u) where
  ofNat : ℕ → ν
  isZero : ν → Bool
  isZero_ofNat : ∀ n, isZero (ofNat n) = decide (n = 0)
  str : Json ν → String
  loads : List UInt8 → Option (Json ν)

/-- `v == 0`; `False` is a zero, too. -/
def Python.equalsZero (python : Python ν) : Json ν → Bool
  | .num n => python.isZero n
  | .bool b => !b
  | _ => false

/-- The truth value of `v`. -/
def Python.truth (python : Python ν) : Json ν → Bool
  | .null => false
  | .bool b => b
  | .num n => !python.isZero n
  | .str s => s ≠ ""
  | .arr elements => !elements.isEmpty
  | .obj members => !members.isEmpty

/-! ### `enablePubkey` -/

structure Config where
  rpcAddrs : List String
  bootstrapAddress : String
  chainName : String
  gci : String

def INITIAL_TOKEN : String := "1agmedallion"

/-- The arguments of `ag-cosmos-helper`; `statedir` is in the server's own directory. -/
def sendArgs (config : Config) (statedir pubkey rpcAddr : String) : List String :=
  ["ag-cosmos-helper", "tx", "send", config.bootstrapAddress, pubkey, INITIAL_TOKEN, "--yes",
    "--chain-id", config.chainName, "-ojson", "--node", "tcp://" ++ rpcAddr, "--home", statedir,
    "--broadcast-mode", "block"]

/-- One run of the helper. Whether it has committed the transfer is independent of what it says;
there is no exit code when a signal has ended it. -/
structure Attempt where
  rpcAddr : String
  committed : Bool
  exitCode : Option ℕ
  output : List UInt8
  deriving DecidableEq

/-- What comes of the request to the controller: an exception, with its text, of the request or of
the reading of the response; or a response, with its JSON value. -/
inductive ControllerOutcome (ν : Type u)
  | exception (e : String)
  | response (code : ℕ) (rawResp : Json ν)

inductive Event (ν : Type u)
  | helper (attempt : Attempt)
  /-- There can be no process. -/
  | spawnProcessFails
  | controller (outcome : ControllerOutcome ν)

/-- A helper that was started. -/
structure HelperCall where
  args : List String
  committed : Bool
  deriving DecidableEq

structure Reply (ν : Type u) where
  mobj : Json ν
  server_message : Json ν
  config : Config

inductive Phase (ν : Type u)
  /-- In the loop, with a helper at work. -/
  | transferring
  | contacting
  | replied (reply : Reply ν)
  /-- An exception has ended the call. -/
  | raised

/-- A call of `enablePubkey`. -/
structure EnablePubkey (ν : Type u) where
  retries : ℕ
  calls : List HelperCall
  phase : Phase ν

/-- What the call is made with. -/
structure Request where
  config : Config
  statedir : String
  nickname : String
  pubkey : String

def mobj (request : Request) : Json ν :=
  .obj [("type", .str "pleaseProvision"), ("nickname", .str request.nickname),
    ("pubkey", .str request.pubkey)]

def ret (request : Request) (server_message : Json ν) : Phase ν :=
  .replied ⟨mobj request, server_message, request.config⟩

def refusal (error : Json ν) : Json ν := .obj [("ok", .bool false), ("error", error)]

section Steps

variable (python : Python ν) (request : Request)

/-- The value of `code` after an attempt, where there is no exception. -/
def code (attempt : Attempt) : Option (Json ν) :=
  match attempt.exitCode with
  | none => some .null
  | some (n + 1) => some (.num (python.ofNat (n + 1)))
  | some 0 =>
    match python.loads attempt.output with
    | some (.obj oj) => some ((member "code" oj).getD (.num (python.ofNat 0)))
    | _ => none

/-- The server's message after the request to the controller, where there is no exception. -/
def controllerMessage : ControllerOutcome ν → Option (Json ν)
  | .exception e => some (refusal (.str e))
  | .response code rawResp =>
    if code < 200 ∨ 300 ≤ code then
      some (refusal (.str ("invalid response code " ++ toString code)))
    else
      match rawResp with
      | .obj members =>
        if !python.truth ((member "ok" members).getD .null) then
          some (refusal ((member "rej" members).getD .null))
        else
          match member "res" members with
          | some r =>
            (property "ingressIndex" r).map fun ingressIndex ↦
              .obj [("ok", .bool true), ("gci", .str request.config.gci),
                ("rpcAddrs", .arr (request.config.rpcAddrs.map .str)),
                ("chainName", .str request.config.chainName), ("ingressIndex", ingressIndex)]
          | none => none
      | _ => none

/-- `random.choice` raises an exception when there are no addresses. -/
def start : EnablePubkey ν where
  retries := 10
  calls := []
  phase := if request.config.rpcAddrs = [] then .raised else .transferring

/-- What follows an attempt. -/
def afterAttempt (retries : ℕ) : Option (Json ν) → Phase ν
  | none => .raised
  | some code =>
    if python.equalsZero code then .contacting
    else if 0 < retries then .transferring
    else ret request (refusal (.str ("transfer returned " ++ python.str code)))

def step (s : EnablePubkey ν) : Event ν → Option (EnablePubkey ν)
  | .helper attempt =>
    match s.phase with
    | .transferring =>
      if attempt.rpcAddr ∈ request.config.rpcAddrs then
        some
          { retries := s.retries - 1
            calls := s.calls ++ [⟨sendArgs request.config request.statedir request.pubkey
              attempt.rpcAddr, attempt.committed⟩]
            phase := afterAttempt python request (s.retries - 1) (code python attempt) }
      else none
    | _ => none
  | .spawnProcessFails =>
    match s.phase with
    | .transferring => some { s with phase := .raised }
    | _ => none
  | .controller outcome =>
    match s.phase with
    | .contacting =>
      some { s with
        phase := ((controllerMessage python request outcome).map (ret request)).getD .raised }
    | _ => none

end Steps

/-! ### What should hold of a call -/

/-- Arguments that send the token to the public key. -/
def isTransfer (pubkey : String) : List String → Bool
  | _ :: "tx" :: "send" :: _ :: recipient :: amount :: _ =>
    recipient = pubkey && amount = INITIAL_TOKEN
  | _ => false

/-- The committed transfers of the token to the public key. -/
def EnablePubkey.committed (s : EnablePubkey ν) (pubkey : String) : List HelperCall :=
  s.calls.filter fun call ↦ isTransfer pubkey call.args && call.committed

def isOk (server_message : Json ν) : Bool :=
  match property "ok" server_message with
  | some (.bool b) => b
  | _ => false

/-- The call has ended with a reply that all is well. -/
def EnablePubkey.repliedOk (s : EnablePubkey ν) : Bool :=
  match s.phase with
  | .replied reply => isOk reply.server_message
  | _ => false

structure Safe (pubkey : String) (s : EnablePubkey ν) : Prop where
  atMostOne : (s.committed pubkey).length ≤ 1
  exactlyOne : s.repliedOk = true → (s.committed pubkey).length = 1

/-! ### What the helper reports -/

def Event.attempt : Event ν → Option Attempt
  | .helper attempt => some attempt
  | _ => none

def attempts (events : List (Event ν)) : List Attempt := events.filterMap Event.attempt

/-- A failure is reported. -/
def Fails (python : Python ν) (attempt : Attempt) : Prop :=
  ∃ v, code python attempt = some v ∧ python.equalsZero v = false

/-- Success is reported. -/
def Succeeds (python : Python ν) (attempt : Attempt) : Prop :=
  ∃ v, code python attempt = some v ∧ python.equalsZero v = true

/-- The report is true; output that cannot be read reports nothing. -/
structure Truthful (python : Python ν) (attempt : Attempt) : Prop where
  failure : Fails python attempt → attempt.committed = false
  success : Succeeds python attempt → attempt.committed = true

/-- The controller provisions the public key. -/
def Accepts (python : Python ν) (request : Request) (outcome : ControllerOutcome ν) : Prop :=
  ∃ message, controllerMessage python request outcome = some message ∧ isOk message = true

/-! ### What a call has done -/

/-- Where an event is possible, and what follows it. -/
theorem step_cases {python : Python ν} {request : Request} {s s' : EnablePubkey ν} {e : Event ν}
    (h : step python request s e = some s') :
    (∃ attempt, e = .helper attempt ∧ s.phase = .transferring ∧
      s' = ⟨s.retries - 1,
        s.calls ++ [⟨sendArgs request.config request.statedir request.pubkey attempt.rpcAddr,
          attempt.committed⟩],
        afterAttempt python request (s.retries - 1) (code python attempt)⟩) ∨
    (e = .spawnProcessFails ∧ s.phase = .transferring ∧ s' = { s with phase := .raised }) ∨
    ∃ outcome, e = .controller outcome ∧ s.phase = .contacting ∧
      s' = { s with
        phase := ((controllerMessage python request outcome).map (ret request)).getD .raised } := by
  cases e with
  | helper attempt =>
    simp only [step] at h
    split at h
    · rename_i hphase
      split_ifs at h
      exact Or.inl ⟨attempt, rfl, hphase, (Option.some.inj h).symm⟩
    · simp at h
  | spawnProcessFails =>
    simp only [step] at h
    split at h
    · rename_i hphase
      exact Or.inr (Or.inl ⟨rfl, hphase, (Option.some.inj h).symm⟩)
    · simp at h
  | controller outcome =>
    simp only [step] at h
    split at h
    · rename_i hphase
      exact Or.inr (Or.inr ⟨outcome, rfl, hphase, (Option.some.inj h).symm⟩)
    · simp at h

/-- The state of a call in view of its events so far. -/
structure Traced (python : Python ν) (request : Request) (events : List (Event ν))
    (s : EnablePubkey ν) : Prop where
  calls : s.calls = (attempts events).map fun a ↦
    ⟨sendArgs request.config request.statedir request.pubkey a.rpcAddr, a.committed⟩
  retries : s.retries + s.calls.length = 10
  /-- The loop goes on after a failure only. -/
  failing : ∀ a ∈ (attempts events).dropLast, Fails python a
  transferring : s.phase = .transferring → 0 < s.retries ∧ ∀ a ∈ attempts events, Fails python a
  contacted : (s.phase = .contacting ∨ ∃ outcome, Event.controller outcome ∈ events) →
    ∃ a ∈ attempts events, Succeeds python a
  repliedOk : s.repliedOk = true ↔
    ∃ outcome, Event.controller outcome ∈ events ∧ Accepts python request outcome

section Traced

variable {python : Python ν} {request : Request} {events : List (Event ν)} {s : EnablePubkey ν}

theorem traced_start : Traced python request [] (start (ν := ν) request) where
  calls := rfl
  retries := rfl
  failing := fun a ha ↦ absurd ha List.not_mem_nil
  transferring := fun _ ↦ ⟨Nat.succ_pos 9, fun a ha ↦ absurd ha List.not_mem_nil⟩
  contacted := by
    rintro (hphase | ⟨outcome, hmem⟩)
    · simp only [start] at hphase
      split_ifs at hphase
    · exact absurd hmem List.not_mem_nil
  repliedOk := by
    have hphase : (start (ν := ν) request).repliedOk = false := by
      simp only [start, EnablePubkey.repliedOk]
      split_ifs <;> rfl
    simp [hphase]

theorem repliedOk_afterAttempt (retries : ℕ) (reported : Option (Json ν)) (n : ℕ)
    (calls : List HelperCall) :
    (⟨n, calls, afterAttempt python request retries reported⟩ : EnablePubkey ν).repliedOk =
      false := by
  cases reported with
  | none => rfl
  | some v =>
    simp only [afterAttempt]
    split_ifs <;> rfl

theorem attempts_concat_helper (events : List (Event ν)) (attempt : Attempt) :
    attempts (events ++ [.helper attempt]) = attempts events ++ [attempt] := by
  rw [attempts, List.filterMap_append]
  rfl

/-- While a helper is at work, nothing has been asked of the controller. -/
theorem Traced.notRepliedOk (h : Traced python request events s)
    (hphase : ∀ reply, s.phase ≠ .replied reply) :
    ∀ outcome, Event.controller outcome ∈ events → ¬ Accepts python request outcome := by
  intro outcome hmem haccepts
  have hok := h.repliedOk.mpr ⟨outcome, hmem, haccepts⟩
  cases hreply : s.phase with
  | replied reply => exact hphase reply hreply
  | _ => simp [EnablePubkey.repliedOk, hreply] at hok

theorem Traced.helper (h : Traced python request events s) (hphase : s.phase = .transferring)
    (attempt : Attempt) :
    Traced python request (events ++ [.helper attempt])
      ⟨s.retries - 1,
        s.calls ++ [⟨sendArgs request.config request.statedir request.pubkey attempt.rpcAddr,
          attempt.committed⟩],
        afterAttempt python request (s.retries - 1) (code python attempt)⟩ := by
  obtain ⟨hretries, hfail⟩ := h.transferring hphase
  have hold : ∀ outcome, Event.controller outcome ∈ events ++ [.helper attempt] ↔
      Event.controller outcome ∈ events := by simp
  refine ⟨?_, ?_, ?_, fun hnext ↦ ?_, fun hnext ↦ ?_, ?_⟩
  · rw [attempts_concat_helper, List.map_append, h.calls]
    rfl
  · have hsum := h.retries
    rw [List.length_append, List.length_singleton]
    change s.retries - 1 + (s.calls.length + 1) = 10
    omega
  · rw [attempts_concat_helper, List.dropLast_concat]
    exact hfail
  · -- the loop goes on: the attempt has failed, and retries are left
    cases hcode : code python attempt with
    | none => simp [afterAttempt, hcode] at hnext
    | some v =>
      simp only [afterAttempt, hcode, ret] at hnext
      split_ifs at hnext with hzero hleft
      refine ⟨hleft, fun a ha ↦ ?_⟩
      rw [attempts_concat_helper] at ha
      rcases List.mem_append.mp ha with hmem | hmem
      · exact hfail a hmem
      · rw [List.mem_singleton.mp hmem]
        exact ⟨v, hcode, Bool.eq_false_iff.mpr hzero⟩
  · rw [attempts_concat_helper]
    rcases hnext with hcontacting | ⟨outcome, hmem⟩
    · cases hcode : code python attempt with
      | none => simp [afterAttempt, hcode] at hcontacting
      | some v =>
        simp only [afterAttempt, hcode, ret] at hcontacting
        split_ifs at hcontacting with hzero
        exact ⟨attempt, by simp, v, hcode, hzero⟩
    · obtain ⟨a, ha, hsucceeds⟩ := h.contacted (Or.inr ⟨outcome, (hold outcome).mp hmem⟩)
      exact ⟨a, List.mem_append_left _ ha, hsucceeds⟩
  · rw [repliedOk_afterAttempt]
    have hnone := h.notRepliedOk fun reply ↦ by simp [hphase]
    simp only [hold]
    simp only [Bool.false_eq_true, false_iff, not_exists, not_and]
    exact hnone

theorem Traced.spawnProcessFails (h : Traced python request events s)
    (hphase : s.phase = .transferring) :
    Traced python request (events ++ [.spawnProcessFails]) { s with phase := .raised } := by
  have hattempts : attempts (events ++ [.spawnProcessFails]) = attempts events := by
    rw [attempts, List.filterMap_append]
    exact List.append_nil _
  have hold : ∀ outcome, Event.controller outcome ∈ events ++ [.spawnProcessFails] ↔
      Event.controller outcome ∈ events := by simp
  refine ⟨hattempts ▸ h.calls, h.retries, hattempts ▸ h.failing, fun hnext ↦ by simp at hnext,
    fun hnext ↦ ?_, ?_⟩
  · rcases hnext with hcontacting | ⟨outcome, hmem⟩
    · simp at hcontacting
    · rw [hattempts]
      exact h.contacted (Or.inr ⟨outcome, (hold outcome).mp hmem⟩)
  · have hnone := h.notRepliedOk fun reply ↦ by simp [hphase]
    simp only [hold, EnablePubkey.repliedOk, Bool.false_eq_true, false_iff, not_exists, not_and]
    exact hnone

theorem Traced.controller (h : Traced python request events s) (hphase : s.phase = .contacting)
    (outcome : ControllerOutcome ν) :
    Traced python request (events ++ [.controller outcome])
      { s with
        phase := ((controllerMessage python request outcome).map (ret request)).getD .raised } := by
  have hattempts : attempts (events ++ [.controller outcome]) = attempts events := by
    rw [attempts, List.filterMap_append]
    exact List.append_nil _
  have hnone := h.notRepliedOk fun reply ↦ by simp [hphase]
  refine ⟨hattempts ▸ h.calls, h.retries, hattempts ▸ h.failing, fun hnext ↦ ?_, fun _ ↦ ?_, ?_⟩
  · cases hmessage : controllerMessage python request outcome <;> simp [hmessage, ret] at hnext
  · rw [hattempts]
    exact h.contacted (Or.inl hphase)
  · have hnew : (EnablePubkey.repliedOk { s with
          phase := ((controllerMessage python request outcome).map (ret request)).getD .raised }) =
        true ↔ Accepts python request outcome := by
      rw [Accepts]
      cases hmessage : controllerMessage python request outcome with
      | none => simp [EnablePubkey.repliedOk]
      | some message => simp [EnablePubkey.repliedOk, ret]
    rw [hnew]
    constructor
    · exact fun haccepts ↦ ⟨outcome, by simp, haccepts⟩
    · rintro ⟨other, hmem, haccepts⟩
      rcases List.mem_append.mp hmem with hold | hlast
      · exact absurd haccepts (hnone other hold)
      · rwa [← Event.controller.inj (List.mem_singleton.mp hlast)]

theorem Traced.step (h : Traced python request events s) {e : Event ν} {s' : EnablePubkey ν}
    (hstep : step python request s e = some s') : Traced python request (events ++ [e]) s' := by
  obtain ⟨attempt, rfl, hphase, rfl⟩ | ⟨rfl, hphase, rfl⟩ | ⟨outcome, rfl, hphase, rfl⟩ :=
    step_cases hstep
  · exact h.helper hphase attempt
  · exact h.spawnProcessFails hphase
  · exact h.controller hphase outcome

theorem traced_of_run (hrun : run (Provisioning.step python request) (start request) events =
    some s) : Traced python request events s := by
  induction events using List.reverseRecOn generalizing s with
  | nil =>
    obtain rfl := Option.some.inj hrun
    exact traced_start
  | append_singleton events e ih =>
    rw [run_append, Option.bind_eq_some_iff] at hrun
    obtain ⟨t, hbefore, hlast⟩ := hrun
    obtain ⟨t', hstep, hend⟩ := run_cons_eq_some.mp hlast
    obtain rfl := Option.some.inj hend
    exact (ih hbefore).step hstep

/-- The helper is started ten times at most. -/
theorem length_calls_le
    (hrun : run (Provisioning.step python request) (start request) events = some s) :
    s.calls.length ≤ 10 := by
  have hretries := (traced_of_run hrun).retries
  omega

/-- An exit code other than 0, or none, is a failure, whatever the output is. -/
theorem fails_of_exitCode {attempt : Attempt} (h : attempt.exitCode ≠ some 0) :
    Fails python attempt := by
  cases hexit : attempt.exitCode with
  | none => exact ⟨.null, by rw [code, hexit], rfl⟩
  | some n =>
    cases n with
    | zero => exact absurd hexit h
    | succ n =>
      refine ⟨.num (python.ofNat (n + 1)), by rw [code, hexit], ?_⟩
      rw [Python.equalsZero, python.isZero_ofNat]
      simp

/-! ### When it holds -/

/-- Every attempt sends the token to the public key. -/
theorem Traced.committed_length (h : Traced python request events s) :
    (s.committed request.pubkey).length =
      ((attempts events).filter fun a ↦ a.committed).length := by
  have htransfer : ∀ rpcAddr, isTransfer request.pubkey
      (sendArgs request.config request.statedir request.pubkey rpcAddr) = true := by
    simp [isTransfer, sendArgs]
  rw [EnablePubkey.committed, h.calls, List.filter_map, List.length_map]
  simp only [Function.comp_def, htransfer, Bool.true_and]

/-- Of a list in which only the last element has a property, one element at most has it. -/
theorem length_filter_le_one {α : Type*} {p : α → Bool} {l : List α}
    (h : ∀ a ∈ l.dropLast, p a = false) : (l.filter p).length ≤ 1 := by
  induction l using List.reverseRecOn with
  | nil => exact Nat.zero_le 1
  | append_singleton l a _ =>
    rw [List.dropLast_concat] at h
    have hfirst : l.filter p = [] := List.filter_eq_nil_iff.mpr fun b hb ↦
      Bool.eq_false_iff.mp (h b hb)
    rw [List.filter_append, hfirst, List.nil_append]
    exact (List.length_filter_le p [a]).trans_eq (List.length_singleton)

/-- All attempts but the last have failed; if this is true, only the last can have committed. -/
theorem Traced.atMostOne (h : Traced python request events s)
    (htruthful : ∀ a ∈ attempts events, Truthful python a) :
    (s.committed request.pubkey).length ≤ 1 := by
  rw [h.committed_length]
  refine length_filter_le_one fun a ha ↦ ?_
  exact (htruthful a (List.dropLast_subset _ ha)).failure (h.failing a ha)

/-- In every call, if what its helpers report is true, at most one transfer is committed, and
exactly one where the reply says that all is well. -/
theorem safe_of_truthful
    (hrun : run (Provisioning.step python request) (start request) events = some s)
    (htruthful : ∀ a ∈ attempts events, Truthful python a) : Safe request.pubkey s := by
  have h := traced_of_run hrun
  refine ⟨h.atMostOne htruthful, fun hok ↦ ?_⟩
  obtain ⟨outcome, hmem, -⟩ := h.repliedOk.mp hok
  -- the controller is asked after a success only
  obtain ⟨a, ha, hsucceeds⟩ := h.contacted (Or.inr ⟨outcome, hmem⟩)
  have hcommitted := (htruthful a ha).success hsucceeds
  have hpos : 0 < (s.committed request.pubkey).length := by
    rw [h.committed_length]
    exact List.length_pos_of_mem (List.mem_filter.mpr ⟨ha, hcommitted⟩)
  have hmost := h.atMostOne htruthful
  omega

end Traced

section Example

def pythonNat : Python ℕ where
  ofNat := id
  isZero := fun n ↦ n = 0
  isZero_ofNat := fun _ ↦ rfl
  str := fun v ↦ String.ofList (render Numerals.nat v)
  loads := fun output ↦ parse Numerals.nat (output.map fun b ↦ Char.ofNat b.toNat)

def exampleRequest : Request where
  config := ⟨["167.99.0.1:26657", "167.99.0.2:26657"], "agoric1boot", "testnet-1.14", "5b1f"⟩
  statedir := "/home/user/.ag-pserver/ag-cosmos-helper-statedir"
  nickname := "alice"
  pubkey := "agoric1alice"

def provisioned : Event ℕ :=
  .controller (.response 200 (.obj [("ok", .bool true),
    ("res", .obj [("ingressIndex", .num 3)])]))

/-- The helper cannot reach its node at first. -/
def unreachableNode : List (Event ℕ) :=
  [.helper ⟨"167.99.0.1:26657", false, some 1, []⟩,
    .helper ⟨"167.99.0.2:26657", true, some 0, [0x7b, 0x7d]⟩, provisioned]

theorem safe_unreachableNode :
    ∃ s, run (step pythonNat exampleRequest) (start exampleRequest) unreachableNode = some s ∧
      s.repliedOk = true ∧ Safe exampleRequest.pubkey s := by
  refine ⟨_, rfl, rfl, ?_⟩
  have hrun : run (step pythonNat exampleRequest) (start exampleRequest) unreachableNode =
      some _ := rfl
  refine safe_of_truthful hrun (List.forall_mem_cons.mpr ⟨⟨fun _ ↦ rfl, ?_⟩,
    List.forall_mem_singleton.mpr ⟨?_, fun _ ↦ rfl⟩⟩)
  · rintro ⟨v, hv, hzero⟩
    obtain rfl := Option.some.inj hv
    exact absurd hzero (by decide)
  · rintro ⟨v, hv, hnonzero⟩
    obtain rfl := Option.some.inj hv
    exact absurd hnonzero (by decide)

/-- The helper's node does not answer in time, but the transfer is committed in the next block. -/
theorem not_safe_late_block :
    ∃ s, run (step pythonNat exampleRequest) (start exampleRequest)
        [.helper ⟨"167.99.0.1:26657", true, some 1, []⟩,
          .helper ⟨"167.99.0.2:26657", true, some 0, [0x7b, 0x7d]⟩] = some s ∧
      ¬ Safe exampleRequest.pubkey s :=
  ⟨_, rfl, fun h ↦ absurd h.atMostOne (by decide)⟩

end Example

end CosmicSwingset.Provisioning
