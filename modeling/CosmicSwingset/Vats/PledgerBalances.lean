import CosmicSwingset.Foundation.OrderedMap
import CosmicSwingset.Foundation.Transition
import CosmicSwingset.Foundation.Utf16
import Mathlib.Data.List.Lex
import Mathlib.Data.List.Sort

/-!
# The assay ids of the pledger

`getBalances` of `vat-pledger.js` asks every account for its balance, and the registry for the id of
every assay that is not in `registeredAssays`. `setRegistry` puts another registry and an empty
cache in place. A reply of the registry is written into the cache that there is when it arrives,
whichever registry it comes from, and the assay is then looked up there.

Ids are those of the current registry in every run in which no other registry replies late with an
id of its own (`balances_current`). Where one does, the cache of the current registry has the other
one's id from then on, and the next call gives it (`not_balances_current`).

`step` takes one turn of one call, so that calls, replies and `setRegistry` interleave in any order.
-/

set_option autoImplicit false
set_option relaxedAutoImplicit false

namespace CosmicSwingset.Vats

open Foundation

variable {ρ α δ : Type*}

/-- What an account has of an assay; `rest` is all but the assay of the label. -/
structure AssetDesc (α δ : Type*) where
  assay : α
  rest : δ
  deriving DecidableEq

/-- An element of a cooked balance. What the registry has replied is kept with it, if it was
asked. -/
structure Cooked (ρ α δ : Type*) where
  ad : AssetDesc α δ
  assayID : String
  reply : Option (Option ρ × Option String)
  deriving DecidableEq

/-- Where the work on one element stands. The registry is that which was asked; the one of the start
is none. -/
inductive Cooking (ρ α δ : Type*)
  | asked (ad : AssetDesc α δ) (registry : Option ρ)
  | cooked (c : Cooked ρ α δ)
  | rejected
  deriving DecidableEq

/-- Where the work on one account stands. -/
inductive AccountBalance (ρ α δ : Type*)
  | awaiting
  | cooking (cookedBalance : List (Cooking ρ α δ))
  | rejected
  deriving DecidableEq

/-- A call of `getBalances`, and how often the registry had been set when it started. -/
structure BalancesCall (ρ α δ : Type*) where
  epoch : ℕ
  balances : List (String × AccountBalance ρ α δ)
  deriving DecidableEq

abbrev Balances (ρ α δ : Type*) := List (String × List (Cooked ρ α δ))

/-- The pledger. The last three fields record what has happened: how often the registry was set, the
ids that registries have replied, and what the calls have returned. -/
structure PledgerRegistry (ρ α δ : Type*) where
  accounts : List String
  registeredAssays : OrderedMap α String
  registry : Option ρ
  calls : List (BalancesCall ρ α δ)
  epoch : ℕ
  replies : List (ρ × α × String)
  results : OrderedMap ℕ (Balances ρ α δ)

/-- One turn.

* `gotBalance i a`: account `a` of call `i` has its balance, or an error.
* `gotId i a c`: the registry replies for element `c` of it, or there is an error.
* `resolve i`: call `i` returns. -/
inductive PledgerEvent (ρ α δ : Type*)
  | getAccount (accountName : String)
  | setRegistry (newRegistry : ρ)
  | getBalances
  | gotBalance (i a : ℕ) (rawBalance : Option (List (AssetDesc α δ)))
  | gotId (i a c : ℕ) (aid : Option (Option String))
  | resolve (i : ℕ)

/-- The order of `sort`, which compares the texts of the entries. -/
def entryOrder (a b : String) : Bool :=
  utf16 (a ++ ",[object Object]").toList ≤ utf16 (b ++ ",[object Object]").toList

/-- An id that is not falsy. -/
def truthy (aid : Option String) : Option String := aid.filter (· ≠ "")

def Cooking.cooked? : Cooking ρ α δ → Option (Cooked ρ α δ)
  | .cooked c => some c
  | _ => none

def AccountBalance.cooked? : AccountBalance ρ α δ → Option (List (Cooked ρ α δ))
  | .cooking cookedBalance => cookedBalance.mapM Cooking.cooked?
  | _ => none

/-- What the call returns when all is done. -/
def BalancesCall.result? (call : BalancesCall ρ α δ) : Option (Balances ρ α δ) :=
  call.balances.mapM fun balance ↦ balance.2.cooked?.map (balance.1, ·)

def BalancesCall.setBalance (call : BalancesCall ρ α δ) (a : ℕ) (name : String)
    (balance : AccountBalance ρ α δ) : BalancesCall ρ α δ :=
  { call with balances := call.balances.set a (name, balance) }

namespace PledgerRegistry

def fresh : PledgerRegistry ρ α δ := ⟨[], .empty, none, [], 0, [], .empty⟩

def setCall (s : PledgerRegistry ρ α δ) (i : ℕ) (call : BalancesCall ρ α δ) :
    PledgerRegistry ρ α δ :=
  { s with calls := s.calls.set i call }

/-- Account `a` of call `i`. -/
def balanceAt (s : PledgerRegistry ρ α δ) (i a : ℕ) :
    Option (BalancesCall ρ α δ × String × AccountBalance ρ α δ) :=
  s.calls[i]?.bind fun call ↦ call.balances[a]?.map (call, ·)

variable [DecidableEq α]

/-- What the cache has. -/
def registered (s : PledgerRegistry ρ α δ) (assay : α) : Option String :=
  s.registeredAssays.get assay

/-- The assay id from the cache, or the registry is asked. -/
def cook (s : PledgerRegistry ρ α δ) (ad : AssetDesc α δ) : Cooking ρ α δ :=
  match s.registered ad.assay with
  | some assayID => .cooked ⟨ad, assayID, none⟩
  | none => .asked ad s.registry

def cookBalance (s : PledgerRegistry ρ α δ) :
    Option (List (AssetDesc α δ)) → AccountBalance ρ α δ
  | some rawBalance => .cooking (rawBalance.map s.cook)
  | none => .rejected

/-- An id that a registry replies is written into the cache. -/
def register (s : PledgerRegistry ρ α δ) (registry : Option ρ) (assay : α) (aid : Option String) :
    PledgerRegistry ρ α δ :=
  match truthy aid with
  | some id =>
    { s with
      registeredAssays := s.registeredAssays.set assay id
      replies := (registry.toList.map fun r ↦ (r, assay, id)) ++ s.replies }
  | none => s

def assayID (s : PledgerRegistry ρ α δ) (assay : α) : String :=
  (s.registered assay).getD "unregistered"

def step (s : PledgerRegistry ρ α δ) : PledgerEvent ρ α δ → Option (PledgerRegistry ρ α δ)
  | .getAccount accountName =>
    if accountName ∈ s.accounts then some s
    else some { s with accounts := s.accounts ++ [accountName] }
  | .setRegistry newRegistry => some
      { s with
        registeredAssays := .empty
        registry := some newRegistry
        epoch := s.epoch + 1 }
  | .getBalances =>
    let balances := (s.accounts.insertionSort (entryOrder · ·)).map fun name ↦ (name, .awaiting)
    some { s with calls := s.calls ++ [⟨s.epoch, balances⟩] }
  | .gotBalance i a rawBalance =>
    match s.balanceAt i a with
    | some (call, name, .awaiting) =>
      some (s.setCall i (call.setBalance a name (s.cookBalance rawBalance)))
    | _ => none
  | .gotId i a c aid =>
    match s.balanceAt i a with
    | some (call, name, .cooking cookedBalance) =>
      match cookedBalance[c]?, aid with
      | some (.asked ad registry), some aid =>
        -- the registry of the start knows nothing
        if registry.isNone && aid.isSome then none
        else
          let s := s.register registry ad.assay aid
          let cooked := .cooked ⟨ad, s.assayID ad.assay, some (registry, aid)⟩
          some (s.setCall i (call.setBalance a name (.cooking (cookedBalance.set c cooked))))
      | some (.asked _ _), none =>
        some (s.setCall i (call.setBalance a name (.cooking (cookedBalance.set c .rejected))))
      | _, _ => none
    | _ => none
  | .resolve i =>
    match s.calls[i]?.bind BalancesCall.result?, s.results.get i with
    | some result, none => some { s with results := s.results.set i result }
    | _, _ => none

/-! ### What a call should return -/

/-- The id is one that the registry has replied for the assay, or the registry was asked for this
element and had none. -/
def FromRegistry (s : PledgerRegistry ρ α δ) (R : ρ) (c : Cooked ρ α δ) : Prop :=
  (R, c.ad.assay, c.assayID) ∈ s.replies ∨
    c.assayID = "unregistered" ∧ ∃ reply ∈ c.reply, reply.1 = some R ∧ truthy reply.2 = none

/-- A call that returns and has started under the same registry has all its ids from it. -/
def Current (s : PledgerRegistry ρ α δ) : PledgerEvent ρ α δ → Prop
  | .resolve i => ∀ call ∈ s.calls[i]?, call.epoch = s.epoch → ∀ R ∈ s.registry,
      ∀ result ∈ call.result?, ∀ balance ∈ result, ∀ c ∈ balance.2, s.FromRegistry R c
  | _ => True

/-- The assay of an element for which the registry is asked, and which one is. -/
def asked (s : PledgerRegistry ρ α δ) (i a c : ℕ) : Option (α × Option ρ) :=
  match s.balanceAt i a with
  | some (_, _, .cooking cookedBalance) =>
    match cookedBalance[c]? with
    | some (.asked ad registry) => some (ad.assay, registry)
    | _ => none
  | _ => none

/-- An id that is replied comes from the current registry, or this one has replied the same
before. -/
def OnTime (s : PledgerRegistry ρ α δ) : PledgerEvent ρ α δ → Prop
  | .gotId i a c aid => ∀ question ∈ s.asked i a c, ∀ reply ∈ aid, ∀ id ∈ truthy reply,
      question.2 = s.registry ∨ ∃ R ∈ s.registry, (R, question.1, id) ∈ s.replies
  | _ => True

instance FromRegistry.instDecidable [DecidableEq ρ] (s : PledgerRegistry ρ α δ)
    (R : ρ) (c : Cooked ρ α δ) : Decidable (s.FromRegistry R c) :=
  inferInstanceAs (Decidable ((R, c.ad.assay, c.assayID) ∈ s.replies ∨
    c.assayID = "unregistered" ∧ ∃ reply ∈ c.reply, reply.1 = some R ∧ truthy reply.2 = none))

instance OnTime.instDecidable [DecidableEq ρ] (s : PledgerRegistry ρ α δ)
    (e : PledgerEvent ρ α δ) : Decidable (s.OnTime e) :=
  match e with
  | .gotId i a c aid => inferInstanceAs (Decidable (∀ question ∈ s.asked i a c, ∀ reply ∈ aid,
      ∀ id ∈ truthy reply, question.2 = s.registry ∨
        ∃ R ∈ s.registry, (R, question.1, id) ∈ s.replies))
  | .getAccount _ | .setRegistry _ | .getBalances | .gotBalance .. | .resolve _ => .isTrue trivial

/-! ### One turn -/

section Turns

variable {s s' : PledgerRegistry ρ α δ} {i a c : ℕ}

theorem step_gotBalance {rawBalance : Option (List (AssetDesc α δ))}
    (hstep : step s (.gotBalance i a rawBalance) = some s') :
    ∃ call name, s.balanceAt i a = some (call, name, .awaiting) ∧
      s' = s.setCall i (call.setBalance a name (s.cookBalance rawBalance)) := by
  simp only [step] at hstep
  split at hstep
  · rename_i call name hat
    exact ⟨call, name, hat, (Option.some.inj hstep).symm⟩
  · simp at hstep

theorem step_gotId {aid : Option (Option String)} (hstep : step s (.gotId i a c aid) = some s') :
    ∃ call name cookedBalance ad registry,
      s.balanceAt i a = some (call, name, .cooking cookedBalance) ∧
      cookedBalance[c]? = some (.asked ad registry) ∧
      match aid with
      | none => s' = s.setCall i (call.setBalance a name (.cooking (cookedBalance.set c .rejected)))
      | some aid => (registry = none → aid = none) ∧
          s' = (s.register registry ad.assay aid).setCall i
            (call.setBalance a name (.cooking (cookedBalance.set c (.cooked ⟨ad,
              (s.register registry ad.assay aid).assayID ad.assay, some (registry, aid)⟩)))) := by
  simp only [step] at hstep
  split at hstep
  · rename_i call name cookedBalance hat
    split at hstep
    · rename_i ad registry aid hcell haid
      split at hstep
      · simp at hstep
      · rename_i hknows
        refine ⟨call, name, cookedBalance, ad, registry, hat, hcell, ?_,
          (Option.some.inj hstep).symm⟩
        rintro rfl
        simpa using hknows
    · rename_i ad registry hcell haid
      exact ⟨call, name, cookedBalance, ad, registry, hat, hcell, (Option.some.inj hstep).symm⟩
    · simp at hstep
  · simp at hstep

theorem step_resolve (hstep : step s (.resolve i) = some s') :
    ∃ call result, s.calls[i]? = some call ∧ call.result? = some result ∧ s.results.get i = none ∧
      s' = { s with results := s.results.set i result } := by
  simp only [step] at hstep
  split at hstep
  · rename_i result hresult hnone
    obtain ⟨call, hcall, hresult⟩ := Option.bind_eq_some_iff.mp hresult
    exact ⟨call, result, hcall, hresult, hnone, (Option.some.inj hstep).symm⟩
  · simp at hstep

end Turns

/-! ### The cache holds ids of the current registry -/

end PledgerRegistry

def AccountBalance.cells : AccountBalance ρ α δ → List (Cooking ρ α δ)
  | .cooking cookedBalance => cookedBalance
  | _ => []

theorem mem_of_mapM_eq_some {β γ : Type*} {f : β → Option γ} {l : List β} {l' : List γ}
    (h : l.mapM f = some l') {y : γ} (hy : y ∈ l') : ∃ x ∈ l, f x = some y := by
  induction l generalizing l' with
  | nil =>
    obtain rfl := Option.some.inj h
    exact absurd hy List.not_mem_nil
  | cons x l ih =>
    rw [List.mapM_cons, Option.bind_eq_bind, Option.bind_eq_some_iff] at h
    obtain ⟨z, hz, h⟩ := h
    obtain ⟨rest, hrest, h⟩ := Option.bind_eq_some_iff.mp h
    obtain rfl := Option.some.inj h
    rcases List.mem_cons.mp hy with rfl | hy
    · exact ⟨x, List.mem_cons_self, hz⟩
    · obtain ⟨w, hw, hfw⟩ := ih hrest hy
      exact ⟨w, List.mem_cons_of_mem x hw, hfw⟩

/-- What a call returns has been cooked in it. -/
theorem BalancesCall.mem_result {call : BalancesCall ρ α δ} {result : Balances ρ α δ}
    (h : call.result? = some result) {balance : String × List (Cooked ρ α δ)}
    (hbalance : balance ∈ result) {c : Cooked ρ α δ} (hc : c ∈ balance.2) :
    ∃ other ∈ call.balances, .cooked c ∈ other.2.cells := by
  obtain ⟨⟨name, cooking⟩, hother, heq⟩ := mem_of_mapM_eq_some h hbalance
  obtain ⟨cookedBalance, hcooked, rfl⟩ := Option.map_eq_some_iff.mp heq
  refine ⟨(name, cooking), hother, ?_⟩
  cases cooking with
  | cooking cells =>
    obtain ⟨cell, hcell, hfound⟩ := mem_of_mapM_eq_some hcooked hc
    cases cell with
    | cooked c' =>
      obtain rfl := Option.some.inj hfound
      exact hcell
    | asked | rejected => exact absurd hfound (by simp [Cooking.cooked?])
  | awaiting | rejected => exact absurd hcooked (by simp [AccountBalance.cooked?])

namespace PledgerRegistry

/-- An element of a call that has started under the current registry. -/
def Sourced (s : PledgerRegistry ρ α δ) : Cooking ρ α δ → Prop
  | .asked _ registry => registry = s.registry
  | .cooked c => (∃ R ∈ s.registry, (R, c.ad.assay, c.assayID) ∈ s.replies) ∨
      c.assayID = "unregistered" ∧
        ∃ reply ∈ c.reply, reply.1 = s.registry ∧ truthy reply.2 = none
  | .rejected => True

section Calls

variable {s s' : PledgerRegistry ρ α δ} {i a : ℕ}

theorem balanceAt_eq_some {call : BalancesCall ρ α δ} {entry : String × AccountBalance ρ α δ} :
    s.balanceAt i a = some (call, entry) ↔
      s.calls[i]? = some call ∧ call.balances[a]? = some entry := by
  simp only [balanceAt, Option.bind_eq_some_iff, Option.map_eq_some_iff, Prod.mk.injEq]
  constructor
  · rintro ⟨call, hcall, entry, hentry, rfl, rfl⟩
    exact ⟨hcall, hentry⟩
  · rintro ⟨hcall, hentry⟩
    exact ⟨call, hcall, entry, hentry, rfl, rfl⟩

theorem Sourced.mono {cell : Cooking ρ α δ} (hregistry : s'.registry = s.registry)
    (hreplies : ∀ reply ∈ s.replies, reply ∈ s'.replies) (h : s.Sourced cell) :
    s'.Sourced cell := by
  cases cell with
  | asked ad registry => exact h.trans hregistry.symm
  | rejected => trivial
  | cooked c =>
    rw [Sourced, hregistry]
    exact h.imp_left fun ⟨R, hR, hreply⟩ ↦ ⟨R, hR, hreplies _ hreply⟩

end Calls

variable [DecidableEq α]

structure Kept (s : PledgerRegistry ρ α δ) : Prop where
  cache : ∀ assay id, s.registered assay = some id →
    ∃ R ∈ s.registry, (R, assay, id) ∈ s.replies
  epochs : ∀ call ∈ s.calls, call.epoch ≤ s.epoch
  cells : ∀ call ∈ s.calls, call.epoch = s.epoch → ∀ balance ∈ call.balances,
    ∀ cell ∈ balance.2.cells, s.Sourced cell

variable {s s' : PledgerRegistry ρ α δ} {i a c : ℕ}

theorem kept_fresh : Kept (fresh : PledgerRegistry ρ α δ) :=
  ⟨fun assay id h ↦ by simp [fresh, registered] at h, by simp [fresh], by simp [fresh]⟩

/-- One account of one call is put in place, with elements from the current registry. -/
theorem Kept.setCall (h : s.Kept) {call : BalancesCall ρ α δ} (hcall : call ∈ s.calls)
    {name : String} {balance : AccountBalance ρ α δ}
    (hcells : call.epoch = s.epoch → ∀ cell ∈ balance.cells, s.Sourced cell) :
    (s.setCall i (call.setBalance a name balance)).Kept := by
  refine ⟨h.cache, fun other hother ↦ ?_, fun other hother hepoch b hb cell hcell ↦ ?_⟩
  · rcases List.mem_or_eq_of_mem_set hother with hold | rfl
    · exact h.epochs other hold
    · exact h.epochs call hcall
  · rcases List.mem_or_eq_of_mem_set hother with hold | rfl
    · exact h.cells other hold hepoch b hb cell hcell
    · rcases List.mem_or_eq_of_mem_set hb with hold | rfl
      · exact h.cells call hcall hepoch b hold cell hcell
      · exact hcells hepoch cell hcell

@[simp] theorem register_registry (registry : Option ρ) (assay : α) (aid : Option String) :
    (s.register registry assay aid).registry = s.registry := by
  rw [register]
  split <;> rfl

@[simp] theorem register_calls (registry : Option ρ) (assay : α) (aid : Option String) :
    (s.register registry assay aid).calls = s.calls := by
  rw [register]
  split <;> rfl

@[simp] theorem register_epoch (registry : Option ρ) (assay : α) (aid : Option String) :
    (s.register registry assay aid).epoch = s.epoch := by
  rw [register]
  split <;> rfl

theorem replies_register (registry : Option ρ) (assay : α) (aid : Option String) :
    ∀ reply ∈ s.replies, reply ∈ (s.register registry assay aid).replies := by
  intro reply hreply
  rw [register]
  split
  · exact List.mem_append_right _ hreply
  · exact hreply

/-- A reply that is on time leaves the cache with ids of the current registry. -/
theorem Kept.register (h : s.Kept) {registry : Option ρ} {assay : α} {aid : Option String}
    (hknows : registry = none → aid = none)
    (hontime : ∀ id ∈ truthy aid,
      registry = s.registry ∨ ∃ R ∈ s.registry, (R, assay, id) ∈ s.replies) :
    (s.register registry assay aid).Kept := by
  refine ⟨fun other id hget ↦ ?_, ?_, fun call hcall hepoch balance hbalance cell hcell ↦ ?_⟩
  · rw [register_registry]
    cases htruthy : truthy aid with
    | none =>
      simp only [PledgerRegistry.register, htruthy] at hget ⊢
      exact h.cache other id hget
    | some id' =>
      simp only [PledgerRegistry.register, htruthy, registered, OrderedMap.get_set] at hget ⊢
      split_ifs at hget with hassay
      · obtain rfl := Option.some.inj hget
        subst hassay
        rcases hontime id' htruthy with hregistry | ⟨R, hR, hreply⟩
        · cases registry with
          | none => simp [hknows rfl, truthy] at htruthy
          | some R => exact ⟨R, hregistry.symm, List.mem_append_left _ (by simp)⟩
        · exact ⟨R, hR, List.mem_append_right _ hreply⟩
      · obtain ⟨R, hR, hreply⟩ := h.cache other id hget
        exact ⟨R, hR, List.mem_append_right _ hreply⟩
  · simpa using h.epochs
  · rw [register_calls] at hcall
    rw [register_epoch] at hepoch
    exact (h.cells call hcall hepoch balance hbalance cell hcell).mono
      (register_registry registry assay aid) (replies_register registry assay aid)

/-- What is then looked up is from the current registry, if this is the one that was asked. -/
theorem Kept.sourced_assayID (h : s.Kept) {ad : AssetDesc α δ} {aid : Option String}
    (hunknown : truthy aid = none ∨ s.registered ad.assay ≠ none) :
    s.Sourced (.cooked ⟨ad, s.assayID ad.assay, some (s.registry, aid)⟩) := by
  rw [Sourced, assayID]
  cases hget : s.registered ad.assay with
  | some id => exact Or.inl (h.cache ad.assay id hget)
  | none =>
    refine Or.inr ⟨rfl, (s.registry, aid), rfl, rfl, ?_⟩
    exact hunknown.resolve_right fun hne ↦ hne hget

theorem register_get (registry : Option ρ) (assay : α) (aid : Option String) :
    truthy aid = none ∨ (s.register registry assay aid).registered assay ≠ none := by
  cases htruthy : truthy aid with
  | none => exact Or.inl rfl
  | some id => simp [register, htruthy, registered, OrderedMap.get_set]

theorem Kept.sourced_cook (h : s.Kept) (ad : AssetDesc α δ) : s.Sourced (s.cook ad) := by
  rw [cook]
  cases hget : s.registered ad.assay with
  | some id => exact Or.inl (h.cache ad.assay id hget)
  | none => rfl

omit [DecidableEq α] in
theorem asked_of_balanceAt {call : BalancesCall ρ α δ} {name : String}
    {cookedBalance : List (Cooking ρ α δ)} {ad : AssetDesc α δ} {registry : Option ρ}
    (hat : s.balanceAt i a = some (call, name, .cooking cookedBalance))
    (hcell : cookedBalance[c]? = some (.asked ad registry)) :
    s.asked i a c = some (ad.assay, registry) := by
  simp only [asked, hat, hcell]

theorem Kept.gotId (h : s.Kept) {aid : Option (Option String)}
    (hontime : s.OnTime (.gotId i a c aid)) (hstep : step s (.gotId i a c aid) = some s') :
    s'.Kept := by
  obtain ⟨call, name, cookedBalance, ad, registry, hat, hcell, hturn⟩ := step_gotId hstep
  obtain ⟨hcall, hbalance⟩ := balanceAt_eq_some.mp hat
  replace hcall := List.mem_of_getElem? hcall
  replace hbalance := List.mem_of_getElem? hbalance
  have hold (hepoch : call.epoch = s.epoch) : ∀ cell ∈ cookedBalance, s.Sourced cell :=
    h.cells call hcall hepoch (name, .cooking cookedBalance) hbalance
  cases aid with
  | none =>
    rw [hturn]
    refine h.setCall hcall fun hepoch cell hmem ↦ ?_
    rcases List.mem_or_eq_of_mem_set hmem with hmem | rfl
    · exact hold hepoch cell hmem
    · trivial
  | some aid =>
    obtain ⟨hknows, rfl⟩ := hturn
    have hregister : (s.register registry ad.assay aid).Kept := by
      refine h.register hknows fun id hid ↦ ?_
      exact hontime (ad.assay, registry) (asked_of_balanceAt hat hcell) aid rfl id hid
    refine hregister.setCall (by rwa [register_calls]) fun hepoch cell hmem ↦ ?_
    rw [register_epoch] at hepoch
    rcases List.mem_or_eq_of_mem_set hmem with hmem | rfl
    · exact (hold hepoch cell hmem).mono (register_registry registry ad.assay aid)
        (replies_register registry ad.assay aid)
    · have hasked : registry = s.registry := hold hepoch _ (List.mem_of_getElem? hcell)
      have hsourced := hregister.sourced_assayID (register_get registry ad.assay aid)
      rwa [register_registry, ← hasked] at hsourced

/-- A turn in which no other registry replies late keeps the ids those of the current one. -/
theorem Kept.step (h : s.Kept) {e : PledgerEvent ρ α δ} (hontime : s.OnTime e)
    (hstep : step s e = some s') : s'.Kept := by
  cases e with
  | getAccount accountName =>
    simp only [PledgerRegistry.step] at hstep
    split_ifs at hstep
    · exact Option.some.inj hstep ▸ h
    · obtain rfl := Option.some.inj hstep
      exact ⟨h.cache, h.epochs, h.cells⟩
  | setRegistry newRegistry =>
    obtain rfl := Option.some.inj hstep
    -- every call is of an earlier epoch
    refine ⟨by simp [registered], fun call hcall ↦ Nat.le_succ_of_le (h.epochs call hcall), ?_⟩
    intro call hcall hepoch
    exact absurd (h.epochs call hcall) (by rw [hepoch]; exact Nat.not_succ_le_self s.epoch)
  | getBalances =>
    obtain rfl := Option.some.inj hstep
    refine ⟨h.cache, fun call hcall ↦ ?_, fun call hcall hepoch balance hbalance cell hcell ↦ ?_⟩
    · rcases List.mem_append.mp hcall with hcall | hnew
      · exact h.epochs call hcall
      · rw [List.mem_singleton.mp hnew]
    · rcases List.mem_append.mp hcall with hcall | hnew
      · exact h.cells call hcall hepoch balance hbalance cell hcell
      · rw [List.mem_singleton.mp hnew] at hbalance
        obtain ⟨name, -, rfl⟩ := List.mem_map.mp hbalance
        exact absurd hcell List.not_mem_nil
  | gotBalance i a rawBalance =>
    obtain ⟨call, name, hat, rfl⟩ := step_gotBalance hstep
    refine h.setCall (List.mem_of_getElem? (balanceAt_eq_some.mp hat).1) fun _ cell hcell ↦ ?_
    cases rawBalance with
    | none => exact absurd hcell List.not_mem_nil
    | some rawBalance =>
      obtain ⟨ad, -, rfl⟩ := List.mem_map.mp hcell
      exact h.sourced_cook ad
  | gotId i a c aid => exact h.gotId hontime hstep
  | resolve i =>
    obtain ⟨call, result, -, -, -, rfl⟩ := step_resolve hstep
    exact ⟨h.cache, h.epochs, h.cells⟩

omit [DecidableEq α] in
theorem fromRegistry_of_sourced {R : ρ} (hR : s.registry = some R) {c : Cooked ρ α δ}
    (h : s.Sourced (.cooked c)) : s.FromRegistry R c := by
  rw [Sourced, hR] at h
  refine h.imp_left fun ⟨R', hR', hreply⟩ ↦ ?_
  rwa [Option.mem_some_iff.mp hR']

theorem Kept.current (h : s.Kept) (e : PledgerEvent ρ α δ) : s.Current e := by
  cases e with
  | resolve i =>
    intro call hcall hepoch R hR result hresult balance hbalance c hc
    obtain ⟨other, hother, hcell⟩ := BalancesCall.mem_result hresult hbalance hc
    exact fromRegistry_of_sourced hR
      (h.cells call (List.mem_of_getElem? hcall) hepoch other hother _ hcell)
  | getAccount | setRegistry | getBalances | gotBalance | gotId => trivial

/-- In every run in which no other registry replies late with an id of its own, every call that
starts after a `setRegistry` and returns before the next has its ids from this registry. -/
theorem balances_current (es : List (PledgerEvent ρ α δ))
    (hontime : AllSteps step (fun s e _ ↦ s.OnTime e) fresh es) :
    AllSteps step (fun s e _ ↦ s.Current e) (fresh : PledgerRegistry ρ α δ) es := by
  have hkeep : ∀ (s : PledgerRegistry ρ α δ) e s', s.Kept → s.OnTime e → step s e = some s' →
      s'.Kept := fun s e s' h hg hstep ↦ h.step hg hstep
  exact .of_invariant hkeep (fun s e s' h _ _ ↦ h.current e) kept_fresh hontime

/-- The reply of registry 0 is late. Then another call asks for the same assay. -/
def lateReply (late : Option String) : List (PledgerEvent ℕ ℕ Unit) :=
  [.getAccount "me", .setRegistry 0, .getBalances, .gotBalance 0 0 (some [⟨7, ()⟩]),
    .setRegistry 1, .gotId 0 0 0 (some late), .getBalances, .gotBalance 1 0 (some [⟨7, ()⟩])]

/-- A late reply without an id does no harm. -/
theorem balances_current_lateReply :
    AllSteps step (fun s e _ ↦ s.Current e) fresh
      (lateReply none ++ [.gotId 1 0 0 (some (some "x_2")), .resolve 1]) :=
  balances_current _ (by decide)

/-- One with an id does: the second call returns it. -/
theorem not_balances_current :
    ¬ AllSteps step (fun s e _ ↦ s.Current e) fresh (lateReply (some "x_1") ++ [.resolve 1]) := by
  rw [allSteps_append]
  rintro ⟨-, h⟩
  have hlast := allSteps_cons.mp (h _ rfl)
  have hcurrent := (hlast _ rfl).1
  have hid := hcurrent _ rfl rfl 1 rfl _ rfl _ List.mem_cons_self _ List.mem_cons_self
  exact absurd hid (by decide)

end PledgerRegistry

end CosmicSwingset.Vats
