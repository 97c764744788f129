import Mathlib.Data.List.DropRight
import CosmicSwingset.Foundation.Grouping

/-!
# The chain connections of a solo node

`setGCIIngress` of `set-gci-ingress.js` adds a connection to a chain to `connections.json`. It takes
the file apart into a list for each type, and a connection to a chain takes the place of one that it
conflicts with: same GCI, same chain ID but for the version at its end, or an RPC address in common.
The place is that of the first such entry. A conflict has three reasons, so there may be others, and
they stay.

`connsByType` is an object literal, which finds the properties of `Object.prototype` under the
names of types too. For a file whose chain connections are free of conflicts, the new file is as
intended (`Placed`) exactly when no type has such a name and at most one old connection conflicts
with the new one (`placed_iff`). The entries of another type stay in their order; between the types
the new file has the order of the properties of `connsByType`, and so the order of all these entries
is kept exactly when they had it before.
-/

set_option autoImplicit false
set_option relaxedAutoImplicit false

namespace CosmicSwingset.Solo.SetGCIIngress

open Foundation

variable {ω : Type*}

/-! ### Connections -/

def chainType : String := "chain-cosmos-sdk"

/-- A connection of type `chain-cosmos-sdk`. The type `ω` has what else an entry may consist of,
such as `myAddr`. -/
structure ChainConnection (ω : Type*) where
  chainID : Option String
  GCI : String
  rpcAddresses : List String
  members : ω
  deriving DecidableEq

/-- An entry of `connections.json`. -/
inductive Connection (ω : Type*)
  | chain (c : ChainConnection ω)
  | other (type : { type : String // type ≠ chainType }) (members : ω)
  deriving DecidableEq

def Connection.type : Connection ω → String
  | .chain _ => chainType
  | .other type _ => type

def Connection.chain? : Connection ω → Option (ChainConnection ω)
  | .chain c => some c
  | .other _ _ => none

def chains (connections : List (Connection ω)) : List (ChainConnection ω) :=
  connections.filterMap Connection.chain?

@[simp] theorem chains_nil : chains ([] : List (Connection ω)) = [] := rfl

@[simp] theorem chains_append (l l' : List (Connection ω)) :
    chains (l ++ l') = chains l ++ chains l' :=
  List.filterMap_append

@[simp] theorem chains_cons_chain (c : ChainConnection ω) (l : List (Connection ω)) :
    chains (.chain c :: l) = c :: chains l := rfl

@[simp] theorem chains_cons_other (type : { type : String // type ≠ chainType }) (members : ω)
    (l : List (Connection ω)) : chains (.other type members :: l) = chains l := rfl

@[simp] theorem chains_map_chain (conns : List (ChainConnection ω)) :
    chains (conns.map .chain) = conns := by
  induction conns with
  | nil => rfl
  | cons c conns ih => rw [List.map_cons, chains_cons_chain, ih]

/-- The entries of other types. -/
def others (connections : List (Connection ω)) : List (Connection ω) :=
  connections.filter fun c ↦ c.type ≠ chainType

/-- What `.` does not match. -/
def isLineTerminator (c : Char) : Bool :=
  c = '\n' || c = '\r' || c = '\u2028' || c = '\u2029'

/-- The group of `String(id).match(/^(.*[^\d.])[\d.]*$/)`, or the whole string where there is no
match. -/
def getBase (id : Option String) : List Char :=
  let s := (id.getD "undefined").toList
  let base := s.rdropWhile fun c ↦ c.isDigit || c = '.'
  if base = [] ∨ base.dropLast.any isLineTerminator then s else base

/-- The predicate of `findIndex`. -/
def conflicts (c old : ChainConnection ω) : Bool :=
  old.GCI = c.GCI || getBase old.chainID = getBase c.chainID ||
    c.rpcAddresses.any fun r ↦ old.rpcAddresses.contains r

def Connection.conflicts (c : ChainConnection ω) (old : Connection ω) : Bool :=
  old.chain?.any (SetGCIIngress.conflicts c)

/-! ### `setGCIIngress` -/

/-- The names of the properties of `Object.prototype`. -/
def objectPrototype : List String :=
  ["constructor", "__defineGetter__", "__defineSetter__", "hasOwnProperty", "__lookupGetter__",
    "__lookupSetter__", "isPrototypeOf", "propertyIsEnumerable", "toString", "valueOf", "__proto__",
    "toLocaleString"]

/-- `connsByType`. -/
abbrev ByType (ω : Type*) := OrderedMap String (List (Connection ω))

/-- The entry replaces the first one that `p` finds, or comes last. -/
def placeBy {α : Type*} (p : α → Bool) (conns : List α) (c : α) : List α :=
  match conns.findIdx? p with
  | none => conns ++ [c]
  | some index => conns.set index c

/-- `add(c)`. What `Object.prototype` has under the type has no `push`, and the call throws. -/
def add (connsByType : ByType ω) (c : Connection ω) : Option (ByType ω) :=
  match connsByType.get c.type with
  | none => if objectPrototype.contains c.type then none else some (connsByType.set c.type [c])
  | some conns =>
    match c with
    | .chain new => some (connsByType.set c.type (placeBy (Connection.conflicts new) conns c))
    | .other _ _ => some (connsByType.set c.type (conns ++ [c]))

/-- The number that a key is, if it is an array index. -/
def arrayIndex? (key : String) : Option ℕ :=
  key.toNat?.filter fun n ↦ toString n = key ∧ n < 4294967295

/-- The order in which an object has its properties: array indices go first. -/
def propertyOrder (keys : List String) : List String :=
  (keys.filter fun key ↦ (arrayIndex? key).isSome).mergeSort
      (fun key key' ↦ (arrayIndex? key).getD 0 ≤ (arrayIndex? key').getD 0) ++
    keys.filter fun key ↦ ¬ (arrayIndex? key).isSome

/-- The lists of `Object.entries(connsByType)`, one after the other. -/
def connections (connsByType : ByType ω) : List (Connection ω) :=
  (propertyOrder connsByType.keys).flatMap fun type ↦ (connsByType.get type).getD []

/-- The new contents of `connections.json`, or `none` where an exception leaves it as it is. -/
def setGCIIngress (old : List (Connection ω)) (new : ChainConnection ω) :
    Option (List (Connection ω)) :=
  ((old ++ [Connection.chain new]).foldlM add OrderedMap.empty).map connections

/-! ### What the new file is to be -/

/-- No two of the connections conflict. -/
def Apart (conns : List (ChainConnection ω)) : Prop :=
  conns.Pairwise fun c c' ↦ ¬ conflicts c' c

/-- The new file as intended: no conflicts and no GCI twice, the new connection, the old ones that
do not conflict with it, and the entries of each other type in their order. -/
structure Placement (old : List (Connection ω)) (new : ChainConnection ω)
    (result : List (Connection ω)) : Prop where
  apart : Apart (chains result)
  nodup : ((chains result).map ChainConnection.GCI).Nodup
  new_mem : new ∈ chains result
  kept : ∀ c ∈ chains old, ¬ conflicts new c → c ∈ chains result
  others_kept : ∀ type, type ≠ chainType →
    result.filter (fun c ↦ c.type = type) = old.filter fun c ↦ c.type = type

def Placed (old : List (Connection ω)) (new : ChainConnection ω) : Prop :=
  ∃ result, setGCIIngress old new = some result ∧ Placement old new result

/-- As intended, with the entries of all other types in their order. -/
def PlacedInOrder (old : List (Connection ω)) (new : ChainConnection ω) : Prop :=
  ∃ result, setGCIIngress old new = some result ∧ Placement old new result ∧
    others result = others old

/-- At most one old connection conflicts with the new one, and no type is the name of a property of
every object. -/
def Placeable (old : List (Connection ω)) (new : ChainConnection ω) : Prop :=
  (chains old).countP (conflicts new) ≤ 1 ∧ ∀ c ∈ old, c.type ∉ objectPrototype

/-- The entries of the other types are in the order in which `connsByType` has these. -/
def InOrder (old : List (Connection ω)) : Prop :=
  let order := propertyOrder (firstSeen (old.map Connection.type ++ [chainType]))
  (others old).Pairwise fun c c' ↦ order.idxOf c.type ≤ order.idxOf c'.type

/-! ### Conflicts -/

theorem conflicts_comm (c c' : ChainConnection ω) : conflicts c c' = conflicts c' c := by
  have hshared : ∀ l l' : List String,
      l.any (fun r ↦ l'.contains r) = l'.any fun r ↦ l.contains r := by
    intro l l'
    rw [Bool.eq_iff_iff]
    simp only [List.any_eq_true, List.contains_iff_mem]
    exact exists_congr fun r ↦ and_comm
  rw [conflicts, conflicts, hshared c.rpcAddresses, Bool.eq_iff_iff]
  simp only [Bool.or_eq_true, decide_eq_true_eq]
  rw [@eq_comm _ c.GCI, @eq_comm _ (getBase c.chainID)]

theorem Apart.nodup_GCI {conns : List (ChainConnection ω)} (h : Apart conns) :
    (conns.map ChainConnection.GCI).Nodup := by
  rw [List.Nodup, List.pairwise_map]
  refine h.imp fun hconflict heq ↦ hconflict ?_
  simp [conflicts, heq]

theorem placeBy_cases {α : Type*} (p : α → Bool) (conns : List α) (c : α) :
    ((∀ a ∈ conns, ¬ p a) ∧ placeBy p conns c = conns ++ [c]) ∨
      ∃ before a after, conns = before ++ a :: after ∧ (∀ b ∈ before, ¬ p b) ∧ p a ∧
        placeBy p conns c = before ++ c :: after := by
  induction conns with
  | nil => exact Or.inl ⟨by simp, rfl⟩
  | cons first conns ih =>
    by_cases hfirst : p first = true
    · refine Or.inr ⟨[], first, conns, rfl, by simp, hfirst, ?_⟩
      simp [placeBy, List.findIdx?_cons, hfirst]
    · have hplace : placeBy p (first :: conns) c = first :: placeBy p conns c := by
        unfold placeBy
        rw [List.findIdx?_cons, if_neg hfirst]
        cases conns.findIdx? p <;> rfl
      rw [hplace]
      rcases ih with ⟨hnone, heq⟩ | ⟨before, a, after, hsplit, hbefore, ha, heq⟩
      · exact Or.inl ⟨List.forall_mem_cons.mpr ⟨hfirst, hnone⟩, by rw [heq, List.cons_append]⟩
      · refine Or.inr ⟨first :: before, a, after, by rw [hsplit, List.cons_append], ?_, ha, ?_⟩
        · exact List.forall_mem_cons.mpr ⟨hfirst, hbefore⟩
        · rw [heq, List.cons_append]

/-- Connections without conflicts are placed one after the other. -/
theorem foldl_place_of_apart {conns : List (ChainConnection ω)} (h : Apart conns) :
    conns.foldl (fun placed c ↦ placeBy (conflicts c) placed c) [] = conns := by
  induction conns using List.reverseRecOn with
  | nil => rfl
  | append_singleton conns c ih =>
    obtain ⟨hconns, -, hlast⟩ := List.pairwise_append.mp h
    rw [List.foldl_append, ih hconns]
    rcases placeBy_cases (conflicts c) conns c with ⟨-, heq⟩ | ⟨before, a, after, rfl, -, ha, -⟩
    · exact heq
    · exact absurd ha (hlast a (by simp) c (by simp))

/-- The place of the new connection is free of conflicts if no other old one conflicts with it. -/
theorem apart_placeBy_iff {conns : List (ChainConnection ω)} (h : Apart conns)
    (new : ChainConnection ω) :
    Apart (placeBy (conflicts new) conns new) ↔ conns.countP (conflicts new) ≤ 1 := by
  rcases placeBy_cases (conflicts new) conns new with
    ⟨hnone, heq⟩ | ⟨before, a, after, rfl, hbefore, ha, heq⟩
  · have hcount : conns.countP (conflicts new) = 0 := List.countP_eq_zero.mpr hnone
    rw [heq, hcount]
    refine iff_of_true (List.pairwise_append.mpr ⟨h, List.pairwise_singleton _ _, ?_⟩) (by simp)
    exact fun c hc c' hc' ↦ List.mem_singleton.mp hc' ▸ hnone c hc
  · have hcount : before.countP (conflicts new) = 0 := List.countP_eq_zero.mpr hbefore
    obtain ⟨happart, hafter, hacross⟩ := List.pairwise_append.mp h
    have hle : after.countP (conflicts new) + 1 ≤ 1 ↔ after.countP (conflicts new) = 0 := by omega
    rw [heq, List.countP_append, List.countP_cons_of_pos ha, hcount, Nat.zero_add, hle,
      List.countP_eq_zero]
    constructor
    · intro hplaced c hc hconflict
      have hnew := (List.pairwise_cons.mp (List.pairwise_append.mp hplaced).2.1).1 c hc
      exact hnew (conflicts_comm new c ▸ hconflict)
    · intro hfree
      refine List.pairwise_append.mpr ⟨happart, List.pairwise_cons.mpr ⟨?_, ?_⟩, ?_⟩
      · exact fun c hc ↦ conflicts_comm new c ▸ hfree c hc
      · exact (List.pairwise_cons.mp hafter).2
      · intro c hc c' hc'
        rcases List.mem_cons.mp hc' with rfl | hc'
        · exact hbefore c hc
        · exact hacross c hc c' (List.mem_cons_of_mem _ hc')

/-! ### The lists of `connsByType` -/

/-- The list of a type with an entry added. -/
def extend (conns : List (Connection ω)) : Connection ω → List (Connection ω)
  | .chain new => placeBy (Connection.conflicts new) conns (.chain new)
  | .other type members => conns ++ [.other type members]

theorem add_eq_some {connsByType : ByType ω} {c : Connection ω} (h : c.type ∉ objectPrototype) :
    add connsByType c =
      some (connsByType.set c.type (extend ((connsByType.get c.type).getD []) c)) := by
  unfold add
  cases connsByType.get c.type with
  | none =>
    rw [if_neg (by simpa using h)]
    cases c <;> rfl
  | some conns => cases c <;> rfl

/-- The chain connections of a list, placed one after the other. -/
def placed (l : List (Connection ω)) : List (ChainConnection ω) :=
  (chains l).foldl (fun conns c ↦ placeBy (conflicts c) conns c) []

theorem placeBy_map_chain (new : ChainConnection ω) (conns : List (ChainConnection ω)) :
    placeBy (Connection.conflicts new) (conns.map .chain) (.chain new) =
      (placeBy (conflicts new) conns new).map .chain := by
  unfold placeBy
  have hfind : (conns.map Connection.chain).findIdx? (Connection.conflicts new) =
      conns.findIdx? (conflicts new) := by
    rw [List.findIdx?_map]
    rfl
  rw [hfind]
  cases conns.findIdx? (conflicts new) with
  | none => simp
  | some index => rw [List.map_set]

/-- The lists after the entries of `l`. -/
structure Collected (l : List (Connection ω)) (connsByType : ByType ω) : Prop where
  keys : connsByType.keys = firstSeen (l.map Connection.type)
  chain : (connsByType.get chainType).getD [] = (placed l).map .chain
  other : ∀ type, type ≠ chainType →
    (connsByType.get type).getD [] = l.filter fun c ↦ c.type = type

theorem collected_nil : Collected ([] : List (Connection ω)) .empty where
  keys := rfl
  chain := rfl
  other _ _ := rfl

theorem Collected.add {l : List (Connection ω)} {connsByType : ByType ω}
    (h : Collected l connsByType) (c : Connection ω) :
    Collected (l ++ [c])
      (connsByType.set c.type (extend ((connsByType.get c.type).getD []) c)) where
  keys := by
    rw [List.map_append, List.map_singleton, firstSeen_append_singleton, ← h.keys]
    exact OrderedMap.keys_setEntries _ _ _
  chain := by
    rw [OrderedMap.get_set]
    cases c with
    | chain new =>
      change (some (placeBy _ ((connsByType.get chainType).getD []) _)).getD [] = _
      rw [h.chain, Option.getD_some, placeBy_map_chain]
      simp [placed]
    | other type members =>
      have hne : chainType ≠ (Connection.other type members).type := Ne.symm type.2
      rw [if_neg hne, h.chain]
      simp [placed]
  other := by
    intro type htype
    rw [OrderedMap.get_set, List.filter_append]
    by_cases hc : type = c.type
    · cases c with
      | chain new => exact absurd hc htype
      | other type' members =>
        rw [if_pos hc, ← hc, Option.getD_some, h.other type htype]
        simp [extend, hc]
    · rw [if_neg hc, h.other type htype]
      simp [Ne.symm hc]

/-- `add` throws exactly where some entry has a type that every object has a property for. -/
theorem foldlM_add (l : List (Connection ω)) :
    ((∀ c ∈ l, c.type ∉ objectPrototype) ∧
        ∃ connsByType, l.foldlM SetGCIIngress.add .empty = some connsByType ∧
          Collected l connsByType) ∨
      (¬ ∀ c ∈ l, c.type ∉ objectPrototype) ∧
        l.foldlM SetGCIIngress.add (OrderedMap.empty : ByType ω) = none := by
  induction l using List.reverseRecOn with
  | nil => exact Or.inl ⟨by simp, .empty, rfl, collected_nil⟩
  | append_singleton l c ih =>
    rw [List.foldlM_append]
    rcases ih with ⟨hl, connsByType, heq, hcollected⟩ | ⟨hl, heq⟩
    · rw [heq]
      by_cases hc : c.type ∈ objectPrototype
      · refine Or.inr ⟨fun hall ↦ hall c (by simp) hc, ?_⟩
        have hnew : c.type ∉ connsByType.keys := by
          rw [hcollected.keys, mem_firstSeen, List.mem_map]
          rintro ⟨c', hc', htype⟩
          exact hl c' hc' (htype ▸ hc)
        simp [SetGCIIngress.add, OrderedMap.get_eq_none_of_not_mem_keys hnew, hc]
      · refine Or.inl ⟨?_, _, ?_, hcollected.add c⟩
        · exact List.forall_mem_append.mpr ⟨hl, List.forall_mem_singleton.mpr hc⟩
        · simp [add_eq_some hc]
    · refine Or.inr ⟨fun hall ↦ hl fun c' hc' ↦ hall c' (List.mem_append_left _ hc'), ?_⟩
      rw [heq]
      rfl

/-! ### The new file -/

theorem propertyOrder_perm (keys : List String) : (propertyOrder keys).Perm keys := by
  refine ((List.mergeSort_perm _ _).append_right _).trans ?_
  simp only [decide_not, Bool.decide_eq_true]
  exact List.filter_append_perm _ keys

section Result

variable {l : List (Connection ω)} {connsByType : ByType ω}

/-- The list of each type has entries of this type only. -/
theorem Collected.type_eq (h : Collected l connsByType) (type : String) :
    ∀ c ∈ (connsByType.get type).getD [], c.type = type := by
  by_cases htype : type = chainType
  · subst htype
    rw [h.chain]
    simp [Connection.type]
  · rw [h.other type htype]
    simp

theorem nodup_propertyOrder (connsByType : ByType ω) :
    (propertyOrder connsByType.keys).Nodup :=
  (propertyOrder_perm _).nodup_iff.mpr connsByType.distinct

/-- The entries of a type are, in the new file, those of its list. -/
theorem Collected.filter_connections (h : Collected l connsByType) (type : String) :
    (connections connsByType).filter (fun c ↦ c.type = type) =
      (connsByType.get type).getD [] := by
  rw [connections, filter_flatMap_of_key (nodup_propertyOrder _) h.type_eq]
  by_cases hmem : type ∈ connsByType.keys
  · rw [if_pos ((propertyOrder_perm _).mem_iff.mpr hmem)]
  · rw [if_neg (mt (propertyOrder_perm _).mem_iff.mp hmem),
      OrderedMap.get_eq_none_of_not_mem_keys hmem]
    rfl

theorem chains_filter (l : List (Connection ω)) :
    chains (l.filter fun c ↦ c.type = chainType) = chains l := by
  induction l with
  | nil => rfl
  | cons c l ih =>
    cases c with
    | chain c => simpa [Connection.type] using ih
    | other type members =>
      have hne : (Connection.other type members).type ≠ chainType := type.2
      simpa [hne] using ih

theorem Collected.chains_connections (h : Collected l connsByType) :
    chains (connections connsByType) = placed l := by
  rw [← chains_filter, h.filter_connections, h.chain, chains_map_chain]

theorem Collected.pairwise_connections (h : Collected l connsByType) :
    (connections connsByType).Pairwise fun c c' ↦
      (propertyOrder connsByType.keys).idxOf c.type ≤
        (propertyOrder connsByType.keys).idxOf c'.type :=
  pairwise_flatMap_idxOf (nodup_propertyOrder _) h.type_eq

end Result

variable {old : List (Connection ω)} {new : ChainConnection ω}

theorem placed_append_new (happart : Apart (chains old)) :
    placed (old ++ [.chain new]) = placeBy (conflicts new) (chains old) new := by
  have hchains : chains (old ++ [Connection.chain new]) = chains old ++ [new] := by simp
  rw [placed, hchains, List.foldl_append, foldl_place_of_apart happart]
  rfl

/-- The result of the call is the contents of a map that has collected all entries, or an exception
that is due to the type of an entry. -/
theorem setGCIIngress_cases (old : List (Connection ω)) (new : ChainConnection ω) :
    ((∀ c ∈ old, c.type ∉ objectPrototype) ∧ ∃ connsByType : ByType ω,
        setGCIIngress old new = some (connections connsByType) ∧
          Collected (old ++ [.chain new]) connsByType) ∨
      (¬ ∀ c ∈ old, c.type ∉ objectPrototype) ∧ setGCIIngress old new = none := by
  have hnew : chainType ∉ objectPrototype := by decide
  have hall : (∀ c ∈ old ++ [Connection.chain new], c.type ∉ objectPrototype) ↔
      ∀ c ∈ old, c.type ∉ objectPrototype := by
    rw [List.forall_mem_append, List.forall_mem_singleton]
    exact and_iff_left hnew
  rw [← hall]
  rcases foldlM_add (old ++ [Connection.chain new]) with ⟨hl, m, heq, hcollected⟩ | ⟨hl, heq⟩
  · exact Or.inl ⟨hl, m, by rw [setGCIIngress, heq, Option.map_some], hcollected⟩
  · exact Or.inr ⟨hl, by rw [setGCIIngress, heq, Option.map_none]⟩

theorem Collected.placement_iff {connsByType : ByType ω}
    (h : Collected (old ++ [.chain new]) connsByType) (happart : Apart (chains old)) :
    Placement old new (connections connsByType) ↔ (chains old).countP (conflicts new) ≤ 1 := by
  have hchains : chains (connections connsByType) = placeBy (conflicts new) (chains old) new := by
    rw [h.chains_connections, placed_append_new happart]
  rw [← apart_placeBy_iff happart, ← hchains]
  refine ⟨Placement.apart, fun hresult ↦ ⟨hresult, hresult.nodup_GCI, ?_, ?_, ?_⟩⟩
  · rw [hchains]
    rcases placeBy_cases (conflicts new) (chains old) new with
      ⟨-, heq⟩ | ⟨before, a, after, -, -, -, heq⟩ <;> simp [heq]
  · intro c hc hconflict
    rw [hchains]
    rcases placeBy_cases (conflicts new) (chains old) new with
      ⟨-, heq⟩ | ⟨before, a, after, hsplit, -, ha, heq⟩
    · simp [heq, hc]
    · have hne : c ≠ a := fun hca ↦ hconflict (hca ▸ ha)
      rw [hsplit, List.mem_append, List.mem_cons] at hc
      rw [heq, List.mem_append, List.mem_cons]
      exact hc.imp_right fun hc' ↦ Or.inr (hc'.resolve_left hne)
  · intro type htype
    rw [h.filter_connections, h.other type htype]
    simp [Connection.type, Ne.symm htype]

theorem filter_others {type : String} (htype : type ≠ chainType) (l : List (Connection ω)) :
    (others l).filter (fun c ↦ c.type = type) = l.filter fun c ↦ c.type = type := by
  rw [others, List.filter_filter]
  refine List.filter_congr fun c _ ↦ ?_
  by_cases hc : c.type = type <;> simp [hc, htype]

theorem filter_others_chainType (l : List (Connection ω)) :
    (others l).filter (fun c ↦ c.type = chainType) = [] := by
  simp [others, List.filter_filter]

theorem Collected.others_eq_iff {connsByType : ByType ω}
    (h : Collected (old ++ [.chain new]) connsByType) :
    others (connections connsByType) = others old ↔ InOrder old := by
  have horder : propertyOrder connsByType.keys =
      propertyOrder (firstSeen (old.map Connection.type ++ [chainType])) := by
    rw [h.keys, List.map_append]
    rfl
  have hsorted : (others (connections connsByType)).Pairwise fun c c' ↦
      (propertyOrder connsByType.keys).idxOf c.type ≤
        (propertyOrder connsByType.keys).idxOf c'.type :=
    h.pairwise_connections.filter _
  rw [InOrder, ← horder]
  refine ⟨fun heq ↦ heq ▸ hsorted, fun hold ↦ ?_⟩
  refine eq_of_filter_eq Connection.type (propertyOrder connsByType.keys).idxOf ?_ hsorted hold ?_
  · intro c hc c' _ hrank
    obtain ⟨type, htype, hmem⟩ := List.mem_flatMap.mp (List.mem_of_mem_filter hc)
    rw [← h.type_eq type c hmem] at htype
    exact (List.idxOf_inj htype).mp hrank
  · intro type
    by_cases htype : type = chainType
    · rw [htype, filter_others_chainType, filter_others_chainType]
    · rw [filter_others htype, filter_others htype, h.filter_connections, h.other type htype]
      simp [Connection.type, Ne.symm htype]

/-- When the old chain connections are free of conflicts, the new file is as intended exactly if at
most one of them conflicts with the new one and no type makes the call throw; the entries of the
other types are then in their order in each type, and among each other if they were in the order of
`connsByType` before. -/
theorem placed_iff (old : List (Connection ω)) (happart : Apart (chains old))
    (new : ChainConnection ω) :
    (Placed old new ↔ Placeable old new) ∧
      (PlacedInOrder old new ↔ Placeable old new ∧ InOrder old) := by
  rcases setGCIIngress_cases old new with ⟨htypes, m, heq, hcollected⟩ | ⟨htypes, heq⟩
  · have hplacement := hcollected.placement_iff happart
    have horder := hcollected.others_eq_iff
    have hplaceable : Placeable old new ↔ (chains old).countP (conflicts new) ≤ 1 :=
      and_iff_left htypes
    simp [Placed, PlacedInOrder, hplaceable, heq, hplacement, horder]
  · have hthrows : ¬ Placeable old new := fun h ↦ htypes h.2
    simp [Placed, PlacedInOrder, heq, hthrows]

/-- A chain of which two connections are known: its GCI goes with one of them, and its chain ID with
the other. -/
theorem not_placed_of_two_conflicts :
    ¬ ∀ old : List (Connection Unit), Apart (chains old) → ∀ new, Placed old new := by
  intro h
  let old : List (Connection Unit) :=
    [.chain ⟨some "testnet-1.14", "5b1f", ["10.0.0.1:26657"], ()⟩,
      .chain ⟨some "agoric-1.0", "c82e", ["10.0.0.2:26657"], ()⟩]
  let new : ChainConnection Unit := ⟨some "agoric-1.1", "5b1f", ["10.0.0.3:26657"], ()⟩
  have happart : Apart (chains old) := by
    unfold Apart
    decide
  have htwo : ¬ (chains old).countP (conflicts new) ≤ 1 := by decide
  obtain ⟨result, heq, hplacement⟩ := h old happart new
  rcases setGCIIngress_cases old new with ⟨-, connsByType, hresult, hcollected⟩ | ⟨-, hnone⟩
  · rw [Option.some.inj (heq.symm.trans hresult)] at hplacement
    exact htwo ((hcollected.placement_iff happart).mp hplacement)
  · exact Option.some_ne_none result (heq.symm.trans hnone)

/-- A chain with a new version of its ID takes the place of the old one. -/
theorem placed_successor :
    Placed [.other ⟨"http", by decide⟩ (), .chain ⟨some "agoric-1.0", "c82e", [], ()⟩]
      (⟨some "agoric-1.1", "5b1f", ["10.0.0.3:26657"], ()⟩ : ChainConnection Unit) := by
  have happart : Apart (chains [.other ⟨"http", by decide⟩ (),
      Connection.chain ⟨some "agoric-1.0", "c82e", [], ()⟩]) := by
    unfold Apart
    decide
  refine (placed_iff _ happart _).1.mpr ⟨?_, ?_⟩
  · decide
  · decide

end CosmicSwingset.Solo.SetGCIIngress
