import CosmicSwingset.Foundation.Numbered
import CosmicSwingset.Foundation.OrderedMap
import CosmicSwingset.Foundation.Utf16
import CosmicSwingset.Setup.Bootstrap
import Mathlib.Data.List.Lex
import Mathlib.Data.List.Sort
import Mathlib.Data.Set.Function

/-!
# Numbers of nodes

`doInit` collates the placements into the tables that Terraform is given: `DATACENTERS` has a list
for each placement, with each datacenter as often as it has nodes, and `OFFSETS` has the number of
the first node of each placement that has any. All nodes are numbered by one counter that goes on
from placement to placement. Terraform is given the offsets and gives them back, together with the
IP address of every machine; `show-hosts` and `show-peers` make the numbers again from these, each
in its own order.

A node is a placement and an index in its list. The numbers of the nodes are those below the
counter, each of one node (`Numbered`), and both commands mean the same machine by a number
(`numbering_consistent`).

`PLACEMENTS` is the object as `Object.entries` lists it. The names of placements are those of
providers with a number, so none is the name of one of the other groups of the inventory.
-/

set_option autoImplicit false
set_option relaxedAutoImplicit false

namespace CosmicSwingset.Setup

open Foundation

/-! ### `doInit` -/

/-- The number of nodes in each datacenter. -/
abbrev Placement := OrderedMap String ℕ

/-- The counter `instance` and the two tables. -/
structure Collated where
  nodes : ℕ
  OFFSETS : OrderedMap String ℕ
  DATACENTERS : OrderedMap String (List String)

/-- `Object.keys(obj).sort()`. -/
def sortedKeys {ν : Type*} (obj : OrderedMap String ν) : List String :=
  obj.keys.insertionSort fun a b ↦ utf16 a.toList ≤ utf16 b.toList

/-- The loop that counts the nodes of a datacenter, with the counter and `nodes`. -/
def pushNodes (dc : String) : ℕ → ℕ × List String → ℕ × List String
  | 0, s => s
  | count + 1, s => pushNodes dc count (s.1 + 1, s.2 ++ [dc])

/-- One datacenter, with the counter and `DATACENTERS[PLACEMENT]`. -/
def collateDatacenter (placement : Placement) (s : ℕ × List String) (dc : String) :
    ℕ × List String :=
  let counted := pushNodes dc ((placement.get dc).getD 0) (s.1, [])
  (counted.1, if counted.2.length ≠ 0 then s.2 ++ counted.2 else s.2)

/-- One placement. -/
def collatePlacement (s : Collated) (entry : String × Placement) : Collated :=
  let offset := s.nodes
  let counted := (sortedKeys entry.2).foldl (collateDatacenter entry.2) (offset, [])
  { nodes := counted.1
    DATACENTERS := s.DATACENTERS.set entry.1 counted.2
    -- a placement without nodes gets no offset
    OFFSETS := if counted.1 = offset then s.OFFSETS else s.OFFSETS.set entry.1 offset }

def collate (PLACEMENTS : OrderedMap String Placement) : Collated :=
  PLACEMENTS.entries.foldl collatePlacement ⟨0, .empty, .empty⟩

/-! ### The commands -/

/-- The outputs of Terraform. -/
structure Provision where
  public_ips : OrderedMap String (List String)
  offsets : OrderedMap String ℕ

/-- `Number(prov.offsets.value[CLUSTER]) + i`, or `none` where it is not a number. -/
def Provision.number (prov : Provision) (cluster : String) (i : ℕ) : Option ℕ :=
  (prov.offsets.get cluster).map fun offset ↦ offset + i

/-- The name `node…` of a number. -/
def nodeName (number : Option ℕ) : String :=
  "node" ++ match number with
    | some n => String.ofList (Nat.toDigits 10 n)
    | none => "NaN"

def PROVISIONER_NODE : String := "node0"

/-- A host of the inventory. -/
structure Host where
  node : String
  ansible_host : String
  units : List String
  deriving DecidableEq

def provisionerUnits : List String :=
  ["ag-pserver.service", "ag-controller.service", "ag-chain-cosmos.service"]

/-- The groups of the inventory. -/
structure Inventory where
  chainCosmos : List Host
  providers : OrderedMap String (List Host)
  pserver : Option Host

/-- The hosts of one provider. -/
def providerHosts (prov : Provision) (provider : String) : List Host :=
  ((prov.public_ips.get provider).getD []).zipIdx.map fun ip ↦
    let node := nodeName (prov.number provider ip.2)
    ⟨node, ip.1, if node = PROVISIONER_NODE then provisionerUnits else []⟩

/-- The group `ag-pserver` is made anew for each host that is to be in it. -/
def addProvider (prov : Provision) (inventory : Inventory) (provider : String) : Inventory :=
  let hosts := providerHosts prov provider
  { chainCosmos := inventory.chainCosmos ++ hosts
    providers := inventory.providers.set provider hosts
    pserver := ((hosts.filter fun host ↦ host.node = PROVISIONER_NODE).getLast?).or
      inventory.pserver }

/-- `show-hosts`. -/
def showHosts (prov : Provision) : Inventory :=
  (sortedKeys prov.public_ips).foldl (addProvider prov) ⟨[], .empty, none⟩

inductive PeersError
  | noNodeId (i : ℕ)
  | invalidId (i : ℕ) (ID : String)
  | noPublicIp (i : ℕ)
  | noneFound
  deriving DecidableEq

structure Peer where
  ID : String
  IP : String
  PORT : ℕ
  deriving DecidableEq

def DEFAULT_PORT : ℕ := 26656

/-- The places of `public_ips` that are written, in the order in which they are. A place that is no
number is not read again. -/
def ipPlaces (prov : Provision) : List (ℕ × String) :=
  prov.public_ips.entries.flatMap fun cluster ↦
    cluster.2.zipIdx.filterMap fun ip ↦
      (prov.number cluster.1 ip.2).map fun n ↦ (n, ip.1)

/-- The array `public_ips`. -/
def publicIps (prov : Provision) : OrderedMap ℕ String :=
  (ipPlaces prov).foldl (fun ips place ↦ ips.set place.1 place.2) .empty

/-- `ID.match(/^[a-f0-9]+/)`. -/
def isNodeId (ID : String) : Bool :=
  ID.toList.head?.any fun c ↦ ('a' ≤ c && c ≤ 'f') || c.isDigit

/-- The loop of `show-peers` from a number on, over the files `node-id` that there are. -/
def peersFrom (ips : OrderedMap ℕ String) (i : ℕ) : List String → Except PeersError (List Peer)
  | [] => .ok []
  | raw :: rest =>
    let ID := trimRight raw
    if ID = "" then .error (.noNodeId i)
    else if !isNodeId ID then .error (.invalidId i ID)
    else
      match (ips.get i).filter fun IP ↦ IP ≠ "" with
      | none => .error (.noPublicIp i)
      | some IP => (peersFrom ips (i + 1) rest).map fun peers ↦ ⟨ID, IP, DEFAULT_PORT⟩ :: peers

/-- `show-peers`, given the contents of the files `node-id` of node 0, node 1 and so on. -/
def showPeers (prov : Provision) (nodeIds : List String) : Except PeersError (List Peer) :=
  if nodeIds = [] then .error .noneFound else peersFrom (publicIps prov) 0 nodeIds

/-! ### What the loops of `doInit` compute -/

/-- Each datacenter as often as it has nodes. -/
def spread (placement : Placement) : List String :=
  (sortedKeys placement).flatMap fun dc ↦ List.replicate ((placement.get dc).getD 0) dc

theorem pushNodes_eq (dc : String) (count : ℕ) (s : ℕ × List String) :
    pushNodes dc count s = (s.1 + count, s.2 ++ List.replicate count dc) := by
  induction count generalizing s with
  | zero => simp [pushNodes]
  | succ count ih =>
    rw [pushNodes, ih, List.append_assoc, List.singleton_append, ← List.replicate_succ]
    exact Prod.ext (by simp; omega) rfl

theorem foldl_collateDatacenter (placement : Placement) (dcs : List String)
    (s : ℕ × List String) :
    dcs.foldl (collateDatacenter placement) s =
      (s.1 + (dcs.flatMap fun dc ↦ List.replicate ((placement.get dc).getD 0) dc).length,
        s.2 ++ dcs.flatMap fun dc ↦ List.replicate ((placement.get dc).getD 0) dc) := by
  induction dcs generalizing s with
  | nil => simp
  | cons dc dcs ih =>
    have hone : collateDatacenter placement s dc =
        (s.1 + (placement.get dc).getD 0,
          s.2 ++ List.replicate ((placement.get dc).getD 0) dc) := by
      simp only [collateDatacenter, pushNodes_eq, List.nil_append, List.length_replicate]
      split_ifs with hnone
      · rfl
      · rw [not_not.mp hnone, List.replicate_zero, List.append_nil]
    rw [List.foldl_cons, hone, ih, List.flatMap_cons, List.length_append, List.length_replicate,
      Nat.add_assoc, List.append_assoc]

theorem collatePlacement_eq (s : Collated) (PLACEMENT : String) (placement : Placement) :
    collatePlacement s (PLACEMENT, placement) =
      { nodes := s.nodes + (spread placement).length
        DATACENTERS := s.DATACENTERS.set PLACEMENT (spread placement)
        OFFSETS := if spread placement = [] then s.OFFSETS
          else s.OFFSETS.set PLACEMENT s.nodes } := by
  simp only [collatePlacement, foldl_collateDatacenter, List.nil_append]
  rw [← spread]
  simp [List.length_eq_zero_iff]

theorem count_spread (placement : Placement) (dc : String) :
    (spread placement).count dc = (placement.get dc).getD 0 := by
  have hperm : (sortedKeys placement).Perm placement.keys := List.perm_insertionSort _ _
  have hnodup : (sortedKeys placement).Nodup := hperm.nodup_iff.mpr placement.distinct
  have hcount : ∀ dcs : List String, dcs.Nodup →
      (dcs.flatMap fun d ↦ List.replicate ((placement.get d).getD 0) d).count dc =
        if dc ∈ dcs then (placement.get dc).getD 0 else 0 := by
    intro dcs
    induction dcs with
    | nil => simp
    | cons d dcs ih =>
      intro hdcs
      obtain ⟨hd, hdcs'⟩ := List.nodup_cons.mp hdcs
      rw [List.flatMap_cons, List.count_append, ih hdcs', List.count_replicate]
      by_cases hdc : d = dc
      · subst hdc
        simp [hd]
      · simp [hdc, Ne.symm hdc]
  rw [spread, hcount _ hnodup]
  by_cases hmem : dc ∈ placement.keys
  · rw [if_pos (hperm.mem_iff.mpr hmem)]
  · rw [if_neg (mt hperm.mem_iff.mp hmem), OrderedMap.get_eq_none_of_not_mem_keys hmem]
    rfl

/-! ### Numbers -/

/-- The nodes: a placement and an index in its list. -/
def Collated.slots (s : Collated) : Set (String × ℕ) :=
  { slot | ∃ dcs, s.DATACENTERS.get slot.1 = some dcs ∧ slot.2 < dcs.length }

/-- `OFFSETS[PLACEMENT] + i`. -/
def Collated.number (s : Collated) (slot : String × ℕ) : Option ℕ :=
  (s.OFFSETS.get slot.1).map fun offset ↦ offset + slot.2

/-- The nodes and the numbers below the counter correspond to each other. -/
def Numbered (s : Collated) : Prop :=
  Set.BijOn s.number s.slots { number | ∃ n < s.nodes, number = some n }

theorem numbered_fresh : Numbered ⟨0, .empty, .empty⟩ := by
  refine ⟨?_, ?_, ?_⟩
  · rintro slot ⟨dcs, hdcs, -⟩
    simp at hdcs
  · rintro slot ⟨dcs, hdcs, -⟩
    simp at hdcs
  · rintro number ⟨n, hn, -⟩
    exact absurd hn (Nat.not_lt_zero n)

section Step

variable {s : Collated} {PLACEMENT : String} {placement : Placement}

/-- The nodes after one placement more. -/
theorem mem_slots_collatePlacement {slot : String × ℕ} :
    slot ∈ (collatePlacement s (PLACEMENT, placement)).slots ↔
      slot.1 = PLACEMENT ∧ slot.2 < (spread placement).length ∨
        slot.1 ≠ PLACEMENT ∧ slot ∈ s.slots := by
  simp only [Collated.slots, Set.mem_ofPred_eq, collatePlacement_eq, OrderedMap.get_set]
  by_cases hslot : slot.1 = PLACEMENT
  · simp [hslot]
  · simp [hslot]

/-- The placement's nodes are numbered from the counter on, and the others keep their numbers. -/
theorem number_collatePlacement {slot : String × ℕ} (hne : spread placement ≠ []) :
    (collatePlacement s (PLACEMENT, placement)).number slot =
      if slot.1 = PLACEMENT then some (s.nodes + slot.2) else s.number slot := by
  simp only [Collated.number, collatePlacement_eq, if_neg hne, OrderedMap.get_set]
  by_cases hslot : slot.1 = PLACEMENT
  · simp [hslot]
  · simp [hslot]

/-- A node of the tables is not one of a new placement. -/
theorem ne_of_mem_slots (hfresh : PLACEMENT ∉ s.DATACENTERS.keys) {slot : String × ℕ}
    (hslot : slot ∈ s.slots) : slot.1 ≠ PLACEMENT := by
  obtain ⟨dcs, hdcs, -⟩ := hslot
  rintro rfl
  exact hfresh (OrderedMap.mem_keys.mpr ⟨dcs, OrderedMap.mem_entries_of_get hdcs⟩)

theorem Numbered.collatePlacement (h : Numbered s) (hfresh : PLACEMENT ∉ s.DATACENTERS.keys) :
    Numbered (collatePlacement s (PLACEMENT, placement)) := by
  by_cases hnone : spread placement = []
  · have hslots : (Setup.collatePlacement s (PLACEMENT, placement)).slots = s.slots := by
      ext slot
      rw [mem_slots_collatePlacement, hnone]
      have hne : slot ∈ s.slots → slot.1 ≠ PLACEMENT := ne_of_mem_slots hfresh
      simp only [List.length_nil, Nat.not_lt_zero, and_false, false_or]
      exact and_iff_right_of_imp hne
    rw [Numbered, hslots]
    simp only [collatePlacement_eq, hnone, List.length_nil, Nat.add_zero, if_true]
    exact h
  · obtain ⟨hmaps, hinj, hsurj⟩ := h
    have hbelow : ∀ slot ∈ s.slots, ∃ n < s.nodes, s.number slot = some n :=
      fun slot hslot ↦ hmaps hslot
    have hnodes : (Setup.collatePlacement s (PLACEMENT, placement)).nodes =
        s.nodes + (spread placement).length := by rw [collatePlacement_eq]
    refine ⟨fun slot hslot ↦ ?_, fun slot hslot slot' hslot' heq ↦ ?_, ?_⟩
    · rw [hnodes, number_collatePlacement hnone]
      rcases mem_slots_collatePlacement.mp hslot with ⟨hnew, hlt⟩ | ⟨hold, hmem⟩
      · exact ⟨s.nodes + slot.2, by omega, if_pos hnew⟩
      · obtain ⟨n, hn, hnumber⟩ := hbelow slot hmem
        exact ⟨n, by omega, by rw [if_neg hold, hnumber]⟩
    · rw [number_collatePlacement hnone, number_collatePlacement hnone] at heq
      rcases mem_slots_collatePlacement.mp hslot with ⟨hnew, hlt⟩ | ⟨hold, hmem⟩ <;>
        rcases mem_slots_collatePlacement.mp hslot' with ⟨hnew', hlt'⟩ | ⟨hold', hmem'⟩
      · rw [if_pos hnew, if_pos hnew'] at heq
        have hindex : slot.2 = slot'.2 := Nat.add_left_cancel (Option.some.inj heq)
        exact Prod.ext (hnew.trans hnew'.symm) hindex
      · obtain ⟨n, hn, hnumber⟩ := hbelow slot' hmem'
        rw [if_pos hnew, if_neg hold', hnumber] at heq
        have hn' := Option.some.inj heq
        omega
      · obtain ⟨n, hn, hnumber⟩ := hbelow slot hmem
        rw [if_neg hold, if_pos hnew', hnumber] at heq
        have hn' := Option.some.inj heq
        omega
      · rw [if_neg hold, if_neg hold'] at heq
        exact hinj hmem hmem' heq
    · rintro number ⟨n, hn, rfl⟩
      rw [hnodes] at hn
      by_cases hlow : n < s.nodes
      · obtain ⟨slot, hmem, hnumber⟩ := hsurj ⟨n, hlow, rfl⟩
        have hold := ne_of_mem_slots hfresh hmem
        refine ⟨slot, mem_slots_collatePlacement.mpr (Or.inr ⟨hold, hmem⟩), ?_⟩
        rw [number_collatePlacement hnone, if_neg hold, hnumber]
      · refine ⟨(PLACEMENT, n - s.nodes), mem_slots_collatePlacement.mpr (Or.inl ⟨rfl, ?_⟩), ?_⟩
        · change n - s.nodes < _
          omega
        · rw [number_collatePlacement hnone, if_pos rfl]
          exact congrArg some (by change s.nodes + (n - s.nodes) = n; omega)

end Step

/-- What the tables are after some placements. -/
structure Collects (entries : List (String × Placement)) (s : Collated) : Prop where
  numbered : Numbered s
  keys : s.DATACENTERS.keys = entries.map Prod.fst
  datacenters : ∀ entry ∈ entries, s.DATACENTERS.get entry.1 = some (spread entry.2)

theorem Collects.append {entries : List (String × Placement)} {s : Collated}
    (h : Collects entries s) {entry : String × Placement}
    (hfresh : entry.1 ∉ entries.map Prod.fst) :
    Collects (entries ++ [entry]) (collatePlacement s entry) := by
  have hkeys : entry.1 ∉ s.DATACENTERS.keys := h.keys ▸ hfresh
  refine ⟨h.numbered.collatePlacement hkeys, ?_, ?_⟩
  · rw [collatePlacement_eq, OrderedMap.keys_set, if_neg hkeys, h.keys, List.map_append]
    rfl
  · intro other hother
    rw [collatePlacement_eq, OrderedMap.get_set]
    rcases List.mem_append.mp hother with hold | hnew
    · have hne : other.1 ≠ entry.1 := fun heq ↦ hfresh (heq ▸ List.mem_map_of_mem hold)
      rw [if_neg hne, h.datacenters other hold]
    · rw [List.mem_singleton.mp hnew, if_pos rfl]

theorem collects_collate (PLACEMENTS : OrderedMap String Placement) :
    Collects PLACEMENTS.entries (collate PLACEMENTS) := by
  have hfold : ∀ entries : List (String × Placement), (entries.map Prod.fst).Nodup →
      Collects entries (entries.foldl collatePlacement ⟨0, .empty, .empty⟩) := by
    intro entries
    induction entries using List.reverseRecOn with
    | nil => exact fun _ ↦ ⟨numbered_fresh, rfl, List.forall_mem_nil _⟩
    | append_singleton entries entry ih =>
      intro hnodup
      rw [List.map_append, List.nodup_append] at hnodup
      rw [List.foldl_append]
      refine (ih hnodup.1).append fun hmem ↦ ?_
      exact hnodup.2.2 _ hmem _ (by simp) rfl
  exact hfold PLACEMENTS.entries PLACEMENTS.distinct

/-! ### What Terraform reports -/

/-- Terraform gives back the offsets, and one IP address for each node. -/
structure Reports (prov : Provision) (tables : Collated) : Prop where
  offsets : ∀ PLACEMENT, prov.offsets.get PLACEMENT = tables.OFFSETS.get PLACEMENT
  ips : ∀ PLACEMENT, (prov.public_ips.get PLACEMENT).map List.length =
    (tables.DATACENTERS.get PLACEMENT).map List.length

/-- A node with the IP address of its machine. -/
abbrev Machine := (String × ℕ) × String

/-- The machines of some clusters, in order. -/
def machines (prov : Provision) (clusters : List String) : List Machine :=
  clusters.flatMap fun cluster ↦
    ((prov.public_ips.get cluster).getD []).zipIdx.map fun ip ↦ ((cluster, ip.2), ip.1)

def IsMachine (prov : Provision) (machine : Machine) : Prop :=
  ∃ ips, prov.public_ips.get machine.1.1 = some ips ∧ ips[machine.1.2]? = some machine.2

theorem mem_machines {prov : Provision} {clusters : List String}
    (hclusters : ∀ cluster, cluster ∈ clusters ↔ cluster ∈ prov.public_ips.keys)
    {machine : Machine} : machine ∈ machines prov clusters ↔ IsMachine prov machine := by
  obtain ⟨⟨cluster, i⟩, ip⟩ := machine
  simp only [machines, List.mem_flatMap, List.mem_map, List.mem_zipIdx_iff_getElem?]
  constructor
  · rintro ⟨cluster', hmem, ⟨ip', i'⟩, hget, heq⟩
    obtain ⟨⟨rfl, rfl⟩, rfl⟩ : (cluster' = cluster ∧ i' = i) ∧ ip' = ip := by simpa using heq
    obtain ⟨ips, hips⟩ := OrderedMap.mem_keys.mp ((hclusters cluster').mp hmem)
    have hsome := OrderedMap.get_of_mem_entries hips
    rw [hsome] at hget
    exact ⟨ips, hsome, hget⟩
  · rintro ⟨ips, hsome, hget⟩
    have hmem : cluster ∈ clusters :=
      (hclusters cluster).mpr (OrderedMap.mem_keys.mpr ⟨ips, OrderedMap.mem_entries_of_get hsome⟩)
    exact ⟨cluster, hmem, (ip, i), by rw [hsome]; exact hget, rfl⟩

theorem nodup_machines {prov : Provision} {clusters : List String} (hnodup : clusters.Nodup) :
    ((machines prov clusters).map Prod.fst).Nodup := by
  rw [machines, List.map_flatMap, List.nodup_flatMap]
  simp only [List.map_map]
  constructor
  · intro cluster _
    have hindices : (((prov.public_ips.get cluster).getD []).zipIdx.map Prod.snd).Nodup := by
      rw [List.zipIdx_map_snd]
      exact List.nodup_range'
    refine List.Nodup.of_map Prod.snd ?_
    rw [List.map_map]
    exact hindices
  · refine hnodup.imp fun hne ↦ ?_
    refine List.disjoint_left.mpr ?_
    intro slot hslot hslot'
    obtain ⟨_, -, rfl⟩ := List.mem_map.mp hslot
    obtain ⟨_, -, heq⟩ := List.mem_map.mp hslot'
    exact hne (congrArg Prod.fst heq).symm

/-! ### The commands on the machines -/

def machineHost (prov : Provision) (machine : Machine) : Host :=
  let node := nodeName (prov.number machine.1.1 machine.1.2)
  ⟨node, machine.2, if node = PROVISIONER_NODE then provisionerUnits else []⟩

theorem chainCosmos_eq (prov : Provision) :
    (showHosts prov).chainCosmos =
      (machines prov (sortedKeys prov.public_ips)).map (machineHost prov) := by
  have hfold : ∀ (providers : List String) (inventory : Inventory),
      (providers.foldl (addProvider prov) inventory).chainCosmos =
        inventory.chainCosmos ++ (machines prov providers).map (machineHost prov) := by
    intro providers
    induction providers with
    | nil => simp [machines]
    | cons provider providers ih =>
      intro inventory
      rw [List.foldl_cons, ih]
      simp [addProvider, machines, providerHosts, machineHost, Function.comp_def]
  exact hfold _ _

theorem mem_sortedKeys {ν : Type*} (obj : OrderedMap String ν) (key : String) :
    key ∈ sortedKeys obj ↔ key ∈ obj.keys :=
  (List.perm_insertionSort _ _).mem_iff

theorem mem_chainCosmos {prov : Provision} {host : Host} :
    host ∈ (showHosts prov).chainCosmos ↔
      ∃ machine, IsMachine prov machine ∧ machineHost prov machine = host := by
  rw [chainCosmos_eq, List.mem_map]
  simp only [mem_machines (mem_sortedKeys prov.public_ips)]

theorem mem_ipPlaces {prov : Provision} {n : ℕ} {ip : String} :
    (n, ip) ∈ ipPlaces prov ↔
      ∃ slot, IsMachine prov (slot, ip) ∧ prov.number slot.1 slot.2 = some n := by
  simp only [ipPlaces, List.mem_flatMap, List.mem_filterMap, Option.map_eq_some_iff]
  constructor
  · rintro ⟨⟨cluster, ips⟩, hentry, ⟨ip', i⟩, hip, n', hnumber, heq⟩
    obtain ⟨rfl, rfl⟩ := Prod.mk.inj heq
    exact ⟨(cluster, i), ⟨ips, OrderedMap.get_of_mem_entries hentry,
      List.mem_zipIdx_iff_getElem?.mp hip⟩, hnumber⟩
  · rintro ⟨slot, ⟨ips, hsome, hget⟩, hnumber⟩
    exact ⟨(slot.1, ips), OrderedMap.mem_entries_of_get hsome, (ip, slot.2),
      List.mem_zipIdx_iff_getElem?.mpr hget, n, hnumber, rfl⟩

/-! ### The commands on what Terraform reports -/

section Reported

variable {prov : Provision} {tables : Collated}

theorem Reports.number_eq (h : Reports prov tables) (slot : String × ℕ) :
    prov.number slot.1 slot.2 = tables.number slot := by
  rw [Provision.number, Collated.number, h.offsets]

/-- Every machine is one of a node. -/
theorem Reports.mem_slots (h : Reports prov tables) {machine : Machine}
    (hmachine : IsMachine prov machine) : machine.1 ∈ tables.slots := by
  obtain ⟨ips, hips, hip⟩ := hmachine
  have hlength := h.ips machine.1.1
  rw [hips, Option.map_some, eq_comm, Option.map_eq_some_iff] at hlength
  obtain ⟨dcs, hdcs, hsame⟩ := hlength
  obtain ⟨hlt, -⟩ := List.getElem?_eq_some_iff.mp hip
  exact ⟨dcs, hdcs, hsame ▸ hlt⟩

/-- Every node has a machine. -/
theorem Reports.exists_isMachine (h : Reports prov tables) {slot : String × ℕ}
    (hslot : slot ∈ tables.slots) : ∃ ip, IsMachine prov (slot, ip) := by
  obtain ⟨dcs, hdcs, hlt⟩ := hslot
  have hlength := h.ips slot.1
  rw [hdcs, Option.map_some, Option.map_eq_some_iff] at hlength
  obtain ⟨ips, hips, hsame⟩ := hlength
  have hlt' : slot.2 < ips.length := hsame ▸ hlt
  exact ⟨ips[slot.2], ips, hips, List.getElem?_eq_getElem hlt'⟩

theorem nodeName_some_inj {m n : ℕ} : nodeName (some m) = nodeName (some n) ↔ m = n := by
  constructor
  · intro h
    have hchars := congrArg String.toList h
    simp only [nodeName, String.toList_append, String.toList_ofList] at hchars
    exact toDigits_injective (by decide) (by decide) (List.append_cancel_left hchars)
  · exact fun h ↦ by rw [h]

/-- The places of `public_ips` are those of the machines. -/
theorem Reports.get_publicIps (h : Reports prov tables) (hnumbered : Numbered tables) {n : ℕ}
    {ip : String} :
    (publicIps prov).get n = some ip ↔
      ∃ slot, IsMachine prov (slot, ip) ∧ tables.number slot = some n := by
  have hplaces : ∀ {m : ℕ} {ip' : String}, (m, ip') ∈ ipPlaces prov ↔
      ∃ slot, IsMachine prov (slot, ip') ∧ tables.number slot = some m := by
    intro m ip'
    rw [mem_ipPlaces]
    simp only [h.number_eq]
  constructor
  · intro hget
    rcases OrderedMap.get_foldl_set hget with hmem | hempty
    · exact hplaces.mp hmem
    · simp at hempty
  · rintro ⟨slot, hmachine, hnumber⟩
    refine OrderedMap.get_foldl_set_of_forall ?_ (Or.inl (hplaces.mpr ⟨slot, hmachine, hnumber⟩))
    rintro ⟨m, ip'⟩ hmem (rfl : m = n)
    obtain ⟨slot', hmachine', hnumber'⟩ := hplaces.mp hmem
    -- one number is of one node, and one node has one machine
    have hslot : slot' = slot :=
      hnumbered.injOn (h.mem_slots hmachine') (h.mem_slots hmachine) (hnumber'.trans hnumber.symm)
    subst hslot
    obtain ⟨ips, hips, hip⟩ := hmachine
    obtain ⟨ips', hips', hip'⟩ := hmachine'
    rw [Option.some.inj (hips'.symm.trans hips)] at hip'
    exact Option.some.inj (hip'.symm.trans hip)

end Reported

/-- A list of peers has the IDs in order, each with the address of its place. -/
theorem of_peersFrom {ips : OrderedMap ℕ String} {i : ℕ} {nodeIds : List String}
    {peers : List Peer} (h : peersFrom ips i nodeIds = .ok peers) :
    peers.map Peer.ID = nodeIds.map trimRight ∧
      ∀ j peer, peers[j]? = some peer → ips.get (i + j) = some peer.IP := by
  induction nodeIds generalizing i peers with
  | nil =>
    obtain rfl : [] = peers := Except.ok.inj h
    exact ⟨rfl, by simp⟩
  | cons raw rest ih =>
    simp only [peersFrom] at h
    split_ifs at h
    split at h
    · exact absurd h (by simp)
    · rename_i IP hIP
      cases hrest : peersFrom ips (i + 1) rest with
      | error e => simp [hrest, Except.map] at h
      | ok others =>
        obtain rfl : ⟨trimRight raw, IP, DEFAULT_PORT⟩ :: others = peers := by
          simpa [hrest, Except.map] using h
        obtain ⟨hids, haddresses⟩ := ih hrest
        refine ⟨by rw [List.map_cons, hids, List.map_cons], fun j peer hpeer ↦ ?_⟩
        cases j with
        | zero =>
          rw [← Option.some.inj hpeer]
          exact (Option.filter_eq_some_iff.mp hIP).1
        | succ j =>
          rw [Nat.add_comm j, ← Nat.add_assoc]
          exact haddresses j peer hpeer

theorem exists_peersFrom {ips : OrderedMap ℕ String} {i : ℕ} {nodeIds : List String}
    (hids : ∀ raw ∈ nodeIds, isNodeId (trimRight raw) = true)
    (hips : ∀ j < nodeIds.length, ∃ IP, ips.get (i + j) = some IP ∧ IP ≠ "") :
    ∃ peers, peersFrom ips i nodeIds = .ok peers := by
  induction nodeIds generalizing i with
  | nil => exact ⟨[], rfl⟩
  | cons raw rest ih =>
    have hid := hids raw List.mem_cons_self
    have hnonempty : trimRight raw ≠ "" := by
      intro hempty
      rw [hempty] at hid
      exact absurd hid (by decide)
    obtain ⟨IP, hget, hIP⟩ := hips 0 (by simp)
    obtain ⟨peers, hpeers⟩ := ih (i := i + 1) (fun other hother ↦
      hids other (List.mem_cons_of_mem _ hother)) fun j hj ↦ by
        rw [Nat.add_assoc, Nat.add_comm 1]
        exact hips (j + 1) (Nat.succ_lt_succ hj)
    refine ⟨⟨trimRight raw, IP, DEFAULT_PORT⟩ :: peers, ?_⟩
    rw [Nat.add_zero] at hget
    have hfilter : (ips.get i).filter (fun IP ↦ IP ≠ "") = some IP := by
      rw [hget, Option.filter_some, if_pos (by simpa using hIP)]
    simp only [peersFrom, if_neg hnonempty, hid, hfilter, hpeers, Except.map]
    rfl

/-- Both commands mean the same machines by the numbers. -/
structure Consistent (prov : Provision) (tables : Collated) : Prop where
  /-- No two hosts of `show-hosts` have one name. -/
  distinct : ((showHosts prov).chainCosmos.map Host.node).Nodup
  /-- The names are those of the numbers. -/
  named : ∀ name, name ∈ (showHosts prov).chainCosmos.map Host.node ↔
    ∃ n < tables.nodes, name = nodeName (some n)
  /-- `show-peers` has the ID of each node with the address of the host of its name. -/
  paired : ∀ nodeIds peers, showPeers prov nodeIds = .ok peers →
    peers.map Peer.ID = nodeIds.map trimRight ∧
      ∀ i peer, peers[i]? = some peer →
        ∃ slot ∈ tables.slots, tables.number slot = some i ∧ IsMachine prov (slot, peer.IP) ∧
          ∃ host ∈ (showHosts prov).chainCosmos,
            host.node = nodeName (some i) ∧ host.ansible_host = peer.IP
  /-- It fails for no reason but an ID or an address. -/
  succeeds : ∀ nodeIds ≠ [], nodeIds.length ≤ tables.nodes →
    (∀ raw ∈ nodeIds, isNodeId (trimRight raw) = true) →
    (∀ host ∈ (showHosts prov).chainCosmos, host.ansible_host ≠ "") →
    ∃ peers, showPeers prov nodeIds = .ok peers

section Consistent

variable {prov : Provision} {tables : Collated}

theorem distinct_of_reports (h : Reports prov tables) (hnumbered : Numbered tables) :
    ((showHosts prov).chainCosmos.map Host.node).Nodup := by
  have hkeys : (sortedKeys prov.public_ips).Nodup :=
    (List.perm_insertionSort _ _).nodup_iff.mpr prov.public_ips.distinct
  have hslots : ((machines prov (sortedKeys prov.public_ips)).map Prod.fst).Nodup :=
    nodup_machines hkeys
  rw [chainCosmos_eq, List.map_map]
  have hmap : (machines prov (sortedKeys prov.public_ips)).map (Host.node ∘ machineHost prov) =
      ((machines prov (sortedKeys prov.public_ips)).map Prod.fst).map
        fun slot ↦ nodeName (tables.number slot) := by
    rw [List.map_map]
    refine List.map_congr_left fun machine _ ↦ ?_
    change nodeName (prov.number machine.1.1 machine.1.2) = _
    rw [h.number_eq]
    rfl
  rw [hmap]
  refine hslots.map_on fun slot hslot slot' hslot' heq ↦ ?_
  have hmem : ∀ slot ∈ (machines prov (sortedKeys prov.public_ips)).map Prod.fst,
      slot ∈ tables.slots := by
    intro slot hslot
    obtain ⟨machine, hmachine, rfl⟩ := List.mem_map.mp hslot
    exact h.mem_slots ((mem_machines (mem_sortedKeys prov.public_ips)).mp hmachine)
  obtain ⟨n, -, hn⟩ := hnumbered.mapsTo (hmem slot hslot)
  obtain ⟨n', -, hn'⟩ := hnumbered.mapsTo (hmem slot' hslot')
  refine hnumbered.injOn (hmem slot hslot) (hmem slot' hslot') ?_
  change nodeName (tables.number slot) = nodeName (tables.number slot') at heq
  rw [hn, hn', nodeName_some_inj] at heq
  rw [hn, hn', heq]

/-- The host of a machine. -/
theorem host_of_isMachine (h : Reports prov tables) {slot : String × ℕ} {ip : String} {n : ℕ}
    (hmachine : IsMachine prov (slot, ip)) (hnumber : tables.number slot = some n) :
    ∃ host ∈ (showHosts prov).chainCosmos,
      host.node = nodeName (some n) ∧ host.ansible_host = ip := by
  refine ⟨machineHost prov (slot, ip), mem_chainCosmos.mpr ⟨_, hmachine, rfl⟩, ?_, rfl⟩
  change nodeName (prov.number slot.1 slot.2) = _
  rw [h.number_eq, hnumber]

theorem named_of_reports (h : Reports prov tables) (hnumbered : Numbered tables) (name : String) :
    name ∈ (showHosts prov).chainCosmos.map Host.node ↔
      ∃ n < tables.nodes, name = nodeName (some n) := by
  rw [List.mem_map]
  constructor
  · rintro ⟨host, hhost, rfl⟩
    obtain ⟨machine, hmachine, rfl⟩ := mem_chainCosmos.mp hhost
    obtain ⟨n, hn, hnumber⟩ := hnumbered.mapsTo (h.mem_slots hmachine)
    refine ⟨n, hn, ?_⟩
    change nodeName (prov.number machine.1.1 machine.1.2) = _
    rw [h.number_eq, hnumber]
  · rintro ⟨n, hn, rfl⟩
    obtain ⟨slot, hslot, hnumber⟩ := hnumbered.surjOn ⟨n, hn, rfl⟩
    obtain ⟨ip, hmachine⟩ := h.exists_isMachine hslot
    obtain ⟨host, hhost, hnode, -⟩ := host_of_isMachine h hmachine hnumber
    exact ⟨host, hhost, hnode⟩

theorem showPeers_of_ne_nil {nodeIds : List String} (hids : nodeIds ≠ []) :
    showPeers prov nodeIds = peersFrom (publicIps prov) 0 nodeIds := if_neg hids

theorem consistent_of_reports (h : Reports prov tables) (hnumbered : Numbered tables) :
    Consistent prov tables where
  distinct := distinct_of_reports h hnumbered
  named := named_of_reports h hnumbered
  paired := by
    intro nodeIds peers hpeers
    have hids : nodeIds ≠ [] := by
      rintro rfl
      simp [showPeers] at hpeers
    rw [showPeers_of_ne_nil hids] at hpeers
    obtain ⟨hID, hIP⟩ := of_peersFrom hpeers
    refine ⟨hID, fun i peer hpeer ↦ ?_⟩
    have hget := hIP i peer hpeer
    rw [Nat.zero_add, h.get_publicIps hnumbered] at hget
    obtain ⟨slot, hmachine, hnumber⟩ := hget
    exact ⟨slot, h.mem_slots hmachine, hnumber, hmachine, host_of_isMachine h hmachine hnumber⟩
  succeeds := by
    intro nodeIds hids hlength hvalid haddresses
    rw [showPeers_of_ne_nil hids]
    refine exists_peersFrom hvalid fun j hj ↦ ?_
    rw [Nat.zero_add]
    obtain ⟨slot, hslot, hnumber⟩ := hnumbered.surjOn ⟨j, hj.trans_le hlength, rfl⟩
    obtain ⟨ip, hmachine⟩ := h.exists_isMachine hslot
    obtain ⟨host, hhost, -, rfl⟩ := host_of_isMachine h hmachine hnumber
    exact ⟨_, (h.get_publicIps hnumbered).mpr ⟨slot, hmachine, hnumber⟩, haddresses host hhost⟩

end Consistent

theorem get_DATACENTERS {PLACEMENTS : OrderedMap String Placement} (PLACEMENT : String) :
    (collate PLACEMENTS).DATACENTERS.get PLACEMENT =
      (PLACEMENTS.get PLACEMENT).map spread := by
  have hcollects := collects_collate PLACEMENTS
  cases hget : PLACEMENTS.get PLACEMENT with
  | some placement =>
    exact hcollects.datacenters (PLACEMENT, placement) (OrderedMap.mem_entries_of_get hget)
  | none =>
    refine OrderedMap.get_eq_none_of_not_mem_keys fun hmem ↦ ?_
    rw [hcollects.keys] at hmem
    obtain ⟨placement, hplacement⟩ := OrderedMap.mem_keys.mp hmem
    rw [OrderedMap.get_of_mem_entries hplacement] at hget
    exact Option.some_ne_none _ hget

/-- The nodes of every table of placements are numbered one to one, each datacenter has as many as
it is to have, and whatever Terraform reports of them, both commands mean the same machines. -/
theorem numbering_consistent (PLACEMENTS : OrderedMap String Placement) :
    Numbered (collate PLACEMENTS) ∧
      (∀ PLACEMENT, (collate PLACEMENTS).DATACENTERS.get PLACEMENT =
        (PLACEMENTS.get PLACEMENT).map spread) ∧
      (∀ (placement : Placement) (dc : String),
        (spread placement).count dc = (placement.get dc).getD 0) ∧
      ∀ prov, Reports prov (collate PLACEMENTS) → Consistent prov (collate PLACEMENTS) :=
  have hnumbered := (collects_collate PLACEMENTS).numbered
  ⟨hnumbered, get_DATACENTERS, count_spread, fun _ h ↦ consistent_of_reports h hnumbered⟩

section Example

def twoDatacenters : OrderedMap String Placement :=
  ((OrderedMap.empty.set "digitalocean1" ((OrderedMap.empty.set "SFO2" 1).set "NYC3" 2)).set
    "docker2" .empty).set "docker3" (OrderedMap.empty.set "default" 1)

def reported : Provision where
  public_ips := ((OrderedMap.empty.set "digitalocean1" ["167.99.0.1", "167.99.0.2",
    "138.68.0.1"]).set "docker2" []).set "docker3" ["172.17.0.4"]
  offsets := (collate twoDatacenters).OFFSETS

theorem reports_twoDatacenters : Reports reported (collate twoDatacenters) := by
  refine ⟨fun _ ↦ rfl, fun PLACEMENT ↦ ?_⟩
  rw [get_DATACENTERS]
  simp only [reported, twoDatacenters, OrderedMap.get_set]
  split_ifs
  · decide
  · decide
  · decide
  · rfl

theorem numbering_consistent_two_datacenters :
    Consistent reported (collate twoDatacenters) ∧
      showPeers reported ["f00d\n", "ab01\n", "ab02\n", "ab03\n"] =
        .ok [⟨"f00d", "167.99.0.1", 26656⟩, ⟨"ab01", "167.99.0.2", 26656⟩,
          ⟨"ab02", "138.68.0.1", 26656⟩, ⟨"ab03", "172.17.0.4", 26656⟩] :=
  ⟨(numbering_consistent twoDatacenters).2.2.2 reported reports_twoDatacenters,
    by decide⟩

end Example

end CosmicSwingset.Setup
