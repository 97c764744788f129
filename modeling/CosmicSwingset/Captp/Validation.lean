import CosmicSwingset.Captp.RoundTrip

/-!
# What `unserialize` accepts

A peer may send any text with any list of slots. `fullRevive` cannot rely on the text being that of
`serialize`, and checks what it reads. Whatever the text is, what comes out of it is a graph: every
object in it is finished, every position is that of one of its objects, and every reference is of a
slot in the list (`unserialize_wellFormed`). The tables of the connection have seen the slots of
these references, in the order of the objects, and no others.
-/

set_option autoImplicit false
set_option relaxedAutoImplicit false

namespace CosmicSwingset.Captp

open Foundation Json

variable {ν τ : Type*}

/-- The value is none of an object beyond the table. -/
def Revived.InRange (len : ℕ) : Revived ν → Prop
  | .ref index => index < len
  | _ => True

def Node.InRange (len : ℕ) : Node ν → Prop
  | .array elements => ∀ v ∈ elements, v.InRange len
  | .record fields => ∀ field ∈ fields, field.2.InRange len
  | _ => True

/-- The slot of a reference. -/
def Node.slot? : Node ν → Option String
  | .remote slot => some slot
  | _ => none

theorem Revived.InRange.mono {len len' : ℕ} (hle : len ≤ len') {v : Revived ν}
    (hv : v.InRange len) : v.InRange len' := by
  cases v with
  | ref index => exact Nat.lt_of_lt_of_le hv hle
  | _ => trivial

theorem Node.InRange.mono {len len' : ℕ} (hle : len ≤ len') {node : Node ν}
    (hnode : node.InRange len) : node.InRange len' := by
  cases node with
  | array elements => exact fun v hv ↦ (hnode v hv).mono hle
  | record fields => exact fun field hfield ↦ (hnode field hfield).mono hle
  | _ => trivial

/-- What a step of reading adds to the tables: objects that are finished, with everything in range
and no slots but those of the message. -/
structure Extends (receive : τ → String → τ) (slots : List String) (t t' : Reviving ν τ)
    (nodes : List (Node ν)) : Prop where
  ibids : t'.ibids = t.ibids ++ nodes.map some
  inRange : ∀ node ∈ nodes, node.InRange t'.ibids.length
  slots : ∀ slot ∈ nodes.filterMap Node.slot?, slot ∈ slots
  imports : t'.imports = (nodes.filterMap Node.slot?).foldl receive t.imports

section Extends

variable {receive : τ → String → τ} {slots : List String} {t t' t'' : Reviving ν τ}

theorem Extends.refl (t : Reviving ν τ) : Extends receive slots t t [] :=
  ⟨by simp, by simp, by simp, rfl⟩

theorem Extends.length_le {nodes : List (Node ν)} (hextends : Extends receive slots t t' nodes) :
    t.ibids.length ≤ t'.ibids.length := by
  rw [hextends.ibids, List.length_append]
  omega

theorem Extends.trans {nodes nodes' : List (Node ν)} (hfirst : Extends receive slots t t' nodes)
    (hrest : Extends receive slots t' t'' nodes') :
    Extends receive slots t t'' (nodes ++ nodes') where
  ibids := by rw [hrest.ibids, hfirst.ibids, List.map_append, List.append_assoc]
  inRange node hnode := by
    rcases List.mem_append.mp hnode with hbefore | hafter
    · exact (hfirst.inRange node hbefore).mono hrest.length_le
    · exact hrest.inRange node hafter
  slots slot hslot := by
    rw [List.filterMap_append] at hslot
    exact (List.mem_append.mp hslot).elim (hfirst.slots slot) (hrest.slots slot)
  imports := by rw [hrest.imports, hfirst.imports, List.filterMap_append, List.foldl_append]

theorem Extends.register {node : Node ν} (hlocal : node.slot? = none)
    (hnode : node.InRange (t.ibids.length + 1)) :
    Extends receive slots t (t.register node).2 [node] where
  ibids := rfl
  inRange := by simpa [Reviving.register] using hnode
  slots := by simp [hlocal]
  imports := by simp [hlocal, Reviving.register]

/-- An array or a record is finished after what is in it. -/
theorem Extends.finish {nodes : List (Node ν)} {node : Node ν} (hlocal : node.slot? = none)
    (hinside : Extends receive slots t.start t' nodes) (hnode : node.InRange t'.ibids.length) :
    Extends receive slots t (t'.finish t.ibids.length node) (node :: nodes) where
  ibids := by simp [Reviving.finish, hinside.ibids, Reviving.start]
  inRange := by
    simp only [Reviving.finish, List.length_set]
    exact List.forall_mem_cons.mpr ⟨hnode, hinside.inRange⟩
  slots := by
    rw [List.filterMap_cons_none hlocal]
    exact hinside.slots
  imports := by
    rw [List.filterMap_cons_none hlocal]
    exact hinside.imports

end Extends

section Validation

variable {numbers : Positions ν} {receive : τ → String → τ} {slots : List String}
  {policy : CyclePolicy}

theorem inRange_of_get {index : Option (Json ν)} {t : Reviving ν τ} {v : Revived ν}
    (hok : t.get numbers policy index = .ok v) : v.InRange t.ibids.length := by
  unfold Reviving.get at hok
  split at hok
  · cases hok
  · rename_i i _
    have hentry : ∀ entry, t.ibids[i]? = some entry → i < t.ibids.length :=
      fun entry hentry ↦ (List.getElem?_eq_some_iff.mp hentry).1
    split at hok
    · cases hok
    · rename_i node hnode
      cases hok
      exact hentry _ hnode
    · rename_i hnone
      split at hok
      · cases hok
        exact hentry _ hnone
      · cases hok
        exact hentry _ hnone
      · cases hok
      · cases hok

/-- What is read is in range of what has been added. -/
def Accepts (receive : τ → String → τ) (slots : List String) (t : Reviving ν τ)
    (result : Revived ν × Reviving ν τ) : Prop :=
  (∃ nodes, Extends receive slots t result.2 nodes) ∧ result.1.InRange result.2.ibids.length

theorem Accepts.stay {t : Reviving ν τ} {v : Revived ν} (hv : v.InRange t.ibids.length) :
    Accepts receive slots t (v, t) :=
  ⟨⟨[], .refl t⟩, hv⟩

theorem Accepts.register {t : Reviving ν τ} {node : Node ν} (hlocal : node.slot? = none)
    (hnode : node.InRange (t.ibids.length + 1)) :
    Accepts receive slots t (t.register node) := by
  refine ⟨⟨_, .register hlocal hnode⟩, ?_⟩
  simp [Reviving.register, Revived.InRange]

theorem Accepts.slot {t t' : Reviving ν τ} {slot : String} {index : Option (Json ν)}
    (hok : unserializeSlot numbers receive slots index t = .ok (slot, t')) :
    Accepts receive slots t (t'.register (.remote slot)) := by
  unfold unserializeSlot at hok
  split at hok
  · cases hok
  · split at hok
    · cases hok
    · rename_i hslot
      cases hok
      refine ⟨⟨[.remote slot], ⟨rfl, by simp [Node.InRange], ?_, rfl⟩⟩, ?_⟩
      · simpa [Node.slot?] using List.mem_of_getElem? hslot
      · simp [Reviving.register, Revived.InRange]

theorem accepts_of_reviveClass {cls : String} {members : List (String × Json ν)}
    {t : Reviving ν τ} {result : Revived ν × Reviving ν τ}
    (hok : reviveClass numbers receive slots policy cls members t = .ok result) :
    Accepts receive slots t result := by
  unfold reviveClass at hok
  split at hok
  case h_6 =>
    split at hok
    · cases hok
      exact .stay trivial
    · cases hok
  case h_7 =>
    split at hok
    · split at hok
      · cases hok
        exact .stay trivial
      · cases hok
    · cases hok
  case h_8 =>
    obtain ⟨v, hget, rfl⟩ := map_eq_ok.mp hok
    exact .stay (inRange_of_get hget)
  case h_9 =>
    split at hok
    · cases hok
      exact .register rfl trivial
    · cases hok
    · cases hok
  case h_10 =>
    obtain ⟨⟨slot, t'⟩, hslot, rfl⟩ := map_eq_ok.mp hok
    exact .slot hslot
  case h_11 => cases hok
  all_goals
    cases hok
    exact .stay trivial

mutual

theorem accepts_of_fullRevive {j : Json ν} {t : Reviving ν τ} {result : Revived ν × Reviving ν τ}
    (hok : fullRevive numbers receive slots policy j t = .ok result) :
    Accepts receive slots t result := by
  cases j with
  | arr elements =>
    rw [fullRevive] at hok
    obtain ⟨⟨vs, t'⟩, helements, rfl⟩ := map_eq_ok.mp hok
    obtain ⟨⟨nodes, hextends⟩, hvs⟩ := grows_of_reviveElements helements
    have hfinish :
        Extends receive slots t (t'.finish t.ibids.length (.array vs)) (.array vs :: nodes) :=
      hextends.finish rfl hvs
    refine ⟨⟨_, hfinish⟩, ?_⟩
    simp only [Revived.InRange, hfinish.ibids, List.length_append, List.length_map,
      List.length_cons]
    omega
  | obj members =>
    rw [fullRevive] at hok
    split at hok
    · exact accepts_of_reviveClass hok
    · cases hok
    · obtain ⟨⟨fields, t'⟩, hmembers, rfl⟩ := map_eq_ok.mp hok
      obtain ⟨⟨nodes, hextends⟩, hfields⟩ := grows_of_reviveMembers hmembers
      have hfinish : Extends receive slots t (t'.finish t.ibids.length (.record fields))
          (.record fields :: nodes) := hextends.finish rfl hfields
      refine ⟨⟨_, hfinish⟩, ?_⟩
      simp only [Revived.InRange, hfinish.ibids, List.length_append, List.length_map,
        List.length_cons]
      omega
  | _ =>
    cases hok
    exact .stay trivial

theorem grows_of_reviveElements {js : List (Json ν)} {t : Reviving ν τ}
    {result : List (Revived ν) × Reviving ν τ}
    (hok : reviveElements numbers receive slots policy js t = .ok result) :
    (∃ nodes, Extends receive slots t result.2 nodes) ∧
      ∀ v ∈ result.1, v.InRange result.2.ibids.length := by
  cases js with
  | nil =>
    cases hok
    exact ⟨⟨[], .refl t⟩, by simp⟩
  | cons j js =>
    rw [reviveElements] at hok
    cases hfirst : fullRevive numbers receive slots policy j t with
    | error e => simp [hfirst] at hok
    | ok first =>
      rw [hfirst] at hok
      obtain ⟨rest, hrest, rfl⟩ := map_eq_ok.mp hok
      obtain ⟨⟨nodes, hnodes⟩, hv⟩ := accepts_of_fullRevive hfirst
      obtain ⟨⟨nodes', hnodes'⟩, hvs⟩ := grows_of_reviveElements hrest
      exact ⟨⟨_, hnodes.trans hnodes'⟩,
        List.forall_mem_cons.mpr ⟨hv.mono hnodes'.length_le, hvs⟩⟩

theorem grows_of_reviveMembers {ms : List (String × Json ν)} {t : Reviving ν τ}
    {result : List (String × Revived ν) × Reviving ν τ}
    (hok : reviveMembers numbers receive slots policy ms t = .ok result) :
    (∃ nodes, Extends receive slots t result.2 nodes) ∧
      ∀ field ∈ result.1, field.2.InRange result.2.ibids.length := by
  cases ms with
  | nil =>
    cases hok
    exact ⟨⟨[], .refl t⟩, by simp⟩
  | cons member ms =>
    obtain ⟨name, j⟩ := member
    rw [reviveMembers] at hok
    cases hfirst : fullRevive numbers receive slots policy j t with
    | error e => simp [hfirst] at hok
    | ok first =>
      rw [hfirst] at hok
      obtain ⟨rest, hrest, rfl⟩ := map_eq_ok.mp hok
      obtain ⟨⟨nodes, hnodes⟩, hv⟩ := accepts_of_fullRevive hfirst
      obtain ⟨⟨nodes', hnodes'⟩, hfields⟩ := grows_of_reviveMembers hrest
      refine ⟨⟨_, hnodes.trans hnodes'⟩, ?_⟩
      simp only
      split_ifs
      · exact hfields
      · exact List.forall_mem_cons.mpr ⟨hv.mono hnodes'.length_le, hfields⟩

end

end Validation

/-- A graph in which nothing is unfinished and nothing is out of range, with slots of the message
only. -/
structure WellFormed (slots : List String) (v : Revived ν) (ibids : List (Option (Node ν))) :
    Prop where
  value : v.InRange ibids.length
  objects : ∀ entry ∈ ibids, ∃ node, entry = some node ∧ node.InRange ibids.length
  slots : ∀ slot, some (Node.remote slot) ∈ ibids → slot ∈ slots

/-- Whatever the message is, what is read of it is a graph, and the connection has seen the slots in
it and no others. -/
theorem unserialize_wellFormed (numbers : Positions ν) (receive : τ → String → τ)
    (policy : CyclePolicy) (data : CapData) (imports : τ) {v : Revived ν}
    {ibids : List (Option (Node ν))} {imports' : τ}
    (hok : unserialize numbers receive policy data imports = .ok (v, ibids, imports')) :
    WellFormed data.slots v ibids ∧
      imports' = (ibids.filterMap fun entry ↦ entry.bind Node.slot?).foldl receive imports := by
  unfold unserialize at hok
  split at hok
  · cases hok
  · obtain ⟨⟨r, t⟩, hread, heq⟩ := map_eq_ok.mp hok
    cases heq
    obtain ⟨⟨nodes, hextends⟩, hvalue⟩ := accepts_of_fullRevive hread
    have hibids : t.ibids = nodes.map some := by simpa using hextends.ibids
    refine ⟨⟨hvalue, fun entry hentry ↦ ?_, fun slot hslot ↦ ?_⟩, ?_⟩
    · rw [hibids] at hentry
      obtain ⟨node, hnode, rfl⟩ := List.mem_map.mp hentry
      exact ⟨node, rfl, hextends.inRange node hnode⟩
    · refine hextends.slots slot (List.mem_filterMap.mpr ⟨.remote slot, ?_, rfl⟩)
      rw [hibids] at hslot
      simpa using hslot
    · have hslots : nodes.filterMap Node.slot? =
          t.ibids.filterMap fun entry ↦ entry.bind Node.slot? := by
        rw [hibids, List.filterMap_map]
        rfl
      rw [← hslots]
      exact hextends.imports

theorem unserialize_wellFormed_loop : ∃ (data : CapData) (v : Revived ℕ)
    (ibids : List (Option (Node ℕ))) (imports : List String), WellFormed data.slots v ibids ∧
      imports = (ibids.filterMap fun entry ↦ entry.bind Node.slot?).foldl
        (fun imports slot ↦ imports ++ [slot]) [] := by
  obtain ⟨data, hcall⟩ := exists_serialize_loop
  obtain ⟨j, s', hwalk, rfl, -⟩ := walk_of_serialize noToJSON_loop hcall
  have hpolicy : CyclePolicy.Lenient .allowCycles ∨
      ∀ o, Within loop (.object 0) (.object o) → ¬ Relation.TransGen (Child loop) o o :=
    Or.inl (Or.inl rfl)
  obtain ⟨graph, slot, -, -, -, -, hok⟩ := unserialize_of_walk
    (fun imports slot ↦ imports ++ [slot]) hwalk (fun o _ ↦ noProto_loop o) hpolicy []
  exact ⟨_, _, _, _, unserialize_wellFormed Positions.nat (fun imports slot ↦ imports ++ [slot])
    .allowCycles _ [] hok⟩

end CosmicSwingset.Captp
