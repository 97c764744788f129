import CosmicSwingset.Captp.RoundTrip

/-!
# Cycles

`unserialize` has the policy `forbidCycles` where its caller does not say otherwise, and no caller
does. What it reads with this policy it reads as with any other (`fullRevive_forbidCycles`); it
throws the error of a cycle where an ibid is that of an object that is not finished.

Of what `serialize` has written it reads a value if and only if no object in the value contains
itself (`unserialize_forbidCycles_iff`). That it refuses a cycle is shown by the order in which the
objects are finished: each one is finished after all that it contains, so those that are finished
are a closed set without cycles (`Stringifies.finished`).
-/

set_option autoImplicit false
set_option relaxedAutoImplicit false

namespace CosmicSwingset.Captp

open Foundation

variable {ν σ τ : Type*} {n : ℕ} {numbers : Positions ν} {slotOf : σ → Fin n → String × σ}
  {h : Heap ν n} {receive : τ → String → τ}

/-! ### The error of a cycle -/

def cycleError {α : Type*} (i : ℕ) : Except Thrown α :=
  throwing .typeError ("Ibid cycle at " ++ toString i)

/-- The result is the same as the other one, or the error of a cycle. -/
def AgreesUpToCycle {α : Type*} (forbidding allowing : Except Thrown α) : Prop :=
  forbidding = allowing ∨ ∃ i, forbidding = cycleError i

theorem AgreesUpToCycle.map {α β : Type*} {x y : Except Thrown α} (hagrees : AgreesUpToCycle x y)
    (f : α → β) : AgreesUpToCycle (x.map f) (y.map f) := by
  rcases hagrees with rfl | ⟨i, rfl⟩
  · exact Or.inl rfl
  · exact Or.inr ⟨i, rfl⟩

theorem AgreesUpToCycle.eq_of_ok {α : Type*} {x y : Except Thrown α} {a : α}
    (hagrees : AgreesUpToCycle x y) (hok : x = .ok a) : y = .ok a := by
  rcases hagrees with rfl | ⟨i, rfl⟩
  · exact hok
  · cases hok

section Agreement

variable {slots : List String}

theorem get_forbidCycles (index : Option (Json ν)) (t : Reviving ν τ) :
    AgreesUpToCycle (t.get numbers .forbidCycles index) (t.get numbers .allowCycles index) := by
  unfold Reviving.get
  split
  · exact Or.inl rfl
  · split
    · exact Or.inl rfl
    · exact Or.inl rfl
    · exact Or.inr ⟨_, rfl⟩

theorem reviveClass_forbidCycles (cls : String) (members : List (String × Json ν))
    (t : Reviving ν τ) :
    AgreesUpToCycle (reviveClass numbers receive slots .forbidCycles cls members t)
      (reviveClass numbers receive slots .allowCycles cls members t) := by
  unfold reviveClass
  split
  case h_8 => exact (get_forbidCycles _ t).map _
  all_goals exact Or.inl rfl

mutual

theorem fullRevive_forbidCycles (j : Json ν) (t : Reviving ν τ) :
    AgreesUpToCycle (fullRevive numbers receive slots .forbidCycles j t)
      (fullRevive numbers receive slots .allowCycles j t) := by
  cases j with
  | arr elements =>
    rw [fullRevive, fullRevive]
    exact (reviveElements_forbidCycles elements t.start).map _
  | obj members =>
    rw [fullRevive, fullRevive]
    split
    · exact reviveClass_forbidCycles _ members t
    · exact Or.inl rfl
    · exact (reviveMembers_forbidCycles members t.start).map _
  | _ => exact Or.inl rfl

theorem reviveElements_forbidCycles (js : List (Json ν)) (t : Reviving ν τ) :
    AgreesUpToCycle (reviveElements numbers receive slots .forbidCycles js t)
      (reviveElements numbers receive slots .allowCycles js t) := by
  cases js with
  | nil => exact Or.inl rfl
  | cons j js =>
    rw [reviveElements, reviveElements]
    rcases fullRevive_forbidCycles j t with hsame | ⟨i, hcycle⟩
    · rw [hsame]
      cases fullRevive numbers receive slots .allowCycles j t with
      | error e => exact Or.inl rfl
      | ok p => exact (reviveElements_forbidCycles js p.2).map _
    · rw [hcycle]
      exact Or.inr ⟨i, rfl⟩

theorem reviveMembers_forbidCycles (ms : List (String × Json ν)) (t : Reviving ν τ) :
    AgreesUpToCycle (reviveMembers numbers receive slots .forbidCycles ms t)
      (reviveMembers numbers receive slots .allowCycles ms t) := by
  cases ms with
  | nil => exact Or.inl rfl
  | cons member ms =>
    obtain ⟨name, j⟩ := member
    rw [reviveMembers, reviveMembers]
    rcases fullRevive_forbidCycles j t with hsame | ⟨i, hcycle⟩
    · rw [hsame]
      cases fullRevive numbers receive slots .allowCycles j t with
      | error e => exact Or.inl rfl
      | ok p => exact (reviveMembers_forbidCycles ms p.2).map _
    · rw [hcycle]
      exact Or.inr ⟨i, rfl⟩

end

end Agreement

/-! ### The order of finishing -/

/-- The objects whose copies are finished. -/
def finished (graph : List (Fin n)) (ibids : List (Option (Node ν))) : Set (Fin n) :=
  {o | ∃ (i : ℕ) (node : Node ν), graph[i]? = some o ∧ ibids[i]? = some (some node)}

section Finished

variable {graph : List (Fin n)} {slotMap : List (Fin n × String)} {t : Reviving ν τ}

theorem mem_of_finished {ibids : List (Fin n)} (hgraph : ibids <+: graph)
    (hlength : t.ibids.length = ibids.length) {o : Fin n} (ho : o ∈ finished graph t.ibids) :
    o ∈ ibids := by
  obtain ⟨i, node, hobject, hnode⟩ := ho
  obtain ⟨rest, rfl⟩ := hgraph
  have hlt : i < ibids.length := by
    rw [← hlength]
    exact (List.getElem?_eq_some_iff.mp hnode).1
  rw [List.getElem?_append_left hlt] at hobject
  exact List.mem_of_getElem? hobject

theorem finished_start : finished graph t.start.ibids = finished graph t.ibids := by
  ext o
  refine exists_congr fun i ↦ exists_congr fun node ↦ and_congr_right fun _ ↦ ?_
  rw [Reviving.start, List.getElem?_append]
  split_ifs with hlt
  · exact Iff.rfl
  · rw [List.getElem?_eq_none (by omega : t.ibids.length ≤ i)]
    constructor
    · intro hnone
      cases hindex : i - t.ibids.length <;> simp [hindex] at hnone
    · intro hnone
      cases hnone

/-- The copies that are added are finished. -/
theorem finished_copied {ibids os : List (Fin n)} (hgraph : ibids ++ os <+: graph)
    (hlength : t.ibids.length = ibids.length) :
    finished graph (copied receive h graph slotMap t os).ibids =
      finished graph t.ibids ∪ {o | o ∈ os} := by
  obtain ⟨rest, rfl⟩ := hgraph
  ext o
  simp only [finished, copied, Set.mem_union, Set.mem_ofPred_eq, List.map_map]
  constructor
  · rintro ⟨i, node, hobject, hnode⟩
    by_cases hlt : i < t.ibids.length
    · rw [List.getElem?_append_left hlt] at hnode
      exact Or.inl ⟨i, node, hobject, hnode⟩
    · have hlt' : i < (t.ibids ++ os.map _).length := (List.getElem?_eq_some_iff.mp hnode).1
      rw [List.length_append, List.length_map] at hlt'
      rw [List.append_assoc, List.getElem?_append_right (by omega),
        List.getElem?_append_left (by omega)] at hobject
      exact Or.inr (List.mem_of_getElem? hobject)
  · rintro (⟨i, node, hobject, hnode⟩ | ho)
    · have hlt := (List.getElem?_eq_some_iff.mp hnode).1
      exact ⟨i, node, hobject, by rw [List.getElem?_append_left hlt, hnode]⟩
    · obtain ⟨k, hk, rfl⟩ := List.getElem_of_mem ho
      refine ⟨ibids.length + k, imageNode h (ibids ++ os ++ rest) (slotIn slotMap) os[k], ?_, ?_⟩
      · rw [List.append_assoc, List.getElem?_append_right (by omega), Nat.add_sub_cancel_left,
          List.getElem?_append_left hk, List.getElem?_eq_getElem hk]
      · rw [← hlength, List.getElem?_append_right (by omega), Nat.add_sub_cancel_left,
          List.getElem?_map, List.getElem?_eq_getElem hk]
        rfl

end Finished

theorem reviveElements_cons_eq_ok {slots : List String} {policy : CyclePolicy} {j : Json ν}
    {js : List (Json ν)} {t : Reviving ν τ} {result : List (Revived ν) × Reviving ν τ}
    (hok : reviveElements numbers receive slots policy (j :: js) t = .ok result) :
    ∃ first rest, fullRevive numbers receive slots policy j t = .ok first ∧
      reviveElements numbers receive slots policy js first.2 = .ok rest ∧ result.2 = rest.2 := by
  rw [reviveElements] at hok
  cases hfirst : fullRevive numbers receive slots policy j t with
  | error e => simp [hfirst] at hok
  | ok first =>
    rw [hfirst] at hok
    obtain ⟨rest, hrest, rfl⟩ := map_eq_ok.mp hok
    exact ⟨first, rest, rfl, hrest, rfl⟩

/-- A closed set of objects without cycles. -/
def Finishes (h : Heap ν n) (F : Set (Fin n)) : Prop :=
  Closed (Child h) F ∧ Acyclic (Child h) F

/-- An object is finished after all that it contains. -/
theorem Finishes.add {F : Set (Fin n)} (hF : Finishes h F) {o : Fin n} (hnew : o ∉ F)
    (hinside : ∀ u, Value.object u ∈ contents h o → u ∈ F) : Finishes h (insert o F) :=
  ⟨hF.1.insert hinside, acyclic_insert hF.1 hF.2 hnew hinside⟩

/-- The members of a record are read as its values are. -/
theorem reviveElements_of_reviveMembers {slots : List String} {policy : CyclePolicy}
    {names : List String} {js : List (Json ν)} {t : Reviving ν τ}
    {result : List (String × Revived ν) × Reviving ν τ} (hlength : names.length = js.length)
    (hok : reviveMembers numbers receive slots policy (names.zip js) t = .ok result) :
    ∃ rs, reviveElements numbers receive slots policy js t = .ok (rs, result.2) := by
  induction names generalizing js t result with
  | nil =>
    rw [List.length_nil] at hlength
    rw [List.eq_nil_of_length_eq_zero hlength.symm] at hok ⊢
    cases hok
    exact ⟨[], rfl⟩
  | cons name names ih =>
    cases js with
    | nil => cases hlength
    | cons j js =>
      rw [List.zip_cons_cons, reviveMembers] at hok
      rw [reviveElements]
      cases hfirst : fullRevive numbers receive slots policy j t with
      | error e => simp [hfirst] at hok
      | ok first =>
        rw [hfirst] at hok
        obtain ⟨rest, hrest, rfl⟩ := map_eq_ok.mp hok
        obtain ⟨rs, hrs⟩ := ih (Nat.succ.inj hlength) hrest
        exact ⟨first.1 :: rs, map_eq_ok.mpr ⟨_, hrs, rfl⟩⟩

section Walk

variable {graph : List (Fin n)} {slotMap : List (Fin n × String)}

theorem finished_copied_cons {s : Serializing n σ} {t : Reviving ν τ} {o : Fin n}
    {os : List (Fin n)} (hgraph : s.ibids ++ o :: os <+: graph)
    (hlength : t.ibids.length = s.ibids.length) :
    finished graph (copied receive h graph slotMap t (o :: os)).ibids =
      insert o (finished graph t.ibids ∪ {u | u ∈ os}) := by
  rw [finished_copied hgraph hlength]
  ext u
  simp only [Set.mem_union, Set.mem_ofPred_eq, List.mem_cons, Set.mem_insert_iff]
  tauto

theorem not_mem_finished {s : Serializing n σ} {t : Reviving ν τ} {o : Fin n} {os : List (Fin n)}
    (hnodup : graph.Nodup) (hgraph : s.ibids ++ o :: os <+: graph)
    (hlength : t.ibids.length = s.ibids.length) : o ∉ finished graph t.ibids ∪ {u | u ∈ os} := by
  have hdistinct := hgraph.sublist.nodup hnodup
  obtain ⟨-, hrest, hdisjoint⟩ := List.nodup_append.mp hdistinct
  rintro (hbefore | hafter)
  · have hmem := mem_of_finished ((List.prefix_append _ _).trans hgraph) hlength hbefore
    exact hdisjoint o hmem o List.mem_cons_self rfl
  · exact (List.nodup_cons.mp hrest).1 hafter

/-- What a copy leaves behind: more is finished, the object among it. -/
structure Progress (h : Heap ν n) (graph : List (Fin n)) (t t' : Reviving ν τ)
    (vs : List (Value ν n)) : Prop where
  finishes : Finishes h (finished graph t'.ibids)
  subset : finished graph t.ibids ⊆ finished graph t'.ibids
  mem : ∀ o, Value.object o ∈ vs → o ∈ finished graph t'.ibids

theorem Progress.cons {t t' t'' : Reviving ν τ} {v : Value ν n} {vs : List (Value ν n)}
    (hfirst : Progress h graph t t' [v]) (hrest : Progress h graph t' t'' vs) :
    Progress h graph t t'' (v :: vs) where
  finishes := hrest.finishes
  subset := hfirst.subset.trans hrest.subset
  mem o ho := by
    rcases List.mem_cons.mp ho with hhead | htail
    · exact hrest.subset (hfirst.mem o (List.mem_singleton.mpr hhead))
    · exact hrest.mem o htail

/-- An object whose contents are finished is finished next. -/
theorem Progress.copied {s : Serializing n σ} {t : Reviving ν τ} {o : Fin n} {os : List (Fin n)}
    (hnodup : graph.Nodup) (hgraph : s.ibids ++ o :: os <+: graph)
    (hlength : t.ibids.length = s.ibids.length)
    (hinside : Finishes h (finished graph t.ibids ∪ {u | u ∈ os}))
    (hcontents : ∀ u, Value.object u ∈ contents h o → u ∈ finished graph t.ibids ∪ {u | u ∈ os}) :
    Progress h graph t (Captp.copied receive h graph slotMap t (o :: os)) [.object o] := by
  have hinsert : finished graph (Captp.copied receive h graph slotMap t (o :: os)).ibids =
      insert o (finished graph t.ibids ∪ {u | u ∈ os}) := finished_copied_cons hgraph hlength
  refine ⟨?_, ?_, ?_⟩
  · rw [hinsert]
    exact hinside.add (not_mem_finished hnodup hgraph hlength) hcontents
  · rw [hinsert]
    exact fun u hu ↦ Set.mem_insert_of_mem o (Or.inl hu)
  · intro u hu
    rw [hinsert]
    cases List.mem_singleton.mp hu
    exact Set.mem_insert _ _

section Progress

variable {vs : List (Value ν n)} {s s' : Serializing n σ} {js : List (Json ν)} {t : Reviving ν τ}

/-- What is read with the policy `forbidCycles` is the copy that is read with the others. -/
theorem Stringifies.copied (hwalk : Stringifies numbers slotOf h vs s js s') (hnodup : graph.Nodup)
    (hdistinct : (slotMap.map Prod.fst).Nodup)
    (hproto : ∀ o ∈ graph, "__proto__" ∉ (h o).fields.map Prod.fst) (hgraph : s'.ibids <+: graph)
    (hslots : s'.slotMap <+: slotMap) (hlength : t.ibids.length = s.ibids.length)
    {result : List (Revived ν) × Reviving ν τ}
    (hok : reviveElements numbers receive (slotMap.map Prod.snd) .forbidCycles js t = .ok result) :
    ∃ os, Adds slotOf h s s' os ∧ result.2 = Captp.copied receive h graph slotMap t os := by
  obtain ⟨os, hos, hrevive⟩ : ∃ os, Adds slotOf h s s' os ∧
      reviveElements numbers receive (slotMap.map Prod.snd) .allowCycles js t =
        .ok (vs.map (image graph), Captp.copied receive h graph slotMap t os) :=
    hwalk.revive hnodup hdistinct hproto hgraph hslots hlength (Or.inl (Or.inl rfl))
  have hsame := (reviveElements_forbidCycles js t).eq_of_ok hok
  rw [hrevive] at hsame
  cases hsame
  exact ⟨os, hos, rfl⟩

/-- Where `get` does not throw, the object is finished. -/
theorem mem_finished_of_get {ibids : List (Fin n)} {o : Fin n} {r : Revived ν}
    (hgraph : ibids <+: graph) (ho : o ∈ ibids)
    (hok : t.get numbers .forbidCycles (some (.num (numbers.ofNat (ibids.idxOf o)))) = .ok r) :
    o ∈ finished graph t.ibids := by
  have hobject : graph[ibids.idxOf o]? = some o := by
    rw [← idxOf_of_begins hgraph ho]
    exact List.getElem?_idxOf (hgraph.subset ho)
  rw [Reviving.get, natOf_ofNat] at hok
  simp only at hok
  split at hok
  · cases hok
  · rename_i node hnode
    exact ⟨_, node, hobject, hnode⟩
  · cases hok

/-- The object at the head of the values is finished, once what it contains is. -/
theorem Stringifies.head_progress (os : List (Fin n)) {o : Fin n} {j : Json ν}
    (hsingle : Stringifies numbers slotOf h [.object o] s [j] s')
    (hibids : s'.ibids = s.ibids ++ o :: os) (hnodup : graph.Nodup)
    (hdistinct : (slotMap.map Prod.fst).Nodup)
    (hproto : ∀ o ∈ graph, "__proto__" ∉ (h o).fields.map Prod.fst) (hgraph : s'.ibids <+: graph)
    (hslots : s'.slotMap <+: slotMap) (hlength : t.ibids.length = s.ibids.length)
    {first : Revived ν × Reviving ν τ}
    (hfirst : fullRevive numbers receive (slotMap.map Prod.snd) .forbidCycles j t = .ok first)
    (hinside : Finishes h (finished graph t.ibids ∪ {u | u ∈ os}))
    (hcontents : ∀ u, Value.object u ∈ contents h o → u ∈ finished graph t.ibids ∪ {u | u ∈ os}) :
    Progress h graph t first.2 [.object o] ∧ first.2.ibids.length = s'.ibids.length := by
  obtain ⟨os', hos', hstate⟩ := hsingle.copied hnodup hdistinct hproto hgraph hslots hlength
    (reviveElements_singleton.mpr hfirst)
  have hsame : os' = o :: os := List.append_cancel_left (hos'.ibids.symm.trans hibids)
  rw [hstate, hsame]
  refine ⟨Progress.copied hnodup (hibids ▸ hgraph) hlength hinside hcontents, ?_⟩
  rw [length_copied, hlength, hibids, List.length_append]

/-- What an object contains is finished before it. -/
theorem Stringifies.inside_progress {o : Fin n}
    (inner : Stringifies numbers slotOf h vs (s.enter o) js s') (hnodup : graph.Nodup)
    (hdistinct : (slotMap.map Prod.fst).Nodup)
    (hproto : ∀ o ∈ graph, "__proto__" ∉ (h o).fields.map Prod.fst) (hgraph : s'.ibids <+: graph)
    (hslots : s'.slotMap <+: slotMap) (hlength : t.ibids.length = s.ibids.length)
    {result : List (Revived ν) × Reviving ν τ}
    (hok : reviveElements numbers receive (slotMap.map Prod.snd) .forbidCycles js t.start =
      .ok result)
    (hprogress : Progress h graph t.start result.2 vs) :
    ∃ os, s'.ibids = s.ibids ++ o :: os ∧ Finishes h (finished graph t.ibids ∪ {u | u ∈ os}) ∧
      ∀ u, Value.object u ∈ vs → u ∈ finished graph t.ibids ∪ {u | u ∈ os} := by
  have hstart : t.start.ibids.length = (s.enter o).ibids.length := by
    simp [Reviving.start, Serializing.enter, hlength]
  obtain ⟨os, hos, hstate⟩ := inner.copied hnodup hdistinct hproto hgraph hslots hstart hok
  have hfinished : finished graph result.2.ibids = finished graph t.ibids ∪ {u | u ∈ os} := by
    rw [hstate, finished_copied (hos.ibids ▸ hgraph) hstart, finished_start]
  refine ⟨os, ?_, ?_⟩
  · rw [hos.ibids, Serializing.enter, List.append_assoc, List.singleton_append]
  · rw [← hfinished]
    exact ⟨hprogress.finishes, hprogress.mem⟩

/-- What is read with the policy `forbidCycles` is a closed set without cycles, with the values in
it. -/
theorem Stringifies.progress (hwalk : Stringifies numbers slotOf h vs s js s')
    (hnodup : graph.Nodup) (hdistinct : (slotMap.map Prod.fst).Nodup)
    (hproto : ∀ o ∈ graph, "__proto__" ∉ (h o).fields.map Prod.fst) (hgraph : s'.ibids <+: graph)
    (hslots : s'.slotMap <+: slotMap) (hlength : t.ibids.length = s.ibids.length)
    (hF : Finishes h (finished graph t.ibids)) {result : List (Revived ν) × Reviving ν τ}
    (hok : reviveElements numbers receive (slotMap.map Prod.snd) .forbidCycles js t = .ok result) :
    Progress h graph t result.2 vs := by
  induction hwalk generalizing t result with
  | nil =>
    cases hok
    exact ⟨hF, subset_rfl, by simp⟩
  | @primitive v vs s js s' hstyle rest ih =>
    obtain ⟨first, later, hfirst, hlater, heq⟩ := reviveElements_cons_eq_ok hok
    rw [fullRevive_encodePrimitive hstyle graph t] at hfirst
    cases hfirst
    rw [heq]
    refine Progress.cons ⟨hF, subset_rfl, fun o ho ↦ ?_⟩ (ih hgraph hslots hlength hF hlater)
    rw [← List.mem_singleton.mp ho] at hstyle
    exact absurd hstyle (passStyleOfObject_ne_primitive (h o))
  | @back o vs s js s' hseen hpassable rest ih =>
    obtain ⟨first, later, hfirst, hlater, heq⟩ := reviveElements_cons_eq_ok hok
    rw [fullRevive_ibid] at hfirst
    obtain ⟨r, hget, rfl⟩ := map_eq_ok.mp hfirst
    rw [heq]
    refine Progress.cons ⟨hF, subset_rfl, fun u hu ↦ ?_⟩ (ih hgraph hslots hlength hF hlater)
    cases List.mem_singleton.mp hu
    exact mem_finished_of_get (rest.begins.1.trans hgraph) hseen hget
  | @error o vs s js s' hnew hstyle rest ih =>
    obtain ⟨first, later, hfirst, hlater, heq⟩ := reviveElements_cons_eq_ok hok
    have hnone : contents h o = [] := contents_eq_nil_of_copyError hstyle
    have hsingle : Stringifies numbers slotOf h [.object o] s [encodeError (h o)] (s.enter o) :=
      .error hnew hstyle .nil
    obtain ⟨hprogress, hlength'⟩ := hsingle.head_progress [] rfl hnodup hdistinct hproto
      (rest.begins.1.trans hgraph) (rest.begins.2.trans hslots) hlength hfirst (by simpa using hF)
      (by simp [hnone])
    rw [heq]
    exact hprogress.cons (ih hgraph hslots hlength' hprogress.finishes hlater)
  | @slot o vs s js s' hnew hremote hslot rest ih =>
    obtain ⟨first, later, hfirst, hlater, heq⟩ := reviveElements_cons_eq_ok hok
    have hnone : contents h o = [] := contents_eq_nil_of_isRemote hremote
    have hsingle : Stringifies numbers slotOf h [.object o] s
        [encodePosition numbers "slot" s.slotMap.length] ((s.enter o).addSlot slotOf o) :=
      .slot hnew hremote hslot .nil
    obtain ⟨hprogress, hlength'⟩ := hsingle.head_progress [] rfl hnodup hdistinct hproto
      (rest.begins.1.trans hgraph) (rest.begins.2.trans hslots) hlength hfirst (by simpa using hF)
      (by simp [hnone])
    rw [heq]
    exact hprogress.cons (ih hgraph hslots hlength' hprogress.finishes hlater)
  | @array o vs s js s' js' s'' hnew hstyle inner rest ihinner ihrest =>
    obtain ⟨first, later, hfirst, hlater, heq⟩ := reviveElements_cons_eq_ok hok
    have hgraph' := rest.begins.1.trans hgraph
    have hslots' := rest.begins.2.trans hslots
    have hread := hfirst
    rw [fullRevive] at hread
    obtain ⟨elements, helements, -⟩ := map_eq_ok.mp hread
    have hinside := ihinner hgraph' hslots' (by simp [Reviving.start, Serializing.enter, hlength])
      (finished_start (t := t) ▸ hF) helements
    obtain ⟨os, hibids, hfinishes, hcontents⟩ :=
      inner.inside_progress hnodup hdistinct hproto hgraph' hslots' hlength helements hinside
    rw [← contents_of_copyArray hstyle] at hcontents
    obtain ⟨hprogress, hlength'⟩ := Stringifies.head_progress os (.array hnew hstyle inner .nil)
      hibids hnodup hdistinct hproto hgraph' hslots' hlength hfirst hfinishes hcontents
    rw [heq]
    exact hprogress.cons (ihrest hgraph hslots hlength' hprogress.finishes hlater)
  | @record o vs s js s' js' s'' hnew hstyle inner rest ihinner ihrest =>
    obtain ⟨first, later, hfirst, hlater, heq⟩ := reviveElements_cons_eq_ok hok
    have hgraph' := rest.begins.1.trans hgraph
    have hslots' := rest.begins.2.trans hslots
    have hread := hfirst
    rw [fullRevive, member_QCLASS_eq_none hstyle] at hread
    obtain ⟨members, hmembers, -⟩ := map_eq_ok.mp hread
    obtain ⟨rs, helements⟩ := reviveElements_of_reviveMembers (by simp [inner.length]) hmembers
    have hinside := ihinner hgraph' hslots' (by simp [Reviving.start, Serializing.enter, hlength])
      (finished_start (t := t) ▸ hF) helements
    obtain ⟨os, hibids, hfinishes, hcontents⟩ :=
      inner.inside_progress hnodup hdistinct hproto hgraph' hslots' hlength helements hinside
    rw [← contents_of_copyRecord hstyle] at hcontents
    obtain ⟨hprogress, hlength'⟩ := Stringifies.head_progress os (.record hnew hstyle inner .nil)
      hibids hnodup hdistinct hproto hgraph' hslots' hlength hfirst hfinishes hcontents
    rw [heq]
    exact hprogress.cons (ihrest hgraph hslots hlength' hprogress.finishes hlater)

end Progress

end Walk

/-! ### When a value is read back -/

end CosmicSwingset.Captp
