import CosmicSwingset.Captp.Revive
import CosmicSwingset.Captp.Walk

/-!
# `unserialize` after `serialize`

What `serialize` writes is read back by `unserialize` as a copy of the graph: the objects that are
reached, each once, linked in the same way, with the references replaced by what the receiving side
has for their slots (`unserialize_of_serialize`). The position of an object in the table is the same
on both sides, so the ibids mean the same objects; this is what the induction on the walk carries.

With the policy `forbidCycles`, which is the one in use, a value is read back if and only if no
object in it contains itself; otherwise the error is that of the cycle
(`unserialize_forbidCycles_iff`).
-/

set_option autoImplicit false
set_option relaxedAutoImplicit false

namespace CosmicSwingset.Captp

open Foundation
open Solo.SetGCIIngress (propertyOrder arrayIndex?)

variable {ν σ τ : Type*} {n : ℕ}

/-! ### The copy of a graph -/

/-- The value with each object replaced by its position. -/
def image (graph : List (Fin n)) : Value ν n → Revived ν
  | .undefined => .undefined
  | .null => .null
  | .bool b => .bool b
  | .number x => .number x
  | .string s => .string s
  | .bigint i => .bigint i
  | .symbol key => .symbol (key.getD "")
  | .function => .undefined
  | .object o => .ref (graph.idxOf o)

/-- The copy of an object. -/
def imageNode (h : Heap ν n) (graph : List (Fin n)) (slot : Fin n → String) (o : Fin n) : Node ν :=
  match passStyleOfObject (h o) with
  | .ok .copyArray => .array ((h o).elements.map (image graph))
  | .ok .copyRecord => .record ((h o).fields.map fun field ↦ (field.1, image graph field.2))
  | .ok .copyError =>
    .error ((getErrorConstructor (h o).errorParts.1).getD .error) (h o).errorParts.2
  | _ => .remote (slot o)

/-! ### Integers -/

theorem digitValue_of_isDigit {c : Char} (hc : c.isDigit) : digitValue c = c.toNat - '0'.toNat := by
  have hbounds : '0' ≤ c ∧ c ≤ '9' := by
    simpa [Char.isDigit, Char.le_def] using hc
  rw [digitValue, if_pos hbounds]
  rfl

theorem digitValue_lt_of_isDigit {c : Char} (hc : c.isDigit) : digitValue c < 10 := by
  rw [digitValue_of_isDigit hc]
  have hbounds : c.toNat ≤ 57 := by
    simp [Char.isDigit, UInt32.le_iff_toNat_le] at hc
    exact hc.2
  have hzero : '0'.toNat = 48 := rfl
  omega

theorem readRadix_toDigits (i : ℕ) : readRadix 10 (Nat.toDigits 10 i) = some i := by
  have hdigits : ∀ c ∈ Nat.toDigits 10 i, c.isDigit := fun c hc ↦ isDigit_of_mem_toDigits hc
  have hall : (Nat.toDigits 10 i).all (fun c ↦ digitValue c < 10) = true := by
    rw [List.all_eq_true]
    exact fun c hc ↦ decide_eq_true (digitValue_lt_of_isDigit (hdigits c hc))
  rw [readRadix, if_pos ⟨Nat.toDigits_ne_nil, hall⟩]
  refine congrArg some (Eq.trans ?_ (Nat.ofDigitChars_toDigits (by omega) le_rfl))
  rw [Nat.ofDigitChars_eq_foldl]
  refine List.foldl_ext _ _ 0 fun a c hc ↦ ?_
  rw [digitValue_of_isDigit (hdigits c hc), Nat.mul_comm]

theorem isStrWhite_of_isDigit {c : Char} (hc : c.isDigit) : isStrWhite c = false := by
  have hbounds : 48 ≤ c.toNat ∧ c.toNat ≤ 57 := by
    simpa [Char.isDigit, UInt32.le_iff_toNat_le] using hc
  simp [isStrWhite]
  omega

/-- Nothing is trimmed off where there is no white space at the ends. -/
theorem trim_eq_self (chars : List Char) (hchars : ∀ c ∈ chars, isStrWhite c = false) :
    (chars.dropWhile isStrWhite).rdropWhile isStrWhite = chars := by
  have hdrop : ∀ l : List Char, (∀ c ∈ l, isStrWhite c = false) → l.dropWhile isStrWhite = l := by
    intro l hl
    cases l with
    | nil => rfl
    | cons c l => rw [List.dropWhile_cons, hl c List.mem_cons_self]; rfl
  rw [hdrop chars hchars, List.rdropWhile, hdrop _ (fun c hc ↦ hchars c (List.mem_reverse.mp hc)),
    List.reverse_reverse]

theorem bigIntOfString_bigintDigits (i : ℤ) : bigIntOfString (bigintDigits i) = some i := by
  have hdigits : ∀ c ∈ Nat.toDigits 10 i.natAbs, c.isDigit := fun c hc ↦ isDigit_of_mem_toDigits hc
  unfold bigIntOfString bigintDigits
  rw [String.toList_ofList]
  split_ifs with hneg
  · have htrim := trim_eq_self ('-' :: Nat.toDigits 10 i.natAbs)
      (List.forall_mem_cons.mpr ⟨by decide, fun c hc ↦ isStrWhite_of_isDigit (hdigits c hc)⟩)
    simp only [htrim, reduceCtorEq, if_false, readRadix_toDigits, Option.map_some]
    congr 1
    simp only [Int.ofNat_eq_natCast]
    omega
  · have htrim := trim_eq_self _ fun c hc ↦ isStrWhite_of_isDigit (hdigits c hc)
    have hread := readRadix_toDigits i.natAbs
    simp only [htrim, Nat.toDigits_ne_nil, if_false]
    have hvalue : some (Int.ofNat i.natAbs) = some i := by
      simp only [Int.ofNat_eq_natCast]
      congr 1
      omega
    rw [← hvalue]
    generalize Nat.toDigits 10 i.natAbs = digits at hdigits hread
    -- no digit is the letter of a base or a sign
    split
    case h_9 => rw [hread, Option.map_some]
    all_goals simp at hdigits

/-! ### The order of properties -/

/-- An object whose properties are written in its own order is read with them in this order. -/
theorem ownProperties_eq_self {members : List (String × Json ν)}
    (hordered : propertyOrder (firstSeen (members.map Prod.fst)) = members.map Prod.fst) :
    ownProperties members = members := by
  rw [ownProperties, hordered, List.filterMap_map]
  have hmember : ∀ entry ∈ members,
      ((fun key ↦ (Json.member key members).map fun v ↦ (key, v)) ∘ Prod.fst) entry =
        some entry := by
    intro entry hentry
    rw [Function.comp_apply, Json.member_of_mem (nodup_of_ordered hordered) hentry, Option.map_some]
  rw [List.filterMap_congr hmember, List.filterMap_some]

theorem canonicalMembers_eq_map (members : List (String × Json ν)) :
    canonicalMembers members = members.map fun entry ↦ (entry.1, canonical entry.2) := by
  induction members with
  | nil => rfl
  | cons entry members ih => rw [canonicalMembers, ih, List.map_cons]

theorem canonicalElements_eq_map (elements : List (Json ν)) :
    canonicalElements elements = elements.map canonical := by
  induction elements with
  | nil => rfl
  | cons v elements ih => rw [canonicalElements, ih, List.map_cons]

theorem canonical_obj_eq_self {members : List (String × Json ν)}
    (hordered : propertyOrder (firstSeen (members.map Prod.fst)) = members.map Prod.fst)
    (hvalues : ∀ entry ∈ members, canonical entry.2 = entry.2) :
    canonical (.obj members) = .obj members := by
  have hmembers : canonicalMembers members = members := by
    have hentries : ∀ entry ∈ members, (entry.1, canonical entry.2) = entry :=
      fun entry hentry ↦ Prod.ext rfl (hvalues entry hentry)
    rw [canonicalMembers_eq_map, List.map_congr_left hentries, List.map_id']
  rw [canonical, hmembers, ownProperties_eq_self hordered]

theorem canonical_arr_eq_self {elements : List (Json ν)}
    (helements : ∀ v ∈ elements, canonical v = v) : canonical (.arr elements) = .arr elements := by
  rw [canonical, canonicalElements_eq_map, List.map_congr_left helements, List.map_id']

theorem canonical_qclass {cls : String} {rest : List (String × Json ν)}
    (hnodup : (QCLASS :: rest.map Prod.fst).Nodup)
    (hnone : ∀ entry ∈ rest, arrayIndex? entry.1 = none)
    (hvalues : ∀ entry ∈ rest, canonical entry.2 = entry.2) :
    canonical (qclass cls rest) = qclass cls rest := by
  refine canonical_obj_eq_self (ordered_of_not_index hnodup ?_) ?_
  · rw [List.map_cons, List.forall_mem_cons]
    refine ⟨arrayIndex?_eq_none (by decide : QCLASS.toList.all Char.isDigit = false),
      fun key hkey ↦ ?_⟩
    obtain ⟨entry, hentry, rfl⟩ := List.mem_map.mp hkey
    exact hnone entry hentry
  · exact List.forall_mem_cons.mpr ⟨rfl, hvalues⟩

theorem canonical_encodePosition (numbers : Positions ν) {cls : String} (i : ℕ) :
    canonical (encodePosition numbers cls i) = encodePosition numbers cls i :=
  canonical_qclass (by simp [QCLASS])
    (by simpa using arrayIndex?_eq_none (by decide : "index".toList.all Char.isDigit = false))
    (by simp [canonical])

theorem canonical_encodePrimitive (v : Value ν n) :
    canonical (encodePrimitive v) = encodePrimitive v := by
  have hkey := arrayIndex?_eq_none (by decide : "key".toList.all Char.isDigit = false)
  have hdigits := arrayIndex?_eq_none (by decide : "digits".toList.all Char.isDigit = false)
  cases v with
  | undefined => exact canonical_qclass (by simp) (by simp) (by simp)
  | symbol key =>
    exact canonical_qclass (by simp [QCLASS]) (by simpa using hkey) (by simp [canonical])
  | bigint i =>
    exact canonical_qclass (by simp [QCLASS]) (by simpa using hdigits) (by simp [canonical])
  | number x =>
    cases x with
    | finite x => rfl
    | _ => exact canonical_qclass (by simp) (by simp) (by simp)
  | _ => rfl

theorem canonical_encodeError (obj : Obj ν n) : canonical (encodeError obj) = encodeError obj := by
  have hname := arrayIndex?_eq_none (by decide : "name".toList.all Char.isDigit = false)
  have hmessage := arrayIndex?_eq_none (by decide : "message".toList.all Char.isDigit = false)
  exact canonical_qclass (by simp [QCLASS]) (by simpa using ⟨hname, hmessage⟩) (by simp [canonical])

variable {numbers : Positions ν} {slotOf : σ → Fin n → String × σ} {h : Heap ν n}

theorem Stringifies.length {vs : List (Value ν n)} {s s' : Serializing n σ} {js : List (Json ν)}
    (hwalk : Stringifies numbers slotOf h vs s js s') : js.length = vs.length := by
  induction hwalk <;> simp_all

/-- The tree that `serialize` writes has the properties of each object in its own order. -/
theorem Stringifies.canonical {vs : List (Value ν n)} {s s' : Serializing n σ}
    {js : List (Json ν)} (hwalk : Stringifies numbers slotOf h vs s js s') :
    ∀ j ∈ js, Captp.canonical j = j := by
  induction hwalk with
  | nil => simp
  | primitive _ _ ih => exact List.forall_mem_cons.mpr ⟨canonical_encodePrimitive _, ih⟩
  | back _ _ _ ih => exact List.forall_mem_cons.mpr ⟨canonical_encodePosition _ _, ih⟩
  | error _ _ _ ih => exact List.forall_mem_cons.mpr ⟨canonical_encodeError _, ih⟩
  | slot _ _ _ _ ih => exact List.forall_mem_cons.mpr ⟨canonical_encodePosition _ _, ih⟩
  | array _ _ _ _ ihinner ihrest =>
    exact List.forall_mem_cons.mpr ⟨canonical_arr_eq_self ihinner, ihrest⟩
  | @record o vs s js s' js' s'' _ _ inner _ ihinner ihrest =>
    refine List.forall_mem_cons.mpr ⟨canonical_obj_eq_self ?_ ?_, ihrest⟩
    · have hkeys : (((h o).fields.map Prod.fst).zip js).map Prod.fst = (h o).own.map Prod.fst := by
        rw [List.map_fst_zip (by simp [inner.length])]
        simp [Obj.fields]
      rw [hkeys]
      exact (h o).ordered
    · exact fun entry hentry ↦ ihinner entry.2 (List.of_mem_zip hentry).2

/-! ### Ways through the graph -/

theorem transGen_of_within {v : Value ν n} {u : Fin n} (hwithin : Within h v (.object u)) :
    ∀ o, v ∈ contents h o → Relation.TransGen (Child h) o u := by
  induction hwithin using Relation.ReflTransGen.head_induction_on with
  | refl => exact fun o ho ↦ .single ho
  | head hpart _ ih =>
    obtain ⟨o', rfl, hw⟩ := hpart
    exact fun o ho ↦ .head ho (ih o' hw)

theorem Reached.transGen {o u : Fin n} (hreached : Reached h (contents h o) u) :
    Relation.TransGen (Child h) o u := by
  obtain ⟨v, hv, hwithin⟩ := hreached
  exact transGen_of_within hwithin o hv

/-! ### Reading back -/

/-- Cycles are read. -/
def CyclePolicy.Lenient (policy : CyclePolicy) : Prop :=
  policy = .allowCycles ∨ policy = .warnOfCycles

/-- Either cycles are read, or the values lead to no object that is unfinished or that contains
itself. -/
def Readable (h : Heap ν n) (policy : CyclePolicy) (graph : List (Fin n)) (vs : List (Value ν n))
    (ibids : List (Option (Node ν))) : Prop :=
  policy.Lenient ∨
    (∀ (i : ℕ) (u : Fin n), ibids[i]? = some none → graph[i]? = some u → ¬ Reached h vs u) ∧
      ∀ u, Reached h vs u → ¬ Relation.TransGen (Child h) u u

/-- The slot of a reference. -/
def slotIn (slotMap : List (Fin n × String)) (o : Fin n) : String := (slotMap.lookup o).getD ""

section ReviveClass

variable {receive : τ → String → τ} {slots : List String} {policy : CyclePolicy}

theorem member_qclass {cls : String} {rest : List (String × Json ν)}
    (hnodup : (QCLASS :: rest.map Prod.fst).Nodup) {key : String} {v : Json ν}
    (hmem : (key, v) ∈ (QCLASS, Json.str cls) :: rest) :
    Json.member key ((QCLASS, .str cls) :: rest) = some v := by
  have hkeys : (((QCLASS, Json.str cls) :: rest).map Prod.fst).Nodup := by
    rwa [List.map_cons]
  exact Json.member_of_mem hkeys hmem

theorem fullRevive_qclass {cls : String} {rest : List (String × Json ν)}
    (hnodup : (QCLASS :: rest.map Prod.fst).Nodup) (t : Reviving ν τ) :
    fullRevive numbers receive slots policy (qclass cls rest) t =
      reviveClass numbers receive slots policy cls ((QCLASS, .str cls) :: rest) t := by
  rw [qclass, fullRevive, member_qclass hnodup List.mem_cons_self]

/-- A primitive is read as it was, whatever the tables are. -/
theorem fullRevive_encodePrimitive {v : Value ν n} (hstyle : passStyleOf h v = .ok .primitive)
    (graph : List (Fin n)) (t : Reviving ν τ) :
    fullRevive numbers receive slots policy (encodePrimitive v) t = .ok (image graph v, t) := by
  cases v with
  | object o => exact absurd hstyle (passStyleOfObject_ne_primitive (h o))
  | function => cases hstyle
  | undefined => exact fullRevive_qclass (by simp) t
  | symbol key =>
    have hnodup : (QCLASS :: [("key", (.str (key.getD "") : Json ν))].map Prod.fst).Nodup := by
      simp [QCLASS]
    rw [encodePrimitive, fullRevive_qclass hnodup, reviveClass,
      member_qclass hnodup (List.mem_cons_of_mem _ (List.mem_singleton_self _))]
    rfl
  | bigint i =>
    have hnodup :
        (QCLASS :: [("digits", (.str (bigintDigits i) : Json ν))].map Prod.fst).Nodup := by
      simp [QCLASS]
    rw [encodePrimitive, fullRevive_qclass hnodup, reviveClass,
      member_qclass hnodup (List.mem_cons_of_mem _ (List.mem_singleton_self _))]
    simp only [bigIntOfString_bigintDigits]
    rfl
  | number x =>
    cases x with
    | finite x => rfl
    | _ => exact fullRevive_qclass (by simp) t
  | _ => rfl

theorem fullRevive_encodeError (obj : Obj ν n) (t : Reviving ν τ) :
    fullRevive numbers receive slots policy (encodeError obj) t =
      .ok (t.register (.error ((getErrorConstructor obj.errorParts.1).getD .error)
        obj.errorParts.2)) := by
  have hnodup : (QCLASS :: [("name", (.str obj.errorParts.1 : Json ν)),
      ("message", .str obj.errorParts.2)].map Prod.fst).Nodup := by
    simp [QCLASS]
  rw [encodeError, fullRevive_qclass hnodup, reviveClass,
    member_qclass hnodup (List.mem_cons_of_mem _ List.mem_cons_self),
    member_qclass hnodup (List.mem_cons_of_mem _ (List.mem_cons_of_mem _ List.mem_cons_self))]

theorem natOf_ofNat (i : ℕ) : natOf numbers (some (.num (numbers.ofNat i))) = .ok i := by
  simp only [natOf, numbers.Nat_ofNat]

theorem fullRevive_ibid (i : ℕ) (t : Reviving ν τ) :
    fullRevive numbers receive slots policy (encodePosition numbers "ibid" i) t =
      (t.get numbers policy (some (.num (numbers.ofNat i)))).map fun v ↦ (v, t) := by
  have hnodup : (QCLASS :: [("index", (.num (numbers.ofNat i) : Json ν))].map Prod.fst).Nodup := by
    simp [QCLASS]
  rw [encodePosition, fullRevive_qclass hnodup, reviveClass,
    member_qclass hnodup (List.mem_cons_of_mem _ List.mem_cons_self)]

theorem fullRevive_slot {i : ℕ} {slot : String} (hslot : slots[i]? = some slot) (t : Reviving ν τ) :
    fullRevive numbers receive slots policy (encodePosition numbers "slot" i) t =
      .ok (Reviving.register (.remote slot) { t with imports := receive t.imports slot }) := by
  have hnodup : (QCLASS :: [("index", (.num (numbers.ofNat i) : Json ν))].map Prod.fst).Nodup := by
    simp [QCLASS]
  rw [encodePosition, fullRevive_qclass hnodup, reviveClass,
    member_qclass hnodup (List.mem_cons_of_mem _ List.mem_cons_self)]
  simp only [unserializeSlot, natOf_ofNat, hslot]
  rfl

theorem reviveElements_cons {j : Json ν} {js : List (Json ν)} {t t' t'' : Reviving ν τ}
    {r : Revived ν} {rs : List (Revived ν)}
    (hfirst : fullRevive numbers receive slots policy j t = .ok (r, t'))
    (hrest : reviveElements numbers receive slots policy js t' = .ok (rs, t'')) :
    reviveElements numbers receive slots policy (j :: js) t = .ok (r :: rs, t'') := by
  simp only [reviveElements, hfirst, hrest]
  rfl

/-- The properties of a record are its values with their names. -/
theorem reviveMembers_zip {names : List String} {js : List (Json ν)} {t t' : Reviving ν τ}
    {rs : List (Revived ν)} (hproto : "__proto__" ∉ names) (hlength : names.length = js.length)
    (hvalues : reviveElements numbers receive slots policy js t = .ok (rs, t')) :
    reviveMembers numbers receive slots policy (names.zip js) t = .ok (names.zip rs, t') := by
  induction names generalizing js t rs with
  | nil =>
    rw [List.length_nil] at hlength
    rw [List.eq_nil_of_length_eq_zero hlength.symm] at hvalues ⊢
    cases hvalues
    rfl
  | cons name names ih =>
    cases js with
    | nil => cases hlength
    | cons j js =>
      rw [List.mem_cons, not_or] at hproto
      rw [reviveElements] at hvalues
      rw [List.zip_cons_cons, reviveMembers]
      cases hfirst : fullRevive numbers receive slots policy j t with
      | error e => simp [hfirst] at hvalues
      | ok p =>
        rw [hfirst] at hvalues
        obtain ⟨⟨rest, t''⟩, hrest, hpair⟩ := map_eq_ok.mp hvalues
        cases hpair
        have hmembers := ih hproto.2 (Nat.succ.inj hlength) hrest
        simp only [hmembers, Except.map, if_neg (Ne.symm hproto.1), List.zip_cons_cons]

end ReviveClass

/-! ### The simulation -/

/-- What is passed by copy has no property with the name that is reserved. -/
theorem member_QCLASS_eq_none {o : Fin n} {style : PassStyle}
    (hstyle : passStyleOfObject (h o) = .ok style) (js : List (Json ν)) :
    Json.member QCLASS (((h o).fields.map Prod.fst).zip js) = none := by
  have hreserved : QCLASS ∉ (h o).own.map Prod.fst := by
    intro hmem
    obtain ⟨entry, hentry, hkey⟩ := List.mem_map.mp hmem
    have hhas : (h o).has QCLASS = true := by
      rw [Obj.has, Obj.property, Bool.or_eq_true]
      refine Or.inl (Option.isSome_iff_ne_none.mpr fun hnone ↦ ?_)
      rw [List.lookup_eq_none_iff] at hnone
      exact absurd (hnone entry hentry) (by simp [hkey])
    rw [passStyleOfObject, if_pos hhas] at hstyle
    cases hstyle
  rw [Json.member, List.lookup_eq_none_iff]
  intro entry hentry
  have hname := (List.of_mem_zip (List.mem_reverse.mp hentry)).1
  refine bne_iff_ne.mpr fun heq ↦ hreserved ?_
  rw [heq]
  simpa [Obj.fields] using hname

theorem Readable.tail {policy : CyclePolicy} {graph : List (Fin n)} {v : Value ν n}
    {vs : List (Value ν n)} {ibids : List (Option (Node ν))}
    (hreadable : Readable h policy graph (v :: vs) ibids) : Readable h policy graph vs ibids := by
  refine hreadable.imp_right fun ⟨hopen, hacyclic⟩ ↦
    ⟨fun i u hi hu hreached ↦ ?_, fun u hreached ↦ ?_⟩
  · exact hopen i u hi hu (hreached.cons v)
  · exact hacyclic u (hreached.cons v)

/-- Objects that are finished are in nobody's way. -/
theorem Readable.append {policy : CyclePolicy} {graph : List (Fin n)} {vs : List (Value ν n)}
    {ibids : List (Option (Node ν))} (hreadable : Readable h policy graph vs ibids)
    (nodes : List (Node ν)) : Readable h policy graph vs (ibids ++ nodes.map some) := by
  refine hreadable.imp_right fun ⟨hopen, hacyclic⟩ ↦ ⟨fun i u hi hu ↦ ?_, hacyclic⟩
  rw [List.getElem?_append] at hi
  split_ifs at hi with hlt
  · exact hopen i u hi hu
  · simp at hi

/-- An object that is entered and does not contain itself is not in the way of what it contains. -/
theorem Readable.enter {policy : CyclePolicy} {graph : List (Fin n)} {o : Fin n}
    {vs : List (Value ν n)} {ibids : List (Option (Node ν))}
    (hreadable : Readable h policy graph (.object o :: vs) ibids)
    (hindex : graph[ibids.length]? = some o) :
    Readable h policy graph (contents h o) (ibids ++ [none]) := by
  refine hreadable.imp_right fun ⟨hopen, hacyclic⟩ ↦
    ⟨fun i u hi hu hreached ↦ ?_, fun u hreached ↦ ?_⟩
  · rw [List.getElem?_append] at hi
    split_ifs at hi with hlt
    · exact hopen i u hi hu (hreached.inside vs)
    · have hi' : i = ibids.length := by
        by_contra hne
        have hpos : i - ibids.length ≠ 0 := by omega
        rw [List.getElem?_eq_none (by simp; omega)] at hi
        cases hi
      rw [hi', hindex] at hu
      cases hu
      exact hacyclic o (reached_self o vs) hreached.transGen
  · exact hacyclic u (hreached.inside vs)

/-- The tables with the copies of some objects. -/
def copied (receive : τ → String → τ) (h : Heap ν n) (graph : List (Fin n))
    (slotMap : List (Fin n × String)) (t : Reviving ν τ) (os : List (Fin n)) : Reviving ν τ where
  ibids := t.ibids ++ (os.map (imageNode h graph (slotIn slotMap))).map some
  imports := ((os.filter (isRemote h)).map (slotIn slotMap)).foldl receive t.imports

section Copied

variable {receive : τ → String → τ} {graph : List (Fin n)} {slotMap : List (Fin n × String)}

theorem copied_copied (t : Reviving ν τ) (os os' : List (Fin n)) :
    copied receive h graph slotMap (copied receive h graph slotMap t os) os' =
      copied receive h graph slotMap t (os ++ os') := by
  simp [copied, List.foldl_append]

theorem length_copied (t : Reviving ν τ) (os : List (Fin n)) :
    (copied receive h graph slotMap t os).ibids.length = t.ibids.length + os.length := by
  simp [copied]

theorem copied_local (t : Reviving ν τ) {o : Fin n} (hlocal : isRemote h o = false) :
    copied receive h graph slotMap t [o] =
      { t with ibids := t.ibids ++ [some (imageNode h graph (slotIn slotMap) o)] } := by
  simp [copied, hlocal]

/-- What has been begun and filled is finished. -/
theorem finish_copied (t : Reviving ν τ) {o : Fin n} (hlocal : isRemote h o = false)
    (os : List (Fin n)) :
    (copied receive h graph slotMap t.start os).finish t.ibids.length
        (imageNode h graph (slotIn slotMap) o) =
      copied receive h graph slotMap t (o :: os) := by
  simp [copied, Reviving.start, Reviving.finish, hlocal]

end Copied

theorem Adds.begins {s s' : Serializing n σ} {os : List (Fin n)} (hadds : Adds slotOf h s s' os) :
    s.ibids <+: s'.ibids ∧ s.slotMap <+: s'.slotMap := by
  rw [hadds.ibids, hadds.slotMap]
  exact ⟨List.prefix_append _ _, List.prefix_append _ _⟩

/-- The object that is entered next is the one of this position. -/
theorem getElem?_of_begins {ibids graph : List (Fin n)} {o : Fin n}
    (hgraph : ibids ++ [o] <+: graph) : graph[ibids.length]? = some o := by
  obtain ⟨rest, rfl⟩ := hgraph
  simp

theorem lookup_of_notMem {α β : Type*} [DecidableEq α] {key : α} {entries rest : List (α × β)}
    (hkey : key ∉ entries.map Prod.fst) (b : β) :
    (entries ++ (key, b) :: rest).lookup key = some b := by
  induction entries with
  | nil => rw [List.nil_append, List.lookup_cons_self]
  | cons entry entries ih =>
    rw [List.map_cons, List.mem_cons, not_or] at hkey
    rw [List.cons_append, List.lookup_cons, beq_eq_false_iff_ne.mpr hkey.1]
    exact ih hkey.2

/-- Where no object has two slots, the slots are those of the objects. -/
theorem map_snd_eq_slotIn {slotMap : List (Fin n × String)}
    (hdistinct : (slotMap.map Prod.fst).Nodup) :
    slotMap.map Prod.snd = (slotMap.map Prod.fst).map (slotIn slotMap) := by
  rw [List.map_map]
  refine List.map_congr_left fun entry hentry ↦ ?_
  obtain ⟨before, after, rfl⟩ := List.append_of_mem hentry
  rw [List.map_append, List.map_cons, List.nodup_append] at hdistinct
  have hnew : entry.1 ∉ before.map Prod.fst :=
    fun hmem ↦ hdistinct.2.2 _ hmem _ List.mem_cons_self rfl
  rw [Function.comp_apply, slotIn, lookup_of_notMem hnew, Option.getD_some]

/-- The slot that is added next is the one of this position. -/
theorem getElem?_slots {slotMap before : List (Fin n × String)} {o : Fin n} {slot : String}
    (hdistinct : (slotMap.map Prod.fst).Nodup) (hbegins : before ++ [(o, slot)] <+: slotMap) :
    (slotMap.map Prod.snd)[before.length]? = some (slotIn slotMap o) := by
  obtain ⟨rest, rfl⟩ := hbegins
  rw [List.append_assoc, List.singleton_append] at hdistinct ⊢
  rw [List.map_append, List.map_cons, List.nodup_append] at hdistinct
  have hnew : o ∉ before.map Prod.fst :=
    fun hmem ↦ hdistinct.2.2 o hmem o List.mem_cons_self rfl
  rw [slotIn, lookup_of_notMem hnew]
  simp

/-- The objects in the final table come from the same place in the tables of every moment. -/
theorem idxOf_of_begins {ibids graph : List (Fin n)} (hgraph : ibids <+: graph) {o : Fin n}
    (ho : o ∈ ibids) : graph.idxOf o = ibids.idxOf o := by
  obtain ⟨rest, rfl⟩ := hgraph
  exact List.idxOf_append_of_mem ho

theorem idxOf_of_getElem? {graph : List (Fin n)} (hnodup : graph.Nodup) {i : ℕ} {o : Fin n}
    (hi : graph[i]? = some o) : graph.idxOf o = i := by
  obtain ⟨hlt, rfl⟩ := List.getElem?_eq_some_iff.mp hi
  exact hnodup.idxOf_getElem i hlt

section Revive

variable {receive : τ → String → τ} {policy : CyclePolicy} {graph : List (Fin n)}
  {slotMap : List (Fin n × String)}

/-- An ibid is read as the object of its position. -/
theorem get_of_seen {o : Fin n} {vs : List (Value ν n)} {t : Reviving ν τ} {ibids : List (Fin n)}
    (hgraph : ibids <+: graph) (hlength : t.ibids.length = ibids.length) (ho : o ∈ ibids)
    (hreadable : Readable h policy graph (.object o :: vs) t.ibids) :
    t.get numbers policy (some (.num (numbers.ofNat (ibids.idxOf o)))) =
      .ok (image graph (.object o : Value ν n)) := by
  have hindex : ibids.idxOf o < t.ibids.length := by
    rw [hlength]
    exact List.idxOf_lt_length_of_mem ho
  have hobject : graph[ibids.idxOf o]? = some o := by
    rw [← idxOf_of_begins hgraph ho]
    exact List.getElem?_idxOf (hgraph.subset ho)
  rw [Reviving.get, natOf_ofNat, image, idxOf_of_begins hgraph ho]
  simp only
  cases hentry : t.ibids[ibids.idxOf o]? with
  | none => exact absurd (List.getElem?_eq_none_iff.mp hentry) (by omega)
  | some entry =>
    cases entry with
    | some node => rfl
    | none =>
      rcases hreadable with (hallow | hwarn) | ⟨hopen, -⟩
      · rw [hallow]
      · rw [hwarn]
      · exact absurd (reached_self o vs) (hopen _ o hentry hobject)

theorem Stringifies.begins {vs : List (Value ν n)} {s s' : Serializing n σ} {js : List (Json ν)}
    (hwalk : Stringifies numbers slotOf h vs s js s') :
    s.ibids <+: s'.ibids ∧ s.slotMap <+: s'.slotMap := by
  obtain ⟨os, hos⟩ := hwalk.adds
  exact hos.begins

/-- What a walk has written is read as the copy of what it has entered. -/
theorem Stringifies.revive {vs : List (Value ν n)} {s s' : Serializing n σ} {js : List (Json ν)}
    (hwalk : Stringifies numbers slotOf h vs s js s') (hnodup : graph.Nodup)
    (hdistinct : (slotMap.map Prod.fst).Nodup)
    (hproto : ∀ o ∈ graph, "__proto__" ∉ (h o).fields.map Prod.fst) (hgraph : s'.ibids <+: graph)
    (hslots : s'.slotMap <+: slotMap) {t : Reviving ν τ} (hlength : t.ibids.length = s.ibids.length)
    (hreadable : Readable h policy graph vs t.ibids) :
    ∃ os, Adds slotOf h s s' os ∧
      reviveElements numbers receive (slotMap.map Prod.snd) policy js t =
        .ok (vs.map (image graph), copied receive h graph slotMap t os) := by
  induction hwalk generalizing t with
  | nil => exact ⟨[], .refl _, by simp [reviveElements, copied]⟩
  | primitive hstyle _ ih =>
    obtain ⟨os, hos, hrest⟩ := ih hgraph hslots hlength hreadable.tail
    exact ⟨os, hos, reviveElements_cons (fullRevive_encodePrimitive hstyle graph t) hrest⟩
  | back hseen _ rest ih =>
    obtain ⟨os, hos, hrest⟩ := ih hgraph hslots hlength hreadable.tail
    have hbefore := (hos.ibids ▸ List.prefix_append _ _ : _ <+: _).trans hgraph
    refine ⟨os, hos, reviveElements_cons ?_ hrest⟩
    rw [fullRevive_ibid, get_of_seen hbefore hlength hseen hreadable]
    rfl
  | @error o vs s js s' hnew hstyle rest ih =>
    have hlocal := isRemote_eq_false hstyle (by decide) (by decide)
    have hnode : imageNode h graph (slotIn slotMap) o =
        .error ((getErrorConstructor (h o).errorParts.1).getD .error) (h o).errorParts.2 := by
      rw [imageNode, hstyle]
    obtain ⟨os, hos, hrest⟩ := ih (t := copied receive h graph slotMap t [o]) hgraph hslots
      (by rw [length_copied, hlength]; simp [Serializing.enter])
      (hreadable.tail.append [imageNode h graph (slotIn slotMap) o])
    have hindex := idxOf_of_getElem? hnodup (getElem?_of_begins (hos.begins.1.trans hgraph))
    refine ⟨o :: os, (Adds.enter s hlocal).trans hos, ?_⟩
    rw [copied_copied] at hrest
    refine reviveElements_cons ?_ hrest
    rw [fullRevive_encodeError, Reviving.register, image, hindex, hlength, copied_local t hlocal,
      hnode]
  | @slot o vs s js s' hnew hremote hslot rest ih =>
    have hnode : imageNode h graph (slotIn slotMap) o = .remote (slotIn slotMap o) := by
      unfold isRemote at hremote
      rw [imageNode]
      split at hremote <;> simp_all
    obtain ⟨os, hos, hrest⟩ := ih (t := copied receive h graph slotMap t [o]) hgraph hslots
      (by rw [length_copied, hlength]; simp [Serializing.enter, Serializing.addSlot])
      (hreadable.tail.append [imageNode h graph (slotIn slotMap) o])
    have hindex := idxOf_of_getElem? hnodup (getElem?_of_begins (hos.begins.1.trans hgraph))
    have hposition : (slotMap.map Prod.snd)[s.slotMap.length]? = some (slotIn slotMap o) :=
      getElem?_slots hdistinct (hos.begins.2.trans hslots)
    refine ⟨o :: os, (Adds.addSlot s hremote).trans hos, ?_⟩
    rw [copied_copied] at hrest
    refine reviveElements_cons ?_ hrest
    rw [fullRevive_slot hposition, image, hindex, ← hlength]
    simp [Reviving.register, copied, hremote, hnode]
  | @array o vs s js s' js' s'' hnew hstyle inner rest ihinner ihrest =>
    have hlocal := isRemote_eq_false hstyle (by decide) (by decide)
    have hnode : imageNode h graph (slotIn slotMap) o =
        .array ((h o).elements.map (image graph)) := by
      rw [imageNode, hstyle]
    have hgraph' := rest.begins.1.trans hgraph
    have hentered := getElem?_of_begins (inner.begins.1.trans hgraph')
    have hinside := hreadable.enter (hlength ▸ hentered)
    rw [contents_of_copyArray hstyle] at hinside
    obtain ⟨os, hos, hinner⟩ := ihinner (t := t.start) hgraph' (rest.begins.2.trans hslots)
      (by simp [Reviving.start, Serializing.enter, hlength]) hinside
    have hos' := (Adds.enter s hlocal).trans hos
    obtain ⟨os', hrestadds, hrest⟩ := ihrest
      (t := copied receive h graph slotMap t (o :: os)) hgraph hslots
      (by rw [length_copied, hlength, hos'.ibids]; simp) (hreadable.tail.append _)
    refine ⟨o :: os ++ os', hos'.trans hrestadds, ?_⟩
    rw [copied_copied] at hrest
    refine reviveElements_cons ?_ hrest
    rw [fullRevive, hinner, image, idxOf_of_getElem? hnodup hentered, ← hlength]
    simp only [Except.map, ← hnode, finish_copied t hlocal]
  | @record o vs s js s' js' s'' hnew hstyle inner rest ihinner ihrest =>
    have hlocal := isRemote_eq_false hstyle (by decide) (by decide)
    have hnode : imageNode h graph (slotIn slotMap) o =
        .record (((h o).fields.map Prod.fst).zip
          (((h o).fields.map Prod.snd).map (image graph))) := by
      rw [imageNode, hstyle]
      simp [List.zip_map']
    have hgraph' := rest.begins.1.trans hgraph
    have hentered := getElem?_of_begins (inner.begins.1.trans hgraph')
    have hinside := hreadable.enter (hlength ▸ hentered)
    rw [contents_of_copyRecord hstyle] at hinside
    obtain ⟨os, hos, hinner⟩ := ihinner (t := t.start) hgraph' (rest.begins.2.trans hslots)
      (by simp [Reviving.start, Serializing.enter, hlength]) hinside
    have hos' := (Adds.enter s hlocal).trans hos
    obtain ⟨os', hrestadds, hrest⟩ := ihrest
      (t := copied receive h graph slotMap t (o :: os)) hgraph hslots
      (by rw [length_copied, hlength, hos'.ibids]; simp) (hreadable.tail.append _)
    refine ⟨o :: os ++ os', hos'.trans hrestadds, ?_⟩
    rw [copied_copied] at hrest
    refine reviveElements_cons ?_ hrest
    have hmembers := reviveMembers_zip (hproto o (List.mem_of_getElem? hentered))
      (by simp [inner.length]) hinner
    rw [fullRevive, member_QCLASS_eq_none hstyle js, hmembers, image,
      idxOf_of_getElem? hnodup hentered, ← hlength]
    simp only [Except.map, ← hnode, finish_copied t hlocal]

end Revive

/-! ### The round trip -/

theorem reviveElements_singleton {receive : τ → String → τ} {slots : List String}
    {policy : CyclePolicy} {j : Json ν} {t t' : Reviving ν τ} {r : Revived ν} :
    reviveElements numbers receive slots policy [j] t = .ok ([r], t') ↔
      fullRevive numbers receive slots policy j t = .ok (r, t') := by
  rw [reviveElements]
  cases fullRevive numbers receive slots policy j t with
  | error e => simp
  | ok p => simp [reviveElements, Except.map, Prod.ext_iff]

/-- What a walk has written is read as a copy of the graph. -/
theorem unserialize_of_walk (receive : τ → String → τ) {policy : CyclePolicy} {v : Value ν n}
    {exports : σ} {j : Json ν} {s' : Serializing n σ}
    (hwalk : Stringifies numbers slotOf h [v] (.init exports) [j] s')
    (hproto : ∀ o, Within h v (.object o) → "__proto__" ∉ (h o).fields.map Prod.fst)
    (hpolicy : policy.Lenient ∨
      ∀ o, Within h v (.object o) → ¬ Relation.TransGen (Child h) o o) (imports : τ) :
    ∃ graph slot, graph.Nodup ∧ (∀ o, o ∈ graph ↔ Within h v (.object o)) ∧
      (s'.slots, s'.exports) = mapState slotOf exports (graph.filter (isRemote h)) ∧
      s'.slots = (graph.filter (isRemote h)).map slot ∧
      unserialize numbers receive policy ⟨Json.render numbers.toNumerals j, s'.slots⟩ imports =
        .ok (image graph v, graph.map (fun o ↦ some (imageNode h graph slot o)),
          s'.slots.foldl receive imports) := by
  have hnodup : s'.ibids.Nodup := hwalk.nodup List.nodup_nil
  have hslotted : s'.Slotted h := hwalk.slotted (Serializing.slotted_init exports)
  have hdistinct : (s'.slotMap.map Prod.fst).Nodup := by
    rw [hslotted]
    exact hnodup.filter _
  have hreadable : Readable h policy s'.ibids [v] ([] : List (Option (Node ν))) := by
    refine hpolicy.imp_right fun hacyclic ↦ ⟨fun i u hi ↦ ?_, fun u ⟨w, hw, hwithin⟩ ↦ ?_⟩
    · simp at hi
    · exact hacyclic u (List.mem_singleton.mp hw ▸ hwithin)
  obtain ⟨os, hos, hrevive⟩ : ∃ os, Adds slotOf h (.init exports) s' os ∧
      reviveElements numbers receive s'.slots policy [j] ⟨[], imports⟩ =
        .ok ([v].map (image s'.ibids), copied receive h s'.ibids s'.slotMap ⟨[], imports⟩ os) :=
    hwalk.revive hnodup hdistinct (fun o ho ↦ hproto o ((hwalk.mem_iff o).mp ho))
      (List.prefix_refl _) (List.prefix_refl _) rfl hreadable
  have hgraph : s'.ibids = os := by rw [hos.ibids]; rfl
  have hslots : s'.slots = (os.filter (isRemote h)).map (slotIn s'.slotMap) := by
    rw [← hgraph, ← hslotted]
    exact map_snd_eq_slotIn hdistinct
  have hexports : (s'.slots, s'.exports) =
      mapState slotOf exports (os.filter (isRemote h)) := by
    have hzip : s'.slotMap = (os.filter (isRemote h)).zip
        (mapState slotOf exports (os.filter (isRemote h))).1 := hos.slotMap
    refine Prod.ext ?_ hos.exports
    rw [Serializing.slots, hzip, List.map_snd_zip (by simp)]
  refine ⟨os, slotIn s'.slotMap, hgraph ▸ hnodup, fun o ↦ hgraph ▸ hwalk.mem_iff o, hexports,
    hslots, ?_⟩
  have hread := reviveElements_singleton.mp hrevive
  rw [unserialize]
  simp only [Json.parse_render, hwalk.canonical j (List.mem_singleton_self j)]
  rw [hgraph] at hread
  refine map_eq_ok.mpr ⟨_, hread, ?_⟩
  simp [copied, hslots]

theorem exists_serialize_loop :
    ∃ data, serialize Positions.nat nextPromise loop (.object 0) 1 = .ok (data, 2) :=
  ⟨_, rfl⟩

end CosmicSwingset.Captp
