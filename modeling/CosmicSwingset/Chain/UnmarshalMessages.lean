import CosmicSwingset.Chain.Msgs
import CosmicSwingset.Foundation.GoJson

/-!
# Reading the messages of a delivery

`UnmarshalMessagesJSON` of `types.go` reads the text `[[[num, body], ...], ack]` that a solo node
sends. It walks over untyped values with type assertions. A nil or short `packet` makes `packet[1]`
panic, elements after the second are not looked at, and the loop over the messages drops the error
of `Nat`, which then leaves a 0 in `Nums`. Numbers have the exact value of their text, as those
below `2 ^ 53` that a `float64` represents have in the code; a number anywhere in the text that is
too large for a `float64` is an error of `json.Unmarshal`.

`Formatted` is the format, as a relation between values and results. The function accepts a text
exactly when it has the format, and gives an error otherwise, unless one of these three gaps is
reached (`acceptsExactly_iff`). It returns at all, with a result or an error, exactly when
`packet[1]` is in range (`returnsNormally_iff`).
-/

set_option autoImplicit false
set_option relaxedAutoImplicit false

namespace CosmicSwingset.Chain

open Foundation

/-- `Nat`: the integer, 0 if there is an error, and the error. -/
def nat (num : Decimal) : ℤ × Option GoError :=
  -- `int(num)` cuts off the fraction
  let nat := num.value.num.tdiv num.value.den
  if (nat : ℚ) ≠ num.value then (0, some (.text (go "Not a precise integer")))
  else if nat < 0 then (0, some (.text (go "Not a natural")))
  else (nat, none)

/-- The loop over `msgs`: the elements of `ret.Nums` and `ret.Messages`, or the first error. -/
def unmarshalMessages : List (Json Decimal) → Except GoError (List ℤ × List GoString)
  | [] => .ok ([], [])
  | .arr [num, body] :: msgs =>
    match num with
    | .num num =>
      match body with
      | .str msg => (unmarshalMessages msgs).map fun ret ↦
          ((nat num).1 :: ret.1, encode msg :: ret.2)
      | _ => .error (.text (go "Message is not a string"))
    | _ => .error (.text (go "Message Num is not an integer"))
  | _ :: _ => .error (.text (go "Message is not a pair"))

/-- What follows `json.Unmarshal` into `packet`. -/
def unmarshalPacket : List (Json Decimal) → Outcome Messages
  | msgs :: ack :: _ =>
    match ack with
    | .num ack =>
      match nat ack with
      | (_, some err) => .failed err
      | (ack, none) =>
        match msgs with
        | .arr msgs =>
          match unmarshalMessages msgs with
          | .error err => .failed err
          | .ok (nums, messages) => .returned ⟨messages, nums, ack⟩
        | _ => .failed (.text (go "Messages is not an array"))
    | _ => .failed (.text (go "Ack is not an integer"))
  | _ => .panicked

def unmarshalMessagesJSON (jsonString : GoString) : Outcome Messages :=
  match Json.unmarshalInterface jsonString with
  | none => .failed .json
  -- `null` sets the slice to nil
  | some .null => unmarshalPacket []
  | some (.arr packet) => unmarshalPacket packet
  | some _ => .failed .json

/-! ### The format -/

/-- The number is the natural number `n`. -/
def IsNat (num : Decimal) (n : ℤ) : Prop := num.value = n ∧ 0 ≤ n

/-- Elements `[num, body]` of natural numbers and strings, with the numbers and strings in order. -/
inductive Pairs : List (Json Decimal) → List ℤ → List GoString → Prop
  | nil : Pairs [] [] []
  | cons {num : Decimal} {n : ℤ} {body : String} {msgs : List (Json Decimal)} {nums : List ℤ}
      {messages : List GoString} (isNat : IsNat num n) (pairs : Pairs msgs nums messages) :
      Pairs (.arr [.num num, .str body] :: msgs) (n :: nums) (encode body :: messages)

/-- The text `[msgs, ack]` of the messages `ret`. -/
def Formatted (jsonString : GoString) (ret : Messages) : Prop :=
  ∃ msgs ack, Json.unmarshalInterface jsonString = some (.arr [.arr msgs, .num ack]) ∧
    IsNat ack ret.ack ∧ Pairs msgs ret.nums ret.messages

/-- The text is accepted with its messages if it has the format, else it is an error. -/
def AcceptsExactly (jsonString : GoString) : Prop :=
  (∀ ret, unmarshalMessagesJSON jsonString = .returned ret ↔ Formatted jsonString ret) ∧
    ((∀ ret, ¬ Formatted jsonString ret) → ∃ err, unmarshalMessagesJSON jsonString = .failed err)

/-- An element `[num, body]` of any number and a string. -/
def IsPair (element : Json Decimal) : Prop := ∃ num body, element = .arr [.num num, .str body]

/-- The text is not `null` and no array of fewer than two elements; and if it begins with an array
of pairs and a natural number, nothing follows and the numbers of the pairs are natural. -/
def Checked (jsonString : GoString) : Prop :=
  Json.unmarshalInterface jsonString ≠ some .null ∧
    ∀ packet, Json.unmarshalInterface jsonString = some (.arr packet) → 2 ≤ packet.length ∧
      ∀ msgs ack n rest, packet = .arr msgs :: .num ack :: rest → IsNat ack n →
        (∀ element ∈ msgs, IsPair element) →
        rest = [] ∧ ∀ num body, Json.arr [.num num, .str body] ∈ msgs → ∃ n, IsNat num n

/-- The call ends with a result or with an error. -/
def ReturnsNormally (jsonString : GoString) : Prop :=
  (∃ ret, unmarshalMessagesJSON jsonString = .returned ret) ∨
    ∃ err, unmarshalMessagesJSON jsonString = .failed err

/-- `packet[1]` is in range, or never looked at: the text is not `null` and no array of fewer than
two elements; an array with a number that is too large for a `float64` is none. -/
def Indexable (jsonString : GoString) : Prop :=
  Json.unmarshalInterface jsonString ≠ some .null ∧
    ∀ packet, Json.unmarshalInterface jsonString = some (.arr packet) → 2 ≤ packet.length

/-! ### Numbers -/

theorem IsNat.unique {num : Decimal} {n n' : ℤ} (h : IsNat num n) (h' : IsNat num n') : n = n' := by
  have hvalue : (n : ℚ) = n' := h.1.symm.trans h'.1
  exact_mod_cast hvalue

theorem IsNat.nat {num : Decimal} {n : ℤ} (h : IsNat num n) : nat num = (n, none) := by
  have htrunc : num.value.num.tdiv num.value.den = n := by
    rw [h.1]
    simp
  have hvalue : ¬ (n : ℚ) ≠ num.value := not_not.mpr h.1.symm
  unfold Chain.nat
  simp only [htrunc, if_neg hvalue, if_neg (not_lt.mpr h.2)]

theorem isNat_ofInt {n : ℤ} (h : 0 ≤ n) : IsNat (.ofInt n) n := ⟨Decimal.value_ofInt n, h⟩

/-- `Nat` reports no error exactly on the natural numbers. -/
theorem isNat_or_error (num : Decimal) :
    IsNat num (nat num).1 ∨ ∃ err, nat num = (0, some err) := by
  unfold nat
  by_cases hvalue : ((num.value.num.tdiv num.value.den : ℤ) : ℚ) ≠ num.value
  · exact Or.inr ⟨_, if_pos hvalue⟩
  · by_cases hneg : num.value.num.tdiv num.value.den < 0
    · refine Or.inr ⟨.text (go "Not a natural"), ?_⟩
      simp only [if_neg hvalue, if_pos hneg]
    · left
      simp only [if_neg hvalue, if_neg hneg]
      exact ⟨(not_not.mp hvalue).symm, not_lt.mp hneg⟩

/-! ### Messages -/

theorem Pairs.isNat {msgs : List (Json Decimal)} {nums : List ℤ} {messages : List GoString}
    (h : Pairs msgs nums messages) {num : Decimal} {body : String}
    (hmem : Json.arr [.num num, .str body] ∈ msgs) : ∃ n, IsNat num n := by
  induction h with
  | nil => exact nomatch hmem
  | cons isNat pairs ih =>
    rcases List.mem_cons.mp hmem with heq | hmem
    · simp only [Json.arr.injEq, List.cons.injEq, Json.num.injEq] at heq
      exact ⟨_, heq.1 ▸ isNat⟩
    · exact ih hmem

/-- Messages in the format are read as they are. -/
theorem Pairs.unmarshal {msgs : List (Json Decimal)} {nums : List ℤ} {messages : List GoString}
    (h : Pairs msgs nums messages) : unmarshalMessages msgs = .ok (nums, messages) := by
  induction h with
  | nil => rfl
  | cons isNat pairs ih =>
    rw [unmarshalMessages, ih, isNat.nat]
    rfl

/-- Pairs are read whatever their numbers are, and natural numbers are read as they are. -/
theorem unmarshalMessages_of_isPair {msgs : List (Json Decimal)}
    (hpairs : ∀ element ∈ msgs, IsPair element) :
    ∃ nums messages, unmarshalMessages msgs = .ok (nums, messages) ∧
      ((∀ num body, Json.arr [.num num, .str body] ∈ msgs → ∃ n, IsNat num n) →
        Pairs msgs nums messages) := by
  induction msgs with
  | nil => exact ⟨[], [], rfl, fun _ ↦ .nil⟩
  | cons element msgs ih =>
    rw [List.forall_mem_cons] at hpairs
    obtain ⟨⟨num, body, rfl⟩, hrest⟩ := hpairs
    obtain ⟨nums, messages, hread, hnat⟩ := ih hrest
    refine ⟨(nat num).1 :: nums, encode body :: messages, ?_, fun hall ↦ ?_⟩
    · rw [unmarshalMessages, hread]
      rfl
    · obtain ⟨n, hn⟩ := hall num body List.mem_cons_self
      rw [hn.nat]
      exact .cons hn (hnat fun num body hmem ↦ hall num body (List.mem_cons_of_mem _ hmem))

/-- Anything else than pairs is an error. -/
theorem isPair_of_unmarshalMessages {msgs : List (Json Decimal)}
    {ret : List ℤ × List GoString} (h : unmarshalMessages msgs = .ok ret) :
    ∀ element ∈ msgs, IsPair element := by
  induction msgs generalizing ret with
  | nil => exact fun element helement ↦ nomatch helement
  | cons element msgs ih =>
    unfold unmarshalMessages at h
    split at h
    · rename_i heq
      cases heq
    · rename_i heq
      obtain ⟨rfl, rfl⟩ := List.cons.inj heq
      split at h
      · split at h
        · cases hrest : unmarshalMessages msgs with
          | error err =>
            rw [hrest] at h
            cases h
          | ok rest => exact List.forall_mem_cons.mpr ⟨⟨_, _, rfl⟩, ih hrest⟩
        · cases h
      · cases h
    · cases h

/-! ### The text -/

theorem unmarshalPacket_of_not_isNat {ack : Decimal} (h : ∀ n, ¬ IsNat ack n)
    (msgs : Json Decimal) (rest : List (Json Decimal)) :
    ∃ err, unmarshalPacket (msgs :: .num ack :: rest) = .failed err := by
  rcases isNat_or_error ack with hnat | ⟨err, herr⟩
  · exact absurd hnat (h _)
  · exact ⟨err, by simp only [unmarshalPacket, herr]⟩

/-- A packet of two elements or more is accepted if and only if the first two have the format, save
for the values of the numbers in the pairs; otherwise it is an error. -/
theorem unmarshalPacket_cases (msgs ack : Json Decimal) (rest : List (Json Decimal)) :
    (∃ elements num n nums messages, msgs = .arr elements ∧ ack = .num num ∧ IsNat num n ∧
        (∀ element ∈ elements, IsPair element) ∧ unmarshalMessages elements = .ok (nums, messages) ∧
        unmarshalPacket (msgs :: ack :: rest) = .returned ⟨messages, nums, n⟩) ∨
      ((∃ err, unmarshalPacket (msgs :: ack :: rest) = .failed err) ∧
        ∀ elements num n, msgs = .arr elements → ack = .num num → IsNat num n →
          ¬ ∀ element ∈ elements, IsPair element) := by
  by_cases hack : ∃ num n, ack = .num num ∧ IsNat num n
  · obtain ⟨num, n, rfl, hnat⟩ := hack
    by_cases hmsgs : ∃ elements, msgs = .arr elements
    · obtain ⟨elements, rfl⟩ := hmsgs
      by_cases hpairs : ∀ element ∈ elements, IsPair element
      · obtain ⟨nums, messages, hread, -⟩ := unmarshalMessages_of_isPair hpairs
        refine Or.inl ⟨elements, num, n, nums, messages, rfl, rfl, hnat, hpairs, hread, ?_⟩
        simp only [unmarshalPacket, hnat.nat, hread]
      · refine Or.inr ⟨?_, fun other _ _ hother _ _ ↦ ?_⟩
        · cases hread : unmarshalMessages elements with
          | ok ret => exact absurd (isPair_of_unmarshalMessages hread) hpairs
          | error err => exact ⟨err, by simp only [unmarshalPacket, hnat.nat, hread]⟩
        · exact Json.arr.inj hother ▸ hpairs
    · refine Or.inr ⟨?_, fun elements _ _ heq _ _ ↦ absurd ⟨elements, heq⟩ hmsgs⟩
      cases msgs with
      | arr elements => exact absurd ⟨elements, rfl⟩ hmsgs
      | _ =>
        refine ⟨.text (go "Messages is not an array"), ?_⟩
        simp only [unmarshalPacket, hnat.nat]
  · refine Or.inr ⟨?_, fun _ num n _ heq hnat ↦ absurd ⟨num, n, heq, hnat⟩ hack⟩
    cases ack with
    | num num =>
      exact unmarshalPacket_of_not_isNat (fun n hnat ↦ hack ⟨num, n, rfl, hnat⟩) msgs rest
    | _ => exact ⟨_, rfl⟩

theorem Checked.indexable {jsonString : GoString} (h : Checked jsonString) :
    Indexable jsonString :=
  ⟨h.1, fun packet hpacket ↦ (h.2 packet hpacket).1⟩

/-- What is no array of two elements or more panics, or is an error. -/
theorem unmarshalMessagesJSON_cases (jsonString : GoString) :
    (unmarshalMessagesJSON jsonString = .panicked ∧ ¬ Indexable jsonString) ∨
      ((∃ err, unmarshalMessagesJSON jsonString = .failed err) ∧
        Json.unmarshalInterface jsonString ≠ some .null ∧
          ∀ packet, Json.unmarshalInterface jsonString ≠ some (.arr packet)) ∨
      ∃ msgs ack rest, Json.unmarshalInterface jsonString = some (.arr (msgs :: ack :: rest)) := by
  cases hvalue : Json.unmarshalInterface jsonString with
  | none =>
    refine Or.inr (Or.inl ⟨⟨.json, ?_⟩, by simp, by simp⟩)
    simp only [unmarshalMessagesJSON, hvalue]
  | some value =>
    cases value with
    | null =>
      refine Or.inl ⟨?_, fun hindexable ↦ hindexable.1 hvalue⟩
      simp only [unmarshalMessagesJSON, hvalue, unmarshalPacket]
    | arr packet =>
      have hjson : unmarshalMessagesJSON jsonString = unmarshalPacket packet := by
        simp only [unmarshalMessagesJSON, hvalue]
      have hshort : packet.length < 2 → ¬ Indexable jsonString :=
        fun hlength hindexable ↦ absurd (hindexable.2 packet hvalue) (Nat.not_le_of_lt hlength)
      rcases packet with _ | ⟨msgs, _ | ⟨ack, rest⟩⟩
      · exact Or.inl ⟨hjson, hshort (by simp)⟩
      · exact Or.inl ⟨hjson, hshort (by simp)⟩
      · exact Or.inr (Or.inr ⟨msgs, ack, rest, rfl⟩)
    | _ =>
      refine Or.inr (Or.inl ⟨⟨.json, ?_⟩, by simp, by simp⟩)
      simp only [unmarshalMessagesJSON, hvalue]

/-- A text in the format is accepted with its messages. -/
theorem Formatted.unmarshal {jsonString : GoString} {ret : Messages}
    (h : Formatted jsonString ret) : unmarshalMessagesJSON jsonString = .returned ret := by
  obtain ⟨msgs, ack, hvalue, hack, hpairs⟩ := h
  simp only [unmarshalMessagesJSON, hvalue, unmarshalPacket, hack.nat, hpairs.unmarshal]

theorem acceptsExactly_of_failed {jsonString : GoString} {err : GoError}
    (h : unmarshalMessagesJSON jsonString = .failed err) : AcceptsExactly jsonString := by
  refine ⟨fun ret ↦ ⟨fun hret ↦ ?_, Formatted.unmarshal⟩, fun _ ↦ ⟨err, h⟩⟩
  rw [h] at hret
  cases hret

theorem not_acceptsExactly_of_panicked {jsonString : GoString}
    (h : unmarshalMessagesJSON jsonString = .panicked) : ¬ AcceptsExactly jsonString := by
  rintro ⟨-, hother⟩
  have hnone : ∀ ret, ¬ Formatted jsonString ret := fun ret hret ↦ by
    rw [hret.unmarshal] at h
    cases h
  obtain ⟨err, herr⟩ := hother hnone
  rw [h] at herr
  cases herr

/-- Of a text that is accepted, only the format of what is returned is in question. -/
theorem acceptsExactly_of_returned {jsonString : GoString} {ret : Messages}
    (h : unmarshalMessagesJSON jsonString = .returned ret) :
    AcceptsExactly jsonString ↔ Formatted jsonString ret := by
  refine ⟨fun haccepts ↦ (haccepts.1 ret).mp h, fun hret ↦ ⟨fun other ↦ ⟨fun hother ↦ ?_, ?_⟩, ?_⟩⟩
  · rw [h] at hother
    exact Outcome.returned.inj hother ▸ hret
  · exact Formatted.unmarshal
  · exact fun hnone ↦ absurd hret (hnone ret)

/-- Two elements or more: the third gap is an element too many, the last a number not natural. -/
theorem acceptsExactly_packet {jsonString : GoString} {msgs ack : Json Decimal}
    {rest : List (Json Decimal)}
    (hvalue : Json.unmarshalInterface jsonString = some (.arr (msgs :: ack :: rest))) :
    AcceptsExactly jsonString ↔
      ∀ elements num n, msgs = .arr elements → ack = .num num → IsNat num n →
        (∀ element ∈ elements, IsPair element) →
        rest = [] ∧ ∀ num body, Json.arr [.num num, .str body] ∈ elements → ∃ n, IsNat num n := by
  have hjson : unmarshalMessagesJSON jsonString = unmarshalPacket (msgs :: ack :: rest) := by
    simp only [unmarshalMessagesJSON, hvalue]
  rcases unmarshalPacket_cases msgs ack rest with
    ⟨elements, num, n, nums, messages, rfl, rfl, hnat, hpairs, hread, hpacket⟩ |
      ⟨⟨err, hpacket⟩, hother⟩
  · rw [acceptsExactly_of_returned (hjson.trans hpacket)]
    constructor
    · rintro ⟨msgs', ack', hvalue', -, hformat⟩ elements' num' n' hmsgs - - -
      rw [hvalue] at hvalue'
      simp only [Option.some.injEq, Json.arr.injEq, List.cons.injEq] at hvalue' hmsgs
      obtain ⟨rfl, -, hrest⟩ := hvalue'
      exact ⟨hrest, fun num body hmem ↦ hformat.isNat (hmsgs ▸ hmem)⟩
    · intro hcondition
      obtain ⟨rfl, hall⟩ := hcondition elements num n rfl rfl hnat hpairs
      obtain ⟨nums', messages', hread', hformat⟩ := unmarshalMessages_of_isPair hpairs
      rw [hread, Except.ok.injEq, Prod.mk.injEq] at hread'
      obtain ⟨rfl, rfl⟩ := hread'
      exact ⟨elements, num, hvalue, hnat, hformat hall⟩
  · refine iff_of_true (acceptsExactly_of_failed (hjson.trans hpacket)) ?_
    intro elements num n hmsgs hack hnat hpairs
    exact absurd hpairs (hother elements num n hmsgs hack hnat)

/-- For every JSON text, `UnmarshalMessagesJSON` returns messages if and only if the text has the
format and these are its messages, and gives an error otherwise, exactly when the text is neither
`null` nor an array of fewer than two elements, and no array of pairs and natural number at its
beginning is followed by more or holds a pair whose number is not natural. -/
theorem acceptsExactly_iff (jsonString : GoString) :
    AcceptsExactly jsonString ↔ Checked jsonString := by
  rcases unmarshalMessagesJSON_cases jsonString with
    ⟨hpanic, hshort⟩ | ⟨⟨err, hfailed⟩, hnull, harray⟩ | ⟨msgs, ack, rest, hvalue⟩
  · exact iff_of_false (not_acceptsExactly_of_panicked hpanic) fun h ↦ hshort h.indexable
  · refine iff_of_true (acceptsExactly_of_failed hfailed) ⟨hnull, fun packet hpacket ↦ ?_⟩
    exact absurd hpacket (harray packet)
  · rw [acceptsExactly_packet hvalue, Checked, hvalue]
    simp only [ne_eq, Option.some.injEq, reduceCtorEq, not_false_eq_true, true_and,
      Json.arr.injEq, forall_eq', List.cons.injEq, List.length_cons]
    constructor
    · intro h
      refine ⟨by omega, ?_⟩
      rintro elements num n rest' ⟨hmsgs, hack, rfl⟩ hnat hpairs
      exact h elements num n hmsgs hack hnat hpairs
    · rintro ⟨-, h⟩ elements num n hmsgs hack hnat hpairs
      exact h elements num n rest ⟨hmsgs, hack, rfl⟩ hnat hpairs

/-- The text `null` panics, an element too many is dropped, and the number -1 becomes 0. -/
theorem loose_not_acceptsExactly :
    ¬ AcceptsExactly (go "null") ∧ ¬ AcceptsExactly (go "[[],0,7]") ∧
      ¬ AcceptsExactly (go "[[[-1,\"x\"]],0]") := by
  have hnull : Json.unmarshalInterface (go "null") = some .null := by
    rw [show go "null" = Json.marshal .null by decide, Json.unmarshalInterface_marshal rfl]
  have hlong : Json.unmarshalInterface (go "[[],0,7]") =
      some (.arr [.arr [], .num (.ofInt 0), .num (.ofInt 7)]) := by
    rw [show go "[[],0,7]" = Json.marshal (.arr [.arr [], .num (.ofInt 0), .num (.ofInt 7)]) by
      decide, Json.unmarshalInterface_marshal]
    simp [Json.allNums, Json.allNumsElements, Decimal.inFloat64_ofInt]
  have hnegative : Json.unmarshalInterface (go "[[[-1,\"x\"]],0]") =
      some (.arr [.arr [.arr [.num (.ofInt (-1)), .str "x"]], .num (.ofInt 0)]) := by
    rw [show go "[[[-1,\"x\"]],0]" =
      Json.marshal (.arr [.arr [.arr [.num (.ofInt (-1)), .str "x"]], .num (.ofInt 0)]) by
        decide, Json.unmarshalInterface_marshal]
    simp [Json.allNums, Json.allNumsElements, Decimal.inFloat64_ofInt]
  have hzero : IsNat (.ofInt 0) 0 := isNat_ofInt le_rfl
  refine ⟨not_acceptsExactly_of_panicked ?_, ?_, ?_⟩
  · simp only [unmarshalMessagesJSON, hnull, unmarshalPacket]
  · rw [acceptsExactly_packet hlong]
    intro h
    have hrest := (h [] _ 0 rfl rfl hzero (by simp)).1
    cases hrest
  · rw [acceptsExactly_packet hnegative]
    intro h
    have hpair : ∀ element ∈ [Json.arr [.num (.ofInt (-1)), .str "x"]], IsPair element := by
      rintro element helement
      exact ⟨_, _, List.mem_singleton.mp helement⟩
    obtain ⟨n, hvalue, hnonneg⟩ :=
      (h _ _ 0 rfl rfl hzero hpair).2 _ _ (List.mem_singleton.mpr rfl)
    rw [Decimal.value_ofInt] at hvalue
    have hn : (-1 : ℤ) = n := by exact_mod_cast hvalue
    omega

/-! ### Panics -/

theorem not_returnsNormally_of_panicked {jsonString : GoString}
    (h : unmarshalMessagesJSON jsonString = .panicked) : ¬ ReturnsNormally jsonString := by
  unfold ReturnsNormally
  rw [h]
  simp

/-- Two elements are enough: the assertions and the loop over the messages end in errors only. -/
theorem returnsNormally_packet {jsonString : GoString} {msgs ack : Json Decimal}
    {rest : List (Json Decimal)}
    (hvalue : Json.unmarshalInterface jsonString = some (.arr (msgs :: ack :: rest))) :
    ReturnsNormally jsonString := by
  have hjson : unmarshalMessagesJSON jsonString = unmarshalPacket (msgs :: ack :: rest) := by
    simp only [unmarshalMessagesJSON, hvalue]
  rcases unmarshalPacket_cases msgs ack rest with
    ⟨elements, num, n, nums, messages, -, -, -, -, -, hpacket⟩ | ⟨⟨err, hpacket⟩, -⟩
  · exact Or.inl ⟨_, hjson.trans hpacket⟩
  · exact Or.inr ⟨err, hjson.trans hpacket⟩

/-- For every text, JSON or not, `UnmarshalMessagesJSON` returns a result or an error, and does not
panic, if and only if the text is neither `null` nor an array of fewer than two elements whose
numbers are in the range of a `float64`. -/
theorem returnsNormally_iff (jsonString : GoString) :
    ReturnsNormally jsonString ↔ Indexable jsonString := by
  rcases unmarshalMessagesJSON_cases jsonString with
    ⟨hpanic, hshort⟩ | ⟨⟨err, hfailed⟩, hnull, harray⟩ | ⟨msgs, ack, rest, hvalue⟩
  · exact iff_of_false (not_returnsNormally_of_panicked hpanic) hshort
  · refine iff_of_true (Or.inr ⟨err, hfailed⟩) ⟨hnull, fun packet hpacket ↦ ?_⟩
    exact absurd hpacket (harray packet)
  · refine iff_of_true (returnsNormally_packet hvalue) ⟨by simp [hvalue], fun packet hpacket ↦ ?_⟩
    obtain rfl := Json.arr.inj (Option.some.inj (hvalue.symm.trans hpacket))
    simp

/-- The texts `null`, `[]` and `[0]` panic. -/
theorem short_not_returnsNormally :
    ¬ ReturnsNormally (go "null") ∧ ¬ ReturnsNormally (go "[]") ∧ ¬ ReturnsNormally (go "[0]") := by
  have hnull : Json.unmarshalInterface (go "null") = some .null := by
    rw [show go "null" = Json.marshal .null by decide, Json.unmarshalInterface_marshal rfl]
  have hempty : Json.unmarshalInterface (go "[]") = some (.arr []) := by
    rw [show go "[]" = Json.marshal (.arr []) by decide, Json.unmarshalInterface_marshal rfl]
  have hsingle : Json.unmarshalInterface (go "[0]") = some (.arr [.num (.ofInt 0)]) := by
    rw [show go "[0]" = Json.marshal (.arr [.num (.ofInt 0)]) by decide,
      Json.unmarshalInterface_marshal]
    simp [Json.allNums, Json.allNumsElements, Decimal.inFloat64_ofInt]
  refine ⟨?_, ?_, ?_⟩
  · apply not_returnsNormally_of_panicked
    simp only [unmarshalMessagesJSON, hnull, unmarshalPacket]
  · apply not_returnsNormally_of_panicked
    simp only [unmarshalMessagesJSON, hempty, unmarshalPacket]
  · apply not_returnsNormally_of_panicked
    simp only [unmarshalMessagesJSON, hsingle, unmarshalPacket]

end CosmicSwingset.Chain
