import CosmicSwingset.Chain.Storage

/-!
# The storage handler's replies on the wire

A reply reaches the Node side as a C string, which is decoded and parsed. The replies about one path
agree when all of them parse and the number that `size` stands for is the number of keys, of entries
and of values. They do exactly where the path has no keys (`repliesAgree_iff`): `string(n)` of
`size` is not the numeral of `n` but the one character with the code point `n`, which is a JSON text
only when it is a digit, and then another number than `n`.
-/

set_option autoImplicit false
set_option relaxedAutoImplicit false

namespace CosmicSwingset.Chain

open Foundation

/-! ### Literals -/

theorem go_true : go "true" = Json.marshal (.bool true) := by decide

theorem go_false : go "false" = Json.marshal (.bool false) := by decide

theorem go_null : go "null" = Json.marshal .null := by decide

theorem go_emptyArray : go "[]" = Json.marshal (.arr []) := by decide

theorem go_zero : go "0" = Json.marshal (.num (.ofInt 0)) := by decide

/-! ### Replies as values -/

section Values

variable (k : Keeper) (store : KVStore) (path : GoString)

theorem receiveGet_eq : k.receiveGet store path = (k.getStorage store path).map fun storage ↦
    Json.marshal (if storage.value = [] then .null else stringJson storage.value) := by
  unfold Keeper.receiveGet
  cases k.getStorage store path with
  | none => rfl
  | some storage =>
    change some _ = some _
    rw [go_null]
    by_cases hempty : storage.value = [] <;> simp [hempty]

theorem receiveHas_eq : k.receiveHas store path = (k.getStorage store path).map fun storage ↦
    Json.marshal (.bool (storage.value ≠ [])) := by
  unfold Keeper.receiveHas
  cases k.getStorage store path with
  | none => rfl
  | some storage =>
    change some _ = some _
    rw [go_true, go_false]
    by_cases hempty : storage.value = [] <;> simp [hempty]

theorem receiveKeys_eq : k.receiveKeys store path = (k.getKeys store path).map fun keys ↦
    Json.marshal (.arr (keys.keys.map stringJson)) := by
  unfold Keeper.receiveKeys
  cases k.getKeys store path with
  | none => rfl
  | some keys =>
    change some _ = some _
    rw [go_emptyArray]
    by_cases hempty : keys.keys = [] <;> simp [hempty]

end Values

/-! ### A text of one character -/

theorem read_char {c : Char} {p : Decimal × List Char} (h : Decimal.read [c] = some p) :
    c.isDigit ∧ p = (.ofInt (c.toNat - 48), []) := by
  by_cases hdigit : c.isDigit
  · refine ⟨hdigit, ?_⟩
    have hle : 48 ≤ c.toNat := (Char.isDigit_iff_toNat.mp hdigit).1
    have hminus : c ≠ '-' := by
      rintro rfl
      exact absurd hle (by decide)
    have hzero : ¬ ([c] = [] ∨ [c].head? = some '0' ∧ 1 < [c].length) := by simp
    have hnat : readNat [c] = some (c.toNat - 48, []) := by
      simp only [readNat, List.takeWhile_cons, List.dropWhile_cons, hdigit, if_true,
        List.takeWhile_nil, List.dropWhile_nil, if_neg hzero, Nat.ofDigitChars_cons,
        Nat.ofDigitChars_nil]
      simp
    have hread : Decimal.read [c] = some (.ofInt (c.toNat - 48), []) := by
      simp only [Decimal.read, List.head?_cons, Option.some.injEq, if_neg hminus,
        Decimal.readUnsigned, hnat]
      simp [Decimal.readFraction, Decimal.readExponent, Decimal.ofInt]
      omega
    rw [hread] at h
    exact (Option.some.inj h).symm
  · exfalso
    have hnat : readNat [c] = none := by
      simp [readNat, hdigit]
    by_cases hminus : c = '-'
    · subst hminus
      have hnone : Decimal.read ['-'] = none := by decide
      rw [hnone] at h
      cases h
    · simp [Decimal.read, hminus, Decimal.readUnsigned, hnat] at h

/-- The text of one character is a number only if it is a digit. -/
theorem parse_char {c : Char} {d : Decimal} (h : Json.parse .decimal [c] = some (.num d)) :
    c.isDigit ∧ d = .ofInt (c.toNat - 48) := by
  have hread : ∃ rest, Decimal.read [c] = some (d, rest) := by
    unfold Json.parse at h
    rw [Json.parseValue.eq_def] at h
    by_cases hspace : Json.isSpace c
    · have hskip : Json.skipSpace [c] = [] := by simp [Json.skipSpace, hspace]
      simp only [hskip] at h
      cases h
    · have hskip : Json.skipSpace [c] = [c] := by simp [Json.skipSpace, hspace]
      simp only [hskip, List.length_singleton] at h
      split at h
      · rename_i heq
        split at heq
        iterate 3
          rename_i htext
          cases htext
        iterate 3
          -- after the opening character there is nothing to read
          rename_i htext
          obtain ⟨-, rfl⟩ := List.cons.inj htext
          cases heq
        obtain ⟨p, hp, hvalue⟩ := Option.map_eq_some_iff.mp heq
        obtain ⟨rfl, rfl⟩ := Prod.mk.inj hvalue
        obtain ⟨-, hnum⟩ := Option.ite_none_right_eq_some.mp h
        exact ⟨p.2, Json.num.inj (Option.some.inj hnum) ▸ hp⟩
      · cases h
  obtain ⟨rest, hread⟩ := hread
  obtain ⟨hdigit, heq⟩ := read_char hread
  exact ⟨hdigit, congrArg Prod.fst heq⟩

/-- The reply `string(n)` does not denote `n`. -/
theorem parseCString_runeChar_ne {n : ℕ} (hn : n ≠ 0) {d : Decimal}
    (h : Json.parseCString (encode (String.ofList [runeChar n])) = some (.num d)) :
    d.value ≠ n := by
  have hrune : (runeChar n).toNat = n ∨ (runeChar n).toNat = 0xFFFD := by
    by_cases hvalid : n.isValidChar
    · exact Or.inl (toNat_runeChar hvalid)
    · rw [runeChar, if_neg hvalid]
      exact Or.inr rfl
  have hzero : (0 : Byte) ∉ encode (String.ofList [runeChar n]) := by
    refine not_mem_encode (by decide) fun c hc ↦ ?_
    rw [String.toList_ofList, List.mem_singleton] at hc
    rw [hc]
    change _ ≠ 0
    omega
  rw [Json.parseCString, cString_of_not_mem hzero, Json.unmarshal, decode_encode, Json.parseString,
    String.toList_ofList] at h
  obtain ⟨hdigit, rfl⟩ := parse_char h
  have hrange := Char.isDigit_iff_toNat.mp hdigit
  change 48 ≤ _ ∧ _ ≤ 57 at hrange
  intro hvalue
  rw [Decimal.value_ofInt] at hvalue
  have hint : ((runeChar n).toNat : ℤ) - 48 = n := by exact_mod_cast hvalue
  omega

/-! ### Agreement -/

/-- A request is answered, and its reply is the JSON text of `v`. -/
def Replies (k : Keeper) (store : KVStore) (method : StorageMethod) (path : GoString)
    (v : Json Decimal) : Prop :=
  ∀ order value, ∃ reply,
    k.receiveMessage order store ⟨method.name, path, value⟩ = .returned (reply, store) ∧
      Json.parseCString reply = some v

/-- Every successful reply about the path is a JSON text, and `size` denotes the number of elements
of `keys`, of `entries` and of `values`. -/
structure RepliesAgree (k : Keeper) (store : KVStore) (path : GoString) : Prop where
  json : ∀ order method value reply store',
    k.receiveMessage order store ⟨method, path, value⟩ = .returned (reply, store') →
      ∃ v, Json.parseCString reply = some v
  size : ∃ size keys entries values, Replies k store .size path (.num size) ∧
    Replies k store .keys path (.arr keys) ∧ Replies k store .entries path (.arr entries) ∧
    Replies k store .values path (.arr values) ∧
    size.value = keys.length ∧ size.value = entries.length ∧ size.value = values.length

variable {k : Keeper} {store : KVStore} {path : GoString}

/-- The replies are determined by the store. -/
theorem replies_iff {method : StorageMethod} {reply : GoString} {v : Json Decimal}
    (h : ∀ order value, k.reply order store method path value = some (reply, store)) :
    Replies k store method path v ↔ Json.parseCString reply = some v := by
  simp only [Replies, Keeper.receiveMessage_name, h, Outcome.ofOption_eq_returned,
    Option.some.injEq, Prod.mk.injEq, and_true]
  constructor
  · intro hreplies
    obtain ⟨_, rfl, hparse⟩ := hreplies .forward []
    exact hparse
  · exact fun hparse order value ↦ ⟨reply, rfl, hparse⟩

theorem replies_marshal_iff {method : StorageMethod} {u v : Json Decimal}
    (h : ∀ order value, k.reply order store method path value = some (Json.marshal u, store)) :
    Replies k store method path v ↔ v = u := by
  rw [replies_iff h, Json.parseCString_marshal, Option.some.injEq, eq_comm]

theorem replies_keys_iff {names : List GoString} (hget : k.getKeys store path = some ⟨names⟩)
    {v : Json Decimal} :
    Replies k store .keys path v ↔ v = .arr (names.map stringJson) := by
  refine replies_marshal_iff fun order value ↦ ?_
  rw [Keeper.reply, receiveKeys_eq, hget]
  rfl

theorem replies_size_iff {names : List GoString} (hget : k.getKeys store path = some ⟨names⟩)
    {v : Json Decimal} :
    Replies k store .size path v ↔ Json.parseCString (if names = [] then go "0"
      else encode (String.ofList [runeChar names.length])) = some v := by
  refine replies_iff fun order value ↦ ?_
  rw [Keeper.reply, Keeper.receiveSize, hget]
  rfl

/-- Where there are keys, `size` does not denote their number. -/
theorem not_repliesAgree {names : List GoString} (hget : k.getKeys store path = some ⟨names⟩)
    (hnames : names ≠ []) : ¬ RepliesAgree k store path := by
  rintro ⟨-, size, keys, -, -, hsize, hkeys, -, -, hlength, -⟩
  rw [replies_keys_iff hget, Json.arr.injEq] at hkeys
  rw [replies_size_iff hget, if_neg hnames] at hsize
  have hne := parseCString_runeChar_ne (mt List.length_eq_zero_iff.mp hnames) hsize
  rw [hlength, hkeys, List.length_map] at hne
  exact hne rfl

/-- Where there are no keys, every reply is a JSON text. -/
theorem json_of_noKeys (hget : k.getKeys store path = some ⟨[]⟩) {order : RangeOrder}
    {method : StorageMethod} {value reply : GoString} {store' : KVStore}
    (h : k.reply order store method path value = some (reply, store')) :
    ∃ v, Json.parseCString reply = some v := by
  cases method with
  | set =>
    obtain ⟨_, -, heq⟩ := Option.map_eq_some_iff.mp h
    obtain ⟨rfl, -⟩ := Prod.mk.inj heq
    exact ⟨.bool true, by rw [go_true, Json.parseCString_marshal]⟩
  | size =>
    rw [Keeper.reply, Keeper.receiveSize, hget] at h
    obtain ⟨rfl, -⟩ := Prod.mk.inj (Option.some.inj h)
    exact ⟨.num (.ofInt 0),
      (congrArg Json.parseCString go_zero).trans (Json.parseCString_marshal _)⟩
  | _ =>
    simp only [Keeper.reply, receiveGet_eq, receiveHas_eq, receiveKeys_eq, Keeper.receiveEntries,
      Keeper.receiveValues, Option.map_eq_some_iff, Option.bind_eq_bind, Option.bind_eq_some_iff,
      Option.pure_def, Option.some.injEq] at h
    obtain ⟨_, ⟨_, -, rfl⟩, heq⟩ := h
    obtain ⟨rfl, -⟩ := Prod.mk.inj heq
    exact ⟨_, Json.parseCString_marshal _⟩

theorem repliesAgree_of_noKeys (hget : k.getKeys store path = some ⟨[]⟩) :
    RepliesAgree k store path where
  json := fun order method value reply store' h ↦ by
    obtain ⟨method, hreply⟩ := k.reply_of_returned h
    exact json_of_noKeys hget hreply
  size := by
    refine ⟨.ofInt 0, [], [], [], ?_, ?_, ?_, ?_, ?_⟩
    · rw [replies_size_iff hget, if_pos rfl, go_zero, Json.parseCString_marshal]
    · rw [replies_keys_iff hget]
      rfl
    · refine (replies_marshal_iff (u := .arr []) fun order value ↦ ?_).mpr rfl
      rw [Keeper.reply, Keeper.receiveEntries, Keeper.ents, hget]
      rfl
    · refine (replies_marshal_iff (u := .arr []) fun order value ↦ ?_).mpr rfl
      rw [Keeper.reply, Keeper.receiveValues, Keeper.vals, hget]
      rfl
    · simp

/-- Every sequence of `SetStorage` calls reaches a store, and in it the replies about a path are
JSON texts that agree on the number of keys exactly when the path has no keys. -/
theorem repliesAgree_iff (k : Keeper) (writes : List Write) :
    ∃ store, k.setAll .empty writes = some store ∧
      ∀ path, RepliesAgree k store path ↔ k.getKeys store path = some ⟨[]⟩ := by
  obtain ⟨store, hstore, hreadable⟩ := (readable_empty k).setAll writes
  refine ⟨store, hstore, fun path ↦ ⟨fun hagree ↦ ?_, repliesAgree_of_noKeys⟩⟩
  obtain ⟨⟨names⟩, hget⟩ := hreadable.keys path
  by_cases hnames : names = []
  · rw [hget, hnames]
  · exact absurd hagree (not_repliesAgree hget hnames)

/-- With one child the reply to `size` is the control character 1. -/
theorem oneChild_not_repliesAgree :
    ∃ store, aminoKeeper.setAll .empty [⟨.forward, go "mailbox.alice", ⟨go "x"⟩⟩] = some store ∧
      ¬ RepliesAgree aminoKeeper store (go "mailbox") := by
  have hrooted : ∀ w ∈ [Write.mk .forward (go "mailbox.alice") ⟨go "x"⟩], Rooted w.path := by
    decide
  obtain ⟨store, hstore, hrefines⟩ := (refines_empty aminoKeeper).setAll hrooted
  obtain ⟨names, hget, -, hmem⟩ := hrefines.getKeys (go "mailbox")
  refine ⟨store, hstore, not_repliesAgree hget (List.ne_nil_of_mem (a := go "alice") ?_)⟩
  rw [hmem]
  exact ⟨by decide, by decide⟩

end CosmicSwingset.Chain
