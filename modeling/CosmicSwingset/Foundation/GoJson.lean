import CosmicSwingset.Foundation.Decimal

/-!
# JSON in Go

`marshal` is the text that `json.Marshal` makes of a value, as bytes, and `unmarshal` the value that
`json.Unmarshal` finds in a text; into an interface it takes no number that rounds to an infinity
(`unmarshalInterface`). A Go string is the text that its bytes decode to, with `U+FFFD`
for a byte that is not UTF-8; `json.Marshal` writes such a byte as an escape, here it is written as
the character that the escape stands for. Besides what JSON requires, Go escapes the characters
`<`, `>`, `&`, `U+2028` and `U+2029`.

The texts of `marshal` have no control character, so they pass unchanged through C strings, and
every JSON parser reads back the value (`parseCString_marshal`).
-/

set_option autoImplicit false
set_option relaxedAutoImplicit false

namespace CosmicSwingset.Foundation

/-- An error value: one of `encoding/json`, or one that the code makes from a text. -/
inductive GoError
  | json
  | text (message : Bytes)
  deriving DecidableEq

/-- How a call of a Go function with results `(ret, error)` ends. -/
inductive Outcome (α : Type*)
  | returned (ret : α)
  | failed (err : GoError)
  | panicked
  deriving DecidableEq

namespace Outcome

variable {α : Type*}

/-- A call without an error that panics where there is no value. -/
def ofOption : Option α → Outcome α
  | some ret => .returned ret
  | none => .panicked

@[simp] theorem ofOption_eq_returned {result : Option α} {ret : α} :
    ofOption result = .returned ret ↔ result = some ret := by
  cases result <;> simp [ofOption]

end Outcome

namespace Json

/-- A character inside a string literal of `json.Marshal`. -/
def goEscape (c : Char) : List Char :=
  if c = '"' then ['\\', '"']
  else if c = '\\' then ['\\', '\\']
  else if c = '\n' then ['\\', 'n']
  else if c = '\r' then ['\\', 'r']
  else if c = '\t' then ['\\', 't']
  else if c.toNat < 0x20 ∨ c = '<' ∨ c = '>' ∨ c = '&' then
    ['\\', 'u', '0', '0', hexDigit (c.toNat / 16), hexDigit (c.toNat % 16)]
  else if c.toNat = 0x2028 ∨ c.toNat = 0x2029 then
    ['\\', 'u', '2', '0', '2', hexDigit (c.toNat % 16)]
  else [c]

theorem readUnits_goEscape (c : Char) (rest : List Char) :
    readUnits (goEscape c ++ rest) = (readUnits rest).map fun p ↦ (charUnits c ++ p.1, p.2) := by
  unfold goEscape
  split_ifs with hquote hbackslash hn hr ht hsmall hline
  · subst hquote
    rfl
  · subst hbackslash
    rfl
  · subst hn
    rfl
  · subst hr
    rfl
  · subst ht
    rfl
  · have hbyte : c.toNat < 256 := by
      rcases hsmall with h | rfl | rfl | rfl
      · omega
      all_goals decide
    exact readUnits_unicode (hexValue₄_hexDigit hbyte) (by omega) rest
  · have hvalue : hexValue₄ '2' '0' '2' (hexDigit (c.toNat % 16)) = some c.toNat := by
      rcases hline with h | h <;> rw [h] <;> decide
    exact readUnits_unicode hvalue (by omega) rest
  · exact readUnits_char hquote hbackslash (fun h ↦ hsmall (Or.inl h)) rest

theorem printed_goEscape (c : Char) : Printed (goEscape c) := by
  unfold goEscape
  split_ifs with _ _ _ _ _ hsmall
  iterate 5 simp
  · have hhigh : c.toNat / 16 < 16 := by
      rcases hsmall with h | rfl | rfl | rfl
      · omega
      all_goals decide
    have hlow : c.toNat % 16 < 16 := by omega
    simp [le_toNat_hexDigit hhigh, le_toNat_hexDigit hlow]
  · have hlow : c.toNat % 16 < 16 := by omega
    simp [le_toNat_hexDigit hlow]
  · rw [not_or] at hsmall
    simpa using hsmall.1

/-- The escapes of `json.Marshal`. -/
def Escapes.go : Escapes := ⟨goEscape, printed_goEscape, readUnits_goEscape⟩

namespace Escapes

variable (escapes : Escapes)

theorem escape_ne_nil (c : Char) : escapes.escape c ≠ [] := by
  intro hempty
  have hread := escapes.read_escape c ['"']
  rw [hempty] at hread
  have hunits : [] = charUnits c ++ [] := congrArg Prod.fst (Option.some.inj hread)
  have hchar : charUnits c ≠ [] := by
    unfold charUnits
    split_ifs <;> exact List.cons_ne_nil _ _
  exact hchar (by simpa using hunits.symm)

theorem length_lt_literalTail (s : String) :
    s.toList.length < (escapes.literalTail s).length := by
  have hchars := length_le_flatMap escapes.escape_ne_nil s.toList
  rw [literalTail, List.length_append, List.length_singleton]
  omega

end Escapes

/-- `json.Marshal`. -/
def marshal (v : Json Decimal) : Bytes := encode (String.ofList (write .go .decimal v))

/-- The value that a JSON text has for Go. -/
def unmarshal (text : Bytes) : Option (Json Decimal) := parseString .decimal (decode text)

/-- `json.Unmarshal` into an empty interface, which makes a `float64` of every number, and an error
where there is none. -/
def unmarshalInterface (text : Bytes) : Option (Json Decimal) :=
  (unmarshal text).filter (allNums Decimal.inFloat64)

/-- `JSON.parse` of a text that comes as a C string. -/
def parseCString (text : Bytes) : Option (Json Decimal) := unmarshal (cString text)

/-- A text without control characters passes through C strings. -/
theorem cString_encode_of_printed {text : List Char} (h : Printed text) :
    cString (encode (String.ofList text)) = encode (String.ofList text) := by
  apply cString_of_not_mem
  refine not_mem_encode (by decide) fun c hc hzero ↦ ?_
  rw [String.toList_ofList] at hc
  have hprinted := h c hc
  rw [hzero] at hprinted
  exact absurd hprinted (by decide)

/-- The text that an encoder makes of a value reads as the value. -/
theorem unmarshal_write (escapes : Escapes) (v : Json Decimal) :
    unmarshal (encode (String.ofList (write escapes .decimal v))) = some v := by
  rw [unmarshal, decode_encode, parseString, String.toList_ofList, parse_write]

theorem unmarshal_marshal (v : Json Decimal) : unmarshal (marshal v) = some v :=
  unmarshal_write .go v

theorem unmarshalInterface_write (escapes : Escapes) {v : Json Decimal}
    (h : v.allNums Decimal.inFloat64 = true) :
    unmarshalInterface (encode (String.ofList (write escapes .decimal v))) = some v := by
  rw [unmarshalInterface, unmarshal_write, Option.filter_some, if_pos h]

theorem unmarshalInterface_marshal {v : Json Decimal} (h : v.allNums Decimal.inFloat64 = true) :
    unmarshalInterface (marshal v) = some v :=
  unmarshalInterface_write .go h

@[simp] theorem parseCString_marshal (v : Json Decimal) : parseCString (marshal v) = some v := by
  rw [parseCString, marshal, cString_encode_of_printed (printed_write Decimal.printed_write v),
    unmarshal_write]

end Json

/-- The JSON of a Go string. -/
def stringJson (s : Bytes) : Json Decimal := .str (decode s)

end CosmicSwingset.Foundation
