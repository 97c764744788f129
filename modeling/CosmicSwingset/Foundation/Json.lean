import CosmicSwingset.Foundation.Utf16

/-!
# JSON

JSON values over any type of numbers, the compact text of a value and a parser for JSON texts. How a
number is written and read is a `Numerals`; strings are Unicode strings, with the escapes of
`JSON.stringify` on the way out and all escapes of the grammar on the way in. An object is the list
of its members in the order of the text.

Encoders differ in the characters they escape. An `Escapes` is a choice of escapes that the parser
reads back and that leaves no control character in the text; `write` is the text that an encoder
with these escapes makes, and `render` is the text of `JSON.stringify`.

The parser reads back what was written, whatever follows it (`reads`), so the text of a value
determines the value (`parse_write`, `parse_render`, `render_injective`). The three parsing
functions share their fuel: each takes one unit of it for a value or an element, and a text never
needs more than its length.
-/

set_option autoImplicit false
set_option relaxedAutoImplicit false

namespace CosmicSwingset.Foundation

universe u

/-- A JSON value with numbers of type `ν`. -/
inductive Json (ν : Type u)
  | null
  | bool (b : Bool)
  | num (n : ν)
  | str (s : String)
  | arr (elements : List (Json ν))
  | obj (members : List (String × Json ν))

/-- What may follow a value in a compact text. -/
def Ends (rest : List Char) : Prop := ∀ c ∈ rest.head?, c = ',' ∨ c = ']' ∨ c = '}'

/-- A way to write numbers, and to read them back. -/
structure Numerals (ν : Type u) where
  write : ν → List Char
  read : List Char → Option (ν × List Char)
  starts : ∀ n, ∃ c digits, write n = c :: digits ∧ (c.isDigit ∨ c = '-')
  read_write : ∀ n rest, Ends rest → read (write n ++ rest) = some (n, rest)

namespace Json

/-! ### Writing -/

/-- The lower-case hexadecimal digit of a number below 16. -/
def hexDigit (n : ℕ) : Char := Nat.digitChar n

/-- A character inside a string literal. -/
def escape (c : Char) : List Char :=
  if c = '"' then ['\\', '"']
  else if c = '\\' then ['\\', '\\']
  else if c = '\n' then ['\\', 'n']
  else if c = '\r' then ['\\', 'r']
  else if c = '\t' then ['\\', 't']
  else if c = Char.ofNat 8 then ['\\', 'b']
  else if c = Char.ofNat 12 then ['\\', 'f']
  else if c.toNat < 0x20 then
    ['\\', 'u', '0', '0', hexDigit (c.toNat / 16), hexDigit (c.toNat % 16)]
  else [c]

/-- A string literal without its opening quote. -/
def literalTail (s : String) : List Char := s.toList.flatMap escape ++ ['"']

section Render

variable {ν : Type u} (numerals : Numerals ν)

mutual

/-- The compact text of a value. -/
def render : Json ν → List Char
  | .null => ['n', 'u', 'l', 'l']
  | .bool true => ['t', 'r', 'u', 'e']
  | .bool false => ['f', 'a', 'l', 's', 'e']
  | .num n => numerals.write n
  | .str s => '"' :: literalTail s
  | .arr [] => ['[', ']']
  | .arr (v :: vs) => '[' :: (render v ++ renderElements vs)
  | .obj [] => ['{', '}']
  | .obj ((key, v) :: ms) =>
    '{' :: '"' :: (literalTail key ++ ':' :: (render v ++ renderMembers ms))

/-- The elements of an array after the first, and its end. -/
def renderElements : List (Json ν) → List Char
  | [] => [']']
  | v :: vs => ',' :: (render v ++ renderElements vs)

/-- The members of an object after the first, and its end. -/
def renderMembers : List (String × Json ν) → List Char
  | [] => ['}']
  | (key, v) :: ms => ',' :: '"' :: (literalTail key ++ ':' :: (render v ++ renderMembers ms))

end

end Render

/-! ### Parsing -/

def isSpace (c : Char) : Bool := c = ' ' || c = '\t' || c = '\n' || c = '\r'

def skipSpace (input : List Char) : List Char := input.dropWhile isSpace

def hexValue (c : Char) : Option ℕ :=
  if '0' ≤ c ∧ c ≤ '9' then some (c.toNat - 48)
  else if 'a' ≤ c ∧ c ≤ 'f' then some (c.toNat - 87)
  else if 'A' ≤ c ∧ c ≤ 'F' then some (c.toNat - 55)
  else none

def hexValue₄ (a b c d : Char) : Option ℕ := do
  return (((← hexValue a) * 16 + (← hexValue b)) * 16 + (← hexValue c)) * 16 + (← hexValue d)

/-- The character of an escape of two characters. -/
def unescape : Char → Option Char
  | '"' => some '"'
  | '\\' => some '\\'
  | '/' => some '/'
  | 'n' => some '\n'
  | 'r' => some '\r'
  | 't' => some '\t'
  | 'b' => some (Char.ofNat 8)
  | 'f' => some (Char.ofNat 12)
  | _ => none

/-- The code units of a string literal after its opening quote. -/
def readUnits : List Char → Option (List ℕ × List Char)
  | '"' :: rest => some ([], rest)
  | '\\' :: 'u' :: a :: b :: c :: d :: rest =>
    match hexValue₄ a b c d with
    | none => none
    | some unit => (readUnits rest).map fun p ↦ (unit :: p.1, p.2)
  | '\\' :: c :: rest =>
    match unescape c with
    | none => none
    | some c => (readUnits rest).map fun p ↦ (charUnits c ++ p.1, p.2)
  | c :: rest =>
    if c.toNat < 0x20 then none else (readUnits rest).map fun p ↦ (charUnits c ++ p.1, p.2)
  | [] => none

/-- A string literal after its opening quote. -/
def readString (input : List Char) : Option (String × List Char) :=
  (readUnits input).map fun p ↦ (String.ofList (ofUtf16 p.1), p.2)

section Parse

variable {ν : Type u} (numerals : Numerals ν)

mutual

/-- One value at the beginning of the input, and what follows it. -/
def parseValue : ℕ → List Char → Option (Json ν × List Char)
  | 0, _ => none
  | fuel + 1, input =>
    match skipSpace input with
    | 'n' :: 'u' :: 'l' :: 'l' :: rest => some (.null, rest)
    | 't' :: 'r' :: 'u' :: 'e' :: rest => some (.bool true, rest)
    | 'f' :: 'a' :: 'l' :: 's' :: 'e' :: rest => some (.bool false, rest)
    | '"' :: rest => (readString rest).map fun p ↦ (.str p.1, p.2)
    | '[' :: rest =>
      match skipSpace rest with
      | ']' :: rest => some (.arr [], rest)
      | rest => (parseElements fuel rest).map fun p ↦ (.arr p.1, p.2)
    | '{' :: rest =>
      match skipSpace rest with
      | '}' :: rest => some (.obj [], rest)
      | rest => (parseMembers fuel rest).map fun p ↦ (.obj p.1, p.2)
    | input => (numerals.read input).map fun p ↦ (.num p.1, p.2)

/-- The elements of an array up to its end. -/
def parseElements : ℕ → List Char → Option (List (Json ν) × List Char)
  | 0, _ => none
  | fuel + 1, input =>
    match parseValue fuel input with
    | none => none
    | some (v, rest) =>
      match skipSpace rest with
      | ']' :: rest => some ([v], rest)
      | ',' :: rest => (parseElements fuel rest).map fun p ↦ (v :: p.1, p.2)
      | _ => none

/-- The members of an object up to its end. -/
def parseMembers : ℕ → List Char → Option (List (String × Json ν) × List Char)
  | 0, _ => none
  | fuel + 1, input =>
    match skipSpace input with
    | '"' :: rest =>
      match readString rest with
      | none => none
      | some (key, rest) =>
        match skipSpace rest with
        | ':' :: rest =>
          match parseValue fuel rest with
          | none => none
          | some (v, rest) =>
            match skipSpace rest with
            | '}' :: rest => some ([(key, v)], rest)
            | ',' :: rest => (parseMembers fuel rest).map fun p ↦ ((key, v) :: p.1, p.2)
            | _ => none
        | _ => none
    | _ => none

end

/-- The value of a text, if all of it is one JSON value. -/
def parse (text : List Char) : Option (Json ν) :=
  match parseValue numerals (text.length + 1) text with
  | some (v, rest) => if skipSpace rest = [] then some v else none
  | none => none

end Parse

/-! ### Members -/

section Members

variable {ν : Type u}

/-- The value of a member; the last one counts. -/
def member (key : String) (members : List (String × Json ν)) : Option (Json ν) :=
  members.reverse.lookup key

/-- The members with one of them set. -/
def setMember (key : String) (v : Json ν) (members : List (String × Json ν)) :
    List (String × Json ν) :=
  members ++ [(key, v)]

@[simp] theorem member_setMember_self (key : String) (v : Json ν)
    (members : List (String × Json ν)) : member key (setMember key v members) = some v := by
  simp [member, setMember]

/-- Where no key occurs twice, the members are found by their keys, in whatever order they stand. -/
theorem member_of_mem {key : String} {v : Json ν} {members : List (String × Json ν)}
    (hdistinct : (members.map Prod.fst).Nodup) (h : (key, v) ∈ members) :
    member key members = some v := by
  have hlookup : ∀ l : List (String × Json ν), (l.map Prod.fst).Nodup → (key, v) ∈ l →
      l.lookup key = some v := by
    intro l
    induction l with
    | nil => exact fun _ hmem ↦ absurd hmem List.not_mem_nil
    | cons entry l ih =>
      intro hnodup hmem
      rw [List.map_cons, List.nodup_cons] at hnodup
      rw [List.lookup_cons]
      rcases List.mem_cons.mp hmem with rfl | hrest
      · rw [beq_self_eq_true]
      · have hne : key ≠ entry.1 := fun heq ↦ hnodup.1 (heq ▸ List.mem_map.mpr ⟨_, hrest, rfl⟩)
        rw [beq_eq_false_iff_ne.mpr hne]
        exact ih hnodup.2 hrest
  have hreverse : (members.reverse.map Prod.fst).Nodup := by
    rw [List.map_reverse]
    exact (List.reverse_perm _).nodup_iff.mpr hdistinct
  exact hlookup _ hreverse (List.mem_reverse.mpr h)

/-- The value of a property; only objects have any. -/
def property (key : String) : Json ν → Option (Json ν)
  | .obj members => member key members
  | _ => none

end Members

/-! ### Numbers -/

section Numbers

variable {ν : Type u} (p : ν → Bool)

mutual

/-- `p` holds of the numbers in the value. -/
def allNums : Json ν → Bool
  | .null | .bool _ | .str _ => true
  | .num n => p n
  | .arr elements => allNumsElements elements
  | .obj members => allNumsMembers members

def allNumsElements : List (Json ν) → Bool
  | [] => true
  | v :: vs => allNums v && allNumsElements vs

def allNumsMembers : List (String × Json ν) → Bool
  | [] => true
  | (_, v) :: ms => allNums v && allNumsMembers ms

end

theorem allNums_arr (elements : List (Json ν)) :
    allNums p (.arr elements) = elements.all (allNums p) := by
  rw [allNums]
  induction elements with
  | nil => rfl
  | cons v vs ih => rw [allNumsElements, ih, List.all_cons]

theorem allNums_obj (members : List (String × Json ν)) :
    allNums p (.obj members) = members.all fun m ↦ allNums p m.2 := by
  rw [allNums]
  induction members with
  | nil => rfl
  | cons m ms ih => rw [allNumsMembers, ih, List.all_cons]

end Numbers

/-! ### Reading back strings -/

theorem hexValue_hexDigit {n : ℕ} (h : n < 16) : hexValue (hexDigit n) = some n := by
  have hall : ∀ n < 16, hexValue (hexDigit n) = some n := by decide
  exact hall n h

theorem hexValue₄_hexDigit {n : ℕ} (h : n < 256) :
    hexValue₄ '0' '0' (hexDigit (n / 16)) (hexDigit (n % 16)) = some n := by
  rw [hexValue₄, hexValue_hexDigit (by omega), hexValue_hexDigit (by omega)]
  have hsum : n / 16 * 16 + n % 16 = n := by omega
  exact congrArg some (by simpa using hsum)

/-- An escaped code unit that is a character. -/
theorem readUnits_unicode {a b d e c : Char} (hvalue : hexValue₄ a b d e = some c.toNat)
    (hsmall : c.toNat < 0x10000) (rest : List Char) :
    readUnits ('\\' :: 'u' :: a :: b :: d :: e :: rest) =
      (readUnits rest).map fun p ↦ (charUnits c ++ p.1, p.2) := by
  have hunits : charUnits c = [c.toNat] := by rw [charUnits, if_pos hsmall]
  simp only [readUnits, hvalue, hunits, List.singleton_append]

/-- A character that stands for itself. -/
theorem readUnits_char {c : Char} (hquote : c ≠ '"') (hbackslash : c ≠ '\\')
    (hcontrol : ¬ c.toNat < 0x20) (rest : List Char) :
    readUnits (c :: rest) = (readUnits rest).map fun p ↦ (charUnits c ++ p.1, p.2) := by
  rw [readUnits.eq_def]
  split
  · rename_i heq
    exact absurd (List.cons.inj heq).1 hquote
  · rename_i heq
    exact absurd (List.cons.inj heq).1 hbackslash
  · rename_i heq
    exact absurd (List.cons.inj heq).1 hbackslash
  · rename_i heq
    obtain ⟨rfl, rfl⟩ := List.cons.inj heq
    rw [if_neg hcontrol]
  · rename_i heq
    cases heq

theorem readUnits_escape (c : Char) (rest : List Char) :
    readUnits (escape c ++ rest) = (readUnits rest).map fun p ↦ (charUnits c ++ p.1, p.2) := by
  unfold escape
  split_ifs with hquote hbackslash hn hr ht hb hf hcontrol
  · subst hquote
    rfl
  · subst hbackslash
    rfl
  · subst hn
    rfl
  · subst hr
    rfl
  · subst ht
    rfl
  · subst hb
    rfl
  · subst hf
    rfl
  · exact readUnits_unicode (hexValue₄_hexDigit (by omega)) (by omega) rest
  · exact readUnits_char hquote hbackslash hcontrol rest

/-! ### Encoders -/

/-- A text without control characters. -/
def Printed (text : List Char) : Prop := ∀ c ∈ text, 0x20 ≤ c.toNat

@[simp] theorem printed_nil : Printed [] := fun _ hc ↦ nomatch hc

@[simp] theorem printed_cons {c : Char} {text : List Char} :
    Printed (c :: text) ↔ 0x20 ≤ c.toNat ∧ Printed text :=
  List.forall_mem_cons

@[simp] theorem printed_append {text text' : List Char} :
    Printed (text ++ text') ↔ Printed text ∧ Printed text' :=
  List.forall_mem_append

/-- How an encoder writes the characters of a string. -/
structure Escapes where
  escape : Char → List Char
  printed : ∀ c, Printed (escape c)
  read_escape : ∀ c rest, readUnits (escape c ++ rest) =
    (readUnits rest).map fun p ↦ (charUnits c ++ p.1, p.2)

theorem le_toNat_hexDigit {n : ℕ} (h : n < 16) : 0x20 ≤ (hexDigit n).toNat := by
  have hall : ∀ n < 16, 0x20 ≤ (hexDigit n).toNat := by decide
  exact hall n h

theorem printed_escape (c : Char) : Printed (escape c) := by
  unfold escape
  split_ifs with _ _ _ _ _ _ _ hcontrol
  iterate 7 simp
  · have hhigh : c.toNat / 16 < 16 := by omega
    have hlow : c.toNat % 16 < 16 := by omega
    simp [le_toNat_hexDigit hhigh, le_toNat_hexDigit hlow]
  · simpa using hcontrol

/-- The escapes of `JSON.stringify`. -/
def Escapes.plain : Escapes := ⟨Json.escape, printed_escape, readUnits_escape⟩

namespace Escapes

variable (escapes : Escapes)

/-- A string literal without its opening quote. -/
def literalTail (s : String) : List Char := s.toList.flatMap escapes.escape ++ ['"']

theorem readUnits_literal (chars rest : List Char) :
    readUnits (chars.flatMap escapes.escape ++ '"' :: rest) = some (utf16 chars, rest) := by
  induction chars with
  | nil => rfl
  | cons c chars ih =>
    rw [List.flatMap_cons, List.append_assoc, escapes.read_escape, ih, Option.map_some, utf16,
      utf16, List.flatMap_cons]

theorem readString_literalTail (s : String) (rest : List Char) :
    readString (escapes.literalTail s ++ rest) = some (s, rest) := by
  rw [readString, literalTail, List.append_assoc, List.singleton_append, readUnits_literal,
    Option.map_some, ofUtf16_utf16, String.ofList_toList]

theorem printed_literalTail (s : String) : Printed (escapes.literalTail s) := by
  rw [literalTail, printed_append]
  constructor
  · intro d hd
    obtain ⟨c, -, hd⟩ := List.mem_flatMap.mp hd
    exact escapes.printed c d hd
  · simp

end Escapes

section Write

variable {ν : Type u} (escapes : Escapes) (numerals : Numerals ν)

mutual

/-- The compact text that an encoder with these escapes makes of a value. -/
def write : Json ν → List Char
  | .null => ['n', 'u', 'l', 'l']
  | .bool true => ['t', 'r', 'u', 'e']
  | .bool false => ['f', 'a', 'l', 's', 'e']
  | .num n => numerals.write n
  | .str s => '"' :: escapes.literalTail s
  | .arr [] => ['[', ']']
  | .arr (v :: vs) => '[' :: (write v ++ writeElements vs)
  | .obj [] => ['{', '}']
  | .obj ((key, v) :: ms) =>
    '{' :: '"' :: (escapes.literalTail key ++ ':' :: (write v ++ writeMembers ms))

/-- The elements of an array after the first, and its end. -/
def writeElements : List (Json ν) → List Char
  | [] => [']']
  | v :: vs => ',' :: (write v ++ writeElements vs)

/-- The members of an object after the first, and its end. -/
def writeMembers : List (String × Json ν) → List Char
  | [] => ['}']
  | (key, v) :: ms =>
    ',' :: '"' :: (escapes.literalTail key ++ ':' :: (write v ++ writeMembers ms))

end

mutual

theorem render_eq_write : ∀ v, render numerals v = write .plain numerals v
  | .null => rfl
  | .bool true => rfl
  | .bool false => rfl
  | .num _ => rfl
  | .str _ => rfl
  | .arr [] => rfl
  | .arr (v :: vs) => by rw [render, write, render_eq_write v, renderElements_eq_write vs]
  | .obj [] => rfl
  | .obj ((key, v) :: ms) => by
    rw [render, write, render_eq_write v, renderMembers_eq_write ms]
    rfl

theorem renderElements_eq_write :
    ∀ vs, renderElements numerals vs = writeElements .plain numerals vs
  | [] => rfl
  | v :: vs => by
    rw [renderElements, writeElements, render_eq_write v, renderElements_eq_write vs]

theorem renderMembers_eq_write :
    ∀ ms, renderMembers numerals ms = writeMembers .plain numerals ms
  | [] => rfl
  | (key, v) :: ms => by
    rw [renderMembers, writeMembers, render_eq_write v, renderMembers_eq_write ms]
    rfl

end

variable {escapes numerals}

mutual

/-- A text has no control character if its numbers have none. -/
theorem printed_write (hnumerals : ∀ n, Printed (numerals.write n)) :
    ∀ v, Printed (write escapes numerals v)
  | .null => by simp [write]
  | .bool true => by simp [write]
  | .bool false => by simp [write]
  | .num n => hnumerals n
  | .str s => by simp [write, escapes.printed_literalTail]
  | .arr [] => by simp [write]
  | .arr (v :: vs) => by simp [write, printed_write hnumerals v, printed_writeElements hnumerals vs]
  | .obj [] => by simp [write]
  | .obj ((key, v) :: ms) => by
    simp [write, escapes.printed_literalTail, printed_write hnumerals v,
      printed_writeMembers hnumerals ms]

theorem printed_writeElements (hnumerals : ∀ n, Printed (numerals.write n)) :
    ∀ vs, Printed (writeElements escapes numerals vs)
  | [] => by simp [writeElements]
  | v :: vs => by
    simp [writeElements, printed_write hnumerals v, printed_writeElements hnumerals vs]

theorem printed_writeMembers (hnumerals : ∀ n, Printed (numerals.write n)) :
    ∀ ms, Printed (writeMembers escapes numerals ms)
  | [] => by simp [writeMembers]
  | (key, v) :: ms => by
    simp [writeMembers, escapes.printed_literalTail, printed_write hnumerals v,
      printed_writeMembers hnumerals ms]

end

end Write

/-! ### Reading back values -/

section RoundTrip

variable {ν : Type u} (escapes : Escapes) (numerals : Numerals ν)

/-- A character that a value may begin with. -/
def BeginsValue (c : Char) : Prop :=
  c = 'n' ∨ c = 't' ∨ c = 'f' ∨ c = '"' ∨ c = '[' ∨ c = '{' ∨ c = '-' ∨ c.isDigit

instance (c : Char) : Decidable (BeginsValue c) :=
  inferInstanceAs (Decidable (_ ∨ _))

theorem skipSpace_cons {c : Char} (h : isSpace c = false) (rest : List Char) :
    skipSpace (c :: rest) = c :: rest := by
  rw [skipSpace, List.dropWhile_cons, h, if_neg Bool.false_ne_true]

theorem BeginsValue.isSpace {c : Char} (h : BeginsValue c) : isSpace c = false := by
  by_contra hspace
  simp only [Json.isSpace, Bool.not_eq_false, Bool.or_eq_true, decide_eq_true_eq] at hspace
  rcases hspace with ((rfl | rfl) | rfl) | rfl
  all_goals exact absurd h (by decide)

theorem write_begins (v : Json ν) :
    ∃ c rest, write escapes numerals v = c :: rest ∧ BeginsValue c := by
  unfold write
  split
  · exact ⟨_, _, rfl, by simp [BeginsValue]⟩
  · exact ⟨_, _, rfl, by simp [BeginsValue]⟩
  · exact ⟨_, _, rfl, by simp [BeginsValue]⟩
  · rename_i n
    obtain ⟨c, digits, hwrite, hc⟩ := numerals.starts n
    refine ⟨c, digits, hwrite, ?_⟩
    rcases hc with hc | hc <;> simp [BeginsValue, hc]
  all_goals exact ⟨_, _, rfl, by simp [BeginsValue]⟩

theorem ends_writeElements (vs : List (Json ν)) (rest : List Char) :
    Ends (writeElements escapes numerals vs ++ rest) := by
  cases vs <;> simp [writeElements, Ends]

theorem ends_writeMembers (ms : List (String × Json ν)) (rest : List Char) :
    Ends (writeMembers escapes numerals ms ++ rest) := by
  cases ms <;> simp [writeMembers, Ends]

/-- With this fuel every value that is not longer than it is read back. -/
def ReadsValues (fuel : ℕ) : Prop :=
  ∀ v rest, (write escapes numerals v).length ≤ fuel → Ends rest →
    parseValue numerals fuel (write escapes numerals v ++ rest) = some (v, rest)

def ReadsElements (fuel : ℕ) : Prop :=
  ∀ v vs rest, (write escapes numerals v ++ writeElements escapes numerals vs).length ≤ fuel →
    parseElements numerals fuel
        (write escapes numerals v ++ writeElements escapes numerals vs ++ rest) =
      some (v :: vs, rest)

/-- The text of a member and the members after it. -/
def memberText (key : String) (v : Json ν) (ms : List (String × Json ν)) : List Char :=
  '"' :: (escapes.literalTail key ++
    ':' :: (write escapes numerals v ++ writeMembers escapes numerals ms))

def ReadsMembers (fuel : ℕ) : Prop :=
  ∀ key v ms rest, (memberText escapes numerals key v ms).length ≤ fuel →
    parseMembers numerals fuel (memberText escapes numerals key v ms ++ rest) =
      some ((key, v) :: ms, rest)

variable {escapes numerals} {fuel : ℕ}

theorem length_write_pos (escapes : Escapes) (numerals : Numerals ν) (v : Json ν) :
    0 < (write escapes numerals v).length := by
  obtain ⟨c, rest, hwritten, -⟩ := write_begins escapes numerals v
  rw [hwritten]
  exact Nat.succ_pos _

theorem ReadsElements.succ (hvalues : ReadsValues escapes numerals fuel)
    (helements : ReadsElements escapes numerals fuel) :
    ReadsElements escapes numerals (fuel + 1) := by
  intro v vs rest hfuel
  rw [List.length_append] at hfuel
  have hv : (write escapes numerals v).length ≤ fuel := by
    have hend : 0 < (writeElements escapes numerals vs).length := by
      cases vs <;> simp [writeElements]
    omega
  rw [List.append_assoc, parseElements,
    hvalues v _ hv (ends_writeElements escapes numerals vs rest)]
  cases vs with
  | nil => rfl
  | cons w vs =>
    have hpos := length_write_pos escapes numerals v
    have hrest : (write escapes numerals w ++ writeElements escapes numerals vs).length ≤ fuel := by
      simp only [writeElements, List.length_cons] at hfuel
      omega
    have hread := helements w vs rest hrest
    simp only [writeElements, List.cons_append,
      skipSpace_cons (show isSpace ',' = false by decide), hread]
    rfl

theorem ReadsMembers.succ (hvalues : ReadsValues escapes numerals fuel)
    (hmembers : ReadsMembers escapes numerals fuel) :
    ReadsMembers escapes numerals (fuel + 1) := by
  intro key v ms rest hfuel
  simp only [memberText, List.length_cons, List.length_append] at hfuel
  have hv : (write escapes numerals v).length ≤ fuel := by omega
  simp only [memberText, List.cons_append, List.append_assoc]
  rw [parseMembers, skipSpace_cons (by decide)]
  simp only [escapes.readString_literalTail, skipSpace_cons (show isSpace ':' = false by decide),
    hvalues v _ hv (ends_writeMembers escapes numerals ms rest)]
  cases ms with
  | nil => rfl
  | cons m ms =>
    obtain ⟨key', v'⟩ := m
    have hrest : (memberText escapes numerals key' v' ms).length ≤ fuel := by
      simp only [writeMembers, List.length_cons, List.length_append] at hfuel
      simp only [memberText, List.length_cons, List.length_append]
      omega
    have hread := hmembers key' v' ms rest hrest
    simp only [memberText, List.cons_append, List.append_assoc] at hread
    simp only [writeMembers, List.cons_append, List.append_assoc,
      skipSpace_cons (show isSpace ',' = false by decide), hread]
    rfl

theorem ReadsValues.succ (helements : ReadsElements escapes numerals fuel)
    (hmembers : ReadsMembers escapes numerals fuel) :
    ReadsValues escapes numerals (fuel + 1) := by
  intro v rest hfuel hrest
  obtain ⟨c, text, hwritten, hbegins⟩ := write_begins escapes numerals v
  rw [parseValue.eq_def]
  simp only [hwritten, List.cons_append, skipSpace_cons hbegins.isSpace]
  rw [← List.cons_append, ← hwritten]
  cases v with
  | null => rfl
  | bool b => cases b <;> rfl
  | str s => simp only [write, List.cons_append, escapes.readString_literalTail, Option.map_some]
  | num n =>
    obtain ⟨d, digits, hwrite, hd⟩ := numerals.starts n
    have hread := numerals.read_write n rest hrest
    simp only [write, hwrite, List.cons_append] at hread ⊢
    split
    all_goals first
      | (rename_i heq; obtain ⟨rfl, -⟩ := List.cons.inj heq; exact absurd hd (by decide))
      | rw [hread, Option.map_some]
  | arr vs =>
    cases vs with
    | nil => rfl
    | cons w vs =>
      have hread := helements w vs rest (by simpa [write] using hfuel)
      obtain ⟨d, text', hw, hd⟩ := write_begins escapes numerals w
      simp only [write, hw, List.cons_append, List.append_assoc,
        skipSpace_cons hd.isSpace] at hread ⊢
      split
      · rename_i heq
        obtain ⟨rfl, -⟩ := List.cons.inj heq
        exact absurd hd (by decide)
      · rw [hread, Option.map_some]
  | obj ms =>
    cases ms with
    | nil => rfl
    | cons m ms =>
      obtain ⟨key, w⟩ := m
      have hread := hmembers key w ms rest (by simpa [write, memberText] using hfuel)
      simp only [memberText, write, List.cons_append, List.append_assoc,
        skipSpace_cons (show isSpace '"' = false by decide)] at hread ⊢
      change Option.map (fun p ↦ (obj p.1, p.2)) (parseMembers numerals fuel ('"' :: _)) = _
      rw [hread, Option.map_some]

/-- Enough fuel reads back values, lists of elements and lists of members. -/
theorem reads (escapes : Escapes) (numerals : Numerals ν) (fuel : ℕ) :
    ReadsValues escapes numerals fuel ∧ ReadsElements escapes numerals fuel ∧
      ReadsMembers escapes numerals fuel := by
  induction fuel with
  | zero =>
    refine ⟨fun v rest hfuel ↦ ?_, fun v vs rest hfuel ↦ ?_, fun key v ms rest hfuel ↦ ?_⟩
    · exact absurd hfuel (not_le.mpr (length_write_pos escapes numerals v))
    · rw [List.length_append] at hfuel
      have hpos := length_write_pos escapes numerals v
      omega
    · exact absurd hfuel (not_le.mpr (Nat.succ_pos _))
  | succ fuel ih =>
    obtain ⟨hvalues, helements, hmembers⟩ := ih
    exact ⟨ReadsValues.succ helements hmembers, ReadsElements.succ hvalues helements,
      ReadsMembers.succ hvalues hmembers⟩

/-- The text of a value is read back as the value. -/
theorem parse_write (escapes : Escapes) (numerals : Numerals ν) (v : Json ν) :
    parse numerals (write escapes numerals v) = some v := by
  have hread := (reads escapes numerals _).1 v [] (Nat.le_succ _) (by simp [Ends])
  rw [List.append_nil] at hread
  rw [parse, hread]
  rfl

theorem parse_render (numerals : Numerals ν) (v : Json ν) :
    parse numerals (render numerals v) = some v := by
  rw [render_eq_write, parse_write]

theorem render_injective (numerals : Numerals ν) : Function.Injective (render numerals) := by
  intro v w h
  have hparse := parse_render numerals v
  rw [h, parse_render] at hparse
  exact (Option.some.inj hparse).symm

end RoundTrip

end Json

end CosmicSwingset.Foundation
