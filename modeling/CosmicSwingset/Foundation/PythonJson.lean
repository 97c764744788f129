import CosmicSwingset.Foundation.Decimal
import CosmicSwingset.Foundation.JsonOutline

/-!
# JSON in Python

`dumps` is the text that `json.dumps` makes of a value: with a space after every comma and colon of
the structure, and with an escape for every character that is not a printable ASCII character.

The parser skips white space, so that a value has many texts. `IsText` says that a text is read as
a value; it is built up from the parts of the text, whatever blanks stand between them
(`IsElements.cons`, `IsMembers.cons`). In particular `dumps` writes a text of its value
(`isText_dumps`).
-/

set_option autoImplicit false
set_option relaxedAutoImplicit false

namespace CosmicSwingset.Foundation.Json

universe u

/-! ### Texts with blanks -/

section Texts

variable {ν : Type u} {numerals : Numerals ν}

/-- White space only. -/
def Blank (text : List Char) : Prop := ∀ c ∈ text, isSpace c = true

theorem Blank.skipSpace_append {blank : List Char} (h : Blank blank) (input : List Char) :
    skipSpace (blank ++ input) = skipSpace input := by
  rw [skipSpace, List.dropWhile_append_of_pos h]
  rfl

theorem Blank.scan {blank : List Char} (h : Blank blank) {place : Place} {depth : ℕ}
    (hplace : place.Settled depth) : place.scan blank = place := by
  have hskip := h.skipSpace_append []
  rw [List.append_nil] at hskip
  rw [← hplace.scan_skipSpace, hskip]
  rfl

theorem parseValue_blank {blank : List Char} (h : Blank blank) (fuel : ℕ) (input : List Char) :
    parseValue numerals fuel (blank ++ input) = parseValue numerals fuel input := by
  cases fuel with
  | zero => rfl
  | succ fuel => rw [parseValue.eq_def, parseValue.eq_def]; simp only [h.skipSpace_append]

theorem parseElements_blank {blank : List Char} (h : Blank blank) (fuel : ℕ)
    (input : List Char) :
    parseElements numerals fuel (blank ++ input) = parseElements numerals fuel input := by
  cases fuel with
  | zero => rfl
  | succ fuel => rw [parseElements, parseElements, parseValue_blank h]

theorem parseMembers_blank {blank : List Char} (h : Blank blank) (fuel : ℕ) (input : List Char) :
    parseMembers numerals fuel (blank ++ input) = parseMembers numerals fuel input := by
  cases fuel with
  | zero => rfl
  | succ fuel => rw [parseMembers, parseMembers, h.skipSpace_append]

variable (numerals)

/-- The text is read as the value, whatever follows it. -/
structure IsText (text : List Char) (v : Json ν) : Prop where
  begins : ∃ c rest, text = c :: rest ∧ BeginsValue c
  reads : ∀ {fuel : ℕ} {rest : List Char}, text.length ≤ fuel → Ends rest →
    parseValue numerals fuel (text ++ rest) = some (v, rest)

/-- The text is read as the elements of an array and its end. -/
structure IsElements (text : List Char) (vs : List (Json ν)) : Prop where
  begins : ∃ c rest, text = c :: rest ∧ BeginsValue c
  reads : ∀ {fuel : ℕ} {rest : List Char}, text.length ≤ fuel →
    parseElements numerals fuel (text ++ rest) = some (vs, rest)

/-- The text is read as the members of an object and its end. -/
structure IsMembers (text : List Char) (ms : List (String × Json ν)) : Prop where
  begins : ∃ rest, text = '"' :: rest
  reads : ∀ {fuel : ℕ} {rest : List Char}, text.length ≤ fuel →
    parseMembers numerals fuel (text ++ rest) = some (ms, rest)

variable {numerals} {text text' blank : List Char} {v : Json ν}

theorem isText_write (escapes : Escapes) (v : Json ν) :
    IsText numerals (write escapes numerals v) v where
  begins := write_begins escapes numerals v
  reads := fun hfuel hrest ↦ (reads escapes numerals _).1 v _ hfuel hrest

theorem IsText.length_pos (h : IsText numerals text v) : 0 < text.length := by
  obtain ⟨c, rest, rfl, -⟩ := h.begins
  exact Nat.succ_pos _

theorem IsText.begins_append (h : IsText numerals text v) (rest : List Char) :
    ∃ c rest', text ++ rest = c :: rest' ∧ BeginsValue c := by
  obtain ⟨c, text, rfl, hc⟩ := h.begins
  exact ⟨c, text ++ rest, rfl, hc⟩

/-- A whole text. -/
theorem IsText.parse (h : IsText numerals text v) : Json.parse numerals text = some v := by
  have hends : Ends [] := by simp [Ends]
  have hread := h.reads (Nat.le_succ text.length) hends
  rw [List.append_nil] at hread
  rw [Json.parse, hread]
  rfl

theorem IsText.last (h : IsText numerals text v) : IsElements numerals (text ++ [']']) [v] where
  begins := h.begins_append _
  reads := by
    intro fuel rest hfuel
    rw [List.length_append, List.length_singleton] at hfuel
    obtain ⟨fuel, rfl⟩ := Nat.exists_eq_add_of_le' (Nat.le_of_add_left_le hfuel)
    rw [List.append_assoc, List.singleton_append, parseElements,
      h.reads (Nat.le_of_succ_le_succ hfuel) (by simp [Ends])]
    rfl

theorem IsElements.cons {vs : List (Json ν)} (hrest : IsElements numerals text' vs)
    (h : IsText numerals text v) (hblank : Blank blank) :
    IsElements numerals (text ++ ',' :: (blank ++ text')) (v :: vs) where
  begins := h.begins_append _
  reads := by
    intro fuel rest hfuel
    have hpos := h.length_pos
    simp only [List.length_append, List.length_cons] at hfuel
    cases fuel with
    | zero => omega
    | succ fuel =>
      have hread : parseElements numerals fuel (text' ++ rest) = some (vs, rest) :=
        hrest.reads (by omega)
      rw [List.append_assoc, List.cons_append, List.append_assoc, parseElements,
        h.reads (by omega) (by simp [Ends])]
      simp only [skipSpace_cons (show isSpace ',' = false by decide), parseElements_blank hblank,
        hread]
      rfl

theorem IsElements.array {vs : List (Json ν)} (h : IsElements numerals text vs) :
    IsText numerals ('[' :: text) (.arr vs) where
  begins := ⟨'[', text, rfl, by simp [BeginsValue]⟩
  reads := by
    intro fuel rest hfuel _
    rw [List.length_cons] at hfuel
    cases fuel with
    | zero => exact absurd hfuel (Nat.not_succ_le_zero _)
    | succ fuel =>
      have hread : parseElements numerals fuel (text ++ rest) = some (vs, rest) :=
        h.reads (Nat.le_of_succ_le_succ hfuel)
      obtain ⟨c, text, rfl, hc⟩ := h.begins
      rw [parseValue.eq_def]
      simp only [List.cons_append, skipSpace_cons (show isSpace '[' = false by decide),
        skipSpace_cons hc.isSpace] at hread ⊢
      split
      · rename_i heq
        obtain ⟨rfl, -⟩ := List.cons.inj heq
        exact absurd hc (by decide)
      · rw [hread, Option.map_some]

/-- The text of a member. -/
def memberOf (escapes : Escapes) (key : String) (blank value : List Char) : List Char :=
  '"' :: (escapes.literalTail key ++ ':' :: (blank ++ value))

theorem IsText.lastMember (h : IsText numerals text v) (escapes : Escapes) (key : String)
    (hblank : Blank blank) :
    IsMembers numerals (memberOf escapes key blank text ++ ['}']) [(key, v)] where
  begins := ⟨_, rfl⟩
  reads := by
    intro fuel rest hfuel
    simp only [memberOf, List.length_append, List.length_cons] at hfuel
    cases fuel with
    | zero => omega
    | succ fuel =>
      have hvalue : parseValue numerals fuel (text ++ '}' :: rest) = some (v, '}' :: rest) :=
        h.reads (by omega) (by simp [Ends])
      simp only [memberOf, List.cons_append, List.append_assoc, List.nil_append]
      rw [parseMembers, skipSpace_cons (by decide)]
      simp only [escapes.readString_literalTail,
        skipSpace_cons (show isSpace ':' = false by decide), parseValue_blank hblank, hvalue]
      rfl

theorem IsMembers.cons {ms : List (String × Json ν)} (hrest : IsMembers numerals text' ms)
    (h : IsText numerals text v) (escapes : Escapes) (key : String) {blank' : List Char}
    (hblank : Blank blank) (hblank' : Blank blank') :
    IsMembers numerals (memberOf escapes key blank text ++ ',' :: (blank' ++ text'))
      ((key, v) :: ms) where
  begins := ⟨_, rfl⟩
  reads := by
    intro fuel rest hfuel
    simp only [memberOf, List.length_append, List.length_cons] at hfuel
    cases fuel with
    | zero => omega
    | succ fuel =>
      have hread : parseMembers numerals fuel (text' ++ rest) = some (ms, rest) :=
        hrest.reads (by omega)
      have hvalue : ∀ rest', parseValue numerals fuel (text ++ ',' :: rest') =
          some (v, ',' :: rest') := fun _ ↦ h.reads (by omega) (by simp [Ends])
      simp only [memberOf, List.cons_append, List.append_assoc]
      rw [parseMembers, skipSpace_cons (by decide)]
      simp only [escapes.readString_literalTail,
        skipSpace_cons (show isSpace ':' = false by decide),
        skipSpace_cons (show isSpace ',' = false by decide), parseValue_blank hblank, hvalue,
        parseMembers_blank hblank', hread]
      rfl

theorem IsMembers.object {ms : List (String × Json ν)} (h : IsMembers numerals text ms) :
    IsText numerals ('{' :: text) (.obj ms) where
  begins := ⟨'{', text, rfl, by simp [BeginsValue]⟩
  reads := by
    intro fuel rest hfuel _
    rw [List.length_cons] at hfuel
    cases fuel with
    | zero => exact absurd hfuel (Nat.not_succ_le_zero _)
    | succ fuel =>
      have hread : parseMembers numerals fuel (text ++ rest) = some (ms, rest) :=
        h.reads (Nat.le_of_succ_le_succ hfuel)
      obtain ⟨text, rfl⟩ := h.begins
      rw [parseValue.eq_def]
      simp only [List.cons_append, skipSpace_cons (show isSpace '{' = false by decide),
        skipSpace_cons (show isSpace '"' = false by decide)] at hread ⊢
      change Option.map (fun p ↦ (obj p.1, p.2)) (parseMembers numerals fuel ('"' :: _)) = _
      rw [hread, Option.map_some]

end Texts

/-! ### `json.dumps` -/

/-- A code unit as an escape. -/
def escapeUnit (unit : ℕ) : List Char :=
  ['\\', 'u', hexDigit (unit / 4096), hexDigit (unit / 256 % 16), hexDigit (unit / 16 % 16),
    hexDigit (unit % 16)]

/-- A character inside a string literal of `json.dumps`. -/
def asciiEscape (c : Char) : List Char :=
  if c = '"' then ['\\', '"']
  else if c = '\\' then ['\\', '\\']
  else if c = '\n' then ['\\', 'n']
  else if c = '\r' then ['\\', 'r']
  else if c = '\t' then ['\\', 't']
  else if c = Char.ofNat 8 then ['\\', 'b']
  else if c = Char.ofNat 12 then ['\\', 'f']
  else if ' ' ≤ c ∧ c ≤ '~' then [c]
  else (charUnits c).flatMap escapeUnit

theorem readUnits_escapeUnit {unit : ℕ} (h : unit < 65536) (rest : List Char) :
    readUnits (escapeUnit unit ++ rest) = (readUnits rest).map fun p ↦ (unit :: p.1, p.2) := by
  have hvalue : hexValue₄ (hexDigit (unit / 4096)) (hexDigit (unit / 256 % 16))
      (hexDigit (unit / 16 % 16)) (hexDigit (unit % 16)) = some unit := by
    rw [hexValue₄, hexValue_hexDigit (by omega), hexValue_hexDigit (by omega),
      hexValue_hexDigit (by omega), hexValue_hexDigit (by omega)]
    have hsum : ((unit / 4096 * 16 + unit / 256 % 16) * 16 + unit / 16 % 16) * 16 + unit % 16 =
        unit := by omega
    exact congrArg some hsum
  simp only [escapeUnit, List.cons_append, List.nil_append, readUnits, hvalue]

theorem charUnits_lt (c : Char) : ∀ unit ∈ charUnits c, unit < 65536 := by
  intro unit hunit
  have hvalid : c.toNat.isValidChar := c.valid
  unfold Nat.isValidChar at hvalid
  unfold charUnits at hunit
  split_ifs at hunit with hsmall
  · rw [List.mem_singleton] at hunit
    omega
  · rcases List.mem_pair.mp hunit with h | h <;> omega

theorem readUnits_escapeUnits {units : List ℕ} (h : ∀ unit ∈ units, unit < 65536)
    (rest : List Char) : readUnits (units.flatMap escapeUnit ++ rest) =
      (readUnits rest).map fun p ↦ (units ++ p.1, p.2) := by
  induction units with
  | nil => simp
  | cons unit units ih =>
    rw [List.forall_mem_cons] at h
    rw [List.flatMap_cons, List.append_assoc, readUnits_escapeUnit h.1, ih h.2, Option.map_map]
    rfl

theorem readUnits_asciiEscape (c : Char) (rest : List Char) :
    readUnits (asciiEscape c ++ rest) =
      (readUnits rest).map fun p ↦ (charUnits c ++ p.1, p.2) := by
  unfold asciiEscape
  split_ifs with hquote hbackslash hn hr ht hb hf hprintable
  · subst hquote
    rfl
  · subst hbackslash
    rfl
  · subst hn
    rfl
  · subst hr
    rfl
  · subst ht
    rfl
  · subst hb
    rfl
  · subst hf
    rfl
  · exact readUnits_char hquote hbackslash (not_lt.mpr hprintable.1) rest
  · exact readUnits_escapeUnits (charUnits_lt c) rest

theorem printed_escapeUnit {unit : ℕ} (h : unit < 65536) : Printed (escapeUnit unit) := by
  simp only [escapeUnit, printed_cons, printed_nil, and_true]
  refine ⟨by decide, by decide, ?_⟩
  exact ⟨le_toNat_hexDigit (by omega), le_toNat_hexDigit (by omega),
    le_toNat_hexDigit (by omega), le_toNat_hexDigit (by omega)⟩

theorem printed_asciiEscape (c : Char) : Printed (asciiEscape c) := by
  unfold asciiEscape
  split_ifs with _ _ _ _ _ _ _ hprintable
  iterate 7 simp
  · exact printed_cons.mpr ⟨hprintable.1, printed_nil⟩
  · intro d hd
    obtain ⟨unit, hunit, hd⟩ := List.mem_flatMap.mp hd
    exact printed_escapeUnit (charUnits_lt c unit hunit) d hd

/-- The escapes of `json.dumps`. -/
def Escapes.ascii : Escapes := ⟨asciiEscape, printed_asciiEscape, readUnits_asciiEscape⟩

section Dumps

variable {ν : Type u} (numerals : Numerals ν)

mutual

/-- `json.dumps`. -/
def dumps : Json ν → List Char
  | .null => ['n', 'u', 'l', 'l']
  | .bool true => ['t', 'r', 'u', 'e']
  | .bool false => ['f', 'a', 'l', 's', 'e']
  | .num n => numerals.write n
  | .str s => '"' :: Escapes.ascii.literalTail s
  | .arr [] => ['[', ']']
  | .arr (v :: vs) => '[' :: (dumps v ++ dumpsElements vs)
  | .obj [] => ['{', '}']
  | .obj ((key, v) :: ms) => '{' :: (memberOf .ascii key [' '] (dumps v) ++ dumpsMembers ms)

/-- The elements of an array after the first, and its end. -/
def dumpsElements : List (Json ν) → List Char
  | [] => [']']
  | v :: vs => ',' :: ([' '] ++ (dumps v ++ dumpsElements vs))

/-- The members of an object after the first, and its end. -/
def dumpsMembers : List (String × Json ν) → List Char
  | [] => ['}']
  | (key, v) :: ms => ',' :: ([' '] ++ (memberOf .ascii key [' '] (dumps v) ++ dumpsMembers ms))

end

theorem blank_space : Blank [' '] := by
  intro c hc
  rw [List.mem_singleton.mp hc]
  rfl

mutual

theorem isText_dumps : ∀ v, IsText numerals (dumps numerals v) v
  | .null => isText_write .ascii .null
  | .bool true => isText_write .ascii (.bool true)
  | .bool false => isText_write .ascii (.bool false)
  | .num n => isText_write .ascii (.num n)
  | .str s => isText_write .ascii (.str s)
  | .arr [] => isText_write .ascii (.arr [])
  | .arr (v :: vs) => (isElements_dumps vs (isText_dumps v)).array
  | .obj [] => isText_write .ascii (.obj [])
  | .obj ((key, v) :: ms) => (isMembers_dumps ms key (isText_dumps v)).object

theorem isElements_dumps : ∀ vs {text : List Char} {v : Json ν}, IsText numerals text v →
    IsElements numerals (text ++ dumpsElements numerals vs) (v :: vs)
  | [], _, _, h => h.last
  | v :: vs, _, _, h => (isElements_dumps vs (isText_dumps v)).cons h blank_space

theorem isMembers_dumps : ∀ ms (key : String) {text : List Char} {v : Json ν},
    IsText numerals text v →
      IsMembers numerals (memberOf .ascii key [' '] text ++ dumpsMembers numerals ms)
        ((key, v) :: ms)
  | [], key, _, _, h => h.lastMember .ascii key blank_space
  | (key', v') :: ms, key, _, _, h =>
    (isMembers_dumps ms key' (isText_dumps v')).cons h .ascii key blank_space blank_space

end

/-- What `json.dumps` writes is read as the value. -/
theorem parse_dumps (v : Json ν) : parse numerals (dumps numerals v) = some v :=
  (isText_dumps numerals v).parse

variable {numerals}

theorem wellNested_member (hplain : PlainNumerals numerals) (key : String) (v : Json ν) :
    WellNested (memberOf .ascii key [' '] (dumps numerals v)) :=
  (wellNested_literal .ascii key).join
    ((wellNested_of_parse hplain (parse_dumps numerals v)).space rfl) (Or.inr rfl)

theorem exists_wellNested_members (hplain : PlainNumerals numerals) :
    ∀ (ms : List (String × Json ν)) (key : String) (v : Json ν), ∃ body, WellNested body ∧
      memberOf .ascii key [' '] (dumps numerals v) ++ dumpsMembers numerals ms = body ++ ['}']
  | [], key, v => ⟨_, wellNested_member hplain key v, rfl⟩
  | (key', v') :: ms, key, v => by
    obtain ⟨body, hbody, htext⟩ := exists_wellNested_members hplain ms key' v'
    refine ⟨_, (wellNested_member hplain key v).join (hbody.space (c := ' ') rfl) (Or.inl rfl), ?_⟩
    rw [dumpsMembers, htext]
    simp

/-- What is in the braces of an object is well nested. -/
theorem exists_wellNested_body (hplain : PlainNumerals numerals) (m : String × Json ν)
    (ms : List (String × Json ν)) :
    ∃ body, WellNested body ∧ dumps numerals (.obj (m :: ms)) = '{' :: (body ++ ['}']) := by
  obtain ⟨body, hbody, htext⟩ := exists_wellNested_members hplain ms m.1 m.2
  exact ⟨body, hbody, congrArg ('{' :: ·) htext⟩

end Dumps

/-! ### The numbers of the grammar -/

theorem Consumes.refl (input : List Char) : Consumes input input :=
  ⟨[], rfl, List.forall_mem_nil _⟩

theorem Consumes.trans {input rest rest' : List Char} (h : Consumes input rest)
    (h' : Consumes rest rest') : Consumes input rest' := by
  obtain ⟨digits, rfl, hdigits⟩ := h
  obtain ⟨digits', rfl, hdigits'⟩ := h'
  exact ⟨digits ++ digits', (List.append_assoc _ _ _).symm,
    List.forall_mem_append.mpr ⟨hdigits, hdigits'⟩⟩

theorem consumes_tail {input : List Char} {c : Char} (hhead : input.head? = some c)
    (hc : c ∉ ['"', '[', '{', ']', '}']) : Consumes input input.tail := by
  obtain ⟨rest, rfl⟩ := List.head?_eq_some_iff.mp hhead
  exact ⟨[c], rfl, fun d hd ↦ List.mem_singleton.mp hd ▸ hc⟩

theorem consumes_digits (input : List Char) :
    Consumes input (input.dropWhile Char.isDigit) := by
  refine ⟨input.takeWhile Char.isDigit, List.takeWhile_append_dropWhile.symm, fun c hc hmem ↦ ?_⟩
  have hdigit := List.mem_takeWhile_imp hc
  simp only [List.mem_cons, List.not_mem_nil, or_false] at hmem
  rcases hmem with rfl | rfl | rfl | rfl | rfl <;> exact absurd hdigit (by decide)

theorem consumes_readNat {input rest : List Char} {n : ℕ} (h : readNat input = some (n, rest)) :
    Consumes input rest := by
  rw [readNat] at h
  split_ifs at h
  cases h
  exact consumes_digits input

theorem consumes_readDigits {input digits rest : List Char}
    (h : Decimal.readDigits input = some (digits, rest)) : Consumes input rest := by
  rw [Decimal.readDigits] at h
  split_ifs at h
  cases h
  exact consumes_digits input

theorem consumes_readFraction {input digits rest : List Char}
    (h : Decimal.readFraction input = some (digits, rest)) : Consumes input rest := by
  rw [Decimal.readFraction] at h
  split_ifs at h with hpoint
  · exact (consumes_tail hpoint (by decide)).trans (consumes_readDigits h)
  · cases h
    exact .refl input

theorem consumes_readSigned {input rest : List Char} {n : ℤ}
    (h : Decimal.readSigned input = some (n, rest)) : Consumes input rest := by
  rw [Decimal.readSigned] at h
  split_ifs at h with hminus hplus
  · obtain ⟨p, hp, heq⟩ := Option.map_eq_some_iff.mp h
    cases heq
    exact (consumes_tail hminus (by decide)).trans (consumes_readDigits hp)
  · obtain ⟨p, hp, heq⟩ := Option.map_eq_some_iff.mp h
    cases heq
    exact (consumes_tail hplus (by decide)).trans (consumes_readDigits hp)
  · obtain ⟨p, hp, heq⟩ := Option.map_eq_some_iff.mp h
    cases heq
    exact consumes_readDigits hp

theorem consumes_readExponent {input rest : List Char} {n : ℤ}
    (h : Decimal.readExponent input = some (n, rest)) : Consumes input rest := by
  rw [Decimal.readExponent] at h
  split_ifs at h with hletter
  · have htail : Consumes input input.tail := by
      rcases hletter with hletter | hletter
      · exact consumes_tail hletter (by decide)
      · exact consumes_tail hletter (by decide)
    exact htail.trans (consumes_readSigned h)
  · cases h
    exact .refl input

theorem consumes_readUnsigned {input rest : List Char} {d : Decimal}
    (h : Decimal.readUnsigned input = some (d, rest)) : Consumes input rest := by
  simp only [Decimal.readUnsigned, Option.bind_eq_bind, Option.bind_eq_some_iff] at h
  obtain ⟨⟨whole, rest₁⟩, hwhole, ⟨fraction, rest₂⟩, hfraction, ⟨exponent, rest₃⟩, hexponent,
    heq⟩ := h
  cases heq
  exact ((consumes_readNat hwhole).trans (consumes_readFraction hfraction)).trans
    (consumes_readExponent hexponent)

theorem plainNumerals_decimal : PlainNumerals .decimal := by
  intro input d rest h
  change Decimal.read input = _ at h
  rw [Decimal.read] at h
  split_ifs at h with hminus
  · obtain ⟨p, hp, heq⟩ := Option.map_eq_some_iff.mp h
    cases heq
    exact (consumes_tail hminus (by decide)).trans (consumes_readUnsigned hp)
  · exact consumes_readUnsigned h

example : asciiEscape '😀' = "\\ud83d\\ude00".toList := by decide

end CosmicSwingset.Foundation.Json
