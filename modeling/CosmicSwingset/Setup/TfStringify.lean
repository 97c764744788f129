import CosmicSwingset.Foundation.Hcl
import CosmicSwingset.Foundation.SortedJson

/-!
# Values for Terraform

`tfStringify` of `init.js` writes a value as a literal of Terraform's configuration language. Each
of its loops puts a separator in front of every element, and the separator in front of the first is
the opening bracket; the closing one comes after the loop. An array or an object without elements
is therefore a closing bracket alone.

The text is read back as the value, but for the order of keys, exactly when no array or object in
the value is empty (`roundTrips_iff_no_empties`). Read as tokens, every empty one takes an opening
bracket from the text (`depth_tokens`), and what is read has as many of these as of closing ones.
-/

set_option autoImplicit false
set_option relaxedAutoImplicit false

namespace CosmicSwingset.Setup

open Foundation Json Hcl

universe u

variable {ν : Type u} (numerals : Numerals ν)

/-! ### `tfStringify` -/

mutual

/-- The text of a value whose keys are in order. -/
def tfText : Json ν → List Char
  | .arr els => tfElements '[' els
  | .obj ms => tfMembers '{' ms
  | .null => render numerals .null
  | .bool b => render numerals (.bool b)
  | .num n => render numerals (.num n)
  | .str s => render numerals (.str s)

/-- The loop over the elements of an array, and the bracket after it. -/
def tfElements (sep : Char) : List (Json ν) → List Char
  | [] => [']']
  | el :: els => sep :: (tfText el ++ tfElements ',' els)

/-- The loop over the keys of an object, and the brace after it. -/
def tfMembers (sep : Char) : List (String × Json ν) → List Char
  | [] => ['}']
  | (key, v) :: ms => sep :: '"' :: (literalTail key ++ '=' :: (tfText v ++ tfMembers ',' ms))

end

def tfStringify (v : Json ν) : List Char := tfText numerals (sortKeys v)

/-! ### Values -/

mutual

/-- Built from strings that are no templates, numbers and booleans. -/
def isLiteral : Json ν → Bool
  | .null => false
  | .bool _ | .num _ => true
  | .str s => !isTemplate s.toList
  | .arr els => isLiteralElements els
  | .obj ms => isLiteralMembers ms

def isLiteralElements : List (Json ν) → Bool
  | [] => true
  | el :: els => isLiteral el && isLiteralElements els

def isLiteralMembers : List (String × Json ν) → Bool
  | [] => true
  | (key, v) :: ms => !isTemplate key.toList && isLiteral v && isLiteralMembers ms

end

mutual

/-- How many arrays and objects in the value are empty. -/
def empties : Json ν → ℕ
  | .arr els => (if els.isEmpty then 1 else 0) + emptiesElements els
  | .obj ms => (if ms.isEmpty then 1 else 0) + emptiesMembers ms
  | .null | .bool _ | .num _ | .str _ => 0

def emptiesElements : List (Json ν) → ℕ
  | [] => 0
  | el :: els => empties el + emptiesElements els

def emptiesMembers : List (String × Json ν) → ℕ
  | [] => 0
  | (_, v) :: ms => empties v + emptiesMembers ms

end

/-- What the text is read as is the value, with its keys in any order. -/
def RoundTrips (v : Json ν) : Prop :=
  ∃ w, Hcl.parse numerals (tfStringify numerals v) = some w ∧ sortKeys w = sortKeys v

/-! ### Tokens -/

mutual

def tokens : Json ν → List (Token ν)
  | .null => []
  | .bool b => [.scalar (.bool b)]
  | .num n => [.scalar (.num n)]
  | .str s => [.scalar (.str s)]
  | .arr els => tokensElements (.opening .list) els
  | .obj ms => tokensMembers (.opening .map) ms

def tokensElements (sep : Token ν) : List (Json ν) → List (Token ν)
  | [] => [.closing .list]
  | el :: els => sep :: (tokens el ++ tokensElements .comma els)

def tokensMembers (sep : Token ν) : List (String × Json ν) → List (Token ν)
  | [] => [.closing .map]
  | (key, v) :: ms =>
    sep :: .scalar (.str key) :: .equals :: (tokens v ++ tokensMembers .comma ms)

end

mutual

/-- Each empty array or object takes an opening bracket from the tokens. -/
theorem depth_tokens : ∀ v : Json ν, depth (tokens v) = -(empties v : ℤ)
  | .null | .bool _ | .num _ | .str _ => by simp [tokens, empties, Token.depth]
  | .arr [] | .obj [] => by
    simp [tokens, tokensElements, tokensMembers, empties, emptiesElements, emptiesMembers,
      Token.depth]
  | .arr (el :: els) => by
    have hel := depth_tokens el
    have hels := depth_tokensElements els
    simp only [tokens, tokensElements, empties, emptiesElements, depth_cons, depth_append,
      Token.depth, List.isEmpty_cons, Bool.false_eq_true, if_false, hel, hels]
    omega
  | .obj ((key, v) :: ms) => by
    have hv := depth_tokens v
    have hms := depth_tokensMembers ms
    simp only [tokens, tokensMembers, empties, emptiesMembers, depth_cons, depth_append,
      Token.depth, List.isEmpty_cons, Bool.false_eq_true, if_false, hv, hms]
    omega

theorem depth_tokensElements :
    ∀ els : List (Json ν), depth (tokensElements .comma els) = -1 - (emptiesElements els : ℤ)
  | [] => by simp [tokensElements, emptiesElements, Token.depth]
  | el :: els => by
    have hel := depth_tokens el
    have hels := depth_tokensElements els
    simp only [tokensElements, emptiesElements, depth_cons, depth_append, Token.depth, hel, hels]
    omega

theorem depth_tokensMembers :
    ∀ ms : List (String × Json ν),
      depth (tokensMembers .comma ms) = -1 - (emptiesMembers ms : ℤ)
  | [] => by simp [tokensMembers, emptiesMembers, Token.depth]
  | (key, v) :: ms => by
    have hv := depth_tokens v
    have hms := depth_tokensMembers ms
    simp only [tokensMembers, emptiesMembers, depth_cons, depth_append, Token.depth, hv, hms]
    omega

end

section Lexes

variable {numerals} {text : List Char} {ts : List (Token ν)}

theorem ends_tfElements (els : List (Json ν)) (text : List Char) :
    Ends (tfElements numerals ',' els ++ text) := by
  cases els <;> simp [tfElements, Ends]

theorem ends_tfMembers (ms : List (String × Json ν)) (text : List Char) :
    Ends (tfMembers numerals ',' ms ++ text) := by
  cases ms <;> simp [tfMembers, Ends]

mutual

/-- The text of a value consists of its tokens, whatever follows. -/
theorem lexes_tfText : ∀ (v : Json ν) {text : List Char} {ts : List (Token ν)},
    isLiteral v = true → Ends text → Lexes numerals text ts →
      Lexes numerals (tfText numerals v ++ text) (tokens v ++ ts)
  | .null, _, _, hv, _, _ => by simp [isLiteral] at hv
  | .bool b, _, _, _, _, h => h.bool b
  | .num n, _, _, _, hends, h => h.num hends n
  | .str s, _, _, hv, _, h => h.str (by simpa [isLiteral] using hv)
  | .arr [], _, _, _, _, h => h.cons (by decide) rfl
  | .arr (el :: els), _, _, hv, _, h => by
    simp only [isLiteral, isLiteralElements, Bool.and_eq_true] at hv
    have hels := lexes_tfElements els hv.2 h
    have hel := lexes_tfText el hv.1 (ends_tfElements els _) hels
    simp only [tfText, tfElements, tokens, tokensElements, List.cons_append, List.append_assoc]
    exact hel.cons (by decide) rfl
  | .obj [], _, _, _, _, h => h.cons (by decide) rfl
  | .obj ((key, v) :: ms), _, _, hv, _, h => by
    simp only [isLiteral, isLiteralMembers, Bool.and_eq_true, Bool.not_eq_true'] at hv
    have hms := lexes_tfMembers ms hv.2 h
    have hvalue := lexes_tfText v hv.1.2 (ends_tfMembers ms _) hms
    simp only [tfText, tfMembers, tokens, tokensMembers, List.cons_append, List.append_assoc]
    have hequals := hvalue.cons (c := '=') (by decide) rfl
    exact (hequals.str hv.1.1).cons (by decide) rfl

theorem lexes_tfElements : ∀ (els : List (Json ν)) {text : List Char} {ts : List (Token ν)},
    isLiteralElements els = true → Lexes numerals text ts →
      Lexes numerals (tfElements numerals ',' els ++ text) (tokensElements .comma els ++ ts)
  | [], _, _, _, h => h.cons (by decide) rfl
  | el :: els, _, _, hels, h => by
    simp only [isLiteralElements, Bool.and_eq_true] at hels
    have hrest := lexes_tfElements els hels.2 h
    have hel := lexes_tfText el hels.1 (ends_tfElements els _) hrest
    simp only [tfElements, tokensElements, List.cons_append, List.append_assoc]
    exact hel.cons (by decide) rfl

theorem lexes_tfMembers : ∀ (ms : List (String × Json ν)) {text : List Char}
    {ts : List (Token ν)}, isLiteralMembers ms = true → Lexes numerals text ts →
      Lexes numerals (tfMembers numerals ',' ms ++ text) (tokensMembers .comma ms ++ ts)
  | [], _, _, _, h => h.cons (by decide) rfl
  | (key, v) :: ms, _, _, hms, h => by
    simp only [isLiteralMembers, Bool.and_eq_true, Bool.not_eq_true'] at hms
    have hrest := lexes_tfMembers ms hms.2 h
    have hvalue := lexes_tfText v hms.1.2 (ends_tfMembers ms _) hrest
    simp only [tfMembers, tokensMembers, List.cons_append, List.append_assoc]
    have hequals := hvalue.cons (c := '=') (by decide) rfl
    exact (hequals.str hms.1.1).cons (by decide) rfl

end

end Lexes

/-! ### Reading back -/

section Reading

/-- A literal without empty parts begins with no closing bracket. -/
theorem exists_tokens_cons (v : Json ν) (hv : isLiteral v = true) (hempties : empties v = 0) :
    ∃ token ts, tokens v = token :: ts ∧ ∀ bracket, token ≠ .closing bracket := by
  match v with
  | .null => simp [isLiteral] at hv
  | .bool _ | .num _ | .str _ => exact ⟨_, _, rfl, by simp⟩
  | .arr [] | .obj [] => simp [empties] at hempties
  | .arr (_ :: _) | .obj (_ :: _) => exact ⟨_, _, rfl, by simp⟩

theorem length_tokens_pos (v : Json ν) (hv : isLiteral v = true) (hempties : empties v = 0) :
    0 < (tokens v).length := by
  obtain ⟨token, ts, htokens, -⟩ := exists_tokens_cons v hv hempties
  rw [htokens]
  exact Nat.succ_pos _

/-- With this fuel every value that has no more tokens is read back. -/
def ReadsValue (ν : Type u) (fuel : ℕ) : Prop :=
  ∀ (v : Json ν) rest, isLiteral v = true → empties v = 0 → (tokens v).length ≤ fuel →
    value fuel (tokens v ++ rest) = some (v, rest)

def ReadsElements (ν : Type u) (fuel : ℕ) : Prop :=
  ∀ (el : Json ν) els rest, isLiteral el = true → isLiteralElements els = true → empties el = 0 →
    emptiesElements els = 0 → (tokens el ++ tokensElements .comma els).length ≤ fuel →
    elements fuel (tokens el ++ (tokensElements .comma els ++ rest)) = some (el :: els, rest)

def ReadsMembers (ν : Type u) (fuel : ℕ) : Prop :=
  ∀ key (v : Json ν) ms rest, isLiteral v = true → isLiteralMembers ms = true → empties v = 0 →
    emptiesMembers ms = 0 → (tokens v ++ tokensMembers .comma ms).length + 2 ≤ fuel →
    members fuel
      (.scalar (.str key) :: .equals :: (tokens v ++ (tokensMembers .comma ms ++ rest))) =
        some ((key, v) :: ms, rest)

variable {fuel : ℕ}

theorem ReadsValue.succ (helements : ReadsElements ν fuel) (hmembers : ReadsMembers ν fuel) :
    ReadsValue ν (fuel + 1) := by
  intro v rest hv hempties hfuel
  match v with
  | .null => simp [isLiteral] at hv
  | .bool _ | .num _ | .str _ => rfl
  | .arr [] | .obj [] => simp [empties] at hempties
  | .arr (el :: els) =>
    simp only [isLiteral, isLiteralElements, Bool.and_eq_true] at hv
    simp only [empties, emptiesElements, Nat.add_eq_zero_iff] at hempties
    simp only [tokens, tokensElements, List.length_cons] at hfuel
    obtain ⟨token, ts, htokens, hopen⟩ := exists_tokens_cons el hv.1 hempties.2.1
    have hread := helements el els rest hv.1 hv.2 hempties.2.1 hempties.2.2 (by omega)
    simp only [tokens, tokensElements, List.cons_append, List.append_assoc]
    rw [htokens, List.cons_append] at hread ⊢
    rw [value_list hopen, hread, Option.map_some]
  | .obj ((key, w) :: ms) =>
    simp only [isLiteral, isLiteralMembers, Bool.and_eq_true] at hv
    simp only [empties, emptiesMembers, Nat.add_eq_zero_iff] at hempties
    simp only [tokens, tokensMembers, List.length_cons] at hfuel
    have hread := hmembers key w ms rest hv.1.2 hv.2 hempties.2.1 hempties.2.2 (by omega)
    simp only [tokens, tokensMembers, List.cons_append, List.append_assoc]
    rw [value_map (by simp), hread, Option.map_some]

theorem ReadsElements.succ (hvalue : ReadsValue ν fuel) (helements : ReadsElements ν fuel) :
    ReadsElements ν (fuel + 1) := by
  intro el els rest hel hels hempties hempties' hfuel
  rw [List.length_append] at hfuel
  have hend : 0 < (tokensElements .comma els).length := by
    cases els <;> simp [tokensElements]
  rw [elements, hvalue el _ hel hempties (by omega), Option.bind_some]
  cases els with
  | nil => rfl
  | cons el' els =>
    simp only [isLiteralElements, Bool.and_eq_true] at hels
    simp only [emptiesElements, Nat.add_eq_zero_iff] at hempties'
    obtain ⟨token, ts, htokens, hopen⟩ := exists_tokens_cons el' hels.1 hempties'.1
    have hpos := length_tokens_pos el hel hempties
    simp only [tokensElements, List.length_cons] at hfuel
    have hread := helements el' els rest hels.1 hels.2 hempties'.1 hempties'.2 (by omega)
    simp only [tokensElements, List.cons_append, List.append_assoc]
    rw [htokens, List.cons_append] at hread ⊢
    simp only [follows_comma hopen, hread, Option.map_some]

theorem ReadsMembers.succ (hvalue : ReadsValue ν fuel) (hmembers : ReadsMembers ν fuel) :
    ReadsMembers ν (fuel + 1) := by
  intro key v ms rest hv hms hempties hempties' hfuel
  rw [List.length_append] at hfuel
  rw [members, hvalue v _ hv hempties (by omega), Option.bind_some]
  cases ms with
  | nil => rfl
  | cons m ms =>
    obtain ⟨key', w⟩ := m
    simp only [isLiteralMembers, Bool.and_eq_true] at hms
    simp only [emptiesMembers, Nat.add_eq_zero_iff] at hempties'
    simp only [tokensMembers, List.length_cons] at hfuel
    have hlength : (tokens w ++ tokensMembers .comma ms).length + 2 ≤ fuel := by
      omega
    have hread := hmembers key' w ms rest hms.1.2 hms.2 hempties'.1 hempties'.2 hlength
    have hopen : ∀ bracket, (.scalar (.str key') : Token ν) ≠ .closing bracket := by simp
    simp only [tokensMembers, List.cons_append, List.append_assoc]
    simp only [follows_comma hopen, hread, Option.map_some]

theorem readsParts (ν : Type u) (fuel : ℕ) :
    ReadsValue ν fuel ∧ ReadsElements ν fuel ∧ ReadsMembers ν fuel := by
  induction fuel with
  | zero =>
    refine ⟨fun v rest hv hempties hfuel ↦ ?_, fun el els rest hel _ hempties _ hfuel ↦ ?_,
      fun key v ms rest _ _ _ _ hfuel ↦ ?_⟩
    · have hpos := length_tokens_pos v hv hempties
      omega
    · rw [List.length_append] at hfuel
      have hpos := length_tokens_pos el hel hempties
      omega
    · omega
  | succ fuel ih =>
    obtain ⟨hvalue, helements, hmembers⟩ := ih
    exact ⟨.succ helements hmembers, .succ hvalue helements, .succ hvalue hmembers⟩

end Reading

/-! ### Sorted keys -/

theorem isLiteralMembers_eq_all (ms : List (String × Json ν)) :
    isLiteralMembers ms = ms.all fun m ↦ !isTemplate m.1.toList && isLiteral m.2 := by
  induction ms with
  | nil => rfl
  | cons m ms ih => rw [isLiteralMembers, List.all_cons, ih]

theorem isLiteralMembers_perm {ms ms' : List (String × Json ν)} (h : ms.Perm ms') :
    isLiteralMembers ms = isLiteralMembers ms' := by
  rw [isLiteralMembers_eq_all, isLiteralMembers_eq_all, h.all_eq]

theorem emptiesMembers_perm {ms ms' : List (String × Json ν)} (h : ms.Perm ms') :
    emptiesMembers ms = emptiesMembers ms' := by
  induction h with
  | nil => rfl
  | cons m _ ih => rw [emptiesMembers, emptiesMembers, ih]
  | swap m m' ms => simp only [emptiesMembers, Nat.add_left_comm]
  | trans _ _ ih ih' => exact ih.trans ih'

mutual

theorem isLiteral_sortKeys : ∀ v : Json ν, isLiteral (sortKeys v) = isLiteral v
  | .null | .bool _ | .num _ | .str _ => rfl
  | .arr els => isLiteralElements_sortKeysElements els
  | .obj ms =>
    (isLiteralMembers_perm (List.perm_insertionSort _ _)).trans
      (isLiteralMembers_sortKeysMembers ms)

theorem isLiteralElements_sortKeysElements :
    ∀ els : List (Json ν), isLiteralElements (sortKeysElements els) = isLiteralElements els
  | [] => rfl
  | el :: els => by
    rw [sortKeysElements, isLiteralElements, isLiteralElements, isLiteral_sortKeys el,
      isLiteralElements_sortKeysElements els]

theorem isLiteralMembers_sortKeysMembers :
    ∀ ms : List (String × Json ν), isLiteralMembers (sortKeysMembers ms) = isLiteralMembers ms
  | [] => rfl
  | (key, v) :: ms => by
    rw [sortKeysMembers, isLiteralMembers, isLiteralMembers, isLiteral_sortKeys v,
      isLiteralMembers_sortKeysMembers ms]

end

mutual

theorem empties_sortKeys : ∀ v : Json ν, empties (sortKeys v) = empties v
  | .null | .bool _ | .num _ | .str _ => rfl
  | .arr els => by
    have hempty : (sortKeysElements els).isEmpty = els.isEmpty := by cases els <;> rfl
    rw [sortKeys, empties, empties, hempty, emptiesElements_sortKeysElements els]
  | .obj ms => by
    have hempty : ((sortKeysMembers ms).insertionSort (keyLe · ·)).isEmpty = ms.isEmpty := by
      rw [Bool.eq_iff_iff, List.isEmpty_iff_length_eq_zero, List.isEmpty_iff_length_eq_zero,
        List.length_insertionSort, sortKeysMembers_eq_map, List.length_map]
    rw [sortKeys, empties, empties, hempty, emptiesMembers_perm (List.perm_insertionSort _ _),
      emptiesMembers_sortKeysMembers ms]

theorem emptiesElements_sortKeysElements :
    ∀ els : List (Json ν), emptiesElements (sortKeysElements els) = emptiesElements els
  | [] => rfl
  | el :: els => by
    rw [sortKeysElements, emptiesElements, emptiesElements, empties_sortKeys el,
      emptiesElements_sortKeysElements els]

theorem emptiesMembers_sortKeysMembers :
    ∀ ms : List (String × Json ν), emptiesMembers (sortKeysMembers ms) = emptiesMembers ms
  | [] => rfl
  | (key, v) :: ms => by
    rw [sortKeysMembers, emptiesMembers, emptiesMembers, empties_sortKeys v,
      emptiesMembers_sortKeysMembers ms]

end

/-! ### The round trip -/

mutual

theorem length_tokens_le : ∀ v : Json ν, (tokens v).length ≤ (tfText numerals v).length
  | .null | .bool true | .bool false | .str _ => by simp [tokens, tfText, render]
  | .num n => by
    obtain ⟨c, digits, hwrite, -⟩ := numerals.starts n
    simp [tokens, tfText, render, hwrite]
  | .arr [] | .obj [] => le_rfl
  | .arr (el :: els) => by
    have hel := length_tokens_le el
    have hels := length_tokensElements_le els
    simp only [tokens, tokensElements, tfText, tfElements, List.length_cons, List.length_append]
    omega
  | .obj ((key, v) :: ms) => by
    have hv := length_tokens_le v
    have hms := length_tokensMembers_le ms
    simp only [tokens, tokensMembers, tfText, tfMembers, List.length_cons, List.length_append]
    omega

theorem length_tokensElements_le : ∀ els : List (Json ν),
    (tokensElements .comma els).length ≤ (tfElements numerals ',' els).length
  | [] => le_rfl
  | el :: els => by
    have hel := length_tokens_le el
    have hels := length_tokensElements_le els
    simp only [tokensElements, tfElements, List.length_cons, List.length_append]
    omega

theorem length_tokensMembers_le : ∀ ms : List (String × Json ν),
    (tokensMembers .comma ms).length ≤ (tfMembers numerals ',' ms).length
  | [] => le_rfl
  | (key, v) :: ms => by
    have hv := length_tokens_le v
    have hms := length_tokensMembers_le ms
    simp only [tokensMembers, tfMembers, List.length_cons, List.length_append]
    omega

end

/-- The text of a value is taken apart into its tokens. -/
theorem lex_tfText {v : Json ν} (hv : isLiteral v = true) :
    lex numerals ((tfText numerals v).length + 1) (tfText numerals v) = some (tokens v) := by
  have hends : Ends [] := by simp [Ends]
  have hnil : Lexes numerals [] [] := lexes_nil
  have hlexes := lexes_tfText v hv hends hnil
  rw [List.append_nil, List.append_nil] at hlexes
  exact lex_of_le (Nat.succ_le_succ (length_tokens_le numerals v)) hlexes

/-- The text of a literal is read back, as the value with its keys in order, exactly when no array
or object in it is empty. -/
theorem roundTrips_iff_no_empties (v : Json ν) (hv : isLiteral v = true) :
    RoundTrips numerals v ↔ empties v = 0 := by
  have hsorted : isLiteral (sortKeys v) = true := (isLiteral_sortKeys v).trans hv
  have hlex := lex_tfText numerals hsorted
  rw [RoundTrips, tfStringify, Hcl.parse]
  simp only [hlex]
  constructor
  · rintro ⟨w, hparse, -⟩
    split at hparse
    · rename_i hread
      have hdepth := (depth_parts _).1 _ _ hread
      rw [depth_tokens, depth_nil, empties_sortKeys] at hdepth
      omega
    · exact absurd hparse (Option.some_ne_none w).symm
  · intro hempties
    have hread := (readsParts ν _).1 (sortKeys v) [] hsorted
      ((empties_sortKeys v).trans hempties) (Nat.le_succ _)
    rw [List.append_nil] at hread
    exact ⟨sortKeys v, by rw [hread], sortKeys_sortKeys v⟩

/-- The datacenters of a placement without nodes. -/
theorem not_roundTrips_no_nodes :
    ¬ RoundTrips Numerals.nat (.obj [("docker1", .arr [])]) := by
  rintro ⟨w, hparse, -⟩
  have hnone : (Hcl.parse Numerals.nat
      (tfStringify Numerals.nat (.obj [("docker1", .arr [])]))).isNone = true := by
    decide +kernel
  rw [hparse, Option.isNone_some] at hnone
  exact Bool.false_ne_true hnone

/-- The datacenters of a placement with two nodes, and its offset. -/
theorem roundTrips_two_nodes :
    RoundTrips Numerals.nat (.obj [("docker1", .arr [.str "default", .str "default"]),
      ("OFFSET", .num 0)]) :=
  (roundTrips_iff_no_empties Numerals.nat _ (by decide)).mpr (by decide)

end CosmicSwingset.Setup
