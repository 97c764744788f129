import CosmicSwingset.Foundation.Json

/-!
# Outlines of JSON texts

A scan of a text that counts the open brackets, and knows string literals and the ends of values,
sees much of what makes a text no JSON. `Place` is what it knows at a place of the text. Whatever
the parser reads as a value leaves the scan at the depth where it was (`settles`). So a text is not
read if its scan ends within brackets or in a string, and no knowledge of the parser is needed to
see that.

A text is `WellNested` if the scan of it has left no bracket open; every JSON text is
(`wellNested_of_parse`). No beginning of such a text ends above the depth at which the text stands
(`WellNested.atLeast_of_prefix`).
-/

set_option autoImplicit false
set_option relaxedAutoImplicit false

namespace CosmicSwingset.Foundation.Json

universe u

/-- Where a scan is, with the number of open brackets. -/
inductive Place
  | outside (depth : ℕ)
  /-- After a string literal or a closing bracket. -/
  | closed (depth : ℕ)
  /-- In a string literal. -/
  | inside (depth : ℕ)
  /-- In a string literal, after a backslash. -/
  | escaped (depth : ℕ)
  /-- After what no JSON text has. -/
  | broken
  deriving DecidableEq

namespace Place

/-- After a closing bracket. -/
def close : ℕ → Place
  | 0 => .broken
  | depth + 1 => .closed depth

def next : Place → Char → Place
  | .outside depth, c =>
    if c = '"' then .inside depth
    else if c = '[' ∨ c = '{' then .outside (depth + 1)
    else if c = ']' ∨ c = '}' then close depth
    else .outside depth
  | .closed depth, c =>
    if isSpace c then .closed depth
    else if c = ',' ∨ c = ':' then .outside depth
    else if c = ']' ∨ c = '}' then close depth
    else .broken
  | .inside depth, c =>
    if c = '"' then .closed depth else if c = '\\' then .escaped depth else .inside depth
  | .escaped depth, _ => .inside depth
  | .broken, _ => .broken

def scan (place : Place) (text : List Char) : Place := text.foldl next place

@[simp] theorem scan_nil (place : Place) : place.scan [] = place := rfl

@[simp] theorem scan_cons (place : Place) (c : Char) (text : List Char) :
    place.scan (c :: text) = (place.next c).scan text := rfl

@[simp] theorem scan_append (place : Place) (text text' : List Char) :
    place.scan (text ++ text') = (place.scan text).scan text' := List.foldl_append

@[simp] theorem scan_broken (text : List Char) : broken.scan text = broken := by
  induction text with
  | nil => rfl
  | cons c text ih => exact ih

/-- Not in a string literal, at this depth. -/
def Settled (depth : ℕ) (place : Place) : Prop := place = .outside depth ∨ place = .closed depth

theorem settled_outside (depth : ℕ) : (outside depth).Settled depth := Or.inl rfl

theorem settled_closed (depth : ℕ) : (closed depth).Settled depth := Or.inr rfl

theorem Settled.next_space {depth : ℕ} {place : Place} (h : place.Settled depth) {c : Char}
    (hc : isSpace c = true) : place.next c = place := by
  rcases h with rfl | rfl
  · simp only [isSpace, Bool.or_eq_true, decide_eq_true_eq] at hc
    rcases hc with ((rfl | rfl) | rfl) | rfl <;> rfl
  · simp [next, hc]

theorem Settled.next_close {depth : ℕ} {place : Place} (h : place.Settled depth) {c : Char}
    (hc : c = ']' ∨ c = '}') : place.next c = close depth := by
  rcases h with rfl | rfl <;> rcases hc with rfl | rfl <;> rfl

theorem Settled.next_separator {depth : ℕ} {place : Place} (h : place.Settled depth) {c : Char}
    (hc : c = ',' ∨ c = ':') : place.next c = .outside depth := by
  rcases h with rfl | rfl <;> rcases hc with rfl | rfl <;> rfl

theorem Settled.scan_skipSpace {depth : ℕ} {place : Place} (h : place.Settled depth)
    (input : List Char) : place.scan (skipSpace input) = place.scan input := by
  induction input with
  | nil => rfl
  | cons c input ih =>
    cases hc : isSpace c with
    | true => rw [skipSpace, List.dropWhile_cons_of_pos hc, scan_cons, h.next_space hc, ← ih]; rfl
    | false => rw [skipSpace_cons hc]

end Place

open Place

/-! ### What the parser reads -/

/-- What is left of the input after a part that has no quotes and no brackets. -/
def Consumes (input rest : List Char) : Prop :=
  ∃ digits, input = digits ++ rest ∧ ∀ c ∈ digits, c ∉ ['"', '[', '{', ']', '}']

/-- A numeral has no quotes and no brackets. -/
def PlainNumerals {ν : Type u} (numerals : Numerals ν) : Prop :=
  ∀ input n rest, numerals.read input = some (n, rest) → Consumes input rest

theorem scan_plain (depth : ℕ) {digits : List Char}
    (hdigits : ∀ c ∈ digits, c ∉ ['"', '[', '{', ']', '}']) :
    (outside depth).scan digits = .outside depth := by
  induction digits with
  | nil => rfl
  | cons c digits ih =>
    rw [List.forall_mem_cons] at hdigits
    obtain ⟨hc, hdigits⟩ := hdigits
    simp only [List.mem_cons, List.not_mem_nil, or_false, not_or] at hc
    have hnext : (outside depth).next c = .outside depth := by simp [next, hc]
    rw [scan_cons, hnext, ih hdigits]

theorem hexValue_ne {c : Char} (h : (hexValue c).isSome) : c ≠ '"' ∧ c ≠ '\\' := by
  refine ⟨?_, ?_⟩
  · rintro rfl
    exact absurd h (by decide)
  · rintro rfl
    exact absurd h (by decide)

theorem next_inside_of_hexValue (depth : ℕ) {c : Char} {n : ℕ} (h : hexValue c = some n) :
    (inside depth).next c = .inside depth := by
  obtain ⟨hquote, hbackslash⟩ := hexValue_ne (Option.isSome_of_eq_some h)
  simp [next, hquote, hbackslash]

theorem scan_hexValue₄ (depth : ℕ) {a b c d : Char} {unit : ℕ}
    (h : hexValue₄ a b c d = some unit) (rest : List Char) :
    (inside depth).scan (a :: b :: c :: d :: rest) = (inside depth).scan rest := by
  simp only [hexValue₄, Option.bind_eq_bind, Option.bind_eq_some_iff] at h
  obtain ⟨_, ha, _, hb, _, hc, _, hd, -⟩ := h
  simp only [scan_cons, next_inside_of_hexValue depth ha, next_inside_of_hexValue depth hb,
    next_inside_of_hexValue depth hc, next_inside_of_hexValue depth hd]

/-- A string literal ends with its quote. -/
theorem scan_of_readUnits (depth : ℕ) {input rest : List Char} {units : List ℕ}
    (h : readUnits input = some (units, rest)) :
    (inside depth).scan input = (closed depth).scan rest := by
  induction input using readUnits.induct generalizing units rest with
  | case1 rest' =>
    simp only [readUnits, Option.some.injEq, Prod.mk.injEq] at h
    rw [← h.2]
    rfl
  | case2 a b c d rest' hvalue => simp [readUnits, hvalue] at h
  | case3 a b c d rest' unit hvalue ih =>
    simp only [readUnits, hvalue, Option.map_eq_some_iff] at h
    obtain ⟨p, hp, heq⟩ := h
    cases heq
    exact (scan_hexValue₄ depth hvalue rest').trans (ih hp)
  | case4 c rest' hshort hvalue =>
    rw [readUnits.eq_3 _ _ hshort, hvalue] at h
    exact absurd h (Option.some_ne_none _).symm
  | case5 c rest' hshort c' hvalue ih =>
    simp only [readUnits.eq_3 _ _ hshort, hvalue, Option.map_eq_some_iff] at h
    obtain ⟨p, hp, heq⟩ := h
    cases heq
    exact ih hp
  | case6 c rest' hquote hunicode hescape hcontrol =>
    rw [readUnits.eq_4 _ _ hquote hunicode hescape, if_pos hcontrol] at h
    exact absurd h (Option.some_ne_none _).symm
  | case7 c rest' hquote hunicode hescape hcontrol ih =>
    rw [readUnits.eq_4 _ _ hquote hunicode hescape, if_neg hcontrol, Option.map_eq_some_iff] at h
    obtain ⟨p, hp, heq⟩ := h
    cases heq
    have hbackslash : c ≠ '\\' := by
      rintro rfl
      cases rest' with
      | nil => exact absurd hp (Option.some_ne_none _).symm
      | cons d rest' => exact hescape d rest' rfl rfl
    have hnext : (inside depth).next c = .inside depth := by
      rw [next, if_neg hquote, if_neg hbackslash]
    rw [scan_cons, hnext]
    exact ih hp
  | case8 => exact absurd h (Option.some_ne_none _).symm

theorem scan_of_readString (depth : ℕ) {input rest : List Char} {s : String}
    (h : readString input = some (s, rest)) :
    (inside depth).scan input = (closed depth).scan rest := by
  obtain ⟨p, hp, heq⟩ := Option.map_eq_some_iff.mp h
  cases heq
  exact scan_of_readUnits depth hp

section Reads

variable {ν : Type u} (numerals : Numerals ν)

/-- With this fuel, what is read as a value leaves the scan at its depth. -/
def SettlesValues (fuel : ℕ) : Prop :=
  ∀ {input v rest}, parseValue numerals fuel input = some (v, rest) → ∀ depth,
    ∃ place : Place, place.Settled depth ∧ (outside depth).scan input = place.scan rest

def ClosesElements (fuel : ℕ) : Prop :=
  ∀ {input vs rest}, parseElements numerals fuel input = some (vs, rest) → ∀ depth,
    (outside (depth + 1)).scan input = (closed depth).scan rest

def ClosesMembers (fuel : ℕ) : Prop :=
  ∀ {input ms rest}, parseMembers numerals fuel input = some (ms, rest) → ∀ depth,
    (outside (depth + 1)).scan input = (closed depth).scan rest

variable {numerals} {fuel : ℕ}

theorem ClosesElements.succ (hvalues : SettlesValues numerals fuel)
    (helements : ClosesElements numerals fuel) : ClosesElements numerals (fuel + 1) := by
  intro input vs rest h depth
  rw [parseElements] at h
  split at h
  · exact absurd h (Option.some_ne_none _).symm
  · rename_i v rest' hvalue
    obtain ⟨place, hplace, hscan⟩ := hvalues hvalue (depth + 1)
    rw [hscan, ← hplace.scan_skipSpace]
    split at h
    · rename_i heq
      rw [heq, scan_cons, hplace.next_close (Or.inl rfl)]
      cases h
      rfl
    · rename_i heq
      rw [heq, scan_cons, hplace.next_separator (Or.inl rfl)]
      obtain ⟨p, hp, hpair⟩ := Option.map_eq_some_iff.mp h
      cases hpair
      exact helements hp depth
    · exact absurd h (Option.some_ne_none _).symm

theorem ClosesMembers.succ (hvalues : SettlesValues numerals fuel)
    (hmembers : ClosesMembers numerals fuel) : ClosesMembers numerals (fuel + 1) := by
  intro input ms rest h depth
  rw [parseMembers] at h
  rw [← (settled_outside (depth + 1)).scan_skipSpace]
  split at h
  · rename_i rest' heq
    rw [heq]
    split at h
    · exact absurd h (Option.some_ne_none _).symm
    · rename_i key rest' hkey
      have hclosed := settled_closed (depth + 1)
      have hscan := scan_of_readString (depth + 1) hkey
      rw [← hclosed.scan_skipSpace] at hscan
      split at h
      · rename_i heq
        rw [heq, scan_cons, hclosed.next_separator (Or.inr rfl)] at hscan
        split at h
        · exact absurd h (Option.some_ne_none _).symm
        · rename_i v rest' hvalue
          obtain ⟨place, hplace, hscan'⟩ := hvalues hvalue (depth + 1)
          refine hscan.trans ?_
          rw [hscan', ← hplace.scan_skipSpace]
          split at h
          · rename_i heq
            rw [heq, scan_cons, hplace.next_close (Or.inr rfl)]
            cases h
            rfl
          · rename_i heq
            rw [heq, scan_cons, hplace.next_separator (Or.inl rfl)]
            obtain ⟨p, hp, hpair⟩ := Option.map_eq_some_iff.mp h
            cases hpair
            exact hmembers hp depth
          · exact absurd h (Option.some_ne_none _).symm
      · exact absurd h (Option.some_ne_none _).symm
  · exact absurd h (Option.some_ne_none _).symm

theorem SettlesValues.succ (hplain : PlainNumerals numerals)
    (helements : ClosesElements numerals fuel) (hmembers : ClosesMembers numerals fuel) :
    SettlesValues numerals (fuel + 1) := by
  intro input v rest h depth
  rw [parseValue.eq_def] at h
  rw [← (settled_outside depth).scan_skipSpace]
  dsimp only at h
  split at h
  · rename_i heq
    cases h
    exact ⟨_, settled_outside depth, by rw [heq]; rfl⟩
  · rename_i heq
    cases h
    exact ⟨_, settled_outside depth, by rw [heq]; rfl⟩
  · rename_i heq
    cases h
    exact ⟨_, settled_outside depth, by rw [heq]; rfl⟩
  · rename_i heq
    obtain ⟨p, hp, hpair⟩ := Option.map_eq_some_iff.mp h
    cases hpair
    exact ⟨_, settled_closed depth, by rw [heq]; exact scan_of_readString depth hp⟩
  · rename_i rest' heq
    refine ⟨_, settled_closed depth, ?_⟩
    rw [heq, scan_cons]
    change (outside (depth + 1)).scan rest' = _
    rw [← (settled_outside (depth + 1)).scan_skipSpace]
    split at h
    · rename_i heq
      cases h
      rw [heq]
      rfl
    · obtain ⟨p, hp, hpair⟩ := Option.map_eq_some_iff.mp h
      cases hpair
      exact helements hp depth
  · rename_i rest' heq
    refine ⟨_, settled_closed depth, ?_⟩
    rw [heq, scan_cons]
    change (outside (depth + 1)).scan rest' = _
    rw [← (settled_outside (depth + 1)).scan_skipSpace]
    split at h
    · rename_i heq
      cases h
      rw [heq]
      rfl
    · obtain ⟨p, hp, hpair⟩ := Option.map_eq_some_iff.mp h
      cases hpair
      exact hmembers hp depth
  · obtain ⟨p, hp, hpair⟩ := Option.map_eq_some_iff.mp h
    cases hpair
    obtain ⟨digits, hinput, hdigits⟩ := hplain _ _ _ hp
    refine ⟨_, settled_outside depth, ?_⟩
    rw [hinput, scan_append, scan_plain depth hdigits]

theorem settles (hplain : PlainNumerals numerals) (fuel : ℕ) :
    SettlesValues numerals fuel ∧ ClosesElements numerals fuel ∧ ClosesMembers numerals fuel := by
  induction fuel with
  | zero =>
    refine ⟨fun h ↦ ?_, fun h ↦ ?_, fun h ↦ ?_⟩
    all_goals exact absurd h (Option.some_ne_none _).symm
  | succ fuel ih =>
    obtain ⟨hvalues, helements, hmembers⟩ := ih
    exact ⟨SettlesValues.succ hplain helements hmembers, ClosesElements.succ hvalues helements,
      ClosesMembers.succ hvalues hmembers⟩

end Reads

/-! ### WellNested texts -/

namespace Place

/-- The place in a text that stands at a depth. -/
def raise (depth : ℕ) : Place → Place
  | .outside d => .outside (d + depth)
  | .closed d => .closed (d + depth)
  | .inside d => .inside (d + depth)
  | .escaped d => .escaped (d + depth)
  | .broken => .broken

/-- At this depth or deeper; or where no JSON text gets. -/
def AtLeast (depth : ℕ) : Place → Prop
  | .outside d | .closed d | .inside d | .escaped d => depth ≤ d
  | .broken => True

theorem Settled.raise {place : Place} (h : place.Settled 0) (depth : ℕ) :
    (place.raise depth).Settled depth := by
  rcases h with rfl | rfl
  · exact Or.inl (congrArg Place.outside (Nat.zero_add depth))
  · exact Or.inr (congrArg Place.closed (Nat.zero_add depth))

theorem Settled.atLeast {place : Place} {depth : ℕ} (h : place.Settled depth) :
    place.AtLeast depth := by
  rcases h with rfl | rfl <;> exact le_rfl

theorem AtLeast.mono {place : Place} {depth depth' : ℕ} (h : place.AtLeast depth)
    (hle : depth' ≤ depth) : place.AtLeast depth' := by
  cases place with
  | broken => trivial
  | outside d => exact hle.trans h
  | closed d => exact hle.trans h
  | inside d => exact hle.trans h
  | escaped d => exact hle.trans h

theorem atLeast_raise (place : Place) (depth : ℕ) : (place.raise depth).AtLeast depth := by
  cases place with
  | broken => trivial
  | outside d => exact Nat.le_add_left _ _
  | closed d => exact Nat.le_add_left _ _
  | inside d => exact Nat.le_add_left _ _
  | escaped d => exact Nat.le_add_left _ _

theorem close_raise {d : ℕ} (h : close d ≠ .broken) (depth : ℕ) :
    close (d + depth) = (close d).raise depth := by
  cases d with
  | zero => exact absurd rfl h
  | succ d => rw [Nat.succ_add]; rfl

theorem next_raise {place : Place} {c : Char} (h : place.next c ≠ .broken) (depth : ℕ) :
    (place.raise depth).next c = (place.next c).raise depth := by
  cases place with
  | broken => rfl
  | escaped d => rfl
  | inside d =>
    simp only [next, raise]
    split_ifs <;> rfl
  | outside d =>
    simp only [next, raise] at h ⊢
    split_ifs at h ⊢
    · rfl
    · exact congrArg Place.outside (Nat.add_right_comm d depth 1)
    · exact close_raise h depth
    · rfl
  | closed d =>
    simp only [next, raise] at h ⊢
    split_ifs at h ⊢
    · rfl
    · rfl
    · exact close_raise h depth
    · exact absurd rfl h

/-- Where a scan breaks off nowhere, it goes the same way at every depth. -/
theorem scan_raise {place : Place} {text : List Char} (h : place.scan text ≠ .broken)
    (depth : ℕ) : (place.raise depth).scan text = (place.scan text).raise depth := by
  induction text generalizing place with
  | nil => rfl
  | cons c text ih =>
    have hnext : place.next c ≠ .broken := by
      intro hbroken
      rw [scan_cons, hbroken, scan_broken] at h
      exact h rfl
    rw [scan_cons, next_raise hnext, ih h, scan_cons]

end Place

/-- A text with no bracket left open, and none closed that was not opened. -/
def WellNested (text : List Char) : Prop := ((outside 0).scan text).Settled 0

namespace WellNested

variable {text text' : List Char}

theorem ne_broken (h : WellNested text) : (outside 0).scan text ≠ .broken := by
  intro hbroken
  rw [WellNested, hbroken] at h
  rcases h with h | h <;> cases h

theorem scan (h : WellNested text) (depth : ℕ) : ((outside depth).scan text).Settled depth := by
  have hraise := scan_raise h.ne_broken depth
  rw [Place.raise, Nat.zero_add] at hraise
  rw [hraise]
  exact h.raise depth

/-- No beginning of a well-nested text ends above the depth at which the text stands. -/
theorem atLeast_of_prefix (h : WellNested text) (hbegin : text' <+: text) (depth : ℕ) :
    ((outside depth).scan text').AtLeast depth := by
  obtain ⟨rest, rfl⟩ := hbegin
  have hunbroken : (outside 0).scan text' ≠ .broken := by
    intro hbroken
    refine h.ne_broken ?_
    rw [scan_append, hbroken, scan_broken]
  have hraise := scan_raise hunbroken depth
  rw [Place.raise, Nat.zero_add] at hraise
  rw [hraise]
  exact atLeast_raise _ depth

theorem join (h : WellNested text) (h' : WellNested text') {c : Char} (hc : c = ',' ∨ c = ':') :
    WellNested (text ++ c :: text') := by
  rw [WellNested, scan_append, scan_cons, Settled.next_separator h hc]
  exact h'

theorem space (h : WellNested text) {c : Char} (hc : isSpace c = true) :
    WellNested (c :: text) := by
  rw [WellNested, scan_cons, (settled_outside 0).next_space hc]
  exact h

/-- With what is in the braces, an object is well nested. -/
theorem braces (h : WellNested text) (depth : ℕ) :
    (outside depth).scan ('{' :: (text ++ ['}'])) = .closed depth := by
  rw [scan_cons, scan_append]
  exact (h.scan (depth + 1)).next_close (Or.inr rfl)

end WellNested

theorem wellNested_literal (escapes : Escapes) (s : String) :
    WellNested ('"' :: escapes.literalTail s) := by
  have hread := escapes.readString_literalTail s []
  rw [List.append_nil] at hread
  exact Or.inr (scan_of_readString 0 hread)

/-- Every JSON text is well nested. -/
theorem wellNested_of_parse {ν : Type u} {numerals : Numerals ν} (hplain : PlainNumerals numerals)
    {text : List Char} {v : Json ν} (h : parse numerals text = some v) : WellNested text := by
  rw [parse] at h
  split at h
  · rename_i rest hvalue
    obtain ⟨place, hplace, hscan⟩ := (settles hplain _).1 hvalue 0
    split_ifs at h with hrest
    rw [WellNested, hscan, ← hplace.scan_skipSpace, hrest]
    exact hplace
  · exact absurd h (Option.some_ne_none _).symm

end CosmicSwingset.Foundation.Json
