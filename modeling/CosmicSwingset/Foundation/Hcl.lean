import CosmicSwingset.Foundation.Json

/-!
# Literals of a configuration language

The literals of Terraform's configuration language: lists in brackets, maps in braces with `=`
between key and value, and the scalars of JSON, with a comma that may come after the last element.
A string with `$` before `{` is a template and no literal. A value is a `Json` value again.

A text is taken apart into tokens (`lex`), and the tokens are read as a value (`value`). The tokens
of a value that is read have as many closing brackets and braces as opening ones (`depth_parts`).
-/

set_option autoImplicit false
set_option relaxedAutoImplicit false

namespace CosmicSwingset.Foundation

namespace Hcl

open Json

universe u

inductive Scalar (ν : Type u)
  | bool (b : Bool)
  | num (n : ν)
  | str (s : String)

/-- Lists are in brackets, maps in braces. -/
inductive Bracket
  | list
  | map
  deriving DecidableEq

inductive Token (ν : Type u)
  | opening (bracket : Bracket)
  | closing (bracket : Bracket)
  | comma
  | equals
  | scalar (s : Scalar ν)

variable {ν : Type u}

def Scalar.value : Scalar ν → Json ν
  | .bool b => .bool b
  | .num n => .num n
  | .str s => .str s

/-- A dollar sign and an opening brace, one after the other. -/
def isTemplate : List Char → Bool
  | '$' :: '{' :: _ => true
  | _ :: rest => isTemplate rest
  | [] => false

section Lex

variable (numerals : Numerals ν)

/-- The token at the beginning of the input, which is no space. -/
def nextToken : List Char → Option (Token ν × List Char)
  | '[' :: rest => some (.opening .list, rest)
  | ']' :: rest => some (.closing .list, rest)
  | '{' :: rest => some (.opening .map, rest)
  | '}' :: rest => some (.closing .map, rest)
  | ',' :: rest => some (.comma, rest)
  | '=' :: rest => some (.equals, rest)
  | 't' :: 'r' :: 'u' :: 'e' :: rest => some (.scalar (.bool true), rest)
  | 'f' :: 'a' :: 'l' :: 's' :: 'e' :: rest => some (.scalar (.bool false), rest)
  | '"' :: rest =>
    match readString rest with
    | none => none
    | some (s, rest) => if isTemplate s.toList then none else some (.scalar (.str s), rest)
  | input => (numerals.read input).map fun p ↦ (.scalar (.num p.1), p.2)

/-- The tokens of the input. -/
def lex : ℕ → List Char → Option (List (Token ν))
  | 0, _ => none
  | fuel + 1, input =>
    match skipSpace input with
    | [] => some []
    | c :: rest =>
      match nextToken numerals (c :: rest) with
      | none => none
      | some (token, rest) => (lex fuel rest).map (token :: ·)

end Lex

/-- What comes after an element: another one, or the end, which may have a comma before it. -/
def follows (bracket : Bracket) : List (Token ν) → Option (Bool × List (Token ν))
  | .closing bracket' :: rest => if bracket' = bracket then some (false, rest) else none
  | .comma :: .closing bracket' :: rest => if bracket' = bracket then some (false, rest) else none
  | .comma :: rest => some (true, rest)
  | _ => none

mutual

/-- The value at the beginning of the tokens. -/
def value : ℕ → List (Token ν) → Option (Json ν × List (Token ν))
  | 0, _ => none
  | _ + 1, .scalar s :: rest => some (s.value, rest)
  | _ + 1, .opening .list :: .closing .list :: rest => some (.arr [], rest)
  | fuel + 1, .opening .list :: rest => (elements fuel rest).map fun p ↦ (.arr p.1, p.2)
  | _ + 1, .opening .map :: .closing .map :: rest => some (.obj [], rest)
  | fuel + 1, .opening .map :: rest => (members fuel rest).map fun p ↦ (.obj p.1, p.2)
  | _ + 1, _ => none

/-- The elements of a list up to its end. -/
def elements : ℕ → List (Token ν) → Option (List (Json ν) × List (Token ν))
  | 0, _ => none
  | fuel + 1, tokens =>
    (value fuel tokens).bind fun p ↦
      match follows .list p.2 with
      | none => none
      | some (false, rest) => some ([p.1], rest)
      | some (true, rest) => (elements fuel rest).map fun q ↦ (p.1 :: q.1, q.2)

/-- The entries of a map up to its end. -/
def members : ℕ → List (Token ν) → Option (List (String × Json ν) × List (Token ν))
  | fuel + 1, .scalar (.str key) :: .equals :: rest =>
    (value fuel rest).bind fun p ↦
      match follows .map p.2 with
      | none => none
      | some (false, rest) => some ([(key, p.1)], rest)
      | some (true, rest) => (members fuel rest).map fun q ↦ ((key, p.1) :: q.1, q.2)
  | _, _ => none

end

/-- The value of a text, if all of it is one literal. -/
def parse (numerals : Numerals ν) (text : List Char) : Option (Json ν) :=
  match lex numerals (text.length + 1) text with
  | none => none
  | some tokens =>
    match value (tokens.length + 1) tokens with
    | some (v, []) => some v
    | _ => none

/-! ### Brackets -/

def Token.depth : Token ν → ℤ
  | .opening _ => 1
  | .closing _ => -1
  | .comma | .equals | .scalar _ => 0

/-- How many more brackets are opened than closed. -/
def depth : List (Token ν) → ℤ
  | [] => 0
  | token :: tokens => token.depth + depth tokens

@[simp] theorem depth_nil : depth ([] : List (Token ν)) = 0 := rfl

@[simp] theorem depth_cons (token : Token ν) (tokens : List (Token ν)) :
    depth (token :: tokens) = token.depth + depth tokens := rfl

@[simp] theorem depth_append (tokens tokens' : List (Token ν)) :
    depth (tokens ++ tokens') = depth tokens + depth tokens' := by
  induction tokens with
  | nil => rw [List.nil_append, depth_nil, Int.zero_add]
  | cons token tokens ih => rw [List.cons_append, depth_cons, depth_cons, ih, Int.add_assoc]

theorem depth_follows {bracket : Bracket} {tokens rest : List (Token ν)} {more : Bool}
    (h : follows bracket tokens = some (more, rest)) :
    depth tokens = depth rest - if more then 0 else 1 := by
  unfold follows at h
  split at h
  · split_ifs at h
    cases h
    simp only [depth_cons, Token.depth, Bool.false_eq_true, if_false]
    omega
  · split_ifs at h
    cases h
    simp only [depth_cons, Token.depth, Bool.false_eq_true, if_false]
    omega
  · cases h
    simp only [depth_cons, Token.depth, if_true]
    omega
  · contradiction

/-- The tokens that are read are balanced; of a list or a map they lack what opens it. -/
theorem depth_parts (fuel : ℕ) :
    (∀ (tokens : List (Token ν)) p, value fuel tokens = some p → depth tokens = depth p.2) ∧
      (∀ (tokens : List (Token ν)) p, elements fuel tokens = some p →
        depth tokens = depth p.2 - 1) ∧
      ∀ (tokens : List (Token ν)) p, members fuel tokens = some p →
        depth tokens = depth p.2 - 1 := by
  induction fuel with
  | zero => simp [value, elements, members]
  | succ fuel ih =>
    obtain ⟨hvalue, helements, hmembers⟩ := ih
    refine ⟨fun tokens p h ↦ ?_, fun tokens p h ↦ ?_, fun tokens p h ↦ ?_⟩
    · rw [value.eq_def] at h
      split at h
      · contradiction
      · cases h
        simp [Token.depth]
      · cases h
        simp only [depth_cons, Token.depth]
        omega
      · rename_i hfuel
        cases hfuel
        obtain ⟨q, hread, rfl⟩ := Option.map_eq_some_iff.mp h
        have hdepth := helements _ _ hread
        simp only [depth_cons, Token.depth]
        omega
      · cases h
        simp only [depth_cons, Token.depth]
        omega
      · rename_i hfuel
        cases hfuel
        obtain ⟨q, hread, rfl⟩ := Option.map_eq_some_iff.mp h
        have hdepth := hmembers _ _ hread
        simp only [depth_cons, Token.depth]
        omega
      · contradiction
    · rw [elements] at h
      obtain ⟨q, hread, hnext⟩ := Option.bind_eq_some_iff.mp h
      rw [hvalue _ _ hread]
      split at hnext
      · contradiction
      · rename_i hfollows
        cases hnext
        simpa using depth_follows hfollows
      · rename_i hfollows
        obtain ⟨r, hmore, rfl⟩ := Option.map_eq_some_iff.mp hnext
        rw [depth_follows hfollows, helements _ _ hmore]
        simp
    · rw [members.eq_def] at h
      split at h
      · rename_i hfuel
        cases hfuel
        obtain ⟨q, hread, hnext⟩ := Option.bind_eq_some_iff.mp h
        have hdepth := hvalue _ _ hread
        simp only [depth_cons, Token.depth, Int.zero_add]
        rw [hdepth]
        split at hnext
        · contradiction
        · rename_i hfollows
          cases hnext
          simpa using depth_follows hfollows
        · rename_i hfollows
          obtain ⟨r, hmore, rfl⟩ := Option.map_eq_some_iff.mp hnext
          rw [depth_follows hfollows, hmembers _ _ hmore]
          simp
      · contradiction

/-! ### Tokens of a text -/

section Lexes

variable {numerals : Numerals ν}

theorem lex_succ {fuel : ℕ} {text : List Char} {tokens : List (Token ν)}
    (h : lex numerals fuel text = some tokens) : lex numerals (fuel + 1) text = some tokens := by
  induction fuel generalizing text tokens with
  | zero => contradiction
  | succ fuel ih =>
    rw [lex] at h ⊢
    split at h
    · exact h
    · split at h
      · contradiction
      · obtain ⟨tokens', hlex, rfl⟩ := Option.map_eq_some_iff.mp h
        rw [ih hlex, Option.map_some]

theorem lex_of_le {fuel fuel' : ℕ} (hle : fuel ≤ fuel') {text : List Char}
    {tokens : List (Token ν)} (h : lex numerals fuel text = some tokens) :
    lex numerals fuel' text = some tokens := by
  induction hle with
  | refl => exact h
  | step _ ih => exact lex_succ ih

/-- The text consists of these tokens. -/
def Lexes (numerals : Numerals ν) (text : List Char) (tokens : List (Token ν)) : Prop :=
  lex numerals (tokens.length + 1) text = some tokens

theorem lexes_nil : Lexes numerals [] ([] : List (Token ν)) := rfl

theorem Lexes.cons {c : Char} {text rest : List Char} {token : Token ν} {tokens : List (Token ν)}
    (hrest : Lexes numerals rest tokens) (hspace : isSpace c = false)
    (htoken : nextToken numerals (c :: text) = some (token, rest)) :
    Lexes numerals (c :: text) (token :: tokens) := by
  rw [Lexes, List.length_cons, lex, skipSpace_cons hspace]
  simp only [htoken]
  rw [hrest, Option.map_some]

variable {text : List Char} {tokens : List (Token ν)}

theorem Lexes.str (h : Lexes numerals text tokens) {s : String}
    (hs : isTemplate s.toList = false) :
    Lexes numerals ('"' :: (literalTail s ++ text)) (.scalar (.str s) :: tokens) := by
  refine h.cons (by decide) ?_
  have hread : readString (literalTail s ++ text) = some (s, text) :=
    Escapes.plain.readString_literalTail s text
  simp [nextToken, hread, hs]

theorem Lexes.bool (h : Lexes numerals text tokens) (b : Bool) :
    Lexes numerals (render numerals (.bool b) ++ text) (.scalar (.bool b) :: tokens) := by
  cases b <;> exact h.cons (by decide) rfl

theorem Lexes.num (h : Lexes numerals text tokens) (hends : Ends text) (n : ν) :
    Lexes numerals (numerals.write n ++ text) (.scalar (.num n) :: tokens) := by
  obtain ⟨d, digits, hwrite, hd⟩ := numerals.starts n
  have hread := numerals.read_write n text hends
  have hbegins : BeginsValue d := by rcases hd with hd | hd <;> simp [BeginsValue, hd]
  rw [hwrite, List.cons_append] at hread ⊢
  refine h.cons hbegins.isSpace ?_
  unfold nextToken
  split
  all_goals first
    | (rename_i heq; obtain ⟨rfl, -⟩ := List.cons.inj heq; exact absurd hd (by decide))
    | rw [hread, Option.map_some]

end Lexes

/-! ### Reading on -/

section Reading

variable {token : Token ν} (hopen : ∀ bracket, token ≠ .closing bracket) (rest : List (Token ν))

include hopen

theorem value_list (fuel : ℕ) :
    value (fuel + 1) (.opening .list :: token :: rest) =
      (elements fuel (token :: rest)).map fun p ↦ (.arr p.1, p.2) := by
  cases token with
  | closing bracket => exact absurd rfl (hopen bracket)
  | _ => rfl

theorem value_map (fuel : ℕ) :
    value (fuel + 1) (.opening .map :: token :: rest) =
      (members fuel (token :: rest)).map fun p ↦ (.obj p.1, p.2) := by
  cases token with
  | closing bracket => exact absurd rfl (hopen bracket)
  | _ => rfl

theorem follows_comma (bracket : Bracket) :
    follows bracket (.comma :: token :: rest) = some (true, token :: rest) := by
  cases token with
  | closing bracket => exact absurd rfl (hopen bracket)
  | _ => rfl

end Reading

end Hcl

end CosmicSwingset.Foundation
