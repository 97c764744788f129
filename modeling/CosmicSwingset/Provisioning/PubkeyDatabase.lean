import CosmicSwingset.Foundation.Decimal
import CosmicSwingset.Foundation.PythonJson
import CosmicSwingset.Provisioning.DoEnablePubkeys
import CosmicSwingset.Provisioning.EnablePubkey

/-!
# The database of public keys

When a client has its reply, the provisioning server appends the client's public key to the file
`pubkeys.jsona`: a JSON object, a comma and the end of the line (`complete`). `add-pubkeys` puts
what it finds there in brackets, reads that as an array and enables the keys (`addPubkeys`).

A server that is killed may leave an object cut off, and one that is started after it appends to
what it finds. The database is read just if every object that was begun is there in full, with its
comma where another one follows it (`Legible`); otherwise `json.loads` raises an exception and no
key at all is enabled, of all that were ever saved (`addPubkeys_database`).
-/

set_option autoImplicit false
set_option relaxedAutoImplicit false

namespace CosmicSwingset.Provisioning

open Foundation Json Place

universe u

variable {ν : Type u}

/-- A record of the database. -/
structure Pkobj where
  chainName : String
  pubkey : String
  nickname : String
  deriving DecidableEq

def Pkobj.json (o : Pkobj) : Json ν :=
  .obj [("chainName", .str o.chainName), ("pubkey", .str o.pubkey), ("nickname", .str o.nickname)]

/-- The record that `complete` makes of a reply; otherwise it raises an exception. -/
def pkobj (reply : Reply ν) : Option Pkobj :=
  match property "pubkey" reply.mobj, property "nickname" reply.mobj with
  | some (.str pubkey), some (.str nickname) =>
    some ⟨reply.config.chainName, pubkey, String.ofList (nickname.toList.take 32)⟩
  | _, _ => none

/-- A record, and how many characters of its line get to the file: less than all of them if the
server is killed. -/
structure Save where
  pkobj : Pkobj
  written : ℕ

section Database

variable (numerals : Numerals ν)

def Save.line (s : Save) : List Char := dumps numerals s.pkobj.json ++ [',', '\n']

def Save.text (s : Save) : List Char := (s.line numerals).take s.written

/-- `db.write`, on a file that is made if there is none. -/
def complete (file : Option (List Char)) (s : Save) : Option (List Char) :=
  some (file.getD [] ++ s.text numerals)

def database (saves : List Save) : Option (List Char) := saves.foldl (complete numerals) none

/-- `text.strip(chars)`. -/
def strip (chars text : List Char) : List Char :=
  ((text.dropWhile (· ∈ chars)).reverse.dropWhile (· ∈ chars)).reverse

inductive AddPubkeys (ν : Type u)
  /-- There is no database. -/
  | returns
  /-- `json.loads` raises an exception. -/
  | raises
  /-- `doEnablePubkeys` is called. -/
  | enables (pkobjs : List (Json ν))

def stripped : List Char := [',', ' ', '\r', '\n']

/-- What `add-pubkeys` makes of the database. -/
def addPubkeys : Option (List Char) → AddPubkeys ν
  | none => .returns
  | some pkobjs_str =>
    match parse numerals ('[' :: (strip stripped pkobjs_str ++ [']'])) with
    | some (.arr pkobjs) => .enables pkobjs
    | _ => .raises

/-! ### What can be read -/

/-- Nothing of the record is in the database. -/
def Save.Absent (s : Save) : Prop := s.written = 0

/-- All of the record is in the database. -/
def Save.Whole (s : Save) : Prop := (dumps numerals (s.pkobj.json : Json ν)).length ≤ s.written

/-- The record is there with its comma. -/
def Save.Ended (s : Save) : Prop := (dumps numerals (s.pkobj.json : Json ν)).length < s.written

instance (s : Save) : Decidable s.Absent := inferInstanceAs (Decidable (_ = _))

instance (s : Save) : Decidable (s.Whole numerals) := inferInstanceAs (Decidable (_ ≤ _))

instance (s : Save) : Decidable (s.Ended numerals) := inferInstanceAs (Decidable (_ < _))

/-- No record is cut off, and between two records there is a comma. -/
def Legible (saves : List Save) : Prop :=
  (∀ s ∈ saves, s.Absent ∨ s.Whole numerals) ∧
    saves.Pairwise fun s t ↦ s.Absent ∨ s.Ended numerals ∨ t.Absent

instance (saves : List Save) : Decidable (Legible numerals saves) :=
  inferInstanceAs (Decidable (_ ∧ _))

/-- The records of which something is in the database. -/
def saved (saves : List Save) : List Pkobj :=
  (saves.filter fun s ↦ ¬ s.Absent).map Save.pkobj

end Database

section Legible

variable {numerals : Numerals ν} {s : Save} {saves : List Save}

theorem Save.whole_of_ended (h : s.Ended numerals) : s.Whole numerals := Nat.le_of_lt h

theorem dumps_begins (numerals : Numerals ν) (o : Pkobj) :
    ∃ rest, dumps numerals (o.json : Json ν) = '{' :: '"' :: 'c' :: rest := ⟨_, rfl⟩

theorem Save.not_absent_of_whole (h : s.Whole numerals) : ¬ s.Absent := by
  obtain ⟨rest, hrest⟩ := dumps_begins numerals s.pkobj
  intro habsent
  rw [Save.Whole, hrest, habsent] at h
  exact absurd h (Nat.not_succ_le_zero _)

theorem legible_cons : Legible numerals (s :: saves) ↔
    (s.Absent ∨ s.Ended numerals) ∧ Legible numerals saves ∨
      s.Whole numerals ∧ ∀ t ∈ saves, t.Absent := by
  simp only [Legible, List.forall_mem_cons, List.pairwise_cons]
  constructor
  · rintro ⟨⟨hs, hsaves⟩, hnext, hpairwise⟩
    by_cases hdone : s.Absent ∨ s.Ended numerals
    · exact Or.inl ⟨hdone, hsaves, hpairwise⟩
    · rw [not_or] at hdone
      exact Or.inr ⟨hs.resolve_left hdone.1,
        fun t ht ↦ ((hnext t ht).resolve_left hdone.1).resolve_left hdone.2⟩
  · rintro (⟨hdone, hsaves, hpairwise⟩ | ⟨hwhole, habsent⟩)
    · exact ⟨⟨hdone.imp_right Save.whole_of_ended, hsaves⟩,
        fun t _ ↦ hdone.imp_right Or.inl, hpairwise⟩
    · exact ⟨⟨Or.inr hwhole, fun t ht ↦ Or.inl (habsent t ht)⟩,
        fun t ht ↦ Or.inr (Or.inr (habsent t ht)),
        List.pairwise_of_forall_mem_list fun t ht _ _ ↦ Or.inl (habsent t ht)⟩

theorem foldl_complete (file : Option (List Char)) (hsaves : saves ≠ []) :
    saves.foldl (complete numerals) file =
      some (file.getD [] ++ saves.flatMap (Save.text numerals)) := by
  induction saves generalizing file with
  | nil => exact absurd rfl hsaves
  | cons s saves ih =>
    cases saves with
    | nil => simp [complete]
    | cons t saves =>
      rw [List.foldl_cons, ih _ (List.cons_ne_nil _ _)]
      simp [complete]

/-! ### Where the texts of the records leave a scan -/

theorem Save.text_of_absent (h : s.Absent) : s.text numerals = [] := by
  rw [Save.text, h, List.take_zero]

/-- All of the record, and what there is of the end of its line. -/
theorem Save.text_of_whole (h : s.Whole numerals) : s.text numerals =
    dumps numerals s.pkobj.json ++
      [',', '\n'].take (s.written - (dumps numerals (s.pkobj.json : Json ν)).length) := by
  rw [Save.text, Save.line, List.take_append, List.take_of_length_le h]

theorem Save.text_of_ended (h : s.Ended numerals) : ∃ n,
    s.text numerals = dumps numerals s.pkobj.json ++ ',' :: ['\n'].take n := by
  obtain ⟨n, hn⟩ := Nat.exists_eq_add_one_of_ne_zero (Nat.sub_ne_zero_of_lt h)
  exact ⟨n, by rw [Save.text_of_whole (Save.whole_of_ended h), hn, List.take_succ_cons]⟩

theorem blank_take (n : ℕ) : Blank (['\n'].take n) := by
  intro c hc
  rw [List.mem_singleton.mp (List.mem_of_mem_take hc)]
  rfl

theorem Save.text_eq_take (numerals : Numerals ν) (s : Save) :
    ∃ rest, s.text numerals = ('{' :: '"' :: 'c' :: rest).take s.written := by
  obtain ⟨rest, hrest⟩ := dumps_begins numerals s.pkobj
  exact ⟨rest ++ [',', '\n'], by rw [Save.text, Save.line, hrest]; rfl⟩

/-- The end of a line, as far as it is there. -/
theorem settled_take {place : Place} {depth : ℕ} (h : place.Settled depth) (n : ℕ) :
    (place.scan ([',', '\n'].take n)).Settled depth := by
  rcases n with _ | _ | n
  · exact h
  · exact Or.inl (h.next_separator (Or.inl rfl))
  · refine Or.inl ?_
    rw [List.take_of_length_le (Nat.le_add_left 2 n), scan_cons, h.next_separator (Or.inl rfl)]
    rfl

section Scan

variable (hplain : PlainNumerals numerals)

include hplain

theorem exists_body (o : Pkobj) :
    ∃ body, WellNested body ∧ dumps numerals o.json = '{' :: (body ++ ['}']) :=
  exists_wellNested_body hplain ("chainName", .str o.chainName)
    [("pubkey", .str o.pubkey), ("nickname", .str o.nickname)]

theorem scan_dumps (o : Pkobj) (depth : ℕ) :
    (outside depth).scan (dumps numerals o.json) = .closed depth := by
  obtain ⟨body, hbody, htext⟩ := exists_body hplain o
  rw [htext, hbody.braces]

theorem Save.scan_of_ended (h : s.Ended numerals) (depth : ℕ) :
    (outside depth).scan (s.text numerals) = .outside depth := by
  obtain ⟨n, htext⟩ := Save.text_of_ended h
  rw [htext, scan_append, scan_dumps hplain, scan_cons,
    (settled_closed depth).next_separator (Or.inl rfl), (blank_take n).scan (settled_outside depth)]

theorem Save.settled_of_whole (h : s.Whole numerals) (depth : ℕ) :
    ((outside depth).scan (s.text numerals)).Settled depth := by
  rw [Save.text_of_whole h, scan_append, scan_dumps hplain]
  exact settled_take (settled_closed depth) _

/-- A record that is cut off leaves the scan in its braces. -/
theorem Save.atLeast_of_torn (habsent : ¬ s.Absent) (hwhole : ¬ s.Whole numerals) (depth : ℕ) :
    ((outside depth).scan (s.text numerals)).AtLeast (depth + 1) := by
  obtain ⟨body, hbody, htext⟩ := exists_body hplain s.pkobj
  obtain ⟨n, hn⟩ := Nat.exists_eq_add_one_of_ne_zero habsent
  rw [Save.Whole, htext, hn] at hwhole
  have hle : n ≤ body.length := by
    simp only [List.length_cons, List.length_append, List.length_nil] at hwhole
    omega
  have htake : s.text numerals = '{' :: body.take n := by
    rw [Save.text, Save.line, htext, hn]
    simp [List.take_append_of_le_length hle]
  rw [htake, scan_cons]
  exact hbody.atLeast_of_prefix (List.take_prefix n body) (depth + 1)

/-- Once a scan is in the braces of a record, nothing that is appended takes it out of them. -/
theorem atLeast_text {place : Place} (h : place.AtLeast 2) (s : Save) :
    (place.scan (s.text numerals)).AtLeast 2 := by
  obtain ⟨rest, htake⟩ := s.text_eq_take numerals
  cases place with
  | outside depth =>
    by_cases habsent : s.Absent
    · rw [Save.text_of_absent habsent]
      exact h
    by_cases hwhole : s.Whole numerals
    · exact (Save.settled_of_whole hplain hwhole depth).atLeast.mono h
    · exact (Save.atLeast_of_torn hplain habsent hwhole depth).mono (Nat.le_succ_of_le h)
  | closed depth =>
    -- no value can follow another one without a comma
    rw [htake]
    rcases s.written with _ | n
    · exact h
    · rw [List.take_succ_cons, scan_cons]
      change (broken.scan _).AtLeast 2
      rw [scan_broken]
      trivial
  | inside depth | escaped depth =>
    -- the quote of the first key ends the string, and the key itself cannot follow it
    rw [htake]
    rcases s.written with _ | _ | _ | n
    · exact h
    · exact h
    · exact h
    · rw [List.take_succ_cons, List.take_succ_cons, List.take_succ_cons]
      change (broken.scan _).AtLeast 2
      rw [scan_broken]
      trivial
  | broken =>
    rw [scan_broken]
    trivial

theorem atLeast_texts {place : Place} (h : place.AtLeast 2) (saves : List Save) :
    (place.scan (saves.flatMap (Save.text numerals))).AtLeast 2 := by
  induction saves generalizing place with
  | nil => exact h
  | cons s saves ih =>
    rw [List.flatMap_cons, scan_append]
    exact ih (atLeast_text hplain h s)

omit hplain in
/-- A record after one that has no comma. -/
theorem broken_of_closed {depth : ℕ} (h : ∃ t ∈ saves, ¬ t.Absent) :
    (closed depth).scan (saves.flatMap (Save.text numerals)) = .broken := by
  induction saves with
  | nil => simp at h
  | cons s saves ih =>
    rw [List.flatMap_cons, scan_append]
    by_cases habsent : s.Absent
    · rw [Save.text_of_absent habsent]
      exact ih (by simpa [habsent] using h)
    · obtain ⟨rest, htake⟩ := s.text_eq_take numerals
      obtain ⟨n, hn⟩ := Nat.exists_eq_add_one_of_ne_zero habsent
      rw [htake, hn, List.take_succ_cons, scan_cons]
      change (broken.scan _).scan _ = _
      rw [scan_broken, scan_broken]

/-- In brackets, a database that is not legible leaves a scan in the braces of a record. -/
theorem atLeast_of_not_legible (h : ¬ Legible numerals saves) :
    ((outside 1).scan (saves.flatMap (Save.text numerals))).AtLeast 2 := by
  induction saves with
  | nil => exact absurd ⟨List.forall_mem_nil _, List.Pairwise.nil⟩ h
  | cons s saves ih =>
    rw [legible_cons, not_or, not_and, not_and] at h
    rw [List.flatMap_cons, scan_append]
    by_cases habsent : s.Absent
    · rw [Save.text_of_absent habsent]
      exact ih (h.1 (Or.inl habsent))
    by_cases hended : s.Ended numerals
    · rw [Save.scan_of_ended hplain hended]
      exact ih (h.1 (Or.inr hended))
    by_cases hwhole : s.Whole numerals
    · have hlength : s.written - (dumps numerals (s.pkobj.json : Json ν)).length = 0 :=
        Nat.sub_eq_zero_of_le (not_lt.mp hended)
      have hnext := h.2 hwhole
      push Not at hnext
      rw [Save.text_of_whole hwhole, hlength, List.take_zero, List.append_nil,
        scan_dumps hplain, broken_of_closed hnext]
      trivial
    · exact atLeast_texts hplain (Save.atLeast_of_torn hplain habsent hwhole 1) saves

end Scan

/-! ### What is stripped -/

theorem strip_parts (chars text : List Char) :
    ∃ lead trail, text = lead ++ (strip chars text ++ trail) ∧ (∀ c ∈ lead, c ∈ chars) ∧
      ∀ c ∈ trail, c ∈ chars := by
  have hlead := List.takeWhile_append_dropWhile (p := (· ∈ chars)) (l := text)
  have htrail := congrArg List.reverse (List.takeWhile_append_dropWhile (p := (· ∈ chars))
    (l := (text.dropWhile (· ∈ chars)).reverse))
  rw [List.reverse_append, List.reverse_reverse] at htrail
  refine ⟨_, _, (hlead.symm.trans (congrArg _ htrail.symm)), fun c hc ↦ ?_, fun c hc ↦ ?_⟩
  · simpa using List.mem_takeWhile_imp hc
  · simpa using List.mem_takeWhile_imp (List.mem_reverse.mp hc)

/-- A text that begins and ends with something else than what is stripped. -/
theorem strip_append {chars text trail : List Char} {c d : Char} (hc : c ∉ chars) (hd : d ∉ chars)
    (htrail : ∀ e ∈ trail, e ∈ chars) :
    strip chars (c :: (text ++ [d]) ++ trail) = c :: (text ++ [d]) := by
  have hlead : (c :: (text ++ [d]) ++ trail).dropWhile (· ∈ chars) =
      c :: (text ++ [d]) ++ trail := by
    rw [List.cons_append, List.dropWhile_cons_of_neg (by simpa using hc)]
  rw [strip, hlead, List.reverse_append, List.dropWhile_append_of_pos (by simpa using htrail)]
  simp [hd]

theorem stripped_cases {c : Char} (h : c ∈ stripped) : c = ',' ∨ isSpace c = true := by
  simp only [stripped, List.mem_cons, List.not_mem_nil, or_false] at h
  rcases h with rfl | rfl | rfl | rfl
  · exact Or.inl rfl
  all_goals exact Or.inr rfl

theorem scan_stripped {depth : ℕ} {lead : List Char} (h : ∀ c ∈ lead, c ∈ stripped) :
    (outside depth).scan lead = .outside depth := by
  induction lead with
  | nil => rfl
  | cons c lead ih =>
    rw [List.forall_mem_cons] at h
    have hnext : (outside depth).next c = .outside depth := by
      rcases stripped_cases h.1 with hc | hc
      · exact (settled_outside depth).next_separator (Or.inl hc)
      · exact (settled_outside depth).next_space hc
    rw [scan_cons, hnext, ih h.2]

/-- What is stripped does not take a scan into braces. -/
theorem atLeast_of_next {place : Place} {depth : ℕ} {c : Char} (hc : c ∈ stripped)
    (h : (place.next c).AtLeast depth) : place.AtLeast depth := by
  cases place with
  | outside d =>
    rcases stripped_cases hc with hc | hc
    · rwa [(settled_outside d).next_separator (Or.inl hc)] at h
    · rwa [(settled_outside d).next_space hc] at h
  | closed d =>
    rcases stripped_cases hc with hc | hc
    · rwa [(settled_closed d).next_separator (Or.inl hc)] at h
    · rwa [(settled_closed d).next_space hc] at h
  | inside d =>
    have hquote : c ≠ '"' := by
      rintro rfl
      exact absurd hc (by decide)
    have hbackslash : c ≠ '\\' := by
      rintro rfl
      exact absurd hc (by decide)
    rwa [next, if_neg hquote, if_neg hbackslash] at h
  | escaped d => exact h
  | broken => trivial

theorem atLeast_of_scan {place : Place} {depth : ℕ} {trail : List Char}
    (htrail : ∀ c ∈ trail, c ∈ stripped) (h : (place.scan trail).AtLeast depth) :
    place.AtLeast depth := by
  induction trail generalizing place with
  | nil => exact h
  | cons c trail ih =>
    rw [List.forall_mem_cons] at htrail
    exact atLeast_of_next htrail.1 (ih htrail.2 h)

/-- The bracket at the end does not close what is open in a record. -/
theorem not_settled_next {place : Place} (h : place.AtLeast 2) :
    ¬ (place.next ']').Settled 0 := by
  cases place with
  | outside d =>
    obtain ⟨d, rfl⟩ := Nat.exists_eq_add_of_le' h
    rintro (hplace | hplace) <;> cases hplace
  | closed d =>
    obtain ⟨d, rfl⟩ := Nat.exists_eq_add_of_le' h
    rintro (hplace | hplace) <;> cases hplace
  | inside d => rintro (hplace | hplace) <;> cases hplace
  | escaped d => rintro (hplace | hplace) <;> cases hplace
  | broken => rintro (hplace | hplace) <;> cases hplace

/-! ### What is read -/

theorem addPubkeys_of_not_legible (hplain : PlainNumerals numerals)
    (h : ¬ Legible numerals saves) :
    addPubkeys numerals (some (saves.flatMap (Save.text numerals))) = .raises := by
  obtain ⟨lead, trail, htext, hlead, htrail⟩ :=
    strip_parts stripped (saves.flatMap (Save.text numerals))
  have hscan := atLeast_of_not_legible hplain h
  rw [htext, scan_append, scan_append, scan_stripped hlead] at hscan
  have hopen := atLeast_of_scan htrail hscan
  have hparse : parse numerals
      ('[' :: (strip stripped (saves.flatMap (Save.text numerals)) ++ [']'])) = none := by
    by_contra hsome
    obtain ⟨v, hv⟩ := Option.ne_none_iff_exists'.mp hsome
    have hnested := wellNested_of_parse hplain hv
    rw [WellNested, scan_cons, scan_append] at hnested
    exact not_settled_next hopen hnested
  rw [addPubkeys, hparse]

theorem flatMap_text_of_absent (h : ∀ t ∈ saves, t.Absent) :
    saves.flatMap (Save.text numerals) = [] := by
  rw [List.flatMap_eq_nil_iff]
  exact fun t ht ↦ Save.text_of_absent (h t ht)

theorem saved_eq_nil_iff : saved saves = [] ↔ ∀ t ∈ saves, t.Absent := by
  simp [saved]

theorem saved_cons_of_absent (h : s.Absent) : saved (s :: saves) = saved saves := by
  simp [saved, h]

theorem saved_cons_of_whole (h : s.Whole numerals) :
    saved (s :: saves) = s.pkobj :: saved saves := by
  simp [saved, Save.not_absent_of_whole h]

/-- The elements of an array but for the bracket at the end, and what is stripped. -/
def Listed (numerals : Numerals ν) (text : List Char) (vs : List (Json ν)) : Prop :=
  ∃ body trail, text = '{' :: (body ++ ['}']) ++ trail ∧ (∀ c ∈ trail, c ∈ stripped) ∧
    IsElements numerals ('{' :: (body ++ ['}']) ++ [']']) vs

theorem listed_single (hplain : PlainNumerals numerals) (o : Pkobj) {trail : List Char}
    (htrail : ∀ c ∈ trail, c ∈ stripped) :
    Listed numerals (dumps numerals o.json ++ trail) [o.json] := by
  obtain ⟨body, -, htext⟩ := exists_body hplain o
  refine ⟨body, trail, congrArg (· ++ trail) htext, htrail, ?_⟩
  rw [← htext]
  exact (isText_dumps numerals o.json).last

theorem Listed.cons {text blank : List Char} {vs : List (Json ν)}
    (h : Listed numerals text vs) (hplain : PlainNumerals numerals) (o : Pkobj)
    (hblank : Blank blank) :
    Listed numerals (dumps numerals o.json ++ ',' :: (blank ++ text)) (o.json :: vs) := by
  obtain ⟨body, trail, rfl, htrail, helements⟩ := h
  obtain ⟨inner, -, htext⟩ := exists_body hplain o
  have hread := helements.cons (isText_dumps numerals o.json) hblank
  rw [htext] at hread ⊢
  refine ⟨inner ++ '}' :: ',' :: (blank ++ '{' :: body), trail, ?_, htrail, ?_⟩
  · simp
  · simpa using hread

theorem listed_of_legible (hplain : PlainNumerals numerals) (h : Legible numerals saves)
    (hsaved : saved saves ≠ []) :
    Listed numerals (saves.flatMap (Save.text numerals)) ((saved saves).map Pkobj.json) := by
  induction saves with
  | nil => exact absurd rfl hsaved
  | cons s saves ih =>
    rw [List.flatMap_cons]
    rcases legible_cons.mp h with ⟨hs | hs, hsaves⟩ | ⟨hs, habsent⟩
    · rw [saved_cons_of_absent hs] at hsaved ⊢
      rw [Save.text_of_absent hs]
      exact ih hsaves hsaved
    · obtain ⟨n, htext⟩ := Save.text_of_ended hs
      rw [saved_cons_of_whole (Save.whole_of_ended hs), htext, List.append_assoc,
        List.cons_append]
      by_cases hnone : saved saves = []
      · rw [hnone, flatMap_text_of_absent (saved_eq_nil_iff.mp hnone), List.append_nil]
        refine listed_single hplain s.pkobj fun c hc ↦ ?_
        rcases List.mem_cons.mp hc with rfl | hc
        · decide
        · rw [List.mem_singleton.mp (List.mem_of_mem_take hc)]
          decide
      · exact (ih hsaves hnone).cons hplain s.pkobj (blank_take n)
    · rw [saved_cons_of_whole hs, saved_eq_nil_iff.mpr habsent, flatMap_text_of_absent habsent,
        List.append_nil, Save.text_of_whole hs]
      refine listed_single hplain s.pkobj fun c hc ↦ ?_
      have hmem := List.mem_of_mem_take hc
      simp only [List.mem_cons, List.not_mem_nil, or_false] at hmem
      rcases hmem with rfl | rfl <;> decide

theorem addPubkeys_of_legible (hplain : PlainNumerals numerals) (h : Legible numerals saves) :
    addPubkeys numerals (some (saves.flatMap (Save.text numerals))) =
      .enables ((saved saves).map Pkobj.json) := by
  by_cases hnone : saved saves = []
  · rw [hnone, flatMap_text_of_absent (saved_eq_nil_iff.mp hnone)]
    rfl
  · obtain ⟨body, trail, htext, htrail, helements⟩ := listed_of_legible hplain h hnone
    have hstrip : strip stripped ('{' :: (body ++ ['}']) ++ trail) = '{' :: (body ++ ['}']) :=
      strip_append (by decide) (by decide) htrail
    rw [htext, addPubkeys, hstrip, helements.array.parse]

theorem addPubkeys_of_saves (hplain : PlainNumerals numerals) (hsaves : saves ≠ []) :
    addPubkeys numerals (database numerals saves) =
      if Legible numerals saves then .enables ((saved saves).map Pkobj.json) else .raises := by
  rw [database, foldl_complete none hsaves, Option.getD_none, List.nil_append]
  split_ifs with hlegible
  · exact addPubkeys_of_legible hplain hlegible
  · exact addPubkeys_of_not_legible hplain hlegible

end Legible

/-! ### What add-pubkeys makes of the database -/

/-- Whatever was saved, and wherever the server was killed: `add-pubkeys` enables what was saved
just if the database is legible, and nothing otherwise. -/
theorem addPubkeys_database {numerals : Numerals ν} (hplain : PlainNumerals numerals)
    (saves : List Save) :
    addPubkeys numerals (database numerals saves) =
      if saves = [] then .returns
      else if Legible numerals saves then .enables ((saved saves).map Pkobj.json)
      else .raises := by
  split_ifs with hsaves hlegible
  · rw [hsaves]
    rfl
  · rw [addPubkeys_of_saves hplain hsaves, if_pos hlegible]
  · rw [addPubkeys_of_saves hplain hsaves, if_neg hlegible]

section Example

def alice : Pkobj := ⟨"testnet-1.14", "agoric1alice", "Ålice"⟩

def bob : Pkobj := ⟨"testnet-1.14", "agoric1bob", "bob, \"\x7d"⟩

/-- The server was killed when it had to save a record again. -/
def legibleSaves : List Save := [⟨alice, 1000⟩, ⟨alice, 0⟩, ⟨bob, 1000⟩]

/-- The server was killed in the middle of a record. -/
def tornSaves : List Save := [⟨alice, 1000⟩, ⟨alice, 20⟩, ⟨bob, 1000⟩]

theorem addPubkeys_examples :
    addPubkeys .decimal (database .decimal legibleSaves) = .enables [alice.json, bob.json] ∧
      addPubkeys .decimal (database .decimal tornSaves) = .raises := by
  constructor
  · rw [addPubkeys_database plainNumerals_decimal, if_neg (by decide), if_pos (by decide)]
    rfl
  · rw [addPubkeys_database plainNumerals_decimal, if_neg (by decide), if_neg (by decide)]

end Example

/-! ### From the reply to the key that is enabled -/

/-- A reply has what the call was made with. -/
def Answers (request : Request) (phase : Phase ν) : Prop :=
  ∀ reply, phase = .replied reply → reply.mobj = mobj request ∧ reply.config = request.config

theorem answers_ret {request : Request} (message : Json ν) :
    Answers request (ret request message) := by
  intro reply h
  cases h
  exact ⟨rfl, rfl⟩

theorem answers_afterAttempt {python : Python ν} {request : Request} (retries : ℕ)
    (reported : Option (Json ν)) :
    Answers request (afterAttempt python request retries reported) := by
  unfold afterAttempt
  split
  · exact fun _ hraised ↦ absurd hraised (by simp)
  · split_ifs
    · exact fun _ hcontacting ↦ absurd hcontacting (by simp)
    · exact fun _ htransferring ↦ absurd htransferring (by simp)
    · exact answers_ret _

/-- What is saved of a reply is what the client asked for, whether all is well or not. -/
theorem pkobj_of_replied {python : Python ν} {request : Request} {events : List (Event ν)}
    {s : EnablePubkey ν} {reply : Reply ν}
    (hrun : run (step python request) (start request) events = some s)
    (hreply : s.phase = .replied reply) :
    pkobj reply = some ⟨request.config.chainName, request.pubkey,
      String.ofList (request.nickname.toList.take 32)⟩ := by
  have hkeep : ∀ (s : EnablePubkey ν) (e : Event ν) (s' : EnablePubkey ν),
      Answers request s.phase → step python request s e = some s' → Answers request s'.phase := by
    intro s e s' _ hstep
    obtain ⟨attempt, -, -, rfl⟩ | ⟨-, -, rfl⟩ | ⟨outcome, -, -, rfl⟩ := step_cases hstep
    · exact answers_afterAttempt _ _
    · exact fun _ hraised ↦ absurd hraised (by simp)
    · dsimp only
      cases controllerMessage python request outcome with
      | none => exact fun _ hraised ↦ absurd hraised (by simp)
      | some message => exact answers_ret message
  have hstart : Answers request (start (ν := ν) request).phase := by
    intro reply hreplied
    simp only [start] at hreplied
    split_ifs at hreplied
  obtain ⟨hmobj, hconfig⟩ := run_inductive hkeep hstart hrun reply hreply
  rw [pkobj, hmobj, hconfig]
  rfl

section Enabled

variable {numerals : Numerals ν} {saves : List Save} {records : List (Record ν)}

theorem wellFormed_of_pkobj {r : Record ν} {o : Pkobj} (h : r.pkobj = o.json) :
    r.wellFormed = true := by
  rw [Record.wellFormed, h]
  rfl

theorem saved_of_enables (hplain : PlainNumerals numerals) {pkobjs : List (Json ν)}
    (hload : addPubkeys numerals (database numerals saves) = .enables pkobjs) :
    (saved saves).map Pkobj.json = pkobjs := by
  by_cases hsaves : saves = []
  · rw [hsaves] at hload
    cases hload
  · rw [addPubkeys_of_saves hplain hsaves] at hload
    split_ifs at hload with hlegible
    exact AddPubkeys.enables.inj hload

/-- In every run of `add-pubkeys` that has come to its end, every key that was saved has been
enabled once, the last one first; and one after the other if no call fails. -/
theorem enabled_of_run (hplain : PlainNumerals numerals)
    (hload : addPubkeys numerals (database numerals saves) =
      .enables (records.map Record.pkobj))
    {events : List DoEnablePubkeys.Event} {s : DoEnablePubkeys ν}
    (hrun : run DoEnablePubkeys.step (DoEnablePubkeys.start records) events = some s)
    (hended : s.Ended) :
    (calls s.log).map Record.pkobj = (saved saves).reverse.map Pkobj.json ∧
      ((∀ r ∈ records, r.fails = false) → EnablesAll records s.log) := by
  have hpkobjs := saved_of_enables hplain hload
  have hwell : records.reverse.filter Record.wellFormed = records.reverse := by
    refine List.filter_eq_self.mpr fun r hr ↦ ?_
    have hmem : r.pkobj ∈ (saved saves).map Pkobj.json :=
      hpkobjs ▸ List.mem_map_of_mem (List.mem_reverse.mp hr)
    obtain ⟨o, -, ho⟩ := List.mem_map.mp hmem
    exact wellFormed_of_pkobj ho.symm
  have htied : DoEnablePubkeys.Tied records s :=
    (DoEnablePubkeys.of_run (fun _ _ _ ↦ trivial) trivial hrun).1
  have hcalls := htied.calls
  rw [(htied.ended hended).2, List.filter_nil, List.append_nil, hwell] at hcalls
  refine ⟨?_, fun hsucceeds ↦ DoEnablePubkeys.enablesAll_of_succeeds hsucceeds hrun hended⟩
  rw [hcalls, List.map_reverse, List.map_reverse, hpkobjs]

end Enabled

section Example

/-- The call for Alice is delayed, and the one for Bob settles at once. -/
def legibleRecords : List (Record Decimal) := [⟨alice.json, .later true⟩, ⟨bob.json, .now true⟩]

theorem enabled_legibleSaves :
    ∃ events s, run DoEnablePubkeys.step (DoEnablePubkeys.start legibleRecords) events = some s ∧
      s.Ended ∧ (calls s.log).map Record.pkobj = [bob.json, alice.json] ∧
        EnablesAll legibleRecords s.log := by
  refine ⟨[.turn, .turn, .turn, .settle 0, .turn, .turn], _, rfl, ⟨rfl, Or.inr rfl⟩, ?_⟩
  have hload : addPubkeys .decimal (database .decimal legibleSaves) =
      .enables (legibleRecords.map Record.pkobj) := by
    have hsaves : legibleSaves ≠ [] := List.cons_ne_nil _ _
    rw [addPubkeys_of_saves plainNumerals_decimal hsaves, if_pos (by decide)]
    rfl
  have hrun : run DoEnablePubkeys.step (DoEnablePubkeys.start legibleRecords)
      [.turn, .turn, .turn, .settle 0, .turn, .turn] = some _ := rfl
  obtain ⟨hcalls, hall⟩ :=
    enabled_of_run plainNumerals_decimal hload hrun ⟨rfl, Or.inr rfl⟩
  exact ⟨hcalls, hall (by decide)⟩

end Example

end CosmicSwingset.Provisioning
