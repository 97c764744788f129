import Mathlib.Data.List.Basic
import Mathlib.Logic.Basic

/-!
# Paths with a separator

A path over an alphabet is a list of segments joined by a separator. `parent` drops the last
segment, `leaf` is the last segment, and `child` puts a segment below a path; the root is the empty
path, and its children are single segments. The two views agree on every path that does not begin
with the separator: `parent` and `leaf` of a child give back what it was made from (`parent_child`,
`leaf_child`), and a path is the child of its parent by its leaf (`child_parent_leaf`). A path that
begins with the separator has the empty path as a proper prefix segment, which the root's children
lack, and there the second law fails.
-/

set_option autoImplicit false
set_option relaxedAutoImplicit false

namespace CosmicSwingset.Foundation

variable {α : Type*} [DecidableEq α] (sep : α)

/-- The path without its last segment. -/
def parent (path : List α) : List α :=
  [sep].intercalate (path.splitOn sep).dropLast

/-- The last segment of the path. -/
def leaf (path : List α) : List α :=
  (path.splitOn sep).getLast (List.splitOn_ne_nil sep path)

/-- The path one segment below. -/
def child (path segment : List α) : List α :=
  if path = [] then segment else path ++ sep :: segment

theorem splitOn_child {path segment : List α} (hpath : path ≠ []) (hsegment : sep ∉ segment) :
    (child sep path segment).splitOn sep = path.splitOn sep ++ [segment] := by
  rw [child, if_neg hpath, List.splitOn_append_cons_self, List.splitOn_eq_singleton hsegment]

/-- Two paths whose last segments have no separator in them are equal part by part. -/
theorem append_cons_inj {path path' segment segment' : List α} (hsegment : sep ∉ segment)
    (hsegment' : sep ∉ segment') :
    path ++ sep :: segment = path' ++ sep :: segment' ↔ path = path' ∧ segment = segment' := by
  constructor
  · intro h
    have hsplit := congrArg (List.splitOn sep) h
    rw [List.splitOn_append_cons_self, List.splitOn_append_cons_self,
      List.splitOn_eq_singleton hsegment, List.splitOn_eq_singleton hsegment'] at hsplit
    have hlast : segment = segment' := List.singleton_inj.mp (List.append_inj' hsplit rfl).2
    rw [hlast] at h
    exact ⟨List.append_cancel_right h, hlast⟩
  · rintro ⟨rfl, rfl⟩
    rfl

theorem parent_child {path segment : List α} (hsegment : sep ∉ segment) :
    parent sep (child sep path segment) = path := by
  by_cases hpath : path = []
  · rw [hpath, child, if_pos rfl, parent, List.splitOn_eq_singleton hsegment]
    rfl
  · rw [parent, splitOn_child sep hpath hsegment, List.dropLast_concat, List.intercalate_splitOn]

theorem leaf_child {path segment : List α} (hsegment : sep ∉ segment) :
    leaf sep (child sep path segment) = segment := by
  by_cases hpath : path = []
  · simp only [hpath, child, leaf, if_true, List.splitOn_eq_singleton hsegment,
      List.getLast_singleton]
  · simp only [leaf, splitOn_child sep hpath hsegment, List.getLast_concat]

/-- What comes before the first separator belongs to the first segment. -/
theorem splitOn_append_of_not_mem {start : List α} (hstart : sep ∉ start) (path : List α) :
    (start ++ path).splitOn sep = (path.splitOn sep).modifyHead (start ++ ·) := by
  induction start with
  | nil =>
    obtain ⟨first, rest, hsplit⟩ := List.exists_cons_of_ne_nil (List.splitOn_ne_nil sep path)
    rw [List.nil_append, hsplit]
    rfl
  | cons a start ih =>
    rw [List.mem_cons, not_or] at hstart
    have ha : ¬ (a == sep) = true := fun h ↦ hstart.1 (beq_iff_eq.mp h).symm
    obtain ⟨first, rest, hsplit⟩ := List.exists_cons_of_ne_nil (List.splitOn_ne_nil sep path)
    rw [List.cons_append, List.splitOn_cons_eq_if_modifyHead, if_neg ha, ih hstart.2, hsplit]
    rfl

theorem not_mem_of_mem_splitOn {path segment : List α} (h : segment ∈ path.splitOn sep) :
    sep ∉ segment := by
  induction path generalizing segment with
  | nil =>
    rw [List.splitOn_nil, List.mem_singleton] at h
    simp [h]
  | cons a path ih =>
    rw [List.splitOn_cons_eq_if_modifyHead] at h
    split_ifs at h with ha
    · rcases List.mem_cons.mp h with rfl | hrest
      · exact List.not_mem_nil
      · exact ih hrest
    · obtain ⟨first, rest, hsplit⟩ := List.exists_cons_of_ne_nil (List.splitOn_ne_nil sep path)
      rw [hsplit, List.modifyHead_cons] at h
      rw [beq_iff_eq] at ha
      rcases List.mem_cons.mp h with rfl | hrest
      · rw [List.mem_cons, not_or]
        exact ⟨fun heq ↦ ha heq.symm, ih (hsplit ▸ List.mem_cons_self)⟩
      · exact ih (hsplit ▸ List.mem_cons_of_mem first hrest)

theorem not_mem_leaf (path : List α) : sep ∉ leaf sep path :=
  not_mem_of_mem_splitOn sep (List.getLast_mem _)

omit [DecidableEq α] in
theorem intercalate_concat {segments : List (List α)} (hsegments : segments ≠ [])
    (segment : List α) :
    [sep].intercalate (segments ++ [segment]) = [sep].intercalate segments ++ sep :: segment := by
  induction segments with
  | nil => exact absurd rfl hsegments
  | cons first rest ih =>
    by_cases hrest : rest = []
    · simp [hrest]
    · rw [List.cons_append, List.intercalate_cons_of_ne_nil (by simp), ih hrest,
        List.intercalate_cons_of_ne_nil hrest]
      simp

theorem child_parent_leaf {path : List α} (hrooted : path.head? ≠ some sep) :
    child sep (parent sep path) (leaf sep path) = path := by
  have hjoin : [sep].intercalate ((path.splitOn sep).dropLast ++ [leaf sep path]) = path := by
    rw [leaf, List.dropLast_append_getLast, List.intercalate_splitOn]
  by_cases hdrop : (path.splitOn sep).dropLast = []
  · rw [hdrop, List.nil_append, List.intercalate_singleton] at hjoin
    rw [parent, hdrop, List.intercalate_nil, child, if_pos rfl, hjoin]
  · rw [intercalate_concat sep hdrop] at hjoin
    have hparent : parent sep path ≠ [] := by
      intro hnil
      rw [parent] at hnil
      rw [hnil, List.nil_append] at hjoin
      exact hrooted (by rw [← hjoin, List.head?_cons])
    rw [child, if_neg hparent]
    exact hjoin

/-- A path that does not begin with the separator is the child of one path by one segment. -/
theorem child_eq_iff {path base segment : List α} (hrooted : path.head? ≠ some sep)
    (hsegment : sep ∉ segment) :
    child sep base segment = path ↔ base = parent sep path ∧ segment = leaf sep path := by
  constructor
  · rintro rfl
    rw [parent_child sep hsegment, leaf_child sep hsegment]
    exact ⟨rfl, rfl⟩
  · rintro ⟨rfl, rfl⟩
    exact child_parent_leaf sep hrooted

end CosmicSwingset.Foundation
