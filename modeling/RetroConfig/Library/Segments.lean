import Mathlib.Algebra.Group.Nat.Defs
import Mathlib.Data.List.Basic
import Mathlib.Data.Nat.Basic
import Mathlib.Tactic.Common

/-!
# Paths in segments

A path is a text that a separator cuts into segments. A segment is stepped into: an empty one and
`.` lead nowhere, `..` leads to the parent, any other one is a name. The parent of a path without
segments is the path itself.

Following a path of names only appends them (`follow_ordinary`). Every other segment makes the result
shorter (`size_follow_lt`), so no other path does.
-/

namespace Segments

variable {α : Type} [DecidableEq α]

/-- A segment that is a name. -/
def Ordinary (dot : α) (seg : List α) : Prop := seg ≠ [] ∧ seg ≠ [dot] ∧ seg ≠ [dot, dot]

instance (dot : α) (seg : List α) : Decidable (Ordinary dot seg) :=
  inferInstanceAs (Decidable (seg ≠ [] ∧ seg ≠ [dot] ∧ seg ≠ [dot, dot]))

/-- Step into a segment. -/
def step (dot : α) (path : List (List α)) (seg : List α) : List (List α) :=
  if seg = [] ∨ seg = [dot] then path
  else if seg = [dot, dot] then path.dropLast
  else path ++ [seg]

/-- Step into the segments of a path, one after the other. -/
def follow (dot : α) (path segs : List (List α)) : List (List α) := segs.foldl (step dot) path

section Steps

variable {dot : α} {path segs : List (List α)} {seg : List α}

theorem step_ordinary (h : Ordinary dot seg) : step dot path seg = path ++ [seg] := by
  rw [step, if_neg (not_or.mpr ⟨h.1, h.2.1⟩), if_neg h.2.2]

theorem step_parent : step dot path [dot, dot] = path.dropLast := by
  rw [step, if_neg (by simp), if_pos rfl]

theorem step_nowhere (h : seg = [] ∨ seg = [dot]) : step dot path seg = path := if_pos h

theorem follow_cons : follow dot path (seg :: segs) = follow dot (step dot path seg) segs := rfl

theorem follow_ordinary (h : ∀ seg ∈ segs, Ordinary dot seg) : follow dot path segs = path ++ segs := by
  induction segs generalizing path with
  | nil => exact (List.append_nil path).symm
  | cons seg segs ih =>
    obtain ⟨hSeg, hSegs⟩ := List.forall_mem_cons.mp h
    rw [follow_cons, step_ordinary hSeg, ih hSegs, List.append_assoc]
    rfl

end Steps

/-! ## Depths -/

/-- Every step to a parent finds a segment to leave. -/
def Within (dot : α) (path : List (List α)) : List (List α) → Prop
  | [] => True
  | seg :: segs => (seg = [dot, dot] → path ≠ []) ∧ Within dot (step dot path seg) segs

/-- `Within` is decided step by step. -/
def decideWithin (dot : α) (path : List (List α)) :
    (segs : List (List α)) → Decidable (Within dot path segs)
  | [] => .isTrue trivial
  | seg :: segs =>
    have : Decidable (Within dot (step dot path seg) segs) := decideWithin dot (step dot path seg) segs
    inferInstanceAs (Decidable ((seg = [dot, dot] → path ≠ []) ∧ Within dot (step dot path seg) segs))

instance (dot : α) (path segs : List (List α)) : Decidable (Within dot path segs) :=
  decideWithin dot path segs

section Depths

variable {dot : α} {path other segs : List (List α)} {seg : List α}

theorem length_step (h : path.length = other.length) :
    (step dot path seg).length = (step dot other seg).length := by
  unfold step
  split
  · exact h
  · split
    · rw [List.length_dropLast, List.length_dropLast, h]
    · rw [List.length_append, List.length_append, h]

/-- Only the number of segments matters for the depth. -/
theorem length_follow (h : path.length = other.length) :
    (follow dot path segs).length = (follow dot other segs).length := by
  induction segs generalizing path other with
  | nil => exact h
  | cons seg segs ih => exact ih (length_step h)

theorem within_iff_of_length (h : path.length = other.length) :
    Within dot path segs ↔ Within dot other segs := by
  induction segs generalizing path other with
  | nil => exact Iff.rfl
  | cons seg segs ih =>
    have hNil : path = [] ↔ other = [] := by
      rw [← List.length_eq_zero_iff, h, List.length_eq_zero_iff]
    rw [Within, Within, ih (length_step h), Ne, hNil]

theorem step_append (front : List (List α)) (h : seg = [dot, dot] → path ≠ []) :
    step dot (front ++ path) seg = front ++ step dot path seg := by
  unfold step
  split
  · rfl
  · split
    · next hParent => exact List.dropLast_append_of_ne_nil (h hParent)
    · exact List.append_assoc front path [seg]

/-- Steps that stay within a path do not see what is in front of it. -/
theorem follow_append (front : List (List α)) (h : Within dot path segs) :
    follow dot (front ++ path) segs = front ++ follow dot path segs := by
  induction segs generalizing path with
  | nil => rfl
  | cons seg segs ih => rw [follow_cons, follow_cons, step_append front h.1, ih h.2]

theorem within_append (front : List (List α)) (h : Within dot path segs) :
    Within dot (front ++ path) segs := by
  induction segs generalizing path with
  | nil => trivial
  | cons seg segs ih =>
    refine ⟨fun hParent hNil => h.1 hParent (List.append_eq_nil_iff.mp hNil).2, ?_⟩
    rw [step_append front h.1]
    exact ih h.2

/-- Nothing is put behind a path but names. -/
theorem mem_follow (h : seg ∈ follow dot path segs) : seg ∈ path ∨ seg ∈ segs ∧ Ordinary dot seg := by
  induction segs generalizing path with
  | nil => exact .inl h
  | cons head segs ih =>
    rcases ih h with hPath | ⟨hSegs, hOrdinary⟩
    · unfold step at hPath
      split at hPath
      · exact .inl hPath
      · next hNowhere =>
        split at hPath
        · exact .inl (List.dropLast_subset path hPath)
        · next hParent =>
          rcases List.mem_append.mp hPath with hOld | hNew
          · exact .inl hOld
          · obtain rfl := List.mem_singleton.mp hNew
            rw [not_or] at hNowhere
            exact .inr ⟨List.mem_cons_self, hNowhere.1, hNowhere.2, hParent⟩
    · exact .inr ⟨List.mem_cons_of_mem _ hSegs, hOrdinary⟩

/-- Steps that do not stay within a path take away what is in front of it. -/
theorem mem_follow_of_not_within {first : List α} (hNot : ¬ Within dot path segs)
    (h : seg ∈ follow dot (first :: path) segs) : seg ∈ segs ∧ Ordinary dot seg := by
  induction segs generalizing path with
  | nil => exact absurd trivial hNot
  | cons head segs ih =>
    rw [follow_cons] at h
    by_cases hLeave : head = [dot, dot] → path ≠ []
    · have hStep := step_append [first] hLeave
      rw [List.singleton_append] at hStep
      rw [hStep] at h
      obtain ⟨hMem, hOrdinary⟩ := ih (fun hWithin => hNot ⟨hLeave, hWithin⟩) h
      exact ⟨List.mem_cons_of_mem _ hMem, hOrdinary⟩
    · obtain ⟨rfl, hNil⟩ := Classical.not_imp.mp hLeave
      obtain rfl := not_not.mp hNil
      rw [step_parent, List.dropLast_singleton] at h
      rcases mem_follow h with hMem | ⟨hMem, hOrdinary⟩
      · exact absurd hMem List.not_mem_nil
      · exact ⟨List.mem_cons_of_mem _ hMem, hOrdinary⟩

end Depths

/-! ## Sizes -/

/-- The length of the segments with one separator for each. -/
def size : List (List α) → Nat
  | [] => 0
  | seg :: path => seg.length + 1 + size path

omit [DecidableEq α] in
theorem size_append (path rest : List (List α)) : size (path ++ rest) = size path + size rest := by
  induction path with
  | nil => exact (Nat.zero_add _).symm
  | cons seg path ih =>
    rw [List.cons_append, size, size, ih]
    omega

omit [DecidableEq α] in
theorem size_dropLast_le (path : List (List α)) : size path.dropLast ≤ size path := by
  rcases List.eq_nil_or_concat path with rfl | ⟨front, seg, rfl⟩
  · exact le_rfl
  · rw [List.concat_eq_append, List.dropLast_concat, size_append]
    exact Nat.le_add_right _ _

section Sizes

variable {dot : α} {path segs : List (List α)} {seg : List α}

theorem size_step_le : size (step dot path seg) ≤ size path + size [seg] := by
  unfold step
  split
  · exact Nat.le_add_right _ _
  · split
    · have hDrop := size_dropLast_le path
      omega
    · rw [size_append]

theorem size_step_lt (h : ¬ Ordinary dot seg) : size (step dot path seg) < size path + size [seg] := by
  have hPos : 0 < size [seg] := Nat.succ_pos _
  unfold step
  split
  · exact Nat.lt_add_of_pos_right hPos
  · next hNowhere =>
    rw [not_or] at hNowhere
    split
    · have hDrop := size_dropLast_le path
      omega
    · next hParent => exact absurd ⟨hNowhere.1, hNowhere.2, hParent⟩ h

omit [DecidableEq α] in
theorem size_cons : size (seg :: segs) = size [seg] + size segs := size_append [seg] segs

theorem size_follow_le : size (follow dot path segs) ≤ size path + size segs := by
  induction segs generalizing path with
  | nil => exact Nat.le_add_right _ _
  | cons seg segs ih =>
    have hRest : size (follow dot (step dot path seg) segs) ≤ size (step dot path seg) + size segs := ih
    have hSeg : size (step dot path seg) ≤ size path + size [seg] := size_step_le
    rw [follow_cons, size_cons]
    omega

theorem size_follow_lt (h : ¬ ∀ seg ∈ segs, Ordinary dot seg) :
    size (follow dot path segs) < size path + size segs := by
  induction segs generalizing path with
  | nil => exact absurd (List.forall_mem_nil _) h
  | cons seg segs ih =>
    rw [follow_cons, size_cons]
    by_cases hSeg : Ordinary dot seg
    · have hSegs : ¬ ∀ seg ∈ segs, Ordinary dot seg :=
        fun hAll => h (List.forall_mem_cons.mpr ⟨hSeg, hAll⟩)
      have hRest : size (follow dot (step dot path seg) segs) < size (step dot path seg) + size segs :=
        ih hSegs
      have hStep : size (step dot path seg) ≤ size path + size [seg] := size_step_le
      omega
    · have hRest : size (follow dot (step dot path seg) segs) ≤ size (step dot path seg) + size segs :=
        size_follow_le
      have hStep : size (step dot path seg) < size path + size [seg] := size_step_lt hSeg
      omega

end Sizes

/-! ## Texts -/

/-- The segments as a text. -/
def join (sep : α) (path : List (List α)) : List α :=
  match path with
  | [] => []
  | [seg] => seg
  | seg :: next :: rest => seg ++ sep :: join sep (next :: rest)

section Texts

variable {sep : α} {path segs : List (List α)} {seg text : List α}

omit [DecidableEq α] in
theorem join_eq_intercalate (path : List (List α)) : join sep path = [sep].intercalate path := by
  induction path with
  | nil => rfl
  | cons seg path ih =>
    cases path with
    | nil => rw [join, List.intercalate_singleton]
    | cons next rest => rw [join, ih, List.intercalate_cons_cons, List.append_assoc]; rfl

theorem join_splitOn (text : List α) : join sep (text.splitOn sep) = text := by
  rw [join_eq_intercalate, List.intercalate_splitOn]

omit [DecidableEq α] in
theorem join_append (hPath : path ≠ []) (hSegs : segs ≠ []) :
    join sep (path ++ segs) = join sep path ++ sep :: join sep segs := by
  induction path with
  | nil => exact absurd rfl hPath
  | cons seg path ih =>
    cases path with
    | nil =>
      obtain ⟨next, rest, rfl⟩ := List.exists_cons_of_ne_nil hSegs
      rfl
    | cons next rest =>
      have hCons : seg :: next :: rest ++ segs = seg :: next :: (rest ++ segs) := rfl
      have hRest := ih (List.cons_ne_nil _ _)
      rw [List.cons_append] at hRest
      rw [hCons, join, join, hRest, List.append_assoc]
      rfl

omit [DecidableEq α] in
theorem size_join (h : path ≠ []) : size path = (join sep path).length + 1 := by
  induction path with
  | nil => exact absurd rfl h
  | cons seg path ih =>
    cases path with
    | nil => rfl
    | cons next rest =>
      have hCons : size (seg :: next :: rest) = seg.length + 1 + size (next :: rest) := rfl
      rw [hCons, ih (List.cons_ne_nil _ _), join, List.length_append, List.length_cons]
      omega

theorem splitOn_join (hPath : path ≠ []) (hFree : ∀ seg ∈ path, sep ∉ seg) :
    (join sep path).splitOn sep = path := by
  rw [join_eq_intercalate, List.splitOn_intercalate sep hFree hPath]

/-- A text determines the number of its segments. -/
theorem length_eq_of_join (hPath : path ≠ []) (hSegs : segs ≠ []) (hFree : ∀ seg ∈ path, sep ∉ seg)
    (hFree' : ∀ seg ∈ segs, sep ∉ seg) (h : join sep path = join sep segs) :
    path.length = segs.length := by
  rw [← splitOn_join hPath hFree, h, splitOn_join hSegs hFree']

omit [DecidableEq α] in
/-- A path of names does not start with the separator. -/
theorem head?_join (h : ∀ seg ∈ path, seg ≠ [] ∧ sep ∉ seg) : (join sep path).head? ≠ some sep := by
  cases path with
  | nil => exact (Option.some_ne_none sep).symm
  | cons seg path =>
    obtain ⟨hNil, hFree⟩ := h seg List.mem_cons_self
    obtain ⟨c, rest, rfl⟩ := List.exists_cons_of_ne_nil hNil
    have hHead : (join sep ((c :: rest) :: path)).head? = some c := by
      cases path <;> rfl
    rw [hHead]
    intro hEq
    exact hFree (Option.some.inj hEq ▸ List.mem_cons_self)

/-- A segment of a text has no separator. -/
theorem notMem_of_mem_splitOn (h : seg ∈ text.splitOn sep) : sep ∉ seg := by
  induction text generalizing seg with
  | nil =>
    obtain rfl := List.mem_singleton.mp h
    exact List.not_mem_nil
  | cons c text ih =>
    rw [List.splitOn_cons_eq_if_modifyHead] at h
    split at h
    · rcases List.mem_cons.mp h with rfl | hRest
      · exact List.not_mem_nil
      · exact ih hRest
    · next hNe =>
      obtain ⟨first, rest, hSplit⟩ := List.exists_cons_of_ne_nil (List.splitOn_ne_nil sep text)
      rw [hSplit, List.modifyHead_cons] at h
      rcases List.mem_cons.mp h with rfl | hRest
      · rw [List.mem_cons, not_or]
        exact ⟨fun hEq => hNe (by simp [hEq]), ih (hSplit ▸ List.mem_cons_self)⟩
      · exact ih (hSplit ▸ List.mem_cons_of_mem _ hRest)

end Texts

end Segments
