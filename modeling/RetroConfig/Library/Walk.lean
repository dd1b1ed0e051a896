import RetroConfig.Library.Segments

/-!
# Walks along segments

A walk goes along segments that are all entered, empty ones as well, but for two: `here` stays and
`up` leaves the segment that was entered last. Wherever a walk starts, its effect is to leave some
segments and to enter others (`walk_eq`).

A path of segments has a text that begins with the separator. `rooted_join_iff` says when two paths
have the same text, and `rooted_join_append_iff` when it does not matter that one of them is longer by
segments in the middle and by empty segments at its end.
-/

namespace Walk

section Steps

variable {α : Type} [DecidableEq α] {here up : α} {path segs : List α} {seg : α}

def step (here up : α) (path : List α) (seg : α) : List α :=
  if seg = here then path
  else if seg = up then path.dropLast
  else path ++ [seg]

/-- Step by step along the segments. -/
def walk (here up : α) (path segs : List α) : List α := segs.foldl (step here up) path

/-- How many segments are left, and which ones are entered then. -/
structure Effect (α : Type) where
  climb : Nat
  rest : List α

namespace Effect

def step (here up : α) (e : Effect α) (seg : α) : Effect α :=
  if seg = here then e
  else if seg = up then
    if e.rest = [] then { e with climb := e.climb + 1 } else { e with rest := e.rest.dropLast }
  else { e with rest := e.rest ++ [seg] }

/-- The effect on a path. -/
def on (e : Effect α) (path : List α) : List α := path.take (path.length - e.climb) ++ e.rest

end Effect

/-- The effect of a walk. -/
def effect (here up : α) (segs : List α) : Effect α := segs.foldl (Effect.step here up) ⟨0, []⟩

theorem step_on (e : Effect α) (path : List α) (seg : α) :
    step here up (e.on path) seg = (e.step here up seg).on path := by
  unfold step Effect.step
  split
  · rfl
  · split
    · by_cases hRest : e.rest = []
      · have hMin : min (min (path.length - e.climb) path.length - 1) (path.length - e.climb) =
            path.length - (e.climb + 1) := by omega
        rw [if_pos hRest, Effect.on, Effect.on, hRest, List.append_nil, List.append_nil,
          List.dropLast_eq_take, List.length_take, List.take_take, hMin]
      · rw [if_neg hRest, Effect.on, Effect.on, List.dropLast_append_of_ne_nil hRest]
    · exact List.append_assoc ..

theorem walk_on (e : Effect α) (path segs : List α) :
    walk here up (e.on path) segs = (segs.foldl (Effect.step here up) e).on path := by
  induction segs generalizing e with
  | nil => rfl
  | cons seg segs ih =>
    have hStep : walk here up (e.on path) (seg :: segs) =
        walk here up (step here up (e.on path) seg) segs := rfl
    rw [hStep, step_on, ih]
    rfl

theorem walk_eq (path segs : List α) :
    walk here up path segs = (effect here up segs).on path := by
  have hStart : (⟨0, []⟩ : Effect α).on path = path := by
    rw [Effect.on, Nat.sub_zero, List.take_length, List.append_nil]
  rw [effect, ← walk_on, hStart]

/-- Segments that are all entered. -/
theorem walk_append_replicate (hHere : seg ≠ here) (hUp : seg ≠ up) (path segs : List α) (n : Nat) :
    walk here up path (segs ++ List.replicate n seg) =
      walk here up path segs ++ List.replicate n seg := by
  induction n with
  | zero => rw [List.replicate_zero, List.append_nil, List.append_nil]
  | succ n ih =>
    rw [List.replicate_succ', ← List.append_assoc, ← List.append_assoc, ← ih, walk, walk,
      List.foldl_append, List.foldl_cons, List.foldl_nil, step, if_neg hHere, if_neg hUp]

/-- A walk enters nothing but its segments. -/
theorem mem_rest (h : seg ∈ (effect here up segs).rest) : seg ∈ segs := by
  have hFrom : ∀ e : Effect α, seg ∈ (segs.foldl (Effect.step here up) e).rest →
      seg ∈ e.rest ∨ seg ∈ segs := by
    clear h
    induction segs with
    | nil => exact fun _ => .inl
    | cons head segs ih =>
      intro e hMem
      rcases ih (e.step here up head) hMem with hStep | hSegs
      · unfold Effect.step at hStep
        split at hStep
        · exact .inl hStep
        · split at hStep
          · split at hStep
            · exact .inl hStep
            · exact .inl (List.dropLast_subset _ hStep)
          · rcases List.mem_append.mp hStep with hOld | hNew
            · exact .inl hOld
            · exact .inr (List.mem_singleton.mp hNew ▸ List.mem_cons_self)
      · exact .inr (List.mem_cons_of_mem _ hSegs)
  exact (hFrom _ h).resolve_left List.not_mem_nil

end Steps

/-! ## Texts -/

open Segments

variable {β : Type} [DecidableEq β] {sep : β} {path other : List (List β)}

/-- The text, with the separator in front if it has none. -/
def rooted (sep : β) (text : List β) : List β :=
  if text.head? = some sep then text else sep :: text

/-- The segments behind the separator in front. -/
def unrooted : List (List β) → List (List β)
  | [] :: path => path
  | path => path

/-- No segments have the text of a single empty one. -/
def cut (path : List (List β)) : List (List β) := if path = [] then [[]] else path

omit [DecidableEq β] in
theorem unrooted_of_head? (h : path.head? ≠ some []) : unrooted path = path := by
  unfold unrooted
  split
  · exact absurd rfl h
  · rfl

theorem rooted_join (h : ∀ seg ∈ path, sep ∉ seg) :
    rooted sep (join sep path) = sep :: join sep (unrooted path) := by
  match path with
  | [] => rfl
  | [[]] => rfl
  | [] :: next :: rest =>
    have hJoin : join sep ([] :: next :: rest) = sep :: join sep (next :: rest) := rfl
    rw [hJoin, rooted, if_pos List.head?_cons]
    rfl
  | (c :: seg) :: rest =>
    have hHead : (join sep ((c :: seg) :: rest)).head? = some c := by
      cases rest <;> rfl
    have hNe : c ≠ sep := fun hEq => h _ List.mem_cons_self (hEq ▸ List.mem_cons_self)
    rw [rooted, hHead, if_neg fun hEq => hNe (Option.some.inj hEq)]
    rfl

theorem join_iff (h : ∀ seg ∈ path, sep ∉ seg) (h' : ∀ seg ∈ other, sep ∉ seg) :
    join sep path = join sep other ↔ cut path = cut other := by
  have hCut : ∀ l : List (List β), (∀ seg ∈ l, sep ∉ seg) → (join sep l).splitOn sep = cut l := by
    intro l hl
    unfold cut
    split
    · next hNil =>
      rw [hNil]
      rfl
    · next hNe => exact splitOn_join hNe hl
  constructor
  · intro hEq
    rw [← hCut path h, hEq, hCut other h']
  · intro hEq
    have hSame : ∀ text : List β, join sep (text.splitOn sep) = text := join_splitOn
    rw [← hSame (join sep path), hCut path h, hEq, ← hCut other h', hSame]

omit [DecidableEq β] in
theorem mem_unrooted {seg : List β} (h : seg ∈ unrooted path) : seg ∈ path := by
  unfold unrooted at h
  split at h
  · exact List.mem_cons_of_mem _ h
  · exact h

theorem rooted_join_iff (h : ∀ seg ∈ path, sep ∉ seg) (h' : ∀ seg ∈ other, sep ∉ seg) :
    rooted sep (join sep path) = rooted sep (join sep other) ↔
      cut (unrooted path) = cut (unrooted other) := by
  rw [rooted_join h, rooted_join h', List.cons_inj_right,
    join_iff (fun seg hSeg => h seg (mem_unrooted hSeg)) fun seg hSeg => h' seg (mem_unrooted hSeg)]

omit [DecidableEq β] in
theorem cons_unrooted (h : path.head? = some []) : [] :: unrooted path = path := by
  obtain ⟨rest, rfl⟩ := List.head?_eq_some_iff.mp h
  rfl

/-- The path has the text of the root: the separator. -/
def IsRoot (path : List (List β)) : Prop := path.length ≤ 2 ∧ ∀ seg ∈ path, seg = []

omit [DecidableEq β] in
theorem cut_unrooted_iff : cut (unrooted path) = [[]] ↔ IsRoot path := by
  match path with
  | [] => simp [unrooted, cut, IsRoot]
  | [[]] => simp [unrooted, cut, IsRoot]
  | [[], seg] => simp [unrooted, cut, IsRoot]
  | [] :: seg :: next :: rest => simp [unrooted, cut, IsRoot]
  | (c :: seg) :: rest => simp [unrooted, cut, IsRoot]

omit [DecidableEq β] in
theorem cut_iff (h : cut path ≠ [[]]) : cut path = cut other ↔ path = other := by
  refine ⟨fun hEq => ?_, congrArg cut⟩
  have hCut : ∀ l : List (List β), cut l ≠ [[]] → cut l = l := fun l hl =>
    if_neg fun hNil => hl (if_pos hNil)
  rw [← hCut path h, hEq, hCut other (hEq ▸ h)]

section Append

variable {rest front : List (List β)} {kept fewer n : Nat}

omit [DecidableEq β] in
/-- The first segments of a path that begins with an empty one, with another path behind them. -/
theorem head?_take_append (hHead : rest.head? = some [] ∨ kept ≠ 0) :
    (([] :: front).take kept ++ rest).head? = some [] := by
  cases kept with
  | zero => exact hHead.resolve_right fun hNe => hNe rfl
  | succ k => rfl

theorem unrooted_append_iff (hLe : fewer ≤ kept) (hKept : kept ≤ front.length + 1)
    (hRoot : ¬ IsRoot (([] :: front).take kept ++ rest ++ List.replicate n [])) :
    unrooted (([] :: front).take kept ++ rest ++ List.replicate n []) =
        unrooted (([] :: front).take fewer ++ rest) ↔
      n = 0 ∧ (kept = fewer ∨ kept = 1 ∧ rest.head? ≠ some []) := by
  obtain ⟨long, hLong⟩ : ∃ long, long = ([] :: front).take kept ++ rest ++ List.replicate n [] :=
    ⟨_, rfl⟩
  obtain ⟨short, hShort⟩ : ∃ short, short = ([] :: front).take fewer ++ rest := ⟨_, rfl⟩
  have hLengthLong : long.length = kept + rest.length + n := by
    rw [hLong, List.length_append, List.length_append, List.length_take, List.length_cons,
      List.length_replicate, Nat.min_eq_left hKept]
  have hLengthShort : short.length = fewer + rest.length := by
    rw [hShort, List.length_append, List.length_take, List.length_cons,
      Nat.min_eq_left (Nat.le_trans hLe hKept)]
  rw [← hLong] at hRoot
  rw [← hLong, ← hShort]
  constructor
  · intro hSame
    by_cases hHead : short.head? = some []
    · have hEq : long = short := by
        have hOther : rest.head? = some [] ∨ kept ≠ 0 := by
          rw [or_iff_not_imp_right, not_not]
          intro hZero
          obtain rfl : fewer = 0 := by omega
          rwa [hShort] at hHead
        have hHeadLong : long.head? = some [] := by
          rw [hLong, List.append_assoc]
          refine head?_take_append (hOther.imp_left fun hFirst => ?_)
          rw [List.head?_append, hFirst]
          rfl
        rw [← cons_unrooted hHeadLong, hSame, cons_unrooted hHead]
      have hLength := congrArg List.length hEq
      exact ⟨by omega, .inl (by omega)⟩
    · obtain ⟨rfl, hFirst⟩ : fewer = 0 ∧ rest.head? ≠ some [] := by
        by_contra hNot
        rw [hShort] at hHead
        refine hHead (head?_take_append ?_)
        by_cases hZero : fewer = 0
        · exact .inl (by_contra fun hNe => hNot ⟨hZero, hNe⟩)
        · exact .inr hZero
      rw [unrooted_of_head? hHead] at hSame
      by_cases hHeadLong : long.head? = some []
      · have hLength := congrArg List.length (cons_unrooted hHeadLong)
        rw [hSame, List.length_cons] at hLength
        have hCases : kept = 1 ∧ n = 0 ∨ kept = 0 ∧ n = 1 := by omega
        rcases hCases with ⟨hOne, hZero⟩ | ⟨rfl, rfl⟩
        · exact ⟨hZero, .inr ⟨hOne, hFirst⟩⟩
        · -- Nothing but the empty segment at the end can be the first one.
          have hNil : rest = [] := by
            rw [hLong] at hHeadLong
            cases rest with
            | nil => rfl
            | cons seg rest => exact absurd hHeadLong hFirst
          refine absurd ?_ hRoot
          rw [hLong, hNil]
          exact ⟨Nat.le_succ 1, by simp⟩
      · rw [unrooted_of_head? hHeadLong] at hSame
        have hLength := congrArg List.length hSame
        exact ⟨by omega, .inl (by omega)⟩
  · rintro ⟨rfl, rfl | ⟨rfl, hFirst⟩⟩
    · rw [hLong, hShort, List.replicate_zero, List.append_nil]
    · have hTail : unrooted long = rest := by
        rw [hLong, List.replicate_zero, List.append_nil]
        rfl
      rw [hTail, hShort]
      obtain rfl | rfl : fewer = 0 ∨ fewer = 1 := by omega
      · exact (unrooted_of_head? hFirst).symm
      · rfl

/-- One of two paths with the same end keeps more of a path in front of it, which begins with an empty
segment, and has `n` more empty segments at its end. -/
theorem rooted_join_append_iff (hLe : fewer ≤ kept) (hKept : kept ≤ front.length + 1)
    (hFront : ∀ seg ∈ front, sep ∉ seg) (hRest : ∀ seg ∈ rest, sep ∉ seg) :
    rooted sep (join sep (([] :: front).take kept ++ rest ++ List.replicate n [])) =
        rooted sep (join sep (([] :: front).take fewer ++ rest)) ↔
      n = 0 ∧ (kept = fewer ∨ kept = 1 ∧ rest.head? ≠ some []) ∨
        IsRoot (([] :: front).take kept ++ rest ++ List.replicate n []) := by
  have hFree : ∀ k, ∀ seg ∈ ([] :: front).take k ++ rest, sep ∉ seg := by
    intro k seg hSeg
    rcases List.mem_append.mp hSeg with hTake | hMem
    · rcases List.mem_cons.mp (List.mem_of_mem_take hTake) with rfl | hMem
      · exact List.not_mem_nil
      · exact hFront seg hMem
    · exact hRest seg hMem
  have hFreeLong : ∀ seg ∈ ([] :: front).take kept ++ rest ++ List.replicate n [], sep ∉ seg := by
    intro seg hSeg
    rcases List.mem_append.mp hSeg with hMem | hEmpty
    · exact hFree kept seg hMem
    · rw [List.eq_of_mem_replicate hEmpty]
      exact List.not_mem_nil
  rw [rooted_join_iff hFreeLong (hFree fewer)]
  by_cases hRoot : IsRoot (([] :: front).take kept ++ rest ++ List.replicate n [])
  · have hShort : IsRoot (([] :: front).take fewer ++ rest) := by
      obtain ⟨hLength, hEmpty⟩ := hRoot
      have hSublist : (([] :: front).take fewer ++ rest).Sublist
          (([] :: front).take kept ++ rest ++ List.replicate n []) := by
        refine List.Sublist.trans ?_ (List.sublist_append_left ..)
        exact (List.take_sublist_take_left hLe).append (List.Sublist.refl rest)
      exact ⟨Nat.le_trans hSublist.length_le hLength,
        fun seg hSeg => hEmpty seg (hSublist.subset hSeg)⟩
    rw [cut_unrooted_iff.mpr hRoot, cut_unrooted_iff.mpr hShort]
    exact iff_of_true rfl (.inr hRoot)
  · rw [cut_iff (mt cut_unrooted_iff.mp hRoot), unrooted_append_iff hLe hKept hRoot,
      or_iff_left hRoot]

end Append

end Walk
