import RetroConfig.Library.Segments

/-!
# `calculatePath`: the path of a template

`gs::calculatePath` (`utils/SharedData.cpp`) resolves the path that a project script gives against
the directory of the project. Its loop looks for the next `/` from `start` on, but `start` never
moves, and the position that was found is used as a length. So the loop does not end if there is a
`/`, unless its position is too large for an `int`, and a path without one is a single segment. The
segment `..` cuts one character too many.

`calculatePath_iff` says when the result is the path that it should be.
-/

namespace RetroConfig

namespace SharedData

open Segments

/-- The bytes of a `std::string`. -/
abbrev Text := List UInt8

def slash : UInt8 := 47

def dot : UInt8 := 46

/-- A `size_t` as an `int`. -/
def toInt (n : Nat) : Int := (Int32.ofNat n).toInt

/-- A position as an `int`; `npos` becomes `-1`. -/
def position : Option Nat → Int
  | some n => toInt n
  | none => -1

/-- `find_last_of('/')`. -/
def findLast : Text → Option Nat
  | [] => none
  | c :: s =>
    match findLast s with
    | some n => some (n + 1)
    | none => if c = slash then some 0 else none

/-- `substr(0, n)`: a negative `int` becomes a `size_t` beyond every length. -/
def substr (s : Text) (n : Int) : Text := if n < 0 then s else s.take n.toNat

/-- The body of the loop. -/
def addSegment (path seg : Text) : Text :=
  if seg = [] ∨ seg = [dot] then path
  else if seg = [dot, dot] then
    if position (findLast path) < 0 then [] else substr path (position (findLast path) - 1)
  else path ++ slash :: seg

/-- The loop, as far as `fuel` rounds. -/
def scan (src : Text) : Nat → Text → Option Text
  | 0, _ => none
  | fuel + 1, path =>
    let last := position (src.idxOf? slash)
    let path := addSegment path (substr src last)
    if last < 0 then some path else scan src fuel path

/-- `gs::calculatePath`, as far as `fuel` rounds of its loop. -/
def calculatePath (fuel : Nat) (basePath src : Text) : Option Text :=
  (scan src fuel basePath).map fun path =>
    if path.head? = some slash then path else slash :: path

/-- The path that `src` leads to from `base`, which starts with a `/`. -/
def resolve (base src : Text) : Text :=
  slash :: join slash (follow dot (base.tail.splitOn slash) (src.splitOn slash))

/-- The loop ends, with the path that it should find. -/
def Resolves (base src : Text) : Prop := ∃ fuel, calculatePath fuel base src = some (resolve base src)

/-! ## The position of the last `/` -/

theorem findLast_notMem {s : Text} (h : slash ∉ s) : findLast s = none := by
  induction s with
  | nil => rfl
  | cons c s ih =>
    rw [List.mem_cons, not_or] at h
    rw [findLast, ih h.2]
    exact if_neg (Ne.symm h.1)

theorem findLast_append {front name : Text} (h : slash ∉ name) :
    findLast (front ++ slash :: name) = some front.length := by
  induction front with
  | nil =>
    rw [List.nil_append, findLast, findLast_notMem h]
    exact if_pos rfl
  | cons c front ih =>
    rw [List.cons_append, findLast, ih]
    rfl

/-- A text ends with a segment, after a `/` or as a whole. -/
theorem exists_segment (s : Text) :
    slash ∉ s ∨ ∃ front name, slash ∉ name ∧ s = front ++ slash :: name := by
  induction s with
  | nil => exact .inl List.not_mem_nil
  | cons c s ih =>
    rcases ih with hNot | ⟨front, name, hName, rfl⟩
    · by_cases hc : c = slash
      · exact .inr ⟨[], s, hNot, by rw [hc]; rfl⟩
      · refine .inl fun hMem => ?_
        rcases List.mem_cons.mp hMem with hEq | hTail
        · exact hc hEq.symm
        · exact hNot hTail
    · exact .inr ⟨c :: front, name, hName, rfl⟩

theorem toInt_le (n : Nat) : toInt n ≤ n := by
  have hMod : (n : Int) % (Int32.size : Nat) ≤ n := by
    rw [← Int.natCast_emod]
    exact Int.ofNat_le.mpr (Nat.mod_le _ _)
  rw [toInt, Int32.toInt_ofNat', Int.bmod_eq_emod]
  split <;> omega

theorem toInt_of_lt {n : Nat} (h : n < 2 ^ 31) : toInt n = n := Int32.toInt_ofNat_of_lt h

/-! ## One round -/

/-- The `/` in front of a path that has none. -/
def rooted (path : Text) : Text := if path.head? = some slash then path else slash :: path

theorem calculatePath_eq (fuel : Nat) (base src : Text) :
    calculatePath fuel base src = (scan src fuel base).map rooted := rfl

/-- A found `/` that is a position for the code keeps the loop going. -/
theorem scan_none {src : Text} (h : ¬ position (src.idxOf? slash) < 0) (fuel : Nat) (path : Text) :
    scan src fuel path = none := by
  induction fuel generalizing path with
  | zero => rfl
  | succ fuel ih =>
    rw [scan]
    simp only [if_neg h]
    exact ih _

/-- Otherwise the whole source is one segment. -/
theorem calculatePath_one {base src : Text} (h : position (src.idxOf? slash) < 0) (fuel : Nat) :
    calculatePath (fuel + 1) base src = some (rooted (addSegment base src)) := by
  rw [calculatePath_eq, scan]
  simp only [if_pos h, substr, Option.map_some]

theorem resolves_iff_one {base src : Text} (h : position (src.idxOf? slash) < 0) :
    Resolves base src ↔ rooted (addSegment base src) = resolve base src := by
  constructor
  · rintro ⟨_ | fuel, hFuel⟩
    · exact absurd hFuel.symm (Option.some_ne_none _)
    · rw [calculatePath_one h] at hFuel
      exact Option.some.inj hFuel
  · intro hSame
    exact ⟨1, by rw [calculatePath_one h, hSame]⟩

theorem rooted_slash (path : Text) : rooted (slash :: path) = slash :: path := if_pos rfl

theorem position_notMem {src : Text} (h : slash ∉ src) : position (src.idxOf? slash) < 0 := by
  rw [List.idxOf?_eq_none_iff.mpr h]
  exact Int.negSucc_lt_zero 0

/-! ## What the round leaves -/

section Round

variable {rest src front name : Text}

/-- A name is put behind the path. -/
theorem addSegment_ordinary {path : Text} (h : Ordinary dot src) :
    addSegment path src = path ++ slash :: src := by
  rw [addSegment, if_neg (not_or.mpr ⟨h.1, h.2.1⟩), if_neg h.2.2]

/-- The path that all names lead to. -/
theorem resolve_ordinary (h : ∀ seg ∈ src.splitOn slash, Ordinary dot seg) :
    resolve (slash :: rest) src = slash :: rest ++ slash :: src := by
  rw [resolve, List.tail_cons, follow_ordinary h,
    join_append (List.splitOn_ne_nil _ _) (List.splitOn_ne_nil _ _), join_splitOn, join_splitOn]
  rfl

/-- Any other segment makes the path shorter. -/
theorem length_resolve_lt (h : ¬ ∀ seg ∈ src.splitOn slash, Ordinary dot seg) :
    (resolve (slash :: rest) src).length < (slash :: rest ++ slash :: src).length := by
  have hSize : size (follow dot (rest.splitOn slash) (src.splitOn slash)) <
      size (rest.splitOn slash) + size (src.splitOn slash) := size_follow_lt h
  rw [size_join (List.splitOn_ne_nil _ _), size_join (List.splitOn_ne_nil _ _), join_splitOn,
    join_splitOn] at hSize
  rw [resolve, List.tail_cons, List.length_cons, List.length_append, List.length_cons,
    List.length_cons]
  by_cases hNil : follow dot (rest.splitOn slash) (src.splitOn slash) = []
  · rw [hNil, join, List.length_nil]
    omega
  · have hJoin : size (follow dot (rest.splitOn slash) (src.splitOn slash)) =
        (join slash (follow dot (rest.splitOn slash) (src.splitOn slash))).length + 1 := size_join hNil
    rw [hJoin] at hSize
    omega

theorem resolve_append_iff : slash :: rest ++ slash :: src = resolve (slash :: rest) src ↔
    ∀ seg ∈ src.splitOn slash, Ordinary dot seg := by
  refine ⟨fun hSame => ?_, fun hAll => (resolve_ordinary hAll).symm⟩
  by_contra hNot
  have hLt : (resolve (slash :: rest) src).length < (slash :: rest ++ slash :: src).length :=
    length_resolve_lt hNot
  rw [hSame] at hLt
  exact absurd hLt (Nat.lt_irrefl _)

theorem resolve_nowhere (h : src = [] ∨ src = [dot]) : resolve (slash :: rest) src = slash :: rest := by
  have hNot : slash ∉ src := by
    rcases h with rfl | rfl
    · exact List.not_mem_nil
    · decide
  rw [resolve, List.splitOn_eq_singleton hNot, follow_cons, step_nowhere h, List.tail_cons]
  exact congrArg (slash :: ·) (join_splitOn rest)

theorem resolve_parent :
    resolve (slash :: rest) [dot, dot] = slash :: join slash (rest.splitOn slash).dropLast := by
  have hNot : slash ∉ [dot, dot] := by decide
  rw [resolve, List.splitOn_eq_singleton hNot, follow_cons, step_parent]
  rfl

/-- The parent of a path with one segment is the root. -/
theorem resolve_parent_root (hName : slash ∉ name) : resolve (slash :: name) [dot, dot] = [slash] := by
  rw [resolve_parent, List.splitOn_eq_singleton hName]
  rfl

/-- Any other path is cut in front of the `/` before its last segment. -/
theorem resolve_parent_append (hName : slash ∉ name) :
    resolve (slash :: (front ++ slash :: name)) [dot, dot] = slash :: front := by
  rw [resolve_parent, List.splitOn_append_cons_self, List.splitOn_eq_singleton hName,
    List.dropLast_concat, join_splitOn]

/-- The code cuts at the position before it. -/
theorem addSegment_parent (hName : slash ∉ name) :
    addSegment (front ++ slash :: name) [dot, dot] =
      if toInt front.length < 0 then [] else substr (front ++ slash :: name) (toInt front.length - 1) := by
  rw [addSegment, if_neg (by decide), if_pos rfl, findLast_append hName]
  rfl

theorem length_substr_le {s : Text} {n : Int} (h : 0 ≤ n) : (substr s n).length ≤ n := by
  rw [substr, if_neg (by omega), List.length_take]
  omega

/-- The front of a path with a `/` stays, unless nothing is left of it. -/
theorem rooted_substr (rest : Text) (n : Int) :
    rooted (substr (slash :: rest) n) = substr (slash :: rest) n ∨ substr (slash :: rest) n = [] := by
  rw [substr]
  split
  · exact .inl (rooted_slash rest)
  · cases n.toNat with
    | zero => exact .inr rfl
    | succ k => exact .inl (rooted_slash _)

/-- The only segment of a path is never cut. -/
theorem parent_root (hName : slash ∉ name) (h : name ≠ []) :
    rooted (addSegment (slash :: name) [dot, dot]) ≠ resolve (slash :: name) [dot, dot] := by
  have hCut : addSegment ([] ++ slash :: name) [dot, dot] = slash :: name := by
    rw [addSegment_parent hName, List.length_nil, toInt_of_lt (by decide), if_neg (by omega), substr,
      if_pos (by omega), List.nil_append]
  rw [List.nil_append] at hCut
  rw [hCut, rooted_slash, resolve_parent_root hName]
  intro hSame
  exact h (List.tail_eq_of_cons_eq hSame)

/-- The last one of several is cut right if all in front of it is a `/`. -/
theorem parent_append (hName : slash ∉ name) :
    rooted (addSegment (slash :: (front ++ slash :: name)) [dot, dot]) =
      resolve (slash :: (front ++ slash :: name)) [dot, dot] ↔ front = [] := by
  have hBound := toInt_le (slash :: front).length
  rw [List.length_cons] at hBound
  rw [resolve_parent_append hName, ← List.cons_append, addSegment_parent hName]
  split
  · rw [rooted, if_neg (by decide), List.cons_inj_right, eq_comm]
  · next hNeg =>
    have hCons : slash :: front ++ slash :: name = slash :: (front ++ slash :: name) := rfl
    constructor
    · intro hSame
      rcases rooted_substr (front ++ slash :: name) (toInt (slash :: front).length - 1)
        with hKeep | hNil
      · have hLength := congrArg List.length hSame
        rw [hCons, hKeep] at hLength
        by_cases hZero : toInt (slash :: front).length = 0
        · rw [hZero, substr, if_pos (by decide), List.length_cons, List.length_append,
            List.length_cons, List.length_cons] at hLength
          omega
        · have hLe := length_substr_le (s := slash :: (front ++ slash :: name))
            (n := toInt (slash :: front).length - 1) (by omega)
          rw [List.length_cons] at hLength hLe
          omega
      · rw [hCons, hNil] at hSame
        exact (List.tail_eq_of_cons_eq hSame).symm
    · rintro rfl
      rw [List.length_singleton, toInt_of_lt (by decide)]
      rfl

/-- The bases that have only one segment after an empty one. -/
def AfterRoot (base : Text) : Prop := ∃ name, slash ∉ name ∧ base = slash :: slash :: name

/-- A source without a `/` is resolved as one segment. -/
theorem resolves_single (hSrc : slash ∉ src) (hLast : (slash :: rest).getLast? ≠ some slash) :
    Resolves (slash :: rest) src ↔ (src = [dot, dot] → AfterRoot (slash :: rest)) := by
  rw [resolves_iff_one (position_notMem hSrc)]
  by_cases hNowhere : src = [] ∨ src = [dot]
  · have hNot : src ≠ [dot, dot] := by
      rcases hNowhere with rfl | rfl <;> decide
    rw [resolve_nowhere hNowhere, addSegment, if_pos hNowhere]
    exact ⟨fun _ hParent => absurd hParent hNot, fun _ => rooted_slash rest⟩
  by_cases hParent : src = [dot, dot]
  · subst hParent
    rw [imp_iff_right rfl]
    rcases exists_segment rest with hName | ⟨front, name, hName, rfl⟩
    · have hNil : rest ≠ [] := fun hNil => hLast (by rw [hNil]; rfl)
      refine iff_of_false (parent_root hName hNil) ?_
      rintro ⟨name, _, hEq⟩
      exact hName (List.tail_eq_of_cons_eq hEq ▸ List.mem_cons_self)
    · rw [parent_append hName]
      constructor
      · rintro rfl
        exact ⟨name, hName, rfl⟩
      · rintro ⟨other, hOther, hEq⟩
        have hTail := List.tail_eq_of_cons_eq hEq
        cases front with
        | nil => rfl
        | cons c front =>
          rw [List.cons_append] at hTail
          have hMem : slash ∈ front ++ slash :: name :=
            List.mem_append_right _ List.mem_cons_self
          exact absurd (List.tail_eq_of_cons_eq hTail ▸ hMem) hOther
  · have hOrdinary : Ordinary dot src :=
      ⟨fun h => hNowhere (.inl h), fun h => hNowhere (.inr h), hParent⟩
    have hAll : ∀ seg ∈ src.splitOn slash, Ordinary dot seg := by
      rw [List.splitOn_eq_singleton hSrc]
      exact List.forall_mem_singleton.mpr hOrdinary
    refine iff_of_true ?_ fun h => absurd h hParent
    rw [addSegment_ordinary hOrdinary, resolve_ordinary hAll]
    exact rooted_slash _

/-- A source with a `/` is resolved only where its position is lost. -/
theorem resolves_several {p : Nat} (hp : src.idxOf? slash = some p) :
    Resolves (slash :: rest) src ↔ toInt p < 0 ∧ ∀ seg ∈ src.splitOn slash, Ordinary dot seg := by
  have hSrc : slash ∈ src := by
    rw [← List.isSome_idxOf?, hp]
    rfl
  by_cases hNeg : position (src.idxOf? slash) < 0
  · have hOrdinary : Ordinary dot src := by
      refine ⟨?_, ?_, ?_⟩ <;> rintro rfl <;> revert hSrc <;> decide
    have hInt : toInt p < 0 := by rwa [hp] at hNeg
    rw [resolves_iff_one hNeg, addSegment_ordinary hOrdinary, List.cons_append, rooted_slash,
      ← List.cons_append, resolve_append_iff, and_iff_right hInt]
  · refine iff_of_false ?_ ?_
    · rintro ⟨fuel, hFuel⟩
      rw [calculatePath_eq, scan_none hNeg] at hFuel
      exact absurd hFuel.symm (Option.some_ne_none _)
    · rintro ⟨hInt, _⟩
      rw [hp] at hNeg
      exact hNeg hInt

end Round

/-- For every base path that starts with a `/` and does not end with one, and every source: the loop
ends with the path that the source leads to exactly if the source is one segment, and `..` only where
the base has one segment after an empty one, or if its first `/` is too far for an `int` and all
segments are names. -/
theorem calculatePath_iff (base src : Text) (hHead : base.head? = some slash)
    (hLast : base.getLast? ≠ some slash) :
    Resolves base src ↔
      (slash ∉ src ∧ (src = [dot, dot] → AfterRoot base)) ∨
        ∃ p, src.idxOf? slash = some p ∧ toInt p < 0 ∧
          ∀ seg ∈ src.splitOn slash, Ordinary dot seg := by
  obtain ⟨rest, rfl⟩ := List.head?_eq_some_iff.mp hHead
  by_cases hSrc : slash ∈ src
  · obtain ⟨p, hp⟩ : ∃ p, src.idxOf? slash = some p := by
      rw [← Option.isSome_iff_exists, List.isSome_idxOf?]
      exact hSrc
    rw [resolves_several hp, hp]
    constructor
    · rintro ⟨hInt, hAll⟩
      exact .inr ⟨p, rfl, hInt, hAll⟩
    · rintro (⟨hNot, _⟩ | ⟨_, ⟨⟩, hInt, hAll⟩)
      · exact absurd hSrc hNot
      · exact ⟨hInt, hAll⟩
  · rw [resolves_single hSrc hLast, List.idxOf?_eq_none_iff.mpr hSrc]
    constructor
    · exact fun h => .inl ⟨hSrc, h⟩
    · rintro (⟨_, h⟩ | ⟨_, hNone, _⟩)
      · exact h
      · exact absurd hNone.symm (Option.some_ne_none _)

/-- `..` leads from `/a/b` to `/a`, and the code gets there from `//b`. -/
theorem calculatePath_one_segment : Resolves [47, 47, 98] [46, 46] :=
  (calculatePath_iff [47, 47, 98] [46, 46] rfl (by decide)).mpr
    (.inl ⟨by decide, fun _ => ⟨[98], by decide, rfl⟩⟩)

/-- From `/a` to `b/c` the loop never ends. -/
theorem calculatePath_two_segments :
    (∀ fuel, calculatePath fuel [47, 97] [98, 47, 99] = none) ∧
      ¬ Resolves [47, 97] [98, 47, 99] := by
  have hPosition : ¬ position (List.idxOf? slash [98, 47, 99]) < 0 := by decide
  constructor
  · intro fuel
    rw [calculatePath_eq, scan_none hPosition]
    rfl
  · rintro ⟨fuel, hFuel⟩
    rw [calculatePath_eq, scan_none hPosition] at hFuel
    exact absurd hFuel.symm (Option.some_ne_none _)

/-- From `/ab/c` the code steps to `/a`, not to `/ab`. -/
example : calculatePath 1 [47, 97, 98, 47, 99] [46, 46] = some [47, 97] := by decide

end SharedData

end RetroConfig
