import RetroConfig.Library.Segments

/-!
# `moduleName`: the file of an imported module

`QuickJSScript::moduleName` (`script/quickjs/QuickJSScript.cpp`) turns the name of an imported
module into the path of its file, seen from the module that imports it. It splits both names at `/`,
takes the last segment from the base and follows the segments of the other one.

The root of an absolute path is an empty segment at the front of the list, `..` takes it away like
any other one, and `pop_back` on an empty list is undefined. The splitter drops what is behind
the last `/` if it is empty, so a base that ends with a `/` loses a directory. `moduleName_iff` says
for which names the path is the one that the segments lead to.
-/

namespace RetroConfig

namespace QuickJSScript

open Segments

/-- The bytes of a `std::string`. -/
abbrev Text := List UInt8

def separator : UInt8 := 47

def dot : UInt8 := 46

/-- `split` at the separator. -/
def split (original : Text) : List Text :=
  if original = [] then []
  else
    match h : original.idxOf? separator with
    | some index => original.take index :: split (original.drop (index + 1))
    | none => [original]
termination_by original.length
decreasing_by
  obtain ⟨hLt, -⟩ := List.idxOf?_eq_some_iff.mp h
  rw [List.length_drop]
  omega

/-- The body of the loop of `join`: the text so far, and whether the next segment is the first. -/
def write : Text × Bool → Text → Text × Bool
  | (ss, true), seg => (ss ++ seg, false)
  | (ss, false), seg => (ss ++ separator :: seg, false)

/-- `join` with the separator. -/
def join (segs : List Text) : Text := (segs.foldl write ([], true)).1

/-- `pop_back`, which is undefined on an empty list. -/
def popBack (path : List Text) : Option (List Text) :=
  if path = [] then none else some path.dropLast

/-- The body of the loop over the segments of the module name. -/
def enter (path : List Text) (seg : Text) : Option (List Text) :=
  if seg = [] ∨ seg = [dot] then some path
  else if seg = [dot, dot] then popBack path
  else some (path ++ [seg])

/-- `fullpath`. -/
def fullpath (basename modulename : Text) : Option Text := do
  let path ← popBack (split basename)
  let path ← (split modulename).foldlM enter path
  return join path

/-- `.js` -/
def js : Text := [46, 106, 115]

/-- `.json` -/
def json : Text := [46, 106, 115, 111, 110]

/-- The files that are looked for at a path. -/
def tried (isFile : Text → Bool) (fullpath : Text) : Option Text :=
  if isFile fullpath then some fullpath
  else if isFile (fullpath ++ js) then some (fullpath ++ js)
  else if isFile (fullpath ++ json) then some (fullpath ++ json)
  else none

/-- `QuickJSScript::moduleName`, with the file system as a parameter. -/
def moduleName (isFile : Text → Bool) (moduleBaseName moduleName : Text) : Option (Option Text) :=
  (fullpath moduleBaseName moduleName).map (tried isFile)

/-! ## What it is for -/

/-- A path from the root. -/
def Absolute (path : Text) : Prop := path.head? = some separator

instance (path : Text) : Decidable (Absolute path) :=
  inferInstanceAs (Decidable (path.head? = some separator))

/-- The segments of what is in front of the last `/`, without the root. -/
def directory (base : Text) : List Text :=
  if Absolute base then (base.splitOn separator).dropLast.tail
  else (base.splitOn separator).dropLast

/-- The directories and the file that a name leads to. -/
def target (base name : Text) : List Text := follow dot (directory base) (name.splitOn separator)

/-- The path that a name leads to from a base. -/
def resolve (base name : Text) : Text :=
  if Absolute base then separator :: Segments.join separator (target base name)
  else Segments.join separator (target base name)

/-- The name is looked for at the path that it leads to, and no empty list loses an element. -/
def Resolves (base name : Text) : Prop :=
  ∀ isFile, moduleName isFile base name = some (tried isFile (resolve base name))

/-! ## The splitter -/

section Split

variable {original seg rest : Text}

theorem split_notMem (hNil : original ≠ []) (h : separator ∉ original) : split original = [original] := by
  rw [split, if_neg hNil]
  split
  · next index hIndex =>
    rw [List.idxOf?_eq_none_iff.mpr h] at hIndex
    exact absurd hIndex.symm (Option.some_ne_none index)
  · rfl

theorem idxOf?_append (h : separator ∉ seg) :
    (seg ++ separator :: rest).idxOf? separator = some seg.length := by
  induction seg with
  | nil => rw [List.nil_append, List.idxOf?_cons, if_pos (beq_self_eq_true _), List.length_nil]
  | cons c seg ih =>
    rw [List.mem_cons, not_or] at h
    rw [List.cons_append, List.idxOf?_cons, if_neg (by simpa using Ne.symm h.1), ih h.2]
    rfl

theorem split_append (h : separator ∉ seg) :
    split (seg ++ separator :: rest) = seg :: split rest := by
  rw [split, if_neg (List.append_ne_nil_of_right_ne_nil _ (List.cons_ne_nil _ _))]
  split
  · next index hIndex =>
    rw [idxOf?_append h] at hIndex
    obtain rfl := Option.some.inj hIndex
    rw [List.take_left, ← List.drop_drop, List.drop_left]
    rfl
  · next hNone =>
    rw [idxOf?_append h] at hNone
    exact absurd hNone (Option.some_ne_none _)

theorem getLast?_append_cons : (seg ++ separator :: rest).getLast? = some separator ↔
    rest = [] ∨ rest.getLast? = some separator := by
  cases rest with
  | nil => simp
  | cons c rest => simp [List.getLast?_cons]

/-- An empty segment at the end of a text is dropped. -/
theorem split_eq (original : Text) :
    split original = if original = [] ∨ original.getLast? = some separator then
      (original.splitOn separator).dropLast else original.splitOn separator := by
  induction hLength : original.length using Nat.strong_induction_on generalizing original with
  | _ n ih =>
    by_cases hMem : separator ∈ original
    · obtain ⟨seg, rest, rfl, hSeg⟩ := List.eq_append_cons_of_mem hMem
      rw [List.length_append, List.length_cons] at hLength
      have hNil : seg ++ separator :: rest ≠ [] :=
        List.append_ne_nil_of_right_ne_nil _ (List.cons_ne_nil _ _)
      simp only [hNil, false_or, getLast?_append_cons]
      rw [split_append hSeg, ih rest.length (by omega) rest rfl,
        List.splitOn_append_cons_self_of_not_mem hSeg,
        List.dropLast_cons_of_ne_nil (List.splitOn_ne_nil _ _)]
      split <;> rfl
    · by_cases hNil : original = []
      · rw [if_pos (.inl hNil), hNil, split, if_pos rfl]
        rfl
      · have hLast : original.getLast? ≠ some separator :=
          fun hLast => hMem (List.mem_of_getLast? hLast)
        rw [if_neg (not_or.mpr ⟨hNil, hLast⟩), split_notMem hNil hMem,
          List.splitOn_eq_singleton hMem]

theorem splitOn_of_last (h : original = [] ∨ original.getLast? = some separator) :
    original.splitOn separator = (original.splitOn separator).dropLast ++ [[]] := by
  rcases h with rfl | hLast
  · rfl
  · obtain ⟨front, rfl⟩ := List.getLast?_eq_some_iff.mp hLast
    have hFront : (front ++ [separator]).splitOn separator = front.splitOn separator ++ [[]] :=
      List.splitOn_append_cons_self front []
    rw [hFront, List.dropLast_concat]

end Split

/-! ## The list of segments -/

section Run

variable {path segs : List Text} {seg base name : Text}

theorem foldl_write (ss : Text) (segs : List Text) :
    (segs.foldl write (ss, false)).1 = ss ++ segs.flatMap (separator :: ·) := by
  induction segs generalizing ss with
  | nil => exact (List.append_nil ss).symm
  | cons seg segs ih => rw [List.foldl_cons, write, ih, List.flatMap_cons, List.append_assoc]

theorem join_eq (segs : List Text) : join segs = Segments.join separator segs := by
  cases segs with
  | nil => rfl
  | cons seg segs =>
    rw [join, List.foldl_cons, write, foldl_write, List.nil_append]
    induction segs generalizing seg with
    | nil => exact List.append_nil seg
    | cons next segs ih =>
      rw [Segments.join, ← ih next]
      rfl

theorem enter_eq (path : List Text) (seg : Text) :
    enter path seg = if seg = [dot, dot] → path ≠ [] then some (step dot path seg) else none := by
  unfold enter step popBack
  split
  · next hNowhere =>
    have hNot : seg ≠ [dot, dot] := by
      rcases hNowhere with rfl | rfl <;> decide
    rw [if_pos fun hParent => absurd hParent hNot]
  · split
    · next hParent => by_cases hNil : path = [] <;> simp [hParent, hNil]
    · next hParent => rw [if_pos fun h => absurd h hParent]

/-- The loop ends unless it leaves an empty list. -/
theorem foldlM_enter (path segs : List Text) : segs.foldlM enter path =
    if Within dot path segs then some (follow dot path segs) else none := by
  induction segs generalizing path with
  | nil => exact (if_pos trivial).symm
  | cons seg segs ih =>
    rw [List.foldlM_cons, enter_eq]
    by_cases hLeave : seg = [dot, dot] → path ≠ []
    · rw [if_pos hLeave, follow_cons]
      simp only [Within, and_iff_right hLeave]
      exact ih (step dot path seg)
    · have hNot : ¬ Within dot path (seg :: segs) := fun hWithin => hLeave hWithin.1
      rw [if_neg hLeave, if_neg hNot]
      rfl

theorem foldlM_split (path : List Text) (name : Text) :
    (split name).foldlM enter path = (name.splitOn separator).foldlM enter path := by
  rw [split_eq]
  split
  · next hLast =>
    rw [splitOn_of_last hLast, List.dropLast_concat, List.foldlM_append]
    cases ((name.splitOn separator).dropLast).foldlM enter path <;> rfl
  · rfl

/-- The segments in front of the last one. -/
def pieces (base : Text) : List Text := (base.splitOn separator).dropLast

theorem pieces_concat (front : Text) : pieces (front ++ [separator]) = front.splitOn separator := by
  have hSplit : (front ++ [separator]).splitOn separator = front.splitOn separator ++ [[]] :=
    List.splitOn_append_cons_self front []
  rw [pieces, hSplit, List.dropLast_concat]

theorem pieces_ne_nil (h : base.getLast? = some separator) : pieces base ≠ [] := by
  obtain ⟨front, rfl⟩ := List.getLast?_eq_some_iff.mp h
  rw [pieces_concat]
  exact List.splitOn_ne_nil _ _

theorem popBack_split (base : Text) : popBack (split base) =
    if base = [] then none
    else if base.getLast? = some separator then some (pieces base).dropLast
    else some (pieces base) := by
  by_cases hNil : base = []
  · rw [if_pos hNil, hNil, split, if_pos rfl]
    rfl
  · rw [split_eq, if_neg hNil]
    simp only [hNil, false_or]
    split
    · next hLast => exact if_neg (pieces_ne_nil hLast)
    · exact if_neg (List.splitOn_ne_nil _ _)

theorem fullpath_eq (base name : Text) : fullpath base name =
    (popBack (split base)).bind fun path =>
      if Within dot path (name.splitOn separator) then
        some (Segments.join separator (follow dot path (name.splitOn separator)))
      else none := by
  rw [fullpath]
  cases popBack (split base) with
  | none => rfl
  | some path =>
    rw [Option.bind_eq_bind, Option.bind_some, Option.bind_some, foldlM_split, foldlM_enter]
    split
    · rw [Option.bind_some, join_eq]
      rfl
    · rfl

end Run

/-! ## The path that is tried -/

theorem exists_suffix {isFile : Text → Bool} {path found : Text} (h : tried isFile path = some found) :
    ∃ suffix, found = path ++ suffix := by
  unfold tried at h
  split at h
  · exact ⟨[], by rw [List.append_nil, Option.some.inj h]⟩
  · split at h
    · exact ⟨js, (Option.some.inj h).symm⟩
    · split at h
      · exact ⟨json, (Option.some.inj h).symm⟩
      · exact absurd h.symm (Option.some_ne_none found)

/-- The files that are found determine the path. -/
theorem tried_inj {path other : Text} (h : ∀ isFile, tried isFile path = tried isFile other) :
    path = other := by
  have hSelf (path : Text) : tried (fun file => file = path) path = some path :=
    if_pos (decide_eq_true rfl)
  obtain ⟨suffix, hPath⟩ := exists_suffix ((h _).symm.trans (hSelf path))
  obtain ⟨suffix', hOther⟩ := exists_suffix ((h _).trans (hSelf other))
  have hLength := congrArg List.length hPath
  have hLength' := congrArg List.length hOther
  rw [List.length_append] at hLength hLength'
  have hNil : suffix = [] := List.eq_nil_of_length_eq_zero (by omega)
  rw [hPath, hNil, List.append_nil]

theorem resolves_iff {base name : Text} :
    Resolves base name ↔ fullpath base name = some (resolve base name) := by
  constructor
  · intro h
    cases hPath : fullpath base name with
    | none =>
      have hNone := h fun _ => false
      rw [moduleName, hPath] at hNone
      exact absurd hNone.symm (Option.some_ne_none _)
    | some path =>
      have hTried (isFile : Text → Bool) : tried isFile path = tried isFile (resolve base name) := by
        have hFile := h isFile
        rw [moduleName, hPath] at hFile
        exact Option.some.inj hFile
      rw [tried_inj hTried]
  · intro h isFile
    rw [moduleName, h]
    rfl

section Paths

variable {base name : Text} {path dirs : List Text}

/-- The segments of a text are free of separators. -/
theorem free_follow (name : Text) (hPath : ∀ seg ∈ path, separator ∉ seg) :
    ∀ seg ∈ follow dot path (name.splitOn separator), separator ∉ seg := by
  intro seg hMem
  rcases mem_follow hMem with hOld | ⟨hNew, _⟩
  · exact hPath seg hOld
  · exact notMem_of_mem_splitOn hNew

theorem free_pieces (base : Text) : ∀ seg ∈ pieces base, separator ∉ seg := fun _ hMem =>
  notMem_of_mem_splitOn (List.dropLast_subset _ hMem)

/-- The pieces of an absolute base start with the root. -/
theorem pieces_absolute (h : Absolute base) : pieces base = [] :: directory base := by
  obtain ⟨rest, rfl⟩ := List.head?_eq_some_iff.mp h
  have hSplit : (separator :: rest).splitOn separator = [] :: rest.splitOn separator :=
    List.splitOn_append_cons_self [] rest
  rw [directory, if_pos h, pieces, hSplit, List.dropLast_cons_of_ne_nil (List.splitOn_ne_nil _ _)]
  rfl

theorem pieces_relative (h : ¬ Absolute base) : pieces base = directory base := by
  rw [directory, if_neg h, pieces]

/-- A relative base starts with a name. -/
theorem exists_pieces (hNil : pieces base ≠ []) (h : ¬ Absolute base) :
    ∃ first rest, first ≠ [] ∧ pieces base = first :: rest := by
  obtain ⟨first, rest, hPieces⟩ := List.exists_cons_of_ne_nil hNil
  refine ⟨first, rest, ?_, hPieces⟩
  rintro rfl
  obtain ⟨last, hLast⟩ : ∃ last, base.splitOn separator = [] :: (rest ++ [last]) :=
    ⟨_, by rw [← List.cons_append, ← hPieces, pieces, List.dropLast_append_getLast
      (List.splitOn_ne_nil separator base)]⟩
  have hBase : Segments.join separator (base.splitOn separator) = base := join_splitOn base
  rw [hLast] at hBase
  cases rest <;> exact h (hBase ▸ rfl)

/-- Behind the root, the segments make an absolute path. -/
theorem join_root (h : path ≠ []) :
    Segments.join separator ([] :: path) = separator :: Segments.join separator path := by
  obtain ⟨seg, path, rfl⟩ := List.exists_cons_of_ne_nil h
  rfl

/-- A list whose root was taken away is not an absolute path. -/
theorem head?_join_of_not_within {found : List Text} (hNot : ¬ Within dot path (name.splitOn separator))
    (h : found = follow dot ([] :: path) (name.splitOn separator)) :
    (Segments.join separator found).head? ≠ some separator := by
  refine head?_join fun seg hMem => ?_
  obtain ⟨hName, hOrdinary, _⟩ := mem_follow_of_not_within hNot (h ▸ hMem)
  exact ⟨hOrdinary, notMem_of_mem_splitOn hName⟩

end Paths

/-! ## Relative bases -/

section Relative

variable {base name : Text}

theorem resolve_relative (h : ¬ Absolute base) :
    resolve base name = Segments.join separator (target base name) := if_neg h

theorem relative_iff (h : ¬ Absolute base) (hNil : base ≠ []) (hLast : base.getLast? ≠ some separator) :
    Resolves base name ↔ Within dot (directory base) (name.splitOn separator) := by
  rw [resolves_iff, fullpath_eq, popBack_split, if_neg hNil, if_neg hLast, Option.bind_some,
    pieces_relative h, resolve_relative h, target]
  split
  · next hWithin => exact iff_of_true rfl hWithin
  · next hNot => exact iff_of_false (Option.some_ne_none _).symm hNot

theorem join_ne_cons {first : Text} {found rest : List Text} (hFirst : first ≠ [])
    (hLength : found.length = rest.length) (hFree : ∀ seg ∈ found, separator ∉ seg)
    (hFree' : ∀ seg ∈ first :: rest, separator ∉ seg) :
    Segments.join separator found ≠ Segments.join separator (first :: rest) := by
  intro hEq
  by_cases hFound : found = []
  · subst hFound
    obtain rfl := List.length_eq_zero_iff.mp hLength.symm
    exact hFirst hEq.symm
  · have hSame := length_eq_of_join hFound (List.cons_ne_nil _ _) hFree hFree' hEq
    rw [List.length_cons] at hSame
    omega

/-- Behind a `/` at its end the base has lost a directory. -/
theorem relative_trailing (h : ¬ Absolute base) (hLast : base.getLast? = some separator) :
    ¬ Resolves base name := by
  have hNil : base ≠ [] := by
    rintro rfl
    exact absurd hLast.symm (Option.some_ne_none _)
  rw [resolves_iff, fullpath_eq, popBack_split, if_neg hNil, if_pos hLast, Option.bind_some,
    resolve_relative h, target, ← pieces_relative h]
  split
  · next hWithin =>
    obtain ⟨first, rest, hFirst, hCons⟩ := exists_pieces (pieces_ne_nil hLast) h
    have hSame : (pieces base).dropLast.length = rest.length := by
      rw [hCons, List.length_dropLast, List.length_cons, Nat.add_sub_cancel]
    have hFollow := follow_append [first] ((within_iff_of_length hSame).mp hWithin)
    rw [List.singleton_append, ← hCons] at hFollow
    have hFree := free_follow name fun seg hMem =>
      free_pieces base seg (List.dropLast_subset _ hMem)
    have hFree' := free_follow name (free_pieces base)
    rw [hFollow] at hFree' ⊢
    exact fun hEq => join_ne_cons hFirst (length_follow hSame) hFree hFree' (Option.some.inj hEq)
  · exact (Option.some_ne_none _).symm

end Relative

/-! ## Absolute bases -/

section Absolutes

variable {base name : Text}

theorem resolve_absolute (h : Absolute base) :
    resolve base name = separator :: Segments.join separator (target base name) := if_pos h

theorem absolute_iff (h : Absolute base) (hLast : base.getLast? ≠ some separator) :
    Resolves base name ↔
      Within dot (directory base) (name.splitOn separator) ∧ target base name ≠ [] := by
  have hNil : base ≠ [] := by
    rintro rfl
    exact absurd h.symm (Option.some_ne_none _)
  rw [resolves_iff, fullpath_eq, popBack_split, if_neg hNil, if_neg hLast, Option.bind_some,
    pieces_absolute h, resolve_absolute h]
  by_cases hWithin : Within dot (directory base) (name.splitOn separator)
  · have hRoot : Within dot ([] :: directory base) (name.splitOn separator) :=
      within_append [[]] hWithin
    rw [if_pos hRoot, and_iff_right hWithin]
    have hFollow : follow dot ([] :: directory base) (name.splitOn separator) = [] :: target base name :=
      follow_append [[]] hWithin
    rw [hFollow]
    by_cases hTarget : target base name = []
    · refine iff_of_false ?_ fun hNe => hNe hTarget
      rw [hTarget]
      exact fun hEq => List.cons_ne_nil _ _ (Option.some.inj hEq).symm
    · rw [join_root hTarget]
      exact iff_of_true rfl hTarget
  · refine iff_of_false ?_ fun hBoth => hWithin hBoth.1
    split
    · intro hEq
      have hHead := head?_join_of_not_within hWithin rfl
      rw [Option.some.inj hEq] at hHead
      exact hHead rfl
    · exact (Option.some_ne_none _).symm

theorem absolute_trailing (h : Absolute base) (hLast : base.getLast? = some separator) :
    ¬ Resolves base name := by
  have hNil : base ≠ [] := by
    rintro rfl
    exact absurd hLast.symm (Option.some_ne_none _)
  rw [resolves_iff, fullpath_eq, popBack_split, if_neg hNil, if_pos hLast, Option.bind_some,
    resolve_absolute h]
  split
  · intro hEq
    have hHead : (Segments.join separator
        (follow dot (pieces base).dropLast (name.splitOn separator))).head? = some separator := by
      rw [Option.some.inj hEq]
      rfl
    rw [pieces_absolute h] at hEq hHead
    rcases hDirs : directory base with _ | ⟨first, rest⟩
    · rw [hDirs, List.dropLast_singleton] at hHead
      refine head?_join (fun seg hMem => ?_) hHead
      rcases mem_follow hMem with hOld | ⟨hName, hOrdinary, _⟩
      · exact absurd hOld List.not_mem_nil
      · exact ⟨hOrdinary, notMem_of_mem_splitOn hName⟩
    · rw [hDirs, List.dropLast_cons_of_ne_nil (List.cons_ne_nil _ _)] at hEq hHead
      have hWithin : Within dot (first :: rest).dropLast (name.splitOn separator) := by
        by_contra hNot
        exact head?_join_of_not_within hNot rfl hHead
      have hSame : (first :: rest).dropLast.length = rest.length := by
        rw [List.length_dropLast, List.length_cons, Nat.add_sub_cancel]
      have hTarget : target base name = first :: follow dot rest (name.splitOn separator) := by
        rw [target, hDirs]
        exact follow_append [first] ((within_iff_of_length hSame).mp hWithin)
      have hRoot : follow dot ([] :: (first :: rest).dropLast) (name.splitOn separator) =
          [] :: follow dot (first :: rest).dropLast (name.splitOn separator) :=
        follow_append [[]] hWithin
      have hNe : target base name ≠ [] := hTarget ▸ List.cons_ne_nil _ _
      have hDirsFree : ∀ seg ∈ first :: rest, separator ∉ seg := fun seg hMem =>
        free_pieces base seg (by
          rw [pieces_absolute h, hDirs]
          exact List.mem_cons_of_mem [] hMem)
      have hFree : ∀ seg ∈ target base name, separator ∉ seg := by
        rw [target, hDirs]
        exact free_follow name hDirsFree
      have hFree' := free_follow name fun seg hMem =>
        hDirsFree seg (List.dropLast_subset _ hMem)
      rw [← join_root hNe, hRoot] at hEq
      have hLength := length_eq_of_join (List.cons_ne_nil _ _) (List.cons_ne_nil _ _)
        (List.forall_mem_cons.mpr ⟨List.not_mem_nil, hFree'⟩)
        (List.forall_mem_cons.mpr ⟨List.not_mem_nil, hFree⟩) (Option.some.inj hEq)
      rw [hTarget, List.length_cons, List.length_cons, List.length_cons, length_follow hSame] at hLength
      omega
  · exact (Option.some_ne_none _).symm

end Absolutes

/-- For every base name and every module name: no element is taken from an empty list and the path
that is tried is the one that the name leads to, exactly if the base is not empty and does not end
with a `/`, every `..` leaves a directory, and a path from an absolute base does not lead to the root
itself. -/
theorem moduleName_iff (base name : Text) :
    Resolves base name ↔
      base ≠ [] ∧ base.getLast? ≠ some separator ∧
        Within dot (directory base) (name.splitOn separator) ∧
        (Absolute base → target base name ≠ []) := by
  by_cases hNil : base = []
  · refine iff_of_false ?_ fun h => h.1 hNil
    rw [resolves_iff, fullpath_eq, popBack_split, if_pos hNil]
    exact (Option.some_ne_none _).symm
  by_cases hLast : base.getLast? = some separator
  · refine iff_of_false ?_ fun h => h.2.1 hLast
    by_cases h : Absolute base
    · exact absolute_trailing h hLast
    · exact relative_trailing h hLast
  by_cases h : Absolute base
  · rw [absolute_iff h hLast, imp_iff_right h, and_iff_right hNil, and_iff_right hLast]
  · rw [relative_iff h hNil hLast, and_iff_right hNil, and_iff_right hLast]
    exact (and_iff_left fun hAbsolute => absurd hAbsolute h).symm

/-- `..` from `a.js` takes an element from an empty list. -/
theorem moduleName_parent : (∀ isFile, moduleName isFile [97, 46, 106, 115] [46, 46] = none) ∧
    ¬ Resolves [97, 46, 106, 115] [46, 46] := by
  have hNone : fullpath [97, 46, 106, 115] [46, 46] = none := by
    rw [fullpath_eq, popBack_split]
    rfl
  refine ⟨fun isFile => ?_, ?_⟩
  · rw [moduleName, hNone]
    rfl
  · rw [resolves_iff, hNone]
    exact (Option.some_ne_none _).symm

end QuickJSScript

end RetroConfig
