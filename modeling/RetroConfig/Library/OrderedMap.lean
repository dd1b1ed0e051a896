import Mathlib.Order.Lattice
import Mathlib.Tactic.Common

/-!
# Ordered maps as sorted association lists

The container a C++ `std::map` is: a list of key-value pairs in strictly increasing key
order. `insert` is `operator[]` followed by an assignment, `List.lookup` is `find`. A
sorted list is determined by its lookups (`ext_lookup`), so two maps are equal as soon as
they hold the same values at the same keys, whatever the order of their insertions.
-/

namespace OrderedMap

variable {κ ν : Type} [LinearOrder κ]

/-- Assign the value of a key, in place if the key is there. -/
def insert (k : κ) (v : ν) : List (κ × ν) → List (κ × ν)
  | [] => [(k, v)]
  | (j, w) :: m =>
    if k < j then (k, v) :: (j, w) :: m
    else if k = j then (k, v) :: m
    else (j, w) :: insert k v m

/-- The map after the assignments of a list, in their order. -/
def ofPairs (ps : List (κ × ν)) : List (κ × ν) := ps.foldl (fun m p => insert p.1 p.2 m) []

def Sorted (m : List (κ × ν)) : Prop := m.Pairwise (fun p q => p.1 < q.1)

theorem lookup_cons (k j : κ) (v : ν) (m : List (κ × ν)) :
    ((j, v) :: m).lookup k = if k = j then some v else m.lookup k := by
  rw [List.lookup_cons]
  by_cases h : k = j
  · simp [h]
  · rw [beq_false_of_ne h, if_neg h]

theorem lookup_cons_ne {k j : κ} (h : k ≠ j) (v : ν) (m : List (κ × ν)) :
    ((j, v) :: m).lookup k = m.lookup k := by
  rw [lookup_cons, if_neg h]

theorem lookup_insert (k j : κ) (v : ν) (m : List (κ × ν)) :
    (insert k v m).lookup j = if j = k then some v else m.lookup j := by
  induction m with
  | nil => exact lookup_cons j k v []
  | cons p m ih =>
    obtain ⟨i, w⟩ := p
    unfold insert
    split
    · exact lookup_cons j k v _
    · split
      · rename_i hki
        subst hki
        rw [lookup_cons, lookup_cons]
        split <;> rfl
      · rename_i hki
        rw [lookup_cons, lookup_cons, ih]
        by_cases hji : j = i
        · have hjk : j ≠ k := fun h => hki (h.symm.trans hji)
          rw [if_pos hji, if_neg hjk, if_pos hji]
        · rw [if_neg hji, if_neg hji]

theorem mem_insert {k : κ} {v : ν} {m : List (κ × ν)} {p : κ × ν} (h : p ∈ insert k v m) :
    p = (k, v) ∨ p ∈ m := by
  induction m with
  | nil => simpa [insert] using h
  | cons q m ih =>
    unfold insert at h
    split at h
    · simpa using h
    · split at h
      · rcases List.mem_cons.mp h with h | h
        · exact Or.inl h
        · exact Or.inr (List.mem_cons_of_mem _ h)
      · rcases List.mem_cons.mp h with h | h
        · exact Or.inr (h ▸ List.mem_cons_self)
        · rcases ih h with h | h
          · exact Or.inl h
          · exact Or.inr (List.mem_cons_of_mem _ h)

theorem sorted_insert (k : κ) (v : ν) {m : List (κ × ν)} (h : Sorted m) :
    Sorted (insert k v m) := by
  induction m with
  | nil => exact List.pairwise_singleton _ _
  | cons p m ih =>
    obtain ⟨hHead, hTail⟩ := List.pairwise_cons.mp h
    unfold insert
    split
    · rename_i hlt
      refine List.pairwise_cons.mpr ⟨?_, h⟩
      intro q hq
      rcases List.mem_cons.mp hq with rfl | hq
      · exact hlt
      · exact lt_trans hlt (hHead q hq)
    · split
      · rename_i heq
        refine List.pairwise_cons.mpr ⟨?_, hTail⟩
        intro q hq
        exact heq ▸ hHead q hq
      · rename_i hnlt hne
        refine List.pairwise_cons.mpr ⟨?_, ih hTail⟩
        intro q hq
        rcases mem_insert hq with rfl | hq
        · exact lt_of_le_of_ne (not_lt.mp hnlt) (Ne.symm hne)
        · exact hHead q hq

theorem foldl_insert (ps m : List (κ × ν)) (k : κ) :
    (ps.foldl (fun m p => insert p.1 p.2 m) m).lookup k =
      (ps.reverse.lookup k).or (m.lookup k) := by
  induction ps generalizing m with
  | nil => simp
  | cons p ps ih =>
    rw [List.foldl_cons, ih, lookup_insert, List.reverse_cons, List.lookup_append]
    obtain ⟨j, v⟩ := p
    rw [lookup_cons]
    cases ps.reverse.lookup k with
    | some w => rfl
    | none => by_cases h : k = j <;> simp [h]

/-- Every key of `ofPairs ps` has the value given to it last. -/
theorem lookup_ofPairs (ps : List (κ × ν)) (k : κ) :
    (ofPairs ps).lookup k = ps.reverse.lookup k := by
  unfold ofPairs
  rw [foldl_insert]
  simp

theorem sorted_ofPairs (ps : List (κ × ν)) : Sorted (ofPairs ps) := by
  have aux : ∀ m : List (κ × ν), Sorted m → Sorted (ps.foldl (fun m p => insert p.1 p.2 m) m) := by
    induction ps with
    | nil => exact fun m h => h
    | cons p ps ih => exact fun m h => ih _ (sorted_insert p.1 p.2 h)
  exact aux [] List.Pairwise.nil

theorem mem_ofPairs {ps : List (κ × ν)} {p : κ × ν} (h : p ∈ ofPairs ps) : p ∈ ps := by
  have aux : ∀ m : List (κ × ν), p ∈ ps.foldl (fun m p => insert p.1 p.2 m) m → p ∈ ps ∨ p ∈ m := by
    clear h
    induction ps with
    | nil => exact fun m h => Or.inr h
    | cons q ps ih =>
      intro m h
      rcases ih _ h with h | h
      · exact Or.inl (List.mem_cons_of_mem _ h)
      · rcases mem_insert h with rfl | h
        · exact Or.inl List.mem_cons_self
        · exact Or.inr h
  rcases aux [] h with h | h
  · exact h
  · cases h

theorem mem_of_lookup {k : κ} {v : ν} {m : List (κ × ν)} (h : m.lookup k = some v) :
    (k, v) ∈ m := by
  obtain ⟨before, after, rfl, -⟩ := List.lookup_eq_some_iff.mp h
  simp

theorem length_insert_le (k : κ) (v : ν) (m : List (κ × ν)) :
    (insert k v m).length ≤ m.length + 1 := by
  induction m with
  | nil => rfl
  | cons p m ih =>
    rw [insert]
    split
    · rfl
    · split
      · exact Nat.le_succ _
      · exact Nat.succ_le_succ ih

theorem length_ofPairs_le (ps : List (κ × ν)) : (ofPairs ps).length ≤ ps.length := by
  have aux : ∀ m : List (κ × ν),
      (ps.foldl (fun m p => insert p.1 p.2 m) m).length ≤ m.length + ps.length := by
    induction ps with
    | nil => exact fun m => le_rfl
    | cons p ps ih =>
      intro m
      calc (ps.foldl (fun m p => insert p.1 p.2 m) (insert p.1 p.2 m)).length
          ≤ (insert p.1 p.2 m).length + ps.length := ih _
        _ ≤ m.length + 1 + ps.length := Nat.add_le_add_right (length_insert_le _ _ m) _
        _ = m.length + (p :: ps).length := by rw [List.length_cons]; omega
  simpa [ofPairs] using aux []

/-- A map has the keys that have been assigned. -/
theorem mem_keys_ofPairs {ps : List (κ × ν)} {k : κ} :
    k ∈ (ofPairs ps).map Prod.fst ↔ k ∈ ps.map Prod.fst := by
  constructor
  · intro h
    obtain ⟨p, hp, rfl⟩ := List.mem_map.mp h
    exact List.mem_map_of_mem (mem_ofPairs hp)
  · intro h
    have hSome : (ofPairs ps).lookup k ≠ none := by
      rw [lookup_ofPairs, ne_eq, List.lookup_eq_none_iff]
      obtain ⟨p, hp, rfl⟩ := List.mem_map.mp h
      intro hNone
      simpa using hNone p (List.mem_reverse.mpr hp)
    obtain ⟨v, hv⟩ := Option.ne_none_iff_exists'.mp hSome
    exact List.mem_map_of_mem (mem_of_lookup hv)

theorem lookup_eq_none_of_lt {k : κ} {m : List (κ × ν)} (h : ∀ p ∈ m, k < p.1) :
    m.lookup k = none := by
  rw [List.lookup_eq_none_iff]
  intro p hp
  simpa using ne_of_lt (h p hp)

/-- Two sorted lists with the same value at every key are equal. -/
theorem ext_lookup {m n : List (κ × ν)} (hm : Sorted m) (hn : Sorted n)
    (h : ∀ k, m.lookup k = n.lookup k) : m = n := by
  induction m generalizing n with
  | nil =>
    cases n with
    | nil => rfl
    | cons q n =>
      have hq := h q.1
      rw [lookup_cons, if_pos rfl] at hq
      cases hq
  | cons p m ih =>
    obtain ⟨hp, hm'⟩ := List.pairwise_cons.mp hm
    cases n with
    | nil =>
      have hp := h p.1
      rw [lookup_cons, if_pos rfl] at hp
      cases hp
    | cons q n =>
      obtain ⟨hq, hn'⟩ := List.pairwise_cons.mp hn
      obtain ⟨i, v⟩ := p
      obtain ⟨j, w⟩ := q
      -- The smaller of the two first keys is missing from the other list.
      have hij : i = j := by
        rcases lt_trichotomy i j with hlt | heq | hgt
        · have hNone : ((j, w) :: n).lookup i = none := lookup_eq_none_of_lt (by
            intro r hr
            rcases List.mem_cons.mp hr with rfl | hr
            · exact hlt
            · exact lt_trans hlt (hq r hr))
          rw [← h i] at hNone
          simp at hNone
        · exact heq
        · have hNone : ((i, v) :: m).lookup j = none := lookup_eq_none_of_lt (by
            intro r hr
            rcases List.mem_cons.mp hr with rfl | hr
            · exact hgt
            · exact lt_trans hgt (hp r hr))
          rw [h j] at hNone
          simp at hNone
      subst hij
      have hvw : v = w := by simpa using h i
      subst hvw
      rw [ih hm' hn' ?_]
      intro k
      by_cases hk : k = i
      · subst hk
        rw [lookup_eq_none_of_lt hp, lookup_eq_none_of_lt hq]
      · have := h k
        rwa [lookup_cons_ne hk, lookup_cons_ne hk] at this

/-- Converting the values commutes with looking one up. -/
theorem lookup_map {μ : Type} (f : ν → μ) (k : κ) (m : List (κ × ν)) :
    (m.map fun p => (p.1, f p.2)).lookup k = (m.lookup k).map f := by
  induction m with
  | nil => rfl
  | cons p m ih =>
    obtain ⟨j, v⟩ := p
    rw [List.map_cons, lookup_cons, lookup_cons]
    split
    · rfl
    · exact ih

theorem lookup_eq_none_of_notMem {k : κ} {ps : List (κ × ν)} (h : k ∉ ps.map Prod.fst) :
    ps.lookup k = none := by
  rw [List.lookup_eq_none_iff]
  intro p hp
  simpa using fun hk : k = p.1 => h (hk ▸ List.mem_map_of_mem hp)

theorem lookup_reverse {ps : List (κ × ν)} (h : (ps.map Prod.fst).Nodup) (k : κ) :
    ps.reverse.lookup k = ps.lookup k := by
  induction ps with
  | nil => rfl
  | cons p ps ih =>
    obtain ⟨j, v⟩ := p
    obtain ⟨hj, hTail⟩ := List.nodup_cons.mp h
    rw [List.reverse_cons, List.lookup_append, ih hTail, lookup_cons, lookup_cons]
    by_cases hk : k = j
    · rw [if_pos hk, if_pos hk, hk, lookup_eq_none_of_notMem hj]
      rfl
    · rw [if_neg hk, if_neg hk]
      simp

theorem lookup_of_mem {ps : List (κ × ν)} (h : (ps.map Prod.fst).Nodup) {k : κ} {v : ν}
    (hMem : (k, v) ∈ ps) : ps.lookup k = some v := by
  induction ps with
  | nil => cases hMem
  | cons p ps ih =>
    obtain ⟨j, w⟩ := p
    obtain ⟨hj, hTail⟩ := List.nodup_cons.mp h
    rcases List.mem_cons.mp hMem with hHead | hRest
    · obtain ⟨rfl, rfl⟩ := Prod.mk.inj hHead
      rw [lookup_cons, if_pos rfl]
    · have hk : k ≠ j := by
        rintro rfl
        exact hj (List.mem_map.mpr ⟨(k, v), hRest, rfl⟩)
      rw [lookup_cons_ne hk, ih hTail hRest]

/-- A key that is assigned once has that value. -/
theorem lookup_ofPairs_of_mem {ps : List (κ × ν)} (h : (ps.map Prod.fst).Nodup) {k : κ} {v : ν}
    (hMem : (k, v) ∈ ps) : (ofPairs ps).lookup k = some v := by
  rw [lookup_ofPairs, lookup_reverse h, lookup_of_mem h hMem]

/-- The map after assignments that are left out where there is no value. -/
theorem lookup_ofPairs_optional {ps : List (κ × Option ν)} (h : (ps.map Prod.fst).Nodup) (k : κ) :
    (ofPairs (ps.filterMap fun p => p.2.map (Prod.mk p.1))).lookup k = (ps.lookup k).join := by
  have hKeys : ∀ qs : List (κ × Option ν),
      ((qs.filterMap fun p => p.2.map (Prod.mk p.1)).map Prod.fst).Sublist (qs.map Prod.fst) := by
    intro qs
    induction qs with
    | nil => exact List.Sublist.slnil
    | cons q qs ih =>
      obtain ⟨j, v⟩ := q
      cases v with
      | none => exact ih.cons j
      | some v => exact ih.cons_cons j
  rw [lookup_ofPairs, lookup_reverse (h.sublist (hKeys ps))]
  induction ps with
  | nil => rfl
  | cons p ps ih =>
    obtain ⟨j, v⟩ := p
    obtain ⟨hj, hTail⟩ := List.nodup_cons.mp h
    rw [lookup_cons]
    by_cases hk : k = j
    · rw [if_pos hk]
      cases v with
      | none => exact lookup_eq_none_of_notMem fun hMem => hj (hk ▸ (hKeys ps).subset hMem)
      | some v => exact (lookup_cons k j v _).trans (if_pos hk)
    · rw [if_neg hk, ← ih hTail]
      cases v with
      | none => rfl
      | some v => exact lookup_cons_ne hk v _

/-- A key beyond all others goes to the end. -/
theorem insert_of_lt {k : κ} {m : List (κ × ν)} (h : ∀ p ∈ m, p.1 < k) (v : ν) :
    insert k v m = m ++ [(k, v)] := by
  induction m with
  | nil => rfl
  | cons p m ih =>
    have hp : p.1 < k := h p List.mem_cons_self
    rw [insert, if_neg hp.not_gt, if_neg hp.ne', ih fun q hq => h q (List.mem_cons_of_mem _ hq)]
    rfl

/-- Assigning the pairs of a sorted list in turn gives that list. -/
theorem ofPairs_of_sorted {ps : List (κ × ν)} (h : Sorted ps) : ofPairs ps = ps := by
  have aux : ∀ m : List (κ × ν), Sorted (m ++ ps) →
      ps.foldl (fun m p => insert p.1 p.2 m) m = m ++ ps := by
    clear h
    induction ps with
    | nil => simp
    | cons p ps ih =>
      intro m h
      have hLast : ∀ q ∈ m, q.1 < p.1 := fun q hq =>
        (List.pairwise_append.mp h).2.2 q hq p List.mem_cons_self
      rw [List.foldl_cons, insert_of_lt hLast, ih, List.append_assoc, List.singleton_append]
      rw [List.append_assoc]
      exact h
  exact aux [] h

end OrderedMap
