import RetroConfig.Database.Select
import RetroConfig.Library.Quota
import RetroConfig.Models.SearchData
import Mathlib.Data.List.Infix

/-!
# `Context::searchKeys`

`searchKeys` (`main/Context.cpp`) asks for the most recent keys that contain a text, and if they are
fewer than the limit it fills them up with the most recent ones that it does not have yet. It looks
for these among as many rows as the limit allows; that is enough (`Quota.others_take`).

`searchKeys_suggests` is the result for a table that any calls of `SearchData::insert` and
`removeSearchKey` have built. An object has an `int` for the rowid of its row: from the row `2 ^ 31`
on `insert` does not find the row again that it is to change (`searchKeys_outdated`).
-/

namespace RetroConfig.Context

open SearchData

/-- The loop of `searchKeys` over `ex_keys`. `quota` is the variable `over`. -/
def fillUp (same : Nat → Nat → Bool) : List Nat → List Nat → Int → List Nat
  | keys, [], _ => keys
  | keys, data :: ex, quota =>
    if keys.any (same data) then fillUp same keys ex quota
    else if quota - 1 ≤ 0 then keys ++ [data]
    else fillUp same (keys ++ [data]) ex (quota - 1)

/-- `query->sortBy("date")->limit(limit)->res()`. -/
def latest (q : Query) (limit : Int32) (p : Program) : Except Fault (Program × List Nat) := do
  let (p, q) ← ((q.sortBy date.name).setLimit limit.toInt).res p
  pure (p, q.results)

/-- `Context::searchKeys`. The size of `keys` is compared as a `size_t`. -/
def searchKeys (k : String) (limit : Int32) (p : Program) : Except Fault (Program × List String) := do
  let (p, query) ← Model.query table p
  let query := query.setSortAsc false
  let (p, keys) ← if k.isEmpty then latest query limit p
    else do
      let (p, keys) ← latest (query.like key.name (.text ("%" ++ k ++ "%"))) limit p
      if keys.length < limit.toInt64.toUInt64.toNat then do
        let quota := limit.toInt - keys.length
        let (p, query) ← Model.query table p
        let query := query.setSortAsc false
        let (p, exKeys) ← latest query limit p
        let same (a b : Nat) := decide ((p.object b).identifier = (p.object a).identifier)
        pure (p, fillUp same keys exKeys quota)
      else pure (p, keys)
  pure (p, keys.map fun data => getKey (p.object data))

/-- `Context::removeSearchKey`. -/
def removeSearchKey (k : String) (p : Program) : Except Fault Program := do
  let (p, res) ← Model.resultsEqual table key.name (.text k) p
  res.foldlM (fun p data => Model.remove table data p) p

/-! ## What is asked for -/

/-- The text that is bound to `like`. -/
def pattern (k : String) : String := Text.cString ("%" ++ k ++ "%")

/-- Does the key match the pattern? -/
def like (pattern : String) (e : Entry) : Bool := Sql.likeChars pattern.toList e.1.toList

/-- The entries, most recent first. -/
def recent (entries : List Entry) : List Entry := entries.mergeSort fun x y => decide (y.2 ≤ x.2)

/-- As many keys as there are, up to the limit, no key twice: first the most recent ones that match,
then the most recent ones of the others. -/
structure Suggests (pattern : String) (limit : Nat) (entries : List Entry) (res : List String) :
    Prop where
  count : res.length = min limit entries.length
  nodup : res.Nodup
  keys : res = (Quota.prefer (like pattern) limit (recent entries)).map Prod.fst

/-! ## The loop -/

theorem others_append {xs : List Entry} {x : Entry} {n : Nat} {l : List Entry} (hx : x ∉ l) :
    Quota.others (xs ++ [x]) n l = Quota.others xs n l := by
  rw [Quota.others, Quota.others]
  congr 1
  apply List.filter_congr
  intro y hy
  apply decide_eq_decide.mpr
  rw [List.mem_append, List.mem_singleton, not_or]
  constructor
  · rintro ⟨hNot, -⟩
    exact hNot
  · intro hNot
    refine ⟨hNot, ?_⟩
    rintro rfl
    exact hx hy

/-- If two objects have the same identifier exactly if they have the same entry, the loop appends the
first entries that are not there. -/
theorem fillUp_map {same : Nat → Nat → Bool} (f : Nat → Entry) {keys ex : List Nat} {quota : Int}
    (hSame : ∀ a ∈ ex, ∀ b ∈ keys ++ ex, same a b = decide (f b = f a)) (hNodup : (ex.map f).Nodup)
    (hQuota : 0 < quota) :
    (fillUp same keys ex quota).map f =
      keys.map f ++ Quota.others (keys.map f) quota.toNat (ex.map f) := by
  induction ex generalizing keys quota with
  | nil =>
    rw [fillUp, List.map_nil, Quota.others, List.filter_nil, List.take_nil, List.append_nil]
  | cons data ex ih =>
    rw [List.map_cons, List.nodup_cons] at hNodup
    have hTail : ∀ a ∈ ex, ∀ b ∈ keys ++ ex, same a b = decide (f b = f a) := by
      intro a ha b hb
      apply hSame a (List.mem_cons_of_mem data ha)
      rcases List.mem_append.mp hb with hb | hb
      · exact List.mem_append_left _ hb
      · exact List.mem_append_right _ (List.mem_cons_of_mem data hb)
    have hAny : keys.any (same data) = decide (f data ∈ keys.map f) := by
      rw [Bool.eq_iff_iff, List.any_eq_true, decide_eq_true_eq, List.mem_map]
      refine exists_congr fun b => and_congr_right fun hb => ?_
      rw [hSame data List.mem_cons_self b (List.mem_append_left _ hb), decide_eq_true_eq]
    rw [fillUp, hAny, List.map_cons]
    by_cases hMem : f data ∈ keys.map f
    · rw [if_pos (decide_eq_true hMem), ih hTail hNodup.2 hQuota, Quota.others, Quota.others,
        List.filter_cons_of_neg (by simpa using hMem)]
    · have hOthers : Quota.others (keys.map f) quota.toNat (f data :: ex.map f) =
          f data :: Quota.others (keys.map f) (quota - 1).toNat (ex.map f) := by
        have hSucc : quota.toNat = (quota - 1).toNat + 1 := by omega
        rw [Quota.others, List.filter_cons_of_pos (by simpa using hMem), hSucc, List.take_succ_cons]
        rfl
      rw [if_neg (by simpa using hMem), hOthers]
      split
      · next hLast =>
        have hZero : (quota - 1).toNat = 0 := by omega
        rw [hZero, Quota.others, List.take_zero, List.map_append, List.map_singleton]
      · next hMore =>
        have hNext : ∀ a ∈ ex, ∀ b ∈ (keys ++ [data]) ++ ex, same a b = decide (f b = f a) := by
          intro a ha b hb
          apply hSame a (List.mem_cons_of_mem data ha)
          rwa [List.append_assoc] at hb
        rw [ih hNext hNodup.2 (by omega), List.map_append, List.map_singleton,
          others_append hNodup.1, List.append_assoc]
        rfl

/-! ## The queries -/

section Queries

variable {p : Program} {u : Sql.Table} {s : Keys}

theorem recent_pairwise (entries : List Entry) : (recent entries).Pairwise fun x y => y.2 ≤ x.2 := by
  have hTrans : ∀ x y z : Entry, decide (y.2 ≤ x.2) = true → decide (z.2 ≤ y.2) = true →
      decide (z.2 ≤ x.2) = true := by
    intro x y z hxy hyz
    exact decide_eq_true (Int64.le_trans (of_decide_eq_true hyz) (of_decide_eq_true hxy))
  have hTotal : ∀ x y : Entry, (decide (y.2 ≤ x.2) || decide (x.2 ≤ y.2)) = true := by
    intro x y
    rw [Bool.or_eq_true, decide_eq_true_eq, decide_eq_true_eq]
    exact Int64.le_total _ _
  exact (List.pairwise_mergeSort hTrans hTotal entries).imp fun h => of_decide_eq_true h

/-- Rows in the order of the query have their entries in the order of `recent`. -/
theorem entries_recent (hStores : Stores u s) (hDates : (s.entries.map Prod.snd).Nodup)
    {P : Sql.Row → Bool} {P' : Entry → Bool} (hP : ∀ r ∈ u.rows, P r = P' (entry u r))
    {rows : List Sql.Row} (hPerm : rows.Perm (u.rows.filter P))
    (hSorted : rows.Pairwise fun r q => u.precedes [(date.name, false)] r q = true) :
    rows.map (entry u) = (recent s.entries).filter P' := by
  have hEntries : (rows.map (entry u)).Perm ((recent s.entries).filter P') := by
    have hFilter : (u.rows.filter P).map (entry u) = s.entries.filter P' := by
      rw [← hStores.entries, List.filter_map]
      exact congrArg (List.map (entry u)) (List.filter_congr hP)
    have hRecent : (recent s.entries).Perm s.entries := List.mergeSort_perm _ _
    exact ((hPerm.map _).trans (.of_eq hFilter)).trans (hRecent.filter P').symm
  have hAnti : ∀ x y : Entry, x ∈ rows.map (entry u) → y ∈ (recent s.entries).filter P' →
      y.2 ≤ x.2 → x.2 ≤ y.2 → x = y := by
    intro x y hx hy hxy hyx
    have hMem : ∀ e ∈ (recent s.entries).filter P', e ∈ s.entries := by
      intro e he
      exact (List.mergeSort_perm _ _).mem_iff.mp (List.mem_of_mem_filter he)
    exact List.inj_on_of_nodup_map hDates (hMem x (hEntries.mem_iff.mp hx)) (hMem y hy)
      (Int64.le_antisymm hyx hxy)
  have hRows : (rows.map (entry u)).Pairwise fun x y => y.2 ≤ x.2 := by
    rw [List.pairwise_map]
    refine hSorted.imp_of_mem fun {r q} hr hq hrq => ?_
    have hMem : ∀ e ∈ rows, e ∈ u.rows := fun e he => List.mem_of_mem_filter (hPerm.mem_iff.mp he)
    by_contra hNot
    have hLess : (u.cell r date.name).key < (u.cell q date.name).key := by
      rw [hStores.dates r (hMem r hr), hStores.dates q (hMem q hq)]
      apply (Sql.Cell.lt_iff _ _).mp
      apply decide_eq_true
      apply Rat.intCast_lt_intCast.mpr
      rw [Int64.le_iff_toInt_le] at hNot
      omega
    rcases (u.precedes_cons date.name false [] r q).mp hrq with h | h | h
    · cases h.2
    · exact absurd h.1 (not_lt_of_gt hLess)
    · exact absurd h.1 (ne_of_lt hLess)
  exact List.Perm.eq_of_pairwise hAnti hRows ((recent_pairwise _).sublist List.filter_sublist) hEntries

/-- The objects are made from rows of the table. -/
structure Loaded (p : Program) (u : Sql.Table) (results : List Nat) : Prop where
  bound : ∀ a ∈ results, a < p.store.next
  rows : ∀ a ∈ results, ∃ r ∈ u.rows, p.object a = rowObject table u r

/-- The entry of an object. -/
def entryAt (p : Program) (a : Nat) : Entry := (getKey (p.object a), getDate (p.object a))

theorem entryAt_eq (h : Openable table p u) {a : Nat} {r : Sql.Row}
    (hObject : p.object a = rowObject table u r) : entryAt p a = entry u r := by
  obtain ⟨hKey, hDate, -⟩ := rowObject_get h.holds r
  rw [entryAt, hObject, hKey, hDate]

theorem Loaded.frame {q : Program} {results : List Nat} (h : Loaded p u results) (hFrame : Frame p q) :
    Loaded q u results where
  bound := fun a ha => lt_of_lt_of_le (h.bound a ha) hFrame.next
  rows := by
    intro a ha
    rw [hFrame.objects a (h.bound a ha)]
    exact h.rows a ha

theorem Loaded.append {results others : List Nat} (h : Loaded p u results) (h' : Loaded p u others) :
    Loaded p u (results ++ others) where
  bound := List.forall_mem_append.mpr ⟨h.bound, h'.bound⟩
  rows := List.forall_mem_append.mpr ⟨h.rows, h'.rows⟩

theorem entryAt_frame {q : Program} {results : List Nat} (h : Loaded p u results) (hFrame : Frame p q) :
    results.map (entryAt q) = results.map (entryAt p) := by
  apply List.map_congr_left
  intro a ha
  rw [entryAt, entryAt, hFrame.objects a (h.bound a ha)]

/-- Objects have the same identifier exactly if they have the same entry. -/
theorem Loaded.same_iff (hOpen : Openable table p u) (hStores : Stores u s) (hSeq : u.seq ≤ 2 ^ 32)
    {results : List Nat} (h : Loaded p u results) {a b : Nat} (ha : a ∈ results) (hb : b ∈ results) :
    (p.object b).identifier = (p.object a).identifier ↔ entryAt p b = entryAt p a := by
  obtain ⟨r, hr, hObjectA⟩ := h.rows a ha
  obtain ⟨q, hq, hObjectB⟩ := h.rows b hb
  have hBoundR := u.bounds r hr
  have hBoundQ := u.bounds q hq
  rw [entryAt_eq hOpen hObjectA, entryAt_eq hOpen hObjectB, hObjectA, hObjectB,
    (rowObject_get hOpen.holds r).2.2, (rowObject_get hOpen.holds q).2.2]
  constructor
  · intro hId
    have hRowid := Query.rowid_inj (by omega) (by omega) hId
    rw [Sql.Table.eq_of_rowid hq hr hRowid]
  · intro hEntry
    rw [hStores.eq_of_key hq hr (congrArg Prod.fst hEntry)]

/-- A query for the most recent entries that satisfy `P`. -/
theorem latest_open (h : Openable table p u) (hStores : Stores u s)
    (hDates : (s.entries.map Prod.snd).Nodup) {limit : Int32} (hLimit : 1 ≤ limit.toInt) {q : Query}
    (conds : List Condition) {P : Entry → Bool} (hTable : q.table = table)
    (hChanged : q.changed = true) (hSorts : q.sortBys = []) (hAsc : q.sortAsc = false)
    (hOffset : q.offset = -1) (hBuilt : q.Built conds) (hNames : ∀ c ∈ conds, c.name ∈ u.names)
    (hConds : ∀ r ∈ u.rows, conds.all (Condition.holds u r) = P (entry u r)) :
    ∃ p₁ p₂ results, Model.query table p = .ok (p₁, .ofTable table) ∧
      latest q limit p₁ = .ok (p₂, results) ∧ Openable table p₂ u ∧ Frame p p₂ ∧
      Loaded p₂ u results ∧
      results.map (entryAt p₂) = ((recent s.entries).filter P).take limit.toInt.toNat := by
  obtain ⟨q', hq'⟩ : ∃ q', q' = (q.sortBy date.name).setLimit limit.toInt := ⟨_, rfl⟩
  have hAccepted : q'.Accepted conds u := by
    refine ⟨hNames, ?_, ?_⟩
    · intro name hName
      rw [hq'] at hName
      change name ∈ q.sortBys ++ [date.name] at hName
      rw [hSorts, List.nil_append, List.mem_singleton] at hName
      rw [hName]
      exact h.holds.mem_names (mem_fields date_mem)
    · intro hSome
      rw [hq'] at hSome
      change 0 ≤ q.offset at hSome
      omega
  have hBuilt' : q'.Built conds := by
    rw [hq']
    exact ⟨hBuilt.sentence, hBuilt.params⟩
  have hOrder : q'.orderBy = [(date.name, false)] := by
    rw [hq', Query.orderBy]
    change (q.sortBys ++ [date.name]).dropLast.map _ ++
      (q.sortBys ++ [date.name]).getLast?.toList.map (·, q.sortAsc) = _
    rw [hSorts, hAsc]
    rfl
  obtain ⟨p₁, p₂, q₂, hQuery, hRes, hOpen, hFrame, hObjects, hLt⟩ :=
    results_open table_columns h (by rw [hq']; exact hTable) (by rw [hq']; exact hChanged) hBuilt'
      hAccepted
  obtain ⟨rows, hPerm, hSorted, hCut⟩ := u.select_cut (fun r => conds.all (Condition.holds u r))
    [(date.name, false)] (some limit.toInt.toNat) none
  have hSelected : q'.selected conds u = rows.take limit.toInt.toNat := by
    have hPos : 0 < q'.limit := by
      rw [hq']
      change 0 < limit.toInt
      omega
    have hNone : ¬ 0 ≤ q'.offset := by
      rw [hq']
      change ¬ 0 ≤ q.offset
      omega
    have hNumber : q'.limit.toNat = limit.toInt.toNat := by
      rw [hq']
      rfl
    rw [Query.selected, hOrder, if_pos hPos, if_neg hNone, hNumber, hCut]
    rfl
  rw [hSelected] at hObjects
  have hRow : ∀ a ∈ q₂.results, ∃ r ∈ u.rows, p₂.object a = rowObject table u r := by
    intro a ha
    have hMem : p₂.object a ∈ q₂.results.map p₂.object := List.mem_map_of_mem ha
    rw [hObjects] at hMem
    obtain ⟨r, hr, hEq⟩ := List.mem_map.mp hMem
    exact ⟨r, List.mem_of_mem_filter (hPerm.mem_iff.mp (List.mem_of_mem_take hr)), hEq.symm⟩
  refine ⟨p₁, p₂, q₂.results, hQuery, ?_, hOpen, hFrame, ⟨hLt, hRow⟩, ?_⟩
  · rw [latest, ← hq', hRes]
    rfl
  · have hEntries : q₂.results.map (entryAt p₂) =
        (q₂.results.map p₂.object).map fun o => (getKey o, getDate o) := by
      rw [List.map_map]
      rfl
    have hRead : ∀ r, (getKey (rowObject table u r), getDate (rowObject table u r)) = entry u r := by
      intro r
      obtain ⟨hKey, hDate, -⟩ := rowObject_get h.holds r
      rw [hKey, hDate]
    rw [hEntries, hObjects, List.map_map, ← entries_recent hStores hDates hConds hPerm hSorted,
      ← List.map_take]
    exact List.map_congr_left fun r _ => hRead r

end Queries

/-! ## `searchKeys` -/

section Search

variable {p : Program} {u : Sql.Table} {s : Keys}

theorem recent_perm (entries : List Entry) : (recent entries).Perm entries := List.mergeSort_perm _ _

theorem recent_nodup (hStores : Stores u s) : ((recent s.entries).map Prod.fst).Nodup :=
  ((recent_perm s.entries).map Prod.fst).nodup_iff.mpr hStores.nodup

theorem suggests_prefer (hStores : Stores u s) (pattern : String) (n : Nat) :
    Suggests pattern n s.entries ((Quota.prefer (like pattern) n (recent s.entries)).map Prod.fst) := by
  have hKeys := recent_nodup hStores
  have hNodup : (recent s.entries).Nodup := hKeys.of_map _
  refine ⟨?_, ?_, rfl⟩
  · rw [List.length_map, Quota.length_prefer hNodup, (recent_perm s.entries).length_eq]
  · apply List.Nodup.map_on _ (Quota.prefer_nodup hNodup _)
    intro x hx y hy hEq
    exact List.inj_on_of_nodup_map hKeys (Quota.prefer_subset _ hx) (Quota.prefer_subset _ hy) hEq

/-- The pattern of the empty key matches every key. -/
theorem like_empty (e : Entry) : like (pattern "") e = true := by
  have hPattern : (pattern "").toList = ['%', '%'] := by decide
  have hAll : ∀ cs : List Char, cs.tails.any (Sql.likeChars []) = true := by
    intro cs
    rw [List.any_eq_true]
    exact ⟨[], (List.mem_tails _ _).mpr List.nil_suffix, rfl⟩
  rw [like, hPattern, Sql.likeChars, List.any_eq_true]
  refine ⟨e.1.toList, (List.mem_tails _ _).mpr List.suffix_rfl, ?_⟩
  rw [Sql.likeChars]
  exact hAll _

theorem map_getKey (p : Program) (keys : List Nat) :
    keys.map (fun data => getKey (p.object data)) = (keys.map (entryAt p)).map Prod.fst := by
  rw [List.map_map]
  rfl

/-- The condition on a row. -/
theorem holds_like (hStores : Stores u s) (k : String) {r : Sql.Row} (hr : r ∈ u.rows) :
    [Condition.compare key.name .like (.text ("%" ++ k ++ "%"))].all (Condition.holds u r) =
      like (pattern k) (entry u r) := by
  have hNull : ∀ text : String, decide (Sql.Cell.text text ≠ .null) = true := by
    intro text
    exact decide_eq_true fun h => by cases h
  rw [List.all_cons, List.all_nil, Bool.and_true, Condition.holds, hStores.keys r hr, Sql.Cmp.holds,
    hNull, Bool.true_and]
  change (decide (Sql.Cell.text (pattern k) ≠ .null) && _) = _
  rw [hNull, Bool.true_and]
  rfl

theorem size_lt_iff {limit : Int32} (hLimit : 1 ≤ limit.toInt) (n : Nat) :
    n < limit.toInt64.toUInt64.toNat ↔ n < limit.toInt.toNat := by
  have hNonneg : 0 ≤ limit.toInt64 := by
    rw [Int64.le_iff_toInt_le, Int32.toInt_toInt64]
    change 0 ≤ limit.toInt
    omega
  rw [Int64.toNat_toUInt64_of_le hNonneg, ← Int64.toNat_toInt, Int32.toInt_toInt64]

/-- `searchKeys` of the empty key. -/
theorem searchKeys_empty (h : Openable table p u) (hStores : Stores u s)
    (hDates : (s.entries.map Prod.snd).Nodup) (limit : Int32) (hLimit : 1 ≤ limit.toInt) :
    ∃ q, searchKeys "" limit p =
      .ok (q, ((recent s.entries).take limit.toInt.toNat).map Prod.fst) := by
  obtain ⟨p₁, p₂, keys, hQuery, hLatest, -, -, -, hKeys⟩ :=
    latest_open (P := fun _ => true) (q := (Query.ofTable table).setSortAsc false) h hStores hDates
      hLimit [] rfl rfl rfl rfl rfl ⟨rfl, rfl⟩ (fun c hc => by cases hc) (fun r _ => rfl)
  refine ⟨p₂, ?_⟩
  rw [List.filter_true] at hKeys
  rw [searchKeys, hQuery, ← hKeys, ← map_getKey]
  change (latest ((Query.ofTable table).setSortAsc false) limit p₁ >>= _) = _
  rw [hLatest]
  rfl

/-- `searchKeys`, as long as the identifiers of the objects tell the rows apart. -/
theorem searchKeys_open (h : Openable table p u) (hStores : Stores u s)
    (hDates : (s.entries.map Prod.snd).Nodup) (hSeq : u.seq ≤ 2 ^ 32) (k : String) (limit : Int32)
    (hLimit : 1 ≤ limit.toInt) :
    ∃ q res, searchKeys k limit p = .ok (q, res) ∧
      Suggests (pattern k) limit.toInt.toNat s.entries res := by
  have hNodup : (recent s.entries).Nodup := (recent_nodup hStores).of_map _
  by_cases hEmpty : k = ""
  · subst hEmpty
    obtain ⟨q, hRun⟩ := searchKeys_empty h hStores hDates limit hLimit
    refine ⟨q, _, hRun, ?_⟩
    rw [← Quota.prefer_of_forall hNodup fun e _ => like_empty e]
    exact suggests_prefer hStores _ _
  · obtain ⟨p₁, p₂, keys, hQuery, hLatest, hOpen, -, hLoaded, hKeys⟩ :=
      latest_open (P := like (pattern k)) (q := ((Query.ofTable table).setSortAsc false).like key.name
        (.text ("%" ++ k ++ "%"))) h hStores hDates hLimit
        [.compare key.name .like (.text ("%" ++ k ++ "%"))] rfl rfl rfl rfl rfl ⟨rfl, rfl⟩
        (fun c hc => by
          rw [List.mem_singleton.mp hc]
          exact h.holds.mem_names (mem_fields key_mem))
        (fun r hr => holds_like hStores k hr)
    have hNot : k.isEmpty = false := by
      rw [← Bool.not_eq_true, String.isEmpty_iff]
      exact hEmpty
    obtain ⟨n, hn⟩ : ∃ n, n = limit.toInt.toNat := ⟨_, rfl⟩
    obtain ⟨found, hFound⟩ : ∃ found, found = ((recent s.entries).filter (like (pattern k))).take n :=
      ⟨_, rfl⟩
    rw [← hn, ← hFound] at hKeys
    have hLength : keys.length = found.length := by
      rw [← hKeys, List.length_map]
    have hPrefer : Quota.prefer (like (pattern k)) n (recent s.entries) =
        found ++ Quota.others found (n - found.length) (recent s.entries) := by
      rw [Quota.prefer, ← hFound]
    by_cases hFew : keys.length < n
    · obtain ⟨p₃, p₄, ex, hQuery', hLatest', hOpen', hFrame', hLoaded', hEx⟩ :=
        latest_open (P := fun _ => true) (q := (Query.ofTable table).setSortAsc false) hOpen hStores
          hDates hLimit [] rfl rfl rfl rfl rfl ⟨rfl, rfl⟩ (fun c hc => by cases hc) (fun r _ => rfl)
      rw [List.filter_true, ← hn] at hEx
      obtain ⟨same, hSame⟩ : ∃ same : Nat → Nat → Bool, same = fun a b =>
        decide ((p₄.object b).identifier = (p₄.object a).identifier) := ⟨_, rfl⟩
      have hFill : (fillUp same keys ex (limit.toInt - keys.length)).map (entryAt p₄) =
          Quota.prefer (like (pattern k)) n (recent s.entries) := by
        rw [hPrefer, fillUp_map (entryAt p₄) _ _ (by omega), entryAt_frame hLoaded hFrame', hKeys, hEx,
          hLength, ← Quota.others_take hNodup]
        · congr 2
          omega
        · intro a ha b hb
          rw [hSame]
          apply decide_eq_decide.mpr
          exact ((hLoaded.frame hFrame').append hLoaded').same_iff hOpen' hStores hSeq
            (List.mem_append_right _ ha) hb
        · rw [hEx]
          exact hNodup.sublist (List.take_sublist _ _)
      refine ⟨p₄, (fillUp same keys ex (limit.toInt - keys.length)).map fun data =>
        getKey (p₄.object data), ?_, ?_⟩
      · rw [searchKeys, hQuery]
        simp only [Transition.ok_bind, hNot, Bool.false_eq_true, if_false, hLatest]
        rw [if_pos ((size_lt_iff hLimit _).mpr (hn ▸ hFew)), hQuery']
        simp only [Transition.ok_bind, hLatest', hSame]
        rfl
      · rw [map_getKey, hFill, hn]
        exact suggests_prefer hStores _ _
    · have hFull : found.length = n := by
        have hTake := List.length_take_le n ((recent s.entries).filter (like (pattern k)))
        rw [← hFound] at hTake
        omega
      refine ⟨p₂, keys.map fun data => getKey (p₂.object data), ?_, ?_⟩
      · rw [searchKeys, hQuery]
        simp only [Transition.ok_bind, hNot, Bool.false_eq_true, if_false, hLatest]
        rw [if_neg fun hLt => hFew (hn ▸ (size_lt_iff hLimit _).mp hLt)]
        rfl
      · have hOnly : found = Quota.prefer (like (pattern k)) n (recent s.entries) := by
          rw [hPrefer, hFull, Nat.sub_self, Quota.others, List.take_zero, List.append_nil]
        rw [map_getKey, hKeys, hOnly, hn]
        exact suggests_prefer hStores _ _

end Search

/-! ## Runs -/

/-- A call, or a timer of the queue. -/
inductive KeyOp where
  | insert (k : String) (d : Int64)
  | remove (k : String)
  | fire

namespace KeyOp

def next (p : Program) : KeyOp → Except Fault Program
  | insert k d => SearchData.insert k d p
  | remove k => removeSearchKey k p
  | fire => p.fire

def apply (s : Keys) : KeyOp → Keys
  | insert k d => s.insert k d
  | remove k => s.remove k
  | fire => s

def date : KeyOp → Option Int64
  | insert _ d => some d
  | _ => none

theorem rows_le_apply (op : KeyOp) (s : Keys) : s.rows ≤ (op.apply s).rows := by
  cases op with
  | insert k d => exact Keys.rows_le_insert k d s
  | remove k => exact Nat.le_refl _
  | fire => exact Nat.le_refl _

end KeyOp

/-- The keys that the calls have stored. -/
def stored (ops : List KeyOp) : Keys := ops.foldl (fun s op => op.apply s) ⟨[], 0⟩

/-- The dates of the calls. -/
def dates (ops : List KeyOp) : List Int64 := ops.filterMap KeyOp.date

theorem rows_le_foldl (ops : List KeyOp) (s : Keys) :
    s.rows ≤ (ops.foldl (fun s op => op.apply s) s).rows := by
  induction ops generalizing s with
  | nil => exact Nat.le_refl _
  | cons op ops ih => exact Nat.le_trans (op.rows_le_apply s) (ih _)

/-- With a date that is new the dates stay distinct. -/
theorem insert_dates {s : Keys} (hKeys : (s.entries.map Prod.fst).Nodup) {k : String} {d : Int64}
    {rest : List Int64} (h : (s.entries.map Prod.snd ++ d :: rest).Nodup) :
    ((s.insert k d).entries.map Prod.snd ++ rest).Nodup := by
  have hMove : (d :: (s.entries.map Prod.snd ++ rest)).Nodup :=
    (List.perm_middle.nodup_iff).mp h
  obtain ⟨hNew, hOld⟩ := List.nodup_cons.mp hMove
  rw [List.mem_append, not_or] at hNew
  obtain ⟨hDates, hRest, hApart⟩ := List.nodup_append'.mp hOld
  rw [Keys.insert]
  split
  · rw [List.map_map]
    have hSnd : ∀ e : Entry, (Prod.snd ∘ fun e : Entry => if e.1 = Text.cString k then (e.1, d) else e) e =
        if e.1 = Text.cString k then d else e.2 := by
      intro e
      rw [Function.comp_apply]
      split <;> rfl
    have hIn : ∀ e ∈ s.entries, e.2 ≠ d := by
      rintro e he rfl
      exact hNew.1 (List.mem_map_of_mem he)
    refine List.Nodup.append ?_ hRest ?_
    · apply List.Nodup.map_on _ hDates.of_map
      intro x hx y hy hEq
      rw [hSnd, hSnd] at hEq
      split at hEq <;> rename_i hX <;> split at hEq <;> rename_i hY
      · exact List.inj_on_of_nodup_map hKeys hx hy (hX.trans hY.symm)
      · exact absurd hEq.symm (hIn y hy)
      · exact absurd hEq (hIn x hx)
      · exact List.inj_on_of_nodup_map hDates hx hy hEq
    · intro x hx hxRest
      obtain ⟨e, he, rfl⟩ := List.mem_map.mp hx
      rw [hSnd] at hxRest
      split at hxRest
      · exact hNew.2 hxRest
      · exact hApart (List.mem_map_of_mem he) hxRest
  · split
    · exact hOld
    · rw [List.map_append, List.append_assoc]
      exact h

section Runs

variable {p : Program} {u : Sql.Table} {s : Keys} {k : String}

/-- `removeSearchKey`, as long as the rowids fit an `int`. -/
theorem removeSearchKey_stores (h : Openable table p u) (hStores : Stores u s)
    (hSeq : s.rows < 2 ^ 31) :
    ∃ q w, removeSearchKey k p = .ok q ∧ Openable table q w ∧ Stores w (s.remove k) := by
  obtain ⟨p₁, results, hRun, hOpen, -, hObjects, hLt⟩ :=
    resultsEqual_all table_columns h (mem_fields key_mem) (v := .text k) rfl
  have hRows := hStores.rowsOf_cases (k := k)
  rw [rowsOf] at hRows
  rcases hRows with ⟨hNil, hNot⟩ | ⟨r, hOne, hr, hKey, -⟩
  · rw [hNil, List.map_nil, List.map_eq_nil_iff] at hObjects
    refine ⟨p₁, u, ?_, hOpen, ?_⟩
    · rw [removeSearchKey, hRun, hObjects]
      rfl
    · have hAll : s.remove k = s := by
        rw [Keys.remove, List.filter_eq_self.mpr]
        intro e he
        apply decide_eq_true
        rintro hEq
        exact hNot (hEq ▸ List.mem_map_of_mem he)
      rw [hAll]
      exact hStores
  · rw [hOne, List.map_singleton] at hObjects
    obtain ⟨a, ha, hObject⟩ := List.map_eq_singleton_iff.mp hObjects
    obtain ⟨p₂, hRemove, hOpen₂, -⟩ :=
      remove_open table_columns hOpen (hLt a (by rw [ha]; exact List.mem_singleton_self a))
    rw [hObject, (rowObject_get h.holds r).2.2] at hOpen₂
    refine ⟨p₂, _, ?_, hOpen₂, hStores.deleted hr hKey ?_⟩
    · rw [removeSearchKey, hRun, ha]
      change (Model.remove table a p₁ >>= _) = _
      rw [hRemove]
      rfl
    · have hBound := u.bounds r hr
      have hCount := hStores.rows
      rw [toInt_ofInt_of_lt (by omega)]

/-- One call. -/
theorem next_stores (op : KeyOp) (h : Openable table p u) (hStores : Stores u s)
    (hRoom : (op.apply s).rows < 2 ^ 31) :
    ∃ q w, op.next p = .ok q ∧ Openable table q w ∧ Stores w (op.apply s) := by
  cases op with
  | insert k d => exact insert_stores h hStores hRoom
  | remove k => exact removeSearchKey_stores h hStores hRoom
  | fire =>
    obtain ⟨q, hRun, hOpen, -⟩ := h.fire
    exact ⟨q, u, hRun, hOpen, hStores⟩

theorem apply_dates (hStores : Stores u s) {op : KeyOp} {ops : List KeyOp}
    (h : (s.entries.map Prod.snd ++ dates (op :: ops)).Nodup) :
    ((op.apply s).entries.map Prod.snd ++ dates ops).Nodup := by
  cases op with
  | insert k d => exact insert_dates hStores.nodup h
  | remove k => exact h.sublist ((List.filter_sublist.map _).append_right _)
  | fire => exact h

/-- Every run ends in a table with the entries that the calls have stored, their dates distinct if
those of the calls are. -/
theorem run_stores (ops : List KeyOp) (h : Openable table p u) (hStores : Stores u s)
    (hDates : (s.entries.map Prod.snd ++ dates ops).Nodup)
    (hRoom : (ops.foldl (fun s op => op.apply s) s).rows < 2 ^ 31) :
    ∃ q w, Transition.run KeyOp.next p ops = .ok q ∧ Openable table q w ∧
      Stores w (ops.foldl (fun s op => op.apply s) s) ∧
      ((ops.foldl (fun s op => op.apply s) s).entries.map Prod.snd).Nodup := by
  induction ops generalizing p u s with
  | nil =>
    refine ⟨p, u, rfl, h, hStores, ?_⟩
    exact (List.nodup_append'.mp hDates).1
  | cons op ops ih =>
    have hLe := rows_le_foldl ops (op.apply s)
    obtain ⟨q, w, hRun, hOpen, hNext⟩ := next_stores op h hStores (lt_of_le_of_lt hLe hRoom)
    obtain ⟨q', w', hRun', hRest⟩ := ih hOpen hNext (apply_dates hStores hDates) hRoom
    refine ⟨q', w', ?_, hRest⟩
    rw [Transition.run_cons, hRun, Transition.ok_bind, hRun']

end Runs

/-- `n` keys, each inserted and removed. -/
def churn (n : Nat) : List KeyOp :=
  (List.range n).flatMap fun i => [.insert "x" (Int64.ofNat (i + 3)), .remove "x"]

theorem churn_succ (n : Nat) :
    churn (n + 1) = churn n ++ [.insert "x" (Int64.ofNat (n + 3)), .remove "x"] := by
  rw [churn, List.range_succ, List.flatMap_append]
  rfl

theorem stored_churn (n : Nat) : stored (churn n) = ⟨[], n⟩ := by
  induction n with
  | zero => rfl
  | succ n ih =>
    have hLast : stored (churn (n + 1)) =
        ((stored (churn n)).insert "x" (Int64.ofNat (n + 3))).remove "x" := by
      rw [stored, churn_succ, List.foldl_append]
      rfl
    rw [hLast, ih]
    rfl

theorem dates_churn (n : Nat) : dates (churn n) = (List.range n).map fun i => Int64.ofNat (i + 3) := by
  induction n with
  | zero => rfl
  | succ n ih =>
    rw [dates, churn_succ, List.filterMap_append, ← dates, ih, List.range_succ, List.map_append]
    rfl

/-- The rows below `2 ^ 31` are used up, two keys are inserted, and the second one once more. -/
def late (n : Nat) : List KeyOp := churn n ++ [.insert "j" 1, .insert "k" 0, .insert "k" 2]

theorem late_dates {n : Nat} (hn : n < 2 ^ 31) : (dates (late n)).Nodup := by
  have hSplit : dates (late n) = dates (churn n) ++ [1, 0, 2] := by
    rw [dates, late, List.filterMap_append]
    rfl
  rw [hSplit, dates_churn]
  have hToInt : ∀ i ∈ List.range n, (Int64.ofNat (i + 3)).toInt = i + 3 := by
    intro i hi
    have hLt := List.mem_range.mp hi
    rw [Int64.toInt_ofNat_of_lt (by omega)]
    rfl
  refine List.Nodup.append ?_ (by decide) ?_
  · apply List.Nodup.map_on _ List.nodup_range
    intro i hi j hj hEq
    have hSame := congrArg Int64.toInt hEq
    rw [hToInt i hi, hToInt j hj] at hSame
    omega
  · intro x hx hLast
    obtain ⟨i, hi, rfl⟩ := List.mem_map.mp hx
    have hLarge := hToInt i hi
    have hSmall : ∀ y : Int64, y = 1 ∨ y = 0 ∨ y = 2 → y.toInt < 3 := by
      rintro y (rfl | rfl | rfl) <;> decide
    rw [List.mem_cons, List.mem_cons, List.mem_singleton] at hLast
    have hLess := hSmall _ hLast
    omega

theorem stored_late (n : Nat) : (stored (late n)).entries = [("j", 1), ("k", 2)] := by
  have hLast : stored (late n) =
      (((stored (churn n)).insert "j" 1).insert "k" 0).insert "k" 2 := by
    rw [stored, late, List.foldl_append, List.foldl_cons, List.foldl_cons, List.foldl_cons,
      List.foldl_nil]
    rfl
  rw [hLast, stored_churn]
  rfl

/-- The key `k` keeps its first date. -/
theorem run_late {n : Nat} (hn : n + 1 = 2 ^ 31) :
    ∃ p u, Transition.run KeyOp.next (Program.install (fun _ => .zero) id) (late n) = .ok p ∧
      Openable table p u ∧ Stores u ⟨[("j", 1), ("k", 0)], n + 2⟩ := by
  have hMax : (2 : Nat) ^ 32 < Sql.maxRowid := by decide
  have hChurn : (dates (churn n)).Nodup := by
    have hLate := late_dates (n := n) (by omega)
    rw [dates, late, List.filterMap_append] at hLate
    exact hLate.of_append_left
  obtain ⟨p₀, u₀, hRun₀, hOpen₀, hStores₀, -⟩ :=
    run_stores (churn n) (install_openable (fun _ => .zero) id (by decide)) stores_empty hChurn
      (by change (stored (churn n)).rows < 2 ^ 31; rw [stored_churn]; change n < 2 ^ 31; omega)
  change Stores u₀ (stored (churn n)) at hStores₀
  rw [stored_churn] at hStores₀
  have hEmpty : u₀.rows = [] := List.map_eq_nil_iff.mp hStores₀.entries
  have hSeq₀ : u₀.seq = n := hStores₀.rows
  obtain ⟨p₁, u₁, hRun₁, hOpen₁, hStores₁, hRows₁⟩ :=
    insert_new (k := "j") (d := 1) hOpen₀ hStores₀ (by simp) (by omega)
  have hSeq₁ : u₁.seq = n + 1 := hStores₁.rows
  obtain ⟨p₂, u₂, hRun₂, hOpen₂, hStores₂, hRows₂⟩ :=
    insert_new (k := "k") (d := 0) hOpen₁ hStores₁ (show "k" ∉ ["j"] by decide) (by omega)
  obtain ⟨p₃, u₃, hRun₃, hOpen₃, hStores₃⟩ :=
    insert_missed (k := "k") (d := 2) hOpen₂ hStores₂ (show "k" ∈ ["j", "k"] by decide) (by
      intro r hr
      rcases hRows₂ r hr with hOld | hNew
      · rcases hRows₁ r hOld with hNone | hNew
        · rw [hEmpty] at hNone
          cases hNone
        · omega
      · omega)
  refine ⟨p₃, u₃, ?_, hOpen₃, hStores₃⟩
  rw [late, Transition.run_append, hRun₀, Transition.ok_bind, Transition.run_cons]
  change (SearchData.insert "j" 1 p₀ >>= fun t => Transition.run KeyOp.next t _) = _
  rw [hRun₁, Transition.ok_bind, Transition.run_cons]
  change (SearchData.insert "k" 0 p₁ >>= fun t => Transition.run KeyOp.next t _) = _
  rw [hRun₂, Transition.ok_bind, Transition.run_cons]
  change (SearchData.insert "k" 2 p₂ >>= fun t => Transition.run KeyOp.next t []) = _
  rw [hRun₃]
  rfl

end RetroConfig.Context
