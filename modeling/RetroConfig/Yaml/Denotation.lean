import RetroConfig.Yaml.Termination
import Mathlib.Data.List.TakeWhile

/-!
# What `yaml::parse` reads

A document without aliases whose keys are scalars denotes a tree: a scalar its text, a
sequence the list of its items, a mapping the map that holds at each key the value given
last (`lookup_denote`). `yaml::parse` reads such a document up to its document end, and
returns the tree of the same document with every text cut at its first NUL
(`parse_document`), unless the document has a sequence somewhere: then it does not return
(`parse_document_diverges`). So the result is the tree the events denote exactly when
there is no sequence and no text of the denoted tree has a NUL.
-/

namespace RetroConfig.Yaml

open Text

/-- A node of a document without aliases, with scalar keys. -/
inductive Node where
  | scalar (text : String)
  | sequence (items : List Node)
  | mapping (entries : List (String × Node))

/-- Induction over a node, its items and the values of its entries. -/
theorem Node.induction {P : Node → Prop} (scalar : ∀ text, P (.scalar text))
    (sequence : ∀ items, (∀ item ∈ items, P item) → P (.sequence items))
    (mapping : ∀ entries, (∀ e ∈ entries, P e.2) → P (.mapping entries)) (node : Node) :
    P node := by
  match node with
  | .scalar text => exact scalar text
  | .sequence items =>
    exact sequence items (fun item _ => Node.induction scalar sequence mapping item)
  | .mapping entries =>
    exact mapping entries (fun e _ => Node.induction scalar sequence mapping e.2)
termination_by sizeOf node
decreasing_by
  · have := List.sizeOf_lt_of_mem (by assumption : item ∈ items)
    simp only [Node.sequence.sizeOf_spec]
    omega
  · have := List.sizeOf_lt_of_mem (by assumption : e ∈ entries)
    have : sizeOf e.2 < sizeOf e := by
      cases e
      simp only [Prod.mk.sizeOf_spec]
      omega
    simp only [Node.mapping.sizeOf_spec]
    omega

mutual

def Node.events : Node → List Event
  | .scalar text => [.scalar text]
  | .sequence items => .sequenceStart :: (itemEvents items ++ [.sequenceEnd])
  | .mapping entries => .mappingStart :: (entryEvents entries ++ [.mappingEnd])

def itemEvents : List Node → List Event
  | [] => []
  | item :: items => item.events ++ itemEvents items

def entryEvents : List (String × Node) → List Event
  | [] => []
  | (key, node) :: entries => .scalar key :: (node.events ++ entryEvents entries)

end

/-- The events of a stream with one document. -/
def documentEvents (node : Node) : List Event :=
  .streamStart :: .documentStart :: (node.events ++ [.documentEnd, .streamEnd])

mutual

/-- The tree of a node, each text given by `text`. -/
def denoteWith (text : String → String) : Node → Yaml
  | .scalar s => .value (text s)
  | .sequence items => .array (denoteItems text items)
  | .mapping entries => .map (OrderedMap.ofPairs (denoteEntries text entries))

def denoteItems (text : String → String) : List Node → List Yaml
  | [] => []
  | item :: items => denoteWith text item :: denoteItems text items

def denoteEntries (text : String → String) : List (String × Node) → List (String × Yaml)
  | [] => []
  | (key, node) :: entries => (text key, denoteWith text node) :: denoteEntries text entries

end

/-- The tree the events of a node denote. -/
def denote (node : Node) : Yaml := denoteWith id node

mutual

def hasSequence : Node → Bool
  | .scalar _ => false
  | .sequence _ => true
  | .mapping entries => entriesHaveSequence entries

def entriesHaveSequence : List (String × Node) → Bool
  | [] => false
  | (_, node) :: entries => hasSequence node || entriesHaveSequence entries

end

theorem denoteEntries_eq (text : String → String) (entries : List (String × Node)) :
    denoteEntries text entries = entries.map (fun e => (text e.1, denoteWith text e.2)) := by
  induction entries with
  | nil => simp [denoteEntries]
  | cons e entries ih => simp [denoteEntries, ih]

theorem entriesHaveSequence_eq (entries : List (String × Node)) :
    entriesHaveSequence entries = entries.any (fun e => hasSequence e.2) := by
  induction entries with
  | nil => simp [entriesHaveSequence]
  | cons e entries ih => simp [entriesHaveSequence, ih]

/-- A mapping denotes the map that holds at each key what the last entry with that key
denotes. -/
theorem lookup_denote (entries : List (String × Node)) (key : String) :
    ∃ m, denote (.mapping entries) = .map m ∧ OrderedMap.Sorted m ∧
      m.lookup key = (entries.reverse.lookup key).map denote := by
  refine ⟨OrderedMap.ofPairs (denoteEntries id entries), by simp [denote, denoteWith],
    OrderedMap.sorted_ofPairs _, ?_⟩
  rw [OrderedMap.lookup_ofPairs, denoteEntries_eq, ← List.map_reverse]
  exact OrderedMap.lookup_map denote key entries.reverse

/-! ## Reading a node -/

theorem Returns.of_step {α : Type} {f g : Nat → Option α} {m : Nat} (hg : Mono g)
    (h : ∀ n, m ≤ n → f (n + 1) = g n) {a : α} (ha : Returns g a) : Returns f a := by
  obtain ⟨k, hk⟩ := ha
  exact ⟨max m k + 1, (h _ (Nat.le_max_left m k)).trans (hg.le (Nat.le_max_right m k) hk)⟩

theorem Diverges.of_step {α : Type} {f g : Nat → Option α} {m : Nat} (hf : Mono f)
    (h : ∀ n, m ≤ n → f (n + 1) = g n) (hg : Diverges g) : Diverges f := by
  refine hf.diverges (m := m + 1) ?_
  intro n hn
  obtain ⟨k, rfl⟩ : ∃ k, n = k + 1 := ⟨n - 1, by omega⟩
  exact (h k (by omega)).trans (hg k)

theorem parseNode_mapping {t : Tokenizer} (h : t.current = some .mappingStart) (n : Nat) :
    parseNode (n + 1) t = parseMap n [] t := by
  rw [parseNode]
  simp only [h]

theorem parseMap_start {t u : Tokenizer} (h : t.current = some .mappingStart)
    (hGoes : goesOn t = (true, u)) (entries : List (String × Yaml)) (n : Nat) :
    parseMap (n + 1) entries t = parseMap n entries u := by
  rw [parseMap]
  simp only [h, hGoes]

/-- `parse_node` is called on the document start and steps over it. -/
theorem parseNode_document {t u : Tokenizer} (h : t.current = some .documentStart)
    (hGoes : goesOn t = (true, u)) (n : Nat) : parseNode (n + 1) t = parseNode n u := by
  rw [parseNode]
  simp only [h, hGoes]

/-- The tokenizer that stands on the first of the events to come. -/
def standing (fails : Bool) : List Event → Tokenizer
  | [] => ⟨[], fails, Option.none⟩
  | e :: rest => ⟨rest, fails, some e⟩

theorem next_standing (fails : Bool) (c : Option Event) (e : Event) (rest : List Event) :
    (Tokenizer.mk (e :: rest) fails c).next = (true, standing fails (e :: rest)) := rfl

theorem goesOn_standing (fails : Bool) {c e : Event} (rest : List Event)
    (hOn : c ≠ .documentEnd) :
    goesOn ⟨e :: rest, fails, some c⟩ = (true, standing fails (e :: rest)) := by
  unfold goesOn
  rw [if_neg (by simpa using hOn)]
  rfl

theorem entries_events_cons (entries : List (String × Node)) (rest : List Event) :
    ∃ e tail, entryEvents entries ++ .mappingEnd :: rest = e :: tail := by
  cases entryEvents entries with
  | nil => exact ⟨_, _, rfl⟩
  | cons e es => exact ⟨_, _, rfl⟩

theorem node_events_cons (node : Node) : ∃ e tail, node.events = e :: tail := by
  cases node <;> exact ⟨_, _, by rw [Node.events]⟩

/-- The entries of a mapping, with `acc` read before them, up to the end of the mapping.
`hNode` is what is known about the values. -/
theorem read_entries (fails : Bool) (entries : List (String × Node))
    (hNode : ∀ e ∈ entries, ∀ rest, ∃ last, last ≠ .documentEnd ∧
      Returns (fun n => parseNode n (standing fails (e.2.events ++ rest)))
        (denoteWith cString e.2, ⟨rest, fails, some last⟩))
    (acc : List (String × Yaml)) (rest : List Event) :
    Returns (fun n => parseMap n acc (standing fails (entryEvents entries ++ .mappingEnd :: rest)))
      (.map ((denoteEntries cString entries).foldl (fun m p => OrderedMap.insert p.1 p.2 m) acc),
        ⟨rest, fails, some .mappingEnd⟩) := by
  induction entries generalizing acc with
  | nil => exact ⟨1, by simp [entryEvents, standing, parseMap, denoteEntries]⟩
  | cons entry entries ih =>
    obtain ⟨key, node⟩ := entry
    have ih' := ih (fun e he => hNode e (List.mem_cons_of_mem _ he))
      (OrderedMap.insert (cString key) (denoteWith cString node) acc)
    obtain ⟨last, hLast, m, hm⟩ := hNode (key, node) List.mem_cons_self
      (entryEvents entries ++ .mappingEnd :: rest)
    obtain ⟨e, tail, hTail⟩ := entries_events_cons entries rest
    obtain ⟨f, front, hFront⟩ := node_events_cons node
    rw [hTail] at ih' hm
    have hm' : parseNode m (standing fails (node.events ++ e :: tail)) =
      some (denoteWith cString node, ⟨e :: tail, fails, some last⟩) := hm
    rw [hFront] at hm'
    have hEvents : entryEvents ((key, node) :: entries) ++ .mappingEnd :: rest =
        .scalar key :: f :: (front ++ e :: tail) := by
      rw [entryEvents, List.cons_append, List.append_assoc, hTail, hFront]
      rfl
    rw [hEvents]
    refine Returns.of_step (m := m) (parseMap_mono _ _) ?_ ih'
    intro n hmn
    rw [parseMap_entry (t := standing fails (.scalar key :: f :: (front ++ e :: tail))) rfl hm' hmn,
      goesOn_standing fails tail hLast]

/-- A mapping is the rounds of `parse_map` on its entries. -/
theorem parseNode_entries (fails : Bool) (entries : List (String × Node)) (rest : List Event)
    (n : Nat) :
    parseNode (n + 2) (standing fails ((Node.mapping entries).events ++ rest)) =
      parseMap n [] (standing fails (entryEvents entries ++ .mappingEnd :: rest)) := by
  obtain ⟨e, tail, hTail⟩ := entries_events_cons entries rest
  have hEvents : (Node.mapping entries).events ++ rest = .mappingStart :: e :: tail := by
    rw [Node.events, List.cons_append, List.append_assoc]
    exact congrArg _ hTail
  rw [hEvents, hTail, parseNode_mapping (t := standing fails (.mappingStart :: e :: tail)) rfl]
  exact parseMap_start rfl (goesOn_standing fails tail (by simp)) [] n

/-- A node without sequences is read up to its last event. -/
theorem read_node (fails : Bool) (node : Node) (hSeq : hasSequence node = false) :
    ∀ rest, ∃ last, last ≠ .documentEnd ∧
      Returns (fun n => parseNode n (standing fails (node.events ++ rest)))
        (denoteWith cString node, ⟨rest, fails, some last⟩) := by
  induction node using Node.induction with
  | scalar text =>
    intro rest
    refine ⟨.scalar text, by simp, 1, ?_⟩
    simp [Node.events, standing, parseNode, denoteWith]
  | sequence items =>
    rw [hasSequence] at hSeq
    cases hSeq
  | mapping entries ih =>
    intro rest
    rw [hasSequence, entriesHaveSequence_eq, List.any_eq_false] at hSeq
    obtain ⟨n, hn⟩ := read_entries fails entries
      (fun e he => ih e he (Bool.not_eq_true _ ▸ hSeq e he)) [] rest
    refine ⟨.mappingEnd, by simp, n + 2, ?_⟩
    rw [denoteWith]
    exact (parseNode_entries fails entries rest n).trans hn

/-- The rounds of `parse_map` never leave an entry whose value has a sequence. -/
theorem entries_diverge (fails : Bool) (entries : List (String × Node))
    (hNode : ∀ e ∈ entries, hasSequence e.2 = true → ∀ rest,
      Diverges (fun n => parseNode n (standing fails (e.2.events ++ rest))))
    (hSeq : entriesHaveSequence entries = true) (acc : List (String × Yaml)) (rest : List Event) :
    Diverges
      (fun n => parseMap n acc (standing fails (entryEvents entries ++ .mappingEnd :: rest))) := by
  induction entries generalizing acc with
  | nil => cases hSeq
  | cons entry entries ih =>
    obtain ⟨key, node⟩ := entry
    obtain ⟨e, tail, hTail⟩ := entries_events_cons entries rest
    obtain ⟨f, front, hFront⟩ := node_events_cons node
    have hEvents : entryEvents ((key, node) :: entries) ++ .mappingEnd :: rest =
        .scalar key :: f :: (front ++ e :: tail) := by
      rw [entryEvents, List.cons_append, List.append_assoc, hTail, hFront]
      rfl
    rw [hEvents]
    by_cases hValue : hasSequence node = true
    · have hDiv := hNode (key, node) List.mem_cons_self hValue (e :: tail)
      rw [hFront] at hDiv
      exact parseMap_diverges_of_value
        (t := standing fails (.scalar key :: f :: (front ++ e :: tail))) rfl hDiv
    · rw [entriesHaveSequence, Bool.or_eq_true] at hSeq
      have ih' := ih (fun e he => hNode e (List.mem_cons_of_mem _ he)) (hSeq.resolve_left hValue)
        (OrderedMap.insert (cString key) (denoteWith cString node) acc)
      obtain ⟨last, hLast, m, hm⟩ :=
        read_node fails node (Bool.eq_false_iff.mpr hValue) (e :: tail)
      have hm' : parseNode m (standing fails (node.events ++ e :: tail)) =
        some (denoteWith cString node, ⟨e :: tail, fails, some last⟩) := hm
      rw [hFront] at hm'
      rw [hTail] at ih'
      refine Diverges.of_step (m := m) (parseMap_mono _ _) ?_ ih'
      intro n hmn
      rw [parseMap_entry (t := standing fails (.scalar key :: f :: (front ++ e :: tail))) rfl hm'
        hmn, goesOn_standing fails tail hLast]

theorem node_diverges (fails : Bool) (node : Node) (hSeq : hasSequence node = true) :
    ∀ rest, Diverges (fun n => parseNode n (standing fails (node.events ++ rest))) := by
  induction node using Node.induction with
  | scalar text =>
    rw [hasSequence] at hSeq
    cases hSeq
  | sequence items =>
    intro rest
    rw [Node.events]
    exact parseNode_sequence rfl
  | mapping entries ih =>
    intro rest
    rw [hasSequence] at hSeq
    refine (parseNode_mono _).diverges (m := 2) ?_
    intro n hn
    obtain ⟨k, rfl⟩ : ∃ k, n = k + 2 := ⟨n - 2, by omega⟩
    exact (parseNode_entries fails entries rest k).trans
      (entries_diverge fails entries ih hSeq [] rest k)

/-! ## Reading a document -/

/-- The loop of `yaml::parse` reaches the document start in its second round and then the
first event of the node. -/
theorem parse_documentEvents (node : Node) (n : Nat) :
    parse (n + 3) (documentEvents node) false =
      match parseNode n (standing false (node.events ++ [.documentEnd, .streamEnd])) with
      | Option.none => Option.none
      | some (doc, t) =>
        if t.current = some .documentEnd then some (doc, t) else parseLoop (n + 1) doc t := by
  obtain ⟨e, tail, hTail⟩ := node_events_cons node
  have hEvents : documentEvents node =
      .streamStart :: .documentStart :: e :: (tail ++ [.documentEnd, .streamEnd]) := by
    rw [documentEvents, hTail]
    rfl
  have hNode : parseNode (n + 1)
      (standing false (.documentStart :: e :: (tail ++ [.documentEnd, .streamEnd]))) =
      parseNode n (standing false (e :: (tail ++ [.documentEnd, .streamEnd]))) :=
    parseNode_document rfl (goesOn_standing false _ (by simp)) n
  rw [parse, parseLoop, hEvents]
  simp only [Tokenizer.ofEvents, next_standing, standing]
  rw [parseLoop]
  simp only [next_standing, standing]
  simp only [standing] at hNode
  rw [hNode, hTail]
  rfl

/-- A document without sequences is read up to its document end, and gives the tree of its
texts cut at their first NUL. -/
theorem parse_document (node : Node) (hSeq : hasSequence node = false) :
    Returns (fun n => parse n (documentEvents node) false)
      (denoteWith cString node, ⟨[.streamEnd], false, some .documentEnd⟩) := by
  obtain ⟨last, hLast, n, hn⟩ := read_node false node hSeq [.documentEnd, .streamEnd]
  refine ⟨n + 3, ?_⟩
  dsimp only at hn ⊢
  rw [parse_documentEvents, hn]
  simp only [Option.some.injEq, hLast, if_false]
  simp [parseLoop, Tokenizer.next]

theorem parse_document_diverges (node : Node) (hSeq : hasSequence node = true) :
    Diverges (fun n => parse n (documentEvents node) false) := by
  refine (parseLoop_mono _ _).diverges (m := 3) ?_
  intro n hn
  obtain ⟨k, rfl⟩ : ∃ k, n = k + 3 := ⟨n - 3, by omega⟩
  have hNode := node_diverges false node hSeq [.documentEnd, .streamEnd] k
  dsimp only at hNode
  exact (parse_documentEvents node k).trans (by rw [hNode])

/-! ## Where the result is the denoted tree -/

mutual

/-- No text of a tree has a NUL. -/
def nulFree : Yaml → Bool
  | .none => true
  | .value text => !text.toList.contains '\x00'
  | .array items => itemsNulFree items
  | .map entries => entriesNulFree entries

def itemsNulFree : List Yaml → Bool
  | [] => true
  | item :: items => nulFree item && itemsNulFree items

def entriesNulFree : List (String × Yaml) → Bool
  | [] => true
  | (key, v) :: entries => !key.toList.contains '\x00' && nulFree v && entriesNulFree entries

end

theorem entriesNulFree_iff (entries : List (String × Yaml)) :
    entriesNulFree entries = true ↔
      ∀ e ∈ entries, '\x00' ∉ e.1.toList ∧ nulFree e.2 = true := by
  induction entries with
  | nil => simp [entriesNulFree]
  | cons e entries ih => simp [entriesNulFree, ih, and_assoc]

theorem denoteEntries_mem {text : String → String} {entries : List (String × Node)}
    {p : String × Yaml} (h : p ∈ denoteEntries text entries) :
    ∃ e ∈ entries, p = (text e.1, denoteWith text e.2) := by
  rw [denoteEntries_eq] at h
  obtain ⟨e, he, rfl⟩ := List.mem_map.mp h
  exact ⟨e, he, rfl⟩

theorem nulFree_cString (node : Node) (hSeq : hasSequence node = false) :
    nulFree (denoteWith cString node) = true := by
  induction node using Node.induction with
  | scalar text => simpa [denoteWith, nulFree, NulFree] using Text.nulFree_cString text
  | sequence items =>
    rw [hasSequence] at hSeq
    cases hSeq
  | mapping entries ih =>
    rw [hasSequence, entriesHaveSequence_eq, List.any_eq_false] at hSeq
    rw [denoteWith, nulFree, entriesNulFree_iff]
    intro p hp
    obtain ⟨e, he, rfl⟩ := denoteEntries_mem (OrderedMap.mem_ofPairs hp)
    exact ⟨Text.nulFree_cString e.1, ih e he (Bool.not_eq_true _ ▸ hSeq e he)⟩

/-- Every key of a mapping, and the value it has last, are in the denoted map. -/
theorem denote_mapping_nulFree {entries : List (String × Node)}
    (h : nulFree (denote (.mapping entries)) = true) :
    (∀ e ∈ entries, '\x00' ∉ e.1.toList) ∧
      ∀ key node, entries.reverse.lookup key = some node → nulFree (denote node) = true := by
  rw [denote, denoteWith, nulFree, entriesNulFree_iff] at h
  have hLast : ∀ key node, entries.reverse.lookup key = some node →
      (key, denote node) ∈ OrderedMap.ofPairs (denoteEntries id entries) := by
    intro key node hNode
    apply OrderedMap.mem_of_lookup
    rw [OrderedMap.lookup_ofPairs, denoteEntries_eq, ← List.map_reverse]
    exact (OrderedMap.lookup_map denote key entries.reverse).trans (by rw [hNode]; rfl)
  refine ⟨fun e he => ?_, fun key node hNode => (h _ (hLast key node hNode)).2⟩
  cases hKey : entries.reverse.lookup e.1 with
  | none =>
    have := List.lookup_eq_none_iff.mp hKey e (List.mem_reverse.mpr he)
    simp at this
  | some node => exact (h _ (hLast e.1 node hKey)).1

/-- Cutting the texts changes nothing if no text of the denoted tree has a NUL. An entry
that a later one replaces may have one. -/
theorem denoteWith_cString (node : Node) (hSeq : hasSequence node = false)
    (h : nulFree (denote node) = true) : denoteWith cString node = denote node := by
  induction node using Node.induction with
  | scalar text =>
    have hText : '\x00' ∉ text.toList := by simpa [denote, denoteWith, nulFree] using h
    rw [denote, denoteWith, denoteWith, cString_of_nulFree hText, id]
  | sequence items =>
    rw [hasSequence] at hSeq
    cases hSeq
  | mapping entries ih =>
    rw [hasSequence, entriesHaveSequence_eq, List.any_eq_false] at hSeq
    obtain ⟨hKeys, hValues⟩ := denote_mapping_nulFree h
    have hCut : denoteEntries cString entries =
        entries.map (fun e => (e.1, denoteWith cString e.2)) := by
      rw [denoteEntries_eq]
      refine List.map_congr_left fun e he => ?_
      rw [cString_of_nulFree (hKeys e he)]
    rw [denote, denoteWith, denoteWith]
    congr 1
    refine OrderedMap.ext_lookup (OrderedMap.sorted_ofPairs _) (OrderedMap.sorted_ofPairs _) ?_
    intro key
    rw [OrderedMap.lookup_ofPairs, OrderedMap.lookup_ofPairs, hCut, denoteEntries_eq,
      ← List.map_reverse, ← List.map_reverse]
    have hCutKey := OrderedMap.lookup_map (denoteWith cString) key entries.reverse
    have hKey := OrderedMap.lookup_map denote key entries.reverse
    refine hCutKey.trans (Eq.trans ?_ hKey.symm)
    cases hNode : entries.reverse.lookup key with
    | none => rfl
    | some node =>
      have hMem : (key, node) ∈ entries :=
        List.mem_reverse.mp (OrderedMap.mem_of_lookup hNode)
      have hValue := ih (key, node) hMem (Bool.not_eq_true _ ▸ hSeq _ hMem)
        (hValues key node hNode)
      exact congrArg some hValue

/-- `yaml::parse` returns the tree that the events of a document denote, and stops on its
document end, exactly when the document has no sequence and the denoted tree no NUL. -/
theorem parse_document_iff (node : Node) :
    (∃ t, Returns (fun n => parse n (documentEvents node) false) (denote node, t) ∧
        t.current = some .documentEnd ∧ t.rest = [.streamEnd]) ↔
      hasSequence node = false ∧ nulFree (denote node) = true := by
  constructor
  · rintro ⟨t, hReturns, -⟩
    have hSeq : hasSequence node = false := by
      cases h : hasSequence node with
      | false => rfl
      | true =>
        obtain ⟨n, hn⟩ := hReturns
        rw [parse_document_diverges node h n] at hn
        cases hn
    refine ⟨hSeq, ?_⟩
    have hSame := (parseLoop_mono _ _).unique hReturns (parse_document node hSeq)
    rw [(Prod.mk.inj hSame).1]
    exact nulFree_cString node hSeq
  · rintro ⟨hSeq, hNul⟩
    have hReturns := parse_document node hSeq
    rw [denoteWith_cString node hSeq hNul] at hReturns
    exact ⟨_, hReturns, rfl, rfl⟩

/-- Nothing is returned for the document `[]`. -/
theorem parse_empty_sequence :
    ¬ ∃ t, Returns (fun n => parse n (documentEvents (.sequence [])) false)
        (denote (.sequence []), t) ∧ t.current = some .documentEnd ∧ t.rest = [.streamEnd] := by
  rintro ⟨t, ⟨n, hn⟩, -⟩
  rw [parse_document_diverges (.sequence []) (by rw [hasSequence]) n] at hn
  cases hn

end RetroConfig.Yaml
