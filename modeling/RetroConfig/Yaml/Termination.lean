import RetroConfig.Yaml.Parser

/-!
# When `yaml::parse` returns

The loop of `yaml::parse` leaves only on a document end and does not look at the result of
`next`, so it runs for ever when no document end comes: on an empty stream, and on a parse
error before the end of the first document. `parse_array` is entered with the sequence
start as the current event and hands this event to `parse_node`, which calls `parse_array`
again: a sequence where a node is looked for is never left either.

`Position` follows which of the four functions is looking at an event, and `finishes`
reads from the events whether a document end comes before such a sequence. It is exactly
the condition under which `yaml::parse` returns (`parse_returns_iff`).
-/

namespace RetroConfig.Yaml

open Text

/-- Where the parser stands: outside of a document, looking for a node inside `d` maps, or
looking for a key of a map that `d` other maps enclose. -/
inductive Position where
  | document
  | node (d : Nat)
  | key (d : Nat)

/-- Where the parser goes on after a node inside `d` maps. -/
def Position.outer : Nat → Position
  | 0 => .document
  | d + 1 => .key d

def Position.after : Position → Event → Position
  | .document, .documentStart => .node 0
  | .node d, .scalar _ => outer d
  | .node d, .mappingStart => .key d
  | .key d, .scalar _ => .node (d + 1)
  | .key d, .mappingEnd => outer d
  | p, _ => p

/-- A document end comes, and before it no sequence starts where a node is looked for. -/
def finishes : Position → List Event → Bool
  | _, [] => false
  | _, .documentEnd :: _ => true
  | .node _, .sequenceStart :: _ => false
  | p, e :: rest => finishes (p.after e) rest

/-- The events from the current one on. -/
def Tokenizer.events (t : Tokenizer) : List Event := t.current.toList ++ t.rest

/-- The tokenizer stands on an event, or libyaml has nothing more to deliver. -/
def Tokenizer.Started (t : Tokenizer) : Prop := t.current = Option.none → t.rest = []

theorem next_started (t : Tokenizer) : t.next.2.Started := by
  unfold Tokenizer.next
  split
  · intro h
    cases h
  · intro _
    assumption

theorem next_events (t : Tokenizer) : t.next.2.events = t.rest := by
  unfold Tokenizer.next Tokenizer.events
  split
  · rename_i h
    exact h.symm
  · rename_i h
    simp [h]

/-- The end of libyaml's events, with no error to report any more: every further call of
`next` succeeds and delivers no event. -/
def Tokenizer.Spent (t : Tokenizer) : Prop := t.rest = [] ∧ t.fails = false ∧ t.current = Option.none

theorem Spent.next {t : Tokenizer} (h : t.Spent) : t.next = (true, t) := by
  obtain ⟨rest, fails, current⟩ := t
  obtain ⟨rfl, rfl, rfl⟩ := h
  rfl

theorem Spent.goesOn {t : Tokenizer} (h : t.Spent) : goesOn t = (true, t) := by
  unfold Yaml.goesOn
  rw [if_neg (by simp [h.2.2]), Spent.next h]

theorem parseNode_spent {t : Tokenizer} (h : t.Spent) : Diverges (fun n => parseNode n t) := by
  intro n
  dsimp only
  induction n with
  | zero => rw [parseNode]
  | succ n ih =>
    rw [parseNode]
    simp only [h.2.2, Spent.goesOn h]
    exact ih

theorem parseMap_spent {t : Tokenizer} (h : t.Spent) (entries : List (String × Yaml)) :
    Diverges (fun n => parseMap n entries t) := by
  intro n
  dsimp only
  induction n with
  | zero => rw [parseMap]
  | succ n ih =>
    rw [parseMap]
    simp only [h.2.2, Spent.goesOn h]
    exact ih

theorem parseLoop_spent {t : Tokenizer} (h : t.Spent) (doc : Yaml) :
    Diverges (fun n => parseLoop n doc t) := by
  intro n
  dsimp only
  induction n with
  | zero => rw [parseLoop]
  | succ n ih =>
    rw [parseLoop]
    simp only [Spent.next h, h.2.2]
    exact ih

/-- `parse_node` and `parse_array` hand the sequence start to each other. -/
theorem parseNode_sequence {t : Tokenizer} (h : t.current = some .sequenceStart) :
    Diverges (fun n => parseNode n t) := by
  have aux : ∀ n, parseNode n t = Option.none ∧ ∀ items, parseArray n items t = Option.none := by
    intro n
    induction n with
    | zero => exact ⟨by rw [parseNode], fun items => by rw [parseArray]⟩
    | succ n ih =>
      refine ⟨?_, fun items => ?_⟩
      · rw [parseNode]
        simp only [h]
        exact ih.2 []
      · rw [parseArray]
        simp only [h, ih.1]
  exact fun n => (aux n).1

/-! ## How a helper ends -/

/-- The ways a helper that was called on `t` at position `p`, inside `d` maps, can end,
each with what the events say about it: it runs for ever, it returns on the last event of
what it read, it stops on a document end, or it leaves on an error. -/
inductive Outcome (p : Position) (d : Nat) (t : Tokenizer)
    (f : Nat → Option (Yaml × Tokenizer)) : Prop where
  | diverges (h : Diverges f) (hScan : finishes p t.events = false)
  | returns (v : Yaml) (u : Tokenizer) (h : Returns f (v, u))
      (hOn : u.current ≠ some .documentEnd) (hShort : u.rest.length ≤ t.rest.length)
      (hScan : finishes p t.events = finishes (.outer d) u.rest)
  | stops (v : Yaml) (u : Tokenizer) (h : Returns f (v, u))
      (hEnd : u.current = some .documentEnd) (hScan : finishes p t.events = true)
  | fails (v : Yaml) (u : Tokenizer) (h : Returns f (v, u)) (hSpent : u.Spent)
      (hScan : finishes p t.events = false)

theorem next_rest_length (t : Tokenizer) : t.next.2.rest.length ≤ t.rest.length := by
  unfold Tokenizer.next
  split
  · rename_i h
    simp [h]
  · rename_i h
    simp [h]

theorem next_rest_lt {t : Tokenizer} (h : t.rest ≠ []) : t.next.2.rest.length < t.rest.length := by
  unfold Tokenizer.next
  split
  · rename_i h'
    simp [h']
  · rename_i h'
    exact absurd h' h

theorem next_spent {t : Tokenizer} (h : t.rest = []) : t.next.2.Spent := by
  unfold Tokenizer.next
  split
  · rename_i h'
    rw [h] at h'
    cases h'
  · exact ⟨h, rfl, rfl⟩

theorem next_of_rest {t : Tokenizer} (h : t.rest ≠ []) : t.next.1 = true := by
  unfold Tokenizer.next
  split
  · rfl
  · rename_i h'
    exact absurd h' h

/-- The end of a round: from `u` the helper moves to the next event and makes its next
round there as `g`. The numbers of rounds below `m` do not matter. -/
theorem Outcome.round {p : Position} {d : Nat} {t u : Tokenizer} {v : Yaml} {m : Nat}
    {f : Nat → Option (Yaml × Tokenizer)} {g : Nat → Tokenizer → Option (Yaml × Tokenizer)}
    (hMono : Mono f)
    (hRound : ∀ n, m ≤ n → f (n + 1) = match goesOn u with
      | (true, u) => g n u
      | (false, u) => some (v, u))
    (hOn : u.current ≠ some .documentEnd) (hShort : u.rest.length ≤ t.rest.length)
    (hScan : finishes p t.events = finishes p u.rest)
    (hSpent : ∀ w : Tokenizer, w.Spent → Diverges (fun n => g n w))
    (hg : Mono (fun n => g n u.next.2))
    (ih : u.rest ≠ [] → Outcome p d u.next.2 (fun n => g n u.next.2)) :
    Outcome p d t f := by
  have hGoes : goesOn u = u.next := if_neg hOn
  rw [hGoes] at hRound
  have hEvents : finishes p t.events = finishes p u.next.2.events := by rw [hScan, next_events]
  by_cases hRest : u.rest = []
  · have hFalse : finishes p t.events = false := by
      rw [hScan, hRest]
      cases p <;> rfl
    have hw := next_spent hRest
    cases hNext : u.next with
    | mk ok w =>
      rw [hNext] at hw hRound
      cases ok with
      | false => exact .fails v w ⟨m + 1, hRound m le_rfl⟩ hw hFalse
      | true =>
        refine .diverges (hMono.diverges (m := m + 1) ?_) hFalse
        intro n hn
        obtain ⟨k, rfl⟩ : ∃ k, n = k + 1 := ⟨n - 1, by omega⟩
        rw [hRound k (by omega)]
        exact hSpent w hw k
  · -- A result of the next round, found with `k` rounds, is one of this round.
    have hStep : ∀ n, m ≤ n → f (n + 1) = g n u.next.2 := by
      intro n hn
      have hTrue := next_of_rest hRest
      rw [hRound n hn]
      cases hNext : u.next with
      | mk ok w =>
        rw [hNext] at hTrue
        cases hTrue
        rfl
    have hReturns : ∀ r, Returns (fun n => g n u.next.2) r → Returns f r := by
      rintro r ⟨k, hk⟩
      refine ⟨max m k + 1, ?_⟩
      rw [hStep _ (Nat.le_max_left m k)]
      exact hg.le (Nat.le_max_right m k) hk
    have hLen := next_rest_length u
    cases ih hRest with
    | diverges h hs =>
      refine .diverges (hMono.diverges (m := m + 1) ?_) (hEvents.trans hs)
      intro n hn
      obtain ⟨k, rfl⟩ : ∃ k, n = k + 1 := ⟨n - 1, by omega⟩
      rw [hStep k (by omega)]
      exact h k
    | returns w x h hx hl hs =>
      exact .returns w x (hReturns _ h) hx (by omega) (hEvents.trans hs)
    | stops w x h hx hs => exact .stops w x (hReturns _ h) hx (hEvents.trans hs)
    | fails w x h hx hs => exact .fails w x (hReturns _ h) hx (hEvents.trans hs)

theorem events_of_current {t : Tokenizer} {e : Event} (h : t.current = some e) :
    t.events = e :: t.rest := by
  simp [Tokenizer.events, h]

theorem events_of_none {t : Tokenizer} (hStarted : t.Started) (h : t.current = Option.none) :
    t.events = [] := by
  simp [Tokenizer.events, h, hStarted h]

/-- What an event that is no key, value or end of a map leaves to the rest of the scan. -/
theorem finishes_key_skip {d : Nat} {e : Event} (rest : List Event) (hEnd : e ≠ .documentEnd)
    (hScalar : ∀ s, e ≠ .scalar s) (hMap : e ≠ .mappingEnd) :
    finishes (.key d) (e :: rest) = finishes (.key d) rest := by
  cases e <;> first | rfl | exact absurd rfl hEnd | exact absurd rfl hMap | exact absurd rfl (hScalar _)

theorem finishes_node_skip {d : Nat} {e : Event} (rest : List Event) (hEnd : e ≠ .documentEnd)
    (hScalar : ∀ s, e ≠ .scalar s) (hMap : e ≠ .mappingStart) (hSeq : e ≠ .sequenceStart) :
    finishes (.node d) (e :: rest) = finishes (.node d) rest := by
  cases e <;> first
    | rfl
    | exact absurd rfl hEnd
    | exact absurd rfl hMap
    | exact absurd rfl hSeq
    | exact absurd rfl (hScalar _)

/-- A round of `parse_map` on an event that is no key and no end of the map. -/
theorem map_skip {t : Tokenizer} {d : Nat} {entries : List (String × Yaml)}
    (hScalar : ∀ s, t.current ≠ some (.scalar s)) (hMap : t.current ≠ some .mappingEnd)
    (hStarted : t.Started)
    (ih : ∀ u : Tokenizer, u.Started → u.rest.length < t.rest.length → ∀ entries,
      Outcome (.key d) d u (fun n => parseMap n entries u)) :
    Outcome (.key d) d t (fun n => parseMap n entries t) := by
  have hRound : ∀ n, parseMap (n + 1) entries t = match goesOn t with
      | (true, u) => parseMap n entries u
      | (false, u) => some (.map entries, u) := by
    intro n
    rw [parseMap]
    split
    · rename_i h
      exact absurd h (hScalar _)
    · rename_i h
      exact absurd h hMap
    · rfl
  by_cases hEnd : t.current = some .documentEnd
  · refine .stops (.map entries) t ⟨1, ?_⟩ hEnd ?_
    · dsimp only
      rw [hRound 0, goesOn, if_pos hEnd]
    · rw [events_of_current hEnd]
      rfl
  · refine Outcome.round (m := 0) (parseMap_mono entries t) (fun n _ => hRound n) hEnd le_rfl ?_
      (fun w hw => parseMap_spent hw entries) (parseMap_mono _ _)
      (fun hRest => ih t.next.2 (next_started t) (next_rest_lt hRest) entries)
    cases hc : t.current with
    | none =>
      rw [events_of_none hStarted hc, hStarted hc]
    | some e =>
      rw [events_of_current hc]
      refine finishes_key_skip _ ?_ ?_ ?_
      · exact fun h => hEnd (hc.trans (congrArg some h))
      · exact fun s h => hScalar s (hc.trans (congrArg some h))
      · exact fun h => hMap (hc.trans (congrArg some h))

/-- A round of `parse_map` on a key, given enough rounds for the value: it goes on from
where `parse_node` returned. -/
theorem parseMap_entry {t u : Tokenizer} {entries : List (String × Yaml)} {key : String}
    {v : Yaml} {m n : Nat} (hKey : t.current = some (.scalar key))
    (hm : parseNode m t.next.2 = some (v, u)) (hmn : m ≤ n) :
    parseMap (n + 1) entries t = match goesOn u with
      | (true, u) => parseMap n (OrderedMap.insert (cString key) v entries) u
      | (false, u) => some (.map (OrderedMap.insert (cString key) v entries), u) := by
  have hn : parseNode n t.next.2 = some (v, u) := (parseNode_mono _).le hmn hm
  rw [parseMap]
  cases hGoes : goesOn u with
  | mk more w => cases more <;> simp only [hKey, hn, hGoes]

/-- A map whose value is never left is never left. -/
theorem parseMap_diverges_of_value {t : Tokenizer} {entries : List (String × Yaml)} {key : String}
    (hKey : t.current = some (.scalar key)) (h : Diverges (fun n => parseNode n t.next.2)) :
    Diverges (fun n => parseMap n entries t) := by
  refine (parseMap_mono entries t).diverges (m := 1) ?_
  intro n hn
  obtain ⟨k, rfl⟩ : ∃ k, n = k + 1 := ⟨n - 1, by omega⟩
  have hk : parseNode k t.next.2 = Option.none := h k
  rw [parseMap]
  simp only [hKey, hk]

/-- A round of `parse_map` on a key: `parse_node` reads the value from the next event. -/
theorem map_entry {t : Tokenizer} {d : Nat} {entries : List (String × Yaml)} {key : String}
    (hKey : t.current = some (.scalar key))
    (ihNode : ∀ u : Tokenizer, u.Started → u.rest.length < t.rest.length →
      Outcome (.node (d + 1)) (d + 1) u (fun n => parseNode n u))
    (ihMap : ∀ u : Tokenizer, u.Started → u.rest.length < t.rest.length → ∀ entries,
      Outcome (.key d) d u (fun n => parseMap n entries u)) :
    Outcome (.key d) d t (fun n => parseMap n entries t) := by
  have hMono := parseMap_mono entries t
  have hScan : finishes (.key d) t.events = finishes (.node (d + 1)) t.next.2.events := by
    rw [next_events, events_of_current hKey]
    rfl
  by_cases hRest : t.rest = []
  · refine .diverges (parseMap_diverges_of_value hKey (parseNode_spent (next_spent hRest))) ?_
    rw [hScan, next_events, hRest]
    rfl
  · have hLt := next_rest_lt hRest
    cases ihNode t.next.2 (next_started t) hLt with
    | diverges h hs => exact .diverges (parseMap_diverges_of_value hKey h) (hScan.trans hs)
    | returns v u h hOn hShort hs =>
      obtain ⟨m, hm⟩ := h
      refine Outcome.round hMono (fun n => parseMap_entry hKey hm) hOn (by omega) (hScan.trans hs)
        (fun w hw => parseMap_spent hw _) (parseMap_mono _ _) ?_
      intro hu
      have := next_rest_lt hu
      exact ihMap u.next.2 (next_started u) (by omega) _
    | stops v u h hEnd hs =>
      obtain ⟨m, hm⟩ := h
      refine .stops (.map (OrderedMap.insert (cString key) v entries)) u ⟨m + 1, ?_⟩ hEnd
        (hScan.trans hs)
      dsimp only
      rw [parseMap_entry hKey hm le_rfl, goesOn, if_pos hEnd]
    | fails v u h hSpent hs =>
      obtain ⟨m, hm⟩ := h
      refine .diverges (hMono.diverges (m := m + 1) ?_) (hScan.trans hs)
      intro n hn
      obtain ⟨k, rfl⟩ : ∃ k, n = k + 1 := ⟨n - 1, by omega⟩
      rw [parseMap_entry hKey hm (by omega), Spent.goesOn hSpent]
      exact parseMap_spent hSpent _ k

/-- Both helpers end in one of the four ways, by induction on the events left. -/
theorem helper_outcome (k : Nat) :
    ∀ t : Tokenizer, t.Started → t.rest.length = k → ∀ d,
      (∀ entries, Outcome (.key d) d t (fun n => parseMap n entries t)) ∧
        Outcome (.node d) d t (fun n => parseNode n t) := by
  induction k using Nat.strong_induction_on with
  | _ k ih =>
    intro t hStarted hk d
    have hMap : ∀ entries, Outcome (.key d) d t (fun n => parseMap n entries t) := by
      intro entries
      have ihMap : ∀ u : Tokenizer, u.Started → u.rest.length < t.rest.length → ∀ entries,
          Outcome (.key d) d u (fun n => parseMap n entries u) :=
        fun u hu hLt => (ih u.rest.length (by omega) u hu rfl d).1
      by_cases hEnd : t.current = some .mappingEnd
      · refine .returns (.map entries) t ⟨1, ?_⟩ ?_ le_rfl ?_
        · simp [parseMap, hEnd]
        · simp [hEnd]
        · rw [events_of_current hEnd]
          rfl
      · by_cases hKey : ∃ key, t.current = some (.scalar key)
        · obtain ⟨key, hKey⟩ := hKey
          exact map_entry hKey
            (fun u hu hLt => (ih u.rest.length (by omega) u hu rfl (d + 1)).2) ihMap
        · exact map_skip (fun s h => hKey ⟨s, h⟩) hEnd hStarted ihMap
    refine ⟨hMap, ?_⟩
    by_cases hScalar : ∃ s, t.current = some (.scalar s)
    · obtain ⟨s, hs⟩ := hScalar
      refine .returns (.value (cString s)) t ⟨1, ?_⟩ ?_ le_rfl ?_
      · simp [parseNode, hs]
      · simp [hs]
      · rw [events_of_current hs]
        rfl
    by_cases hSeq : t.current = some .sequenceStart
    · refine .diverges (parseNode_sequence hSeq) ?_
      rw [events_of_current hSeq]
      rfl
    by_cases hStart : t.current = some .mappingStart
    · -- `parse_map` makes its first round on the mapping start itself.
      have hStep : ∀ n, parseNode (n + 1) t = parseMap n [] t := by
        intro n
        rw [parseNode]
        simp only [hStart]
      have hScan : finishes (.node d) t.events = finishes (.key d) t.events := by
        rw [events_of_current hStart]
        rfl
      have hReturns : ∀ r, Returns (fun n => parseMap n [] t) r →
          Returns (fun n => parseNode n t) r := by
        intro r hr
        obtain ⟨n, hn⟩ := hr
        exact ⟨n + 1, (hStep n).trans hn⟩
      cases hMap [] with
      | diverges h hs =>
        refine .diverges ((parseNode_mono t).diverges (m := 1) ?_) (hScan.trans hs)
        intro n hn
        obtain ⟨j, rfl⟩ : ∃ j, n = j + 1 := ⟨n - 1, by omega⟩
        exact (hStep j).trans (h j)
      | returns v u h hOn hShort hs => exact .returns v u (hReturns _ h) hOn hShort (hScan.trans hs)
      | stops v u h hEnd hs => exact .stops v u (hReturns _ h) hEnd (hScan.trans hs)
      | fails v u h hSpent hs => exact .fails v u (hReturns _ h) hSpent (hScan.trans hs)
    have hRound : ∀ n, parseNode (n + 1) t = match goesOn t with
        | (true, u) => parseNode n u
        | (false, u) => some (.none, u) := by
      intro n
      rw [parseNode]
      split
      · rename_i h
        exact absurd ⟨_, h⟩ hScalar
      · rename_i h
        exact absurd h hStart
      · rename_i h
        exact absurd h hSeq
      · rfl
    by_cases hEnd : t.current = some .documentEnd
    · refine .stops .none t ⟨1, ?_⟩ hEnd ?_
      · dsimp only
        rw [hRound 0, goesOn, if_pos hEnd]
      · rw [events_of_current hEnd]
        rfl
    refine Outcome.round (m := 0) (parseNode_mono t) (fun n _ => hRound n) hEnd le_rfl ?_
      (fun w hw => parseNode_spent hw) (parseNode_mono _) ?_
    · cases hc : t.current with
      | none => rw [events_of_none hStarted hc, hStarted hc]
      | some e =>
        rw [events_of_current hc]
        refine finishes_node_skip _ ?_ ?_ ?_ ?_
        · exact fun h => hEnd (hc.trans (congrArg some h))
        · exact fun s h => hScalar ⟨s, hc.trans (congrArg some h)⟩
        · exact fun h => hStart (hc.trans (congrArg some h))
        · exact fun h => hSeq (hc.trans (congrArg some h))
    · intro hRest
      have hLt := next_rest_lt hRest
      exact (ih _ (by omega) t.next.2 (next_started t) rfl d).2

/-! ## The loop of `yaml::parse` -/

theorem finishes_document_skip {e : Event} (rest : List Event) (hEnd : e ≠ .documentEnd)
    (hStart : e ≠ .documentStart) : finishes .document (e :: rest) = finishes .document rest := by
  cases e <;> first | rfl | exact absurd rfl hEnd | exact absurd rfl hStart

/-- The loop comes back from a round that goes on to another one exactly if it comes back
from that one. The numbers of rounds below `m` do not matter. -/
theorem parseLoop_round {t u : Tokenizer} {doc doc' : Yaml} {m : Nat}
    (h : ∀ n, m ≤ n → parseLoop (n + 1) doc t = parseLoop n doc' u) :
    (∃ r, Returns (fun n => parseLoop n doc t) r) ↔
      ∃ r, Returns (fun n => parseLoop n doc' u) r := by
  constructor
  · rintro ⟨r, n, hn⟩
    have hLarge : parseLoop (max m n + 1) doc t = some r :=
      (parseLoop_mono doc t).le (by omega) hn
    exact ⟨r, max m n, (h _ (Nat.le_max_left m n)).symm.trans hLarge⟩
  · rintro ⟨r, n, hn⟩
    have hLarge : parseLoop (max m n) doc' u = some r :=
      (parseLoop_mono doc' u).le (Nat.le_max_right m n) hn
    exact ⟨r, max m n + 1, (h _ (Nat.le_max_left m n)).trans hLarge⟩

theorem not_returns_of_spent {t : Tokenizer} (h : t.Spent) (doc : Yaml) :
    ¬ ∃ r, Returns (fun n => parseLoop n doc t) r := by
  rintro ⟨r, n, hn⟩
  rw [parseLoop_spent h doc n] at hn
  cases hn

/-- The loop returns exactly when the scan of the events to come finds a document end. -/
theorem parseLoop_returns_iff (t : Tokenizer) (doc : Yaml) :
    (∃ r, Returns (fun n => parseLoop n doc t) r) ↔ finishes .document t.rest = true := by
  generalize hk : t.rest.length = k
  induction k using Nat.strong_induction_on generalizing t doc with
  | _ k ih =>
    by_cases hRest : t.rest = []
    · have hw := next_spent hRest
      have hRound : ∀ n, 0 ≤ n → parseLoop (n + 1) doc t = parseLoop n doc t.next.2 := by
        intro n _
        rw [parseLoop]
        simp only [hw.2.2]
      rw [parseLoop_round hRound, hRest]
      exact iff_of_false (not_returns_of_spent hw doc) (by simp [finishes])
    obtain ⟨e, rest, hCons⟩ : ∃ e rest, t.rest = e :: rest := List.exists_cons_of_ne_nil hRest
    have hNext : t.next.2 = { t with rest := rest, current := some e } := by
      simp [Tokenizer.next, hCons]
    have hCurrent : t.next.2.current = some e := by rw [hNext]
    have hLt : rest.length < k := by
      rw [← hk, hCons]
      exact Nat.lt_succ_self _
    by_cases hEnd : e = .documentEnd
    · subst hEnd
      rw [hCons]
      refine ⟨fun _ => rfl, fun _ => ⟨(doc, t.next.2), 1, ?_⟩⟩
      simp only [parseLoop, hCurrent]
    by_cases hStart : e = .documentStart
    · subst hStart
      have hScan : finishes .document t.rest = finishes (.node 0) t.next.2.events := by
        rw [next_events, hCons]
        rfl
      -- The rounds `parse_node` needs are the rounds that do not matter.
      have hRound : ∀ {v : Yaml} {u : Tokenizer} {m : Nat}, parseNode m t.next.2 = some (v, u) →
          ∀ n, m ≤ n → parseLoop (n + 1) doc t =
            if u.current = some .documentEnd then some (v, u) else parseLoop n v u := by
        intro v u m hm n hmn
        have hn : parseNode n t.next.2 = some (v, u) := (parseNode_mono _).le hmn hm
        rw [parseLoop]
        simp only [hCurrent, hn]
      rw [hScan]
      have hShorter : t.next.2.rest.length < k := by rw [hNext]; exact hLt
      cases (helper_outcome _ t.next.2 (next_started t) rfl 0).2 with
      | diverges h hs =>
        rw [hs]
        refine iff_of_false ?_ (by simp)
        rintro ⟨r, n, hn⟩
        cases n with
        | zero => simp [parseLoop] at hn
        | succ n =>
          have hNone : parseNode n t.next.2 = Option.none := h n
          simp [parseLoop, hCurrent, hNone] at hn
      | returns v u h hOn hShort hs =>
        obtain ⟨m, hm⟩ := h
        have hStep : ∀ n, m ≤ n → parseLoop (n + 1) doc t = parseLoop n v u := by
          intro n hmn
          rw [hRound hm n hmn, if_neg hOn]
        rw [parseLoop_round hStep, ih u.rest.length (by omega) u v rfl, hs]
        rfl
      | stops v u h hu hs =>
        obtain ⟨m, hm⟩ := h
        refine ⟨fun _ => hs, fun _ => ⟨(v, u), m + 1, ?_⟩⟩
        dsimp only
        rw [hRound hm m le_rfl, if_pos hu]
      | fails v u h hSpent hs =>
        obtain ⟨m, hm⟩ := h
        have hStep : ∀ n, m ≤ n → parseLoop (n + 1) doc t = parseLoop n v u := by
          intro n hmn
          rw [hRound hm n hmn, if_neg (by simp [hSpent.2.2])]
        rw [parseLoop_round hStep, hs]
        exact iff_of_false (not_returns_of_spent hSpent v) (by simp)
    have hRound : ∀ n, 0 ≤ n → parseLoop (n + 1) doc t = parseLoop n doc t.next.2 := by
      intro n _
      rw [parseLoop]
      simp only [hCurrent]
      split
      · rename_i h
        exact absurd (Option.some.inj h) hStart
      · rename_i h
        exact absurd (Option.some.inj h) hEnd
      · rfl
    rw [parseLoop_round hRound, hCons, finishes_document_skip rest hEnd hStart,
      ih rest.length hLt t.next.2 doc (by rw [hNext])]
    rw [hNext]

/-! ## The streams of libyaml -/

/-- The events of one node: any node may be a key, and an alias may stand for a node. -/
inductive NodeEvents : List Event → Prop
  | scalar (text : String) : NodeEvents [.scalar text]
  | alias : NodeEvents [.alias]
  | sequence (items : List (List Event)) (h : ∀ item ∈ items, NodeEvents item) :
      NodeEvents (.sequenceStart :: items.flatten ++ [.sequenceEnd])
  | mapping (pairs : List (List Event × List Event))
      (hKeys : ∀ pair ∈ pairs, NodeEvents pair.1) (hValues : ∀ pair ∈ pairs, NodeEvents pair.2) :
      NodeEvents (.mappingStart :: pairs.flatMap (fun pair => pair.1 ++ pair.2) ++ [.mappingEnd])

/-- The events of a text without errors: any number of documents. -/
def WellFormed (events : List Event) : Prop :=
  ∃ documents : List (List Event), (∀ node ∈ documents, NodeEvents node) ∧
    events = .streamStart ::
      documents.flatMap (fun node => .documentStart :: node ++ [.documentEnd]) ++ [.streamEnd]

/-- What libyaml can deliver for a text: the events of a stream, or the events up to a
parse error. -/
def Deliverable (events : List Event) (fails : Bool) : Prop :=
  if fails then ∃ rest, rest ≠ [] ∧ WellFormed (events ++ rest) else WellFormed events

/-- `yaml::parse` returns exactly when a document end is delivered and no sequence starts,
before it, where a node is looked for. -/
theorem parse_returns_iff (events : List Event) (fails : Bool) :
    (∃ r, Returns (fun n => parse n events fails) r) ↔ finishes .document events = true :=
  parseLoop_returns_iff (.ofEvents events fails) .none

/-- Nothing is returned for the empty text, whose stream has no document. -/
theorem parse_empty_stream :
    Deliverable [.streamStart, .streamEnd] false ∧
      ¬ ∃ r, Returns (fun n => parse n [.streamStart, .streamEnd] false) r := by
  refine ⟨⟨[], by simp, rfl⟩, ?_⟩
  intro h
  have hScan := (parseLoop_returns_iff (.ofEvents [.streamStart, .streamEnd] false) .none).mp h
  cases hScan

end RetroConfig.Yaml
