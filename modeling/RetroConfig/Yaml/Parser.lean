import RetroConfig.Library.CString
import RetroConfig.Library.OrderedMap

/-!
# `yaml::parse`

`utils/YAML.cpp` builds a tree of `yaml` values from the events of libyaml. Three mutually
recursive helpers, `parse_map`, `parse_array` and `parse_node`, share one tokenizer, whose
current event is the last one `yaml_parser_parse` delivered.

libyaml is the list of events it still has to deliver and whether it then fails. After an
error and after the end of the stream `yaml_parser_parse` returns 1 with `YAML_NO_EVENT`
for ever, and it returns 0 only for the call that meets the error.

The loops of the source need not end, so each helper takes a number of rounds it may
still make; `none` means that they were not enough. `parse` returns on an input if some
number is (`Returns`), and then every larger number gives the same result (`parseLoop_mono`).
-/

namespace RetroConfig

/-- `yaml`: the field that its `type` selects. -/
inductive Yaml where
  | none
  | value (text : String)
  | array (items : List Yaml)
  | map (entries : List (String × Yaml))
  deriving Repr

namespace Yaml

open Text

/-- `yaml_event_type_t`, with the text of a scalar. `YAML_NO_EVENT` is `Option.none`. -/
inductive Event where
  | streamStart
  | streamEnd
  | documentStart
  | documentEnd
  | alias
  | scalar (text : String)
  | sequenceStart
  | sequenceEnd
  | mappingStart
  | mappingEnd
  deriving DecidableEq, Repr

/-- `tokenizer`: the events libyaml has yet to deliver, whether it meets an error after
them, and the current event. -/
structure Tokenizer where
  rest : List Event
  fails : Bool
  current : Option Event

/-- The tokenizer of a fresh parser. -/
def Tokenizer.ofEvents (events : List Event) (fails : Bool) : Tokenizer :=
  ⟨events, fails, Option.none⟩

/-- `tokenizer::next`, that is `yaml_parser_parse`, with its return value. -/
def Tokenizer.next (t : Tokenizer) : Bool × Tokenizer :=
  match t.rest with
  | e :: rest => (true, { t with rest := rest, current := some e })
  | [] => (!t.fails, { t with fails := false, current := Option.none })

/-- The test that closes each round of the three helpers: stay on a document end, else
move on, and leave the loop when that fails. -/
def goesOn (t : Tokenizer) : Bool × Tokenizer :=
  if t.current = some .documentEnd then (false, t) else t.next

mutual

/-- `yaml::parse_map`, from the round in which `entries` were read. -/
def parseMap : Nat → List (String × Yaml) → Tokenizer → Option (Yaml × Tokenizer)
  | 0, _, _ => Option.none
  | n + 1, entries, t =>
    match t.current with
    | some (.scalar key) =>
      match parseNode n t.next.2 with
      | Option.none => Option.none
      | some (v, t) =>
        match goesOn t with
        | (true, t) => parseMap n (OrderedMap.insert (cString key) v entries) t
        | (false, t) => some (.map (OrderedMap.insert (cString key) v entries), t)
    | some .mappingEnd => some (.map entries, t)
    | _ =>
      match goesOn t with
      | (true, t) => parseMap n entries t
      | (false, t) => some (.map entries, t)

/-- `yaml::parse_array`, from the round in which `items` were read. The sequence start
itself is still the current event in the first round. -/
def parseArray : Nat → List Yaml → Tokenizer → Option (Yaml × Tokenizer)
  | 0, _, _ => Option.none
  | n + 1, items, t =>
    match t.current with
    | some .sequenceEnd => some (.array items, t)
    | _ =>
      match parseNode n t with
      | Option.none => Option.none
      | some (v, t) =>
        match goesOn t with
        | (true, t) => parseArray n (items ++ [v]) t
        | (false, t) => some (.array (items ++ [v]), t)

/-- `yaml::parse_node`. -/
def parseNode : Nat → Tokenizer → Option (Yaml × Tokenizer)
  | 0, _ => Option.none
  | n + 1, t =>
    match t.current with
    | some (.scalar text) => some (.value (cString text), t)
    | some .mappingStart => parseMap n [] t
    | some .sequenceStart => parseArray n [] t
    | _ =>
      match goesOn t with
      | (true, t) => parseNode n t
      | (false, t) => some (.none, t)

end

/-- The loop of `yaml::parse`. The result of `next` is not looked at. -/
def parseLoop : Nat → Yaml → Tokenizer → Option (Yaml × Tokenizer)
  | 0, _, _ => Option.none
  | n + 1, doc, t =>
    match t.next.2.current with
    | some .documentStart =>
      match parseNode n t.next.2 with
      | Option.none => Option.none
      | some (doc, t) =>
        if t.current = some .documentEnd then some (doc, t) else parseLoop n doc t
    | some .documentEnd => some (doc, t.next.2)
    | _ => parseLoop n doc t.next.2

/-- `yaml::parse` on the events libyaml delivers for a text. -/
def parse (n : Nat) (events : List Event) (fails : Bool) : Option (Yaml × Tokenizer) :=
  parseLoop n .none (.ofEvents events fails)

/-- The call comes back: some number of rounds is enough. -/
def Returns {α : Type} (f : Nat → Option α) (a : α) : Prop := ∃ n, f n = some a

/-- The call never comes back. -/
def Diverges {α : Type} (f : Nat → Option α) : Prop := ∀ n, f n = Option.none

/-! ## More rounds do not change a result -/

theorem helpers_mono (n : Nat) :
    (∀ entries t r, parseMap n entries t = some r → parseMap (n + 1) entries t = some r) ∧
    (∀ items t r, parseArray n items t = some r → parseArray (n + 1) items t = some r) ∧
    (∀ t r, parseNode n t = some r → parseNode (n + 1) t = some r) := by
  induction n with
  | zero =>
    refine ⟨?_, ?_, ?_⟩
    · intro entries t r h
      rw [parseMap] at h
      cases h
    · intro items t r h
      rw [parseArray] at h
      cases h
    · intro t r h
      rw [parseNode] at h
      cases h
  | succ n ih =>
    obtain ⟨ihMap, ihArray, ihNode⟩ := ih
    refine ⟨?_, ?_, ?_⟩
    · intro entries t r h
      rw [parseMap] at h ⊢
      split at h
      · cases hNode : parseNode n t.next.2 with
        | none => simp [hNode] at h
        | some p =>
          simp only [hNode, ihNode _ _ hNode] at h ⊢
          split at h
          · exact ihMap _ _ _ h
          · exact h
      · exact h
      · split at h
        · exact ihMap _ _ _ h
        · exact h
    · intro items t r h
      rw [parseArray] at h ⊢
      split at h
      · exact h
      · cases hNode : parseNode n t with
        | none => simp [hNode] at h
        | some p =>
          simp only [hNode, ihNode _ _ hNode] at h ⊢
          split at h
          · exact ihArray _ _ _ h
          · exact h
    · intro t r h
      rw [parseNode] at h ⊢
      split at h
      · exact h
      · exact ihMap _ _ _ h
      · exact ihArray _ _ _ h
      · split at h
        · exact ihNode _ _ h
        · exact h

/-- A result found with some number of rounds is found with every larger one. -/
def Mono {α : Type} (f : Nat → Option α) : Prop := ∀ n a, f n = some a → f (n + 1) = some a

theorem parseMap_mono (entries : List (String × Yaml)) (t : Tokenizer) :
    Mono (fun n => parseMap n entries t) := fun n _ h => (helpers_mono n).1 _ _ _ h

theorem parseNode_mono (t : Tokenizer) : Mono (fun n => parseNode n t) :=
  fun n _ h => (helpers_mono n).2.2 _ _ h

theorem parseLoop_mono (doc : Yaml) (t : Tokenizer) : Mono (fun n => parseLoop n doc t) := by
  intro n
  induction n generalizing doc t with
  | zero =>
    intro a h
    simp only [parseLoop] at h
    cases h
  | succ n ih =>
    intro a h
    simp only [parseLoop] at h
    dsimp only
    rw [parseLoop]
    split at h
    · cases hNode : parseNode n t.next.2 with
      | none => simp [hNode] at h
      | some p =>
        have hNode' : parseNode (n + 1) t.next.2 = some p := parseNode_mono _ n p hNode
        simp only [hNode, hNode'] at h ⊢
        split at h
        · rw [if_pos (by assumption)]
          exact h
        · rw [if_neg (by assumption)]
          exact ih _ _ _ h
    · exact h
    · exact ih _ _ _ h

theorem Mono.le {α : Type} {f : Nat → Option α} (hf : Mono f) {m n : Nat} (hmn : m ≤ n) {a : α}
    (h : f m = some a) : f n = some a := by
  induction n, hmn using Nat.le_induction with
  | base => exact h
  | succ n _ ih => exact hf n a ih

theorem Mono.unique {α : Type} {f : Nat → Option α} (hf : Mono f) {a b : α}
    (ha : Returns f a) (hb : Returns f b) : a = b := by
  obtain ⟨m, hm⟩ := ha
  obtain ⟨n, hn⟩ := hb
  have h1 := hf.le (Nat.le_max_left m n) hm
  have h2 := hf.le (Nat.le_max_right m n) hn
  exact Option.some.inj (h1.symm.trans h2)

/-- A call that fails with every large number of rounds never comes back. -/
theorem Mono.diverges {α : Type} {f : Nat → Option α} (hf : Mono f) {m : Nat}
    (h : ∀ n, m ≤ n → f n = Option.none) : Diverges f := by
  intro n
  cases hn : f n with
  | none => rfl
  | some a =>
    have := hf.le (Nat.le_max_left n m) hn
    rw [h _ (Nat.le_max_right n m)] at this
    cases this

end Yaml

end RetroConfig
