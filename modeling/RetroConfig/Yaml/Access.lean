import RetroConfig.Yaml.Parser

/-!
# Reading a `yaml` tree

The tree that `yaml::parse` returns is read with `operator[]` and the conversions of `yaml`
to texts and truth values. None of them fails: what is missing, or of another type, reads as the
empty text and as `false`.

`parse_plain` says that the texts read in this way have no NUL, whatever libyaml delivers.
-/

namespace RetroConfig.Yaml

open Text

/-- `yaml::is_map`. -/
def isMap : Yaml → Bool
  | .map _ => true
  | _ => false

/-- `y[key]`, that is `_yaml::operator yaml`. -/
def get (y : Yaml) (key : String) : Yaml :=
  match y with
  | .map entries => (entries.lookup key).getD .none
  | _ => .none

/-- `yaml::operator std::string`. -/
def str : Yaml → String
  | .value text => text
  | _ => ""

/-- `cons::true_set`. -/
def trueSet : List String := ["y", "yes", "true", "on", "Y", "YES", "TRUE", "ON"]

/-- `cons::false_set`. -/
def falseSet : List String := ["n", "no", "false", "off", "N", "NO", "FALSE", "OFF"]

/-- `yaml::operator bool`. The member `value` of a tree without a type is empty. -/
def bool : Yaml → Bool
  | .array items => !items.isEmpty
  | .map entries => !entries.isEmpty
  | y =>
    if y.str ∈ trueSet then true
    else if y.str ∈ falseSet then false
    else !y.str.isEmpty

/-- The texts of the root and of the entries of the root have no NUL. -/
def Plain : Yaml → Prop
  | .value text => NulFree text
  | .map entries => ∀ key text, (key, .value text) ∈ entries → NulFree text
  | _ => True

theorem nulFree_str_get {y : Yaml} (h : y.Plain) (key : String) : NulFree (y.get key).str := by
  have hEmpty : NulFree "" := by decide
  cases y with
  | map entries =>
    rw [get]
    cases hFind : entries.lookup key with
    | none => exact hEmpty
    | some v =>
      cases v with
      | value text => exact h key text (OrderedMap.mem_of_lookup hFind)
      | _ => exact hEmpty
  | _ => exact hEmpty

/-- A map stays plain when a plain tree is put into it. -/
theorem Plain.insert {entries : List (String × Yaml)} (h : (Yaml.map entries).Plain) {y : Yaml}
    (hy : y.Plain) (key : String) : (Yaml.map (OrderedMap.insert key y entries)).Plain := by
  intro k text hMem
  rcases OrderedMap.mem_insert hMem with hNew | hOld
  · obtain ⟨-, rfl⟩ := Prod.mk.inj hNew
    exact hy
  · exact h k text hOld

theorem helpers_plain (n : Nat) :
    (∀ entries t r, (Yaml.map entries).Plain → parseMap n entries t = some r → r.1.Plain) ∧
    (∀ items t r, parseArray n items t = some r → r.1.Plain) ∧
    (∀ t r, parseNode n t = some r → r.1.Plain) := by
  induction n with
  | zero =>
    refine ⟨?_, ?_, ?_⟩
    · intro entries t r _ h
      rw [parseMap] at h
      cases h
    · intro items t r h
      rw [parseArray] at h
      cases h
    · intro t r h
      rw [parseNode] at h
      cases h
  | succ n ih =>
    obtain ⟨ihMap, ihArray, ihNode⟩ := ih
    refine ⟨?_, ?_, ?_⟩
    · intro entries t r hEntries h
      rw [parseMap] at h
      split at h
      · cases hNode : parseNode n t.next.2 with
        | none => simp [hNode] at h
        | some p =>
          have hInsert := hEntries.insert (ihNode _ _ hNode)
          simp only [hNode] at h
          split at h
          · exact ihMap _ _ _ (hInsert _) h
          · cases h
            exact hInsert _
      · cases h
        exact hEntries
      · split at h
        · exact ihMap _ _ _ hEntries h
        · cases h
          exact hEntries
    · intro items t r h
      rw [parseArray] at h
      split at h
      · cases h
        trivial
      · cases hNode : parseNode n t with
        | none => simp [hNode] at h
        | some p =>
          simp only [hNode] at h
          split at h
          · exact ihArray _ _ _ h
          · cases h
            trivial
    · intro t r h
      rw [parseNode] at h
      split at h
      · cases h
        exact nulFree_cString _
      · exact ihMap _ _ _ (fun _ _ hMem => by cases hMem) h
      · exact ihArray _ _ _ h
      · split at h
        · exact ihNode _ _ h
        · cases h
          trivial

theorem parseLoop_plain (n : Nat) {doc : Yaml} {t : Tokenizer} {r : Yaml × Tokenizer}
    (hDoc : doc.Plain) (h : parseLoop n doc t = some r) : r.1.Plain := by
  induction n generalizing doc t with
  | zero =>
    rw [parseLoop] at h
    cases h
  | succ n ih =>
    rw [parseLoop] at h
    split at h
    · cases hNode : parseNode n t.next.2 with
      | none => simp [hNode] at h
      | some p =>
        have hPlain := (helpers_plain n).2.2 _ _ hNode
        simp only [hNode] at h
        split at h
        · cases h
          exact hPlain
        · exact ih hPlain h
    · cases h
      exact hDoc
    · exact ih hDoc h

/-- Every tree that `yaml::parse` returns is plain. -/
theorem parse_plain {events : List Event} {fails : Bool} {y : Yaml} {t : Tokenizer}
    (h : Returns (fun n => parse n events fails) (y, t)) : y.Plain := by
  obtain ⟨n, hn⟩ := h
  have hNone : Yaml.none.Plain := trivial
  exact parseLoop_plain n hNone hn

end RetroConfig.Yaml
