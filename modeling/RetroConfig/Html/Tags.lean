import Mathlib.Algebra.Group.Nat.Defs
import Mathlib.Data.List.Nodup
import Mathlib.Tactic.Common

/-!
# Tags and their names

The tag of a name is looked up through a perfect hash (`gumbo/tag.c`, `gumbo/tag_gperf.h`): the
length of the name and three of its bytes give a place in a table of tags, and the name of the tag
found there is compared. `gumbo_tag_enum_eq` says that no name is missed: the tag is the place of
the name, in lower case, in the list of names, and unknown if it is not there.
-/

namespace RetroConfig.Html

/-- The bytes of a `std::string`. -/
abbrev Bytes := List UInt8

/-- A string literal of the source. -/
def ascii (text : String) : Bytes := text.toList.map fun c => UInt8.ofNat c.toNat

/-- `tolower`, for one byte. -/
def lowerByte (c : UInt8) : UInt8 := if 65 ≤ c ∧ c ≤ 90 then c + 32 else c

/-- `CQueryUtil::tolower`. -/
def tolower (s : Bytes) : Bytes := s.map lowerByte

/-- What a `const char *` gives of it. -/
def c_str (s : Bytes) : Bytes := s.takeWhile (· ≠ 0)

/-- The place of a tag in the list of names. -/
abbrev GumboTag := Nat

/-- `GUMBO_TAG_UNKNOWN`. -/
def GumboTag.unknown : GumboTag := 150

/-- `GUMBO_TAG_LAST`. -/
def GumboTag.last : GumboTag := 151

/-- `tag_strings.h`, the names of the tags before `GUMBO_TAG_UNKNOWN`. -/
def tagStrings : List String :=
  ["html", "head", "title", "base", "link", "meta", "style", "script", "noscript", "template",
   "body", "article", "section", "nav", "aside", "h1", "h2", "h3", "h4", "h5", "h6", "hgroup",
   "header", "footer", "address", "p", "hr", "pre", "blockquote", "ol", "ul", "li", "dl", "dt",
   "dd", "figure", "figcaption", "main", "div", "a", "em", "strong", "small", "s", "cite", "q",
   "dfn", "abbr", "data", "time", "code", "var", "samp", "kbd", "sub", "sup", "i", "b", "u",
   "mark", "ruby", "rt", "rp", "bdi", "bdo", "span", "br", "wbr", "ins", "del", "image", "img",
   "iframe", "embed", "object", "param", "video", "audio", "source", "track", "canvas", "map",
   "area", "math", "mi", "mo", "mn", "ms", "mtext", "mglyph", "malignmark", "annotation-xml",
   "svg", "foreignobject", "desc", "table", "caption", "colgroup", "col", "tbody", "thead",
   "tfoot", "tr", "td", "th", "form", "fieldset", "legend", "label", "input", "button",
   "select", "datalist", "optgroup", "option", "textarea", "keygen", "output", "progress",
   "meter", "details", "summary", "menu", "menuitem", "applet", "acronym", "bgsound", "dir",
   "frame", "frameset", "noframes", "isindex", "listing", "xmp", "nextid", "noembed",
   "plaintext", "rb", "strike", "basefont", "big", "blink", "center", "font", "marquee",
   "multicol", "nobr", "spacer", "tt", "rtc"]

/-- `kGumboTagNames`. -/
def kGumboTagNames : List Bytes := tagStrings.map ascii ++ [[], []]

/-- `kGumboTagSizes`. -/
def kGumboTagSizes : List Nat :=
  [4, 4, 5, 4, 4, 4, 5, 6, 8, 8, 4, 7, 7, 3, 5, 2, 2, 2, 2, 2, 2, 6, 6, 6, 7, 1, 2, 3, 10, 2, 2,
   2, 2, 2, 2, 6, 10, 4, 3, 1, 2, 6, 5, 1, 4, 1, 3, 4, 4, 4, 4, 3, 4, 3, 3, 3, 1, 1, 1, 4, 4, 2,
   2, 3, 3, 4, 2, 3, 3, 3, 5, 3, 6, 5, 6, 5, 5, 5, 6, 5, 6, 3, 4, 4, 2, 2, 2, 2, 5, 6, 10, 14,
   3, 13, 4, 5, 7, 8, 3, 5, 5, 5, 2, 2, 2, 4, 8, 6, 5, 5, 6, 6, 8, 8, 6, 8, 6, 6, 8, 5, 7, 7, 4,
   8, 6, 7, 7, 3, 5, 8, 8, 7, 7, 3, 6, 7, 9, 2, 6, 8, 3, 5, 6, 4, 7, 8, 4, 6, 2, 3, 0, 0]

/-- The `asso_values` of `tag_hash`. -/
def assoValues : List Nat :=
  [296, 296, 296, 296, 296, 296, 296, 296, 296, 296, 296, 296, 296, 296, 296, 296, 296, 296,
   296, 296, 296, 296, 296, 296, 296, 296, 296, 296, 296, 296, 296, 296, 296, 296, 296, 296,
   296, 296, 296, 296, 296, 296, 296, 296, 296, 296, 296, 296, 296, 6, 4, 3, 1, 1, 0, 1, 0, 0,
   296, 296, 296, 296, 296, 296, 296, 22, 73, 151, 4, 13, 59, 65, 2, 69, 0, 134, 9, 16, 52, 55,
   28, 101, 0, 1, 6, 63, 126, 104, 93, 124, 296, 296, 296, 296, 296, 296, 296, 22, 73, 151, 4,
   13, 59, 65, 2, 69, 0, 134, 9, 16, 52, 55, 28, 101, 0, 1, 6, 63, 126, 104, 93, 124, 296, 296,
   296, 296, 296, 296, 296, 296, 296, 296, 296, 296, 296, 296, 296, 296, 296, 296, 296, 296,
   296, 296, 296, 296, 296, 296, 296, 296, 296, 296, 296, 296, 296, 296, 296, 296, 296, 296,
   296, 296, 296, 296, 296, 296, 296, 296, 296, 296, 296, 296, 296, 296, 296, 296, 296, 296,
   296, 296, 296, 296, 296, 296, 296, 296, 296, 296, 296, 296, 296, 296, 296, 296, 296, 296,
   296, 296, 296, 296, 296, 296, 296, 296, 296, 296, 296, 296, 296, 296, 296, 296, 296, 296,
   296, 296, 296, 296, 296, 296, 296, 296, 296, 296, 296, 296, 296, 296, 296, 296, 296, 296,
   296, 296, 296, 296, 296, 296, 296, 296, 296, 296, 296, 296, 296, 296, 296, 296, 296, 296,
   296, 296, 296, 296, 296, 296, 296, 296, 296]

/-- `kGumboTagMap`, with 151 for `GUMBO_TAG_LAST`. -/
def kGumboTagMap : List GumboTag :=
  [151, 151, 151, 43, 20, 19, 18, 17, 147, 16, 22, 15, 1, 151, 120, 111, 127, 151, 69, 151, 78,
   107, 112, 119, 89, 151, 83, 108, 95, 9, 151, 62, 49, 2, 48, 124, 21, 52, 115, 47, 144, 151,
   123, 42, 5, 39, 151, 151, 151, 151, 73, 81, 151, 75, 151, 151, 146, 25, 65, 40, 151, 130, 12,
   135, 134, 23, 8, 26, 151, 143, 32, 102, 7, 85, 151, 34, 37, 103, 93, 105, 74, 151, 106, 151,
   126, 122, 101, 35, 137, 31, 132, 139, 113, 151, 3, 24, 84, 151, 136, 151, 118, 151, 151, 151,
   125, 11, 151, 27, 151, 151, 151, 82, 61, 151, 114, 70, 33, 151, 148, 0, 67, 29, 151, 6, 138,
   55, 145, 58, 46, 30, 36, 88, 151, 51, 151, 151, 129, 151, 66, 56, 128, 151, 38, 151, 104, 87,
   91, 57, 99, 100, 140, 28, 133, 151, 53, 151, 4, 72, 59, 142, 117, 94, 80, 98, 90, 71, 14,
   151, 50, 151, 54, 86, 151, 151, 68, 77, 41, 44, 151, 151, 151, 109, 151, 151, 151, 13, 151,
   97, 151, 151, 151, 151, 151, 92, 116, 76, 64, 151, 151, 151, 151, 10, 151, 45, 151, 151, 151,
   151, 79, 151, 63, 151, 151, 151, 96, 151, 151, 151, 151, 151, 151, 60, 151, 151, 110, 121,
   151, 151, 151, 151, 151, 151, 151, 151, 151, 151, 151, 151, 151, 151, 151, 151, 151, 151,
   151, 151, 151, 151, 151, 151, 151, 151, 151, 151, 151, 151, 151, 151, 149, 151, 151, 151,
   151, 151, 151, 151, 151, 141, 151, 151, 151, 151, 151, 151, 151, 151, 151, 151, 151, 151,
   151, 151, 151, 151, 151, 151, 151, 151, 151, 151, 151, 151, 151, 151, 151, 131]

/-- The entry of `assoValues` for a byte, moved by `shift`. -/
def asso (c : Option UInt8) (shift : Nat) : Nat := assoValues.getD ((c.getD 0).toNat + shift) 0

/-- `tag_hash`, of a name of `len` bytes. -/
def tag_hash (str : Bytes) (len : Nat) : Nat :=
  (len + (if len = 1 then 0 else asso str[1]? 3) + asso str[0]? 0 + asso str[len - 1]? 0) % 2 ^ 32

/-- `case_memcmp`, whether it finds no difference. -/
def case_memcmp (s1 s2 : Bytes) (n : Nat) : Bool := tolower (s1.take n) == tolower (s2.take n)

/-- `gumbo_tagn_enum`. -/
def gumbo_tagn_enum (tagname : Bytes) (length : Nat) : GumboTag :=
  if length ≠ 0 then
    match kGumboTagMap[tag_hash tagname length]? with
    | some tag =>
      if kGumboTagSizes[tag]? = some length ∧
          case_memcmp tagname (kGumboTagNames.getD tag []) length then tag
      else GumboTag.unknown
    | none => GumboTag.unknown
  else GumboTag.unknown

/-- `gumbo_tag_enum`; the length is handed over as an `unsigned int`. -/
def gumbo_tag_enum (tagname : Bytes) : GumboTag :=
  gumbo_tagn_enum (c_str tagname) ((c_str tagname).length % 2 ^ 32)

/-! ## The hash does not depend on the case -/

theorem asso_lowerByte (c : UInt8) :
    asso (some (lowerByte c)) 0 = asso (some c) 0 ∧ asso (some (lowerByte c)) 3 = asso (some c) 3 := by
  have hAll : ∀ n < 256, asso (some (lowerByte (UInt8.ofNat n))) 0 = asso (some (UInt8.ofNat n)) 0 ∧
      asso (some (lowerByte (UInt8.ofNat n))) 3 = asso (some (UInt8.ofNat n)) 3 := by decide +kernel
  have h := hAll c.toNat c.toNat_lt
  rwa [UInt8.ofNat_toNat] at h

theorem asso_tolower (str : Bytes) (i : Nat) {shift : Nat} (hShift : shift = 0 ∨ shift = 3) :
    asso (tolower str)[i]? shift = asso str[i]? shift := by
  rw [tolower, List.getElem?_map]
  cases str[i]? with
  | none => rfl
  | some c =>
    rcases hShift with rfl | rfl
    · exact (asso_lowerByte c).1
    · exact (asso_lowerByte c).2

theorem tag_hash_tolower (str : Bytes) (len : Nat) : tag_hash (tolower str) len = tag_hash str len := by
  simp only [tag_hash, asso_tolower str _ (Or.inl rfl), asso_tolower str _ (Or.inr rfl)]

theorem lowerByte_lowerByte (c : UInt8) : lowerByte (lowerByte c) = lowerByte c := by
  by_cases h : 65 ≤ c ∧ c ≤ 90
  · have hNot : ¬ (65 ≤ c + 32 ∧ c + 32 ≤ 90) := by
      rw [UInt8.le_iff_toNat_le, UInt8.le_iff_toNat_le] at h ⊢
      rw [UInt8.toNat_add]
      simp only [UInt8.reduceToNat] at h ⊢
      omega
    simp only [lowerByte, if_pos h, if_neg hNot]
  · simp only [lowerByte, if_neg h]

@[simp] theorem tolower_tolower (s : Bytes) : tolower (tolower s) = tolower s := by
  rw [tolower, tolower, List.map_map]
  exact List.map_congr_left fun c _ => lowerByte_lowerByte c

@[simp] theorem length_tolower (s : Bytes) : (tolower s).length = s.length := List.length_map ..

/-! ## The tables -/

/-- What the tables say about one tag: its name is in lower case, as long as `kGumboTagSizes` has it,
and the hash of the name leads to the tag. -/
def Listed (tag : GumboTag) : Prop :=
  ∃ name, kGumboTagNames[tag]? = some name ∧ name ≠ [] ∧ tolower name = name ∧
    kGumboTagSizes[tag]? = some name.length ∧ kGumboTagMap[tag_hash name name.length]? = some tag

instance (tag : GumboTag) : Decidable (Listed tag) :=
  match h : kGumboTagNames[tag]? with
  | none => isFalse fun ⟨_, hName, _⟩ => by rw [h] at hName; cases hName
  | some name =>
    decidable_of_iff (name ≠ [] ∧ tolower name = name ∧ kGumboTagSizes[tag]? = some name.length ∧
        kGumboTagMap[tag_hash name name.length]? = some tag)
      ⟨fun hListed => ⟨name, h, hListed⟩, fun ⟨_, hName, hListed⟩ => by
        rw [h] at hName; cases hName; exact hListed⟩

theorem listed {tag : GumboTag} (h : tag < GumboTag.unknown) : Listed tag := by
  have hAll : ∀ tag < GumboTag.unknown, Listed tag := by decide +kernel
  exact hAll tag h

theorem length_tagStrings : (tagStrings.map ascii).length = GumboTag.unknown := by decide +kernel

/-- The tag that a place of the table holds. -/
theorem tag_le {place : Nat} {tag : GumboTag} (h : kGumboTagMap[place]? = some tag) :
    tag < GumboTag.unknown ∨ tag = GumboTag.last := by
  have hAll : ∀ tag ∈ kGumboTagMap, tag < GumboTag.unknown ∨ tag = GumboTag.last := by decide +kernel
  exact hAll tag (List.mem_of_getElem? h)

theorem getElem?_names {tag : GumboTag} (h : tag < GumboTag.unknown) :
    kGumboTagNames[tag]? = (tagStrings.map ascii)[tag]? :=
  List.getElem?_append_left (by rw [length_tagStrings]; exact h)

/-- The hash keeps the names apart. -/
theorem nodup_tagStrings : (tagStrings.map ascii).Nodup := by
  rw [List.nodup_iff_injective_get]
  rintro ⟨i, hi⟩ ⟨j, hj⟩ hEq
  rw [List.get_eq_getElem, List.get_eq_getElem] at hEq
  have hTag : ∀ tag (h : tag < (tagStrings.map ascii).length),
      kGumboTagMap[tag_hash (tagStrings.map ascii)[tag] (tagStrings.map ascii)[tag].length]? =
        some tag := by
    intro tag h
    have hKnown : tag < GumboTag.unknown := length_tagStrings ▸ h
    obtain ⟨name, hName, -, -, -, hPlace⟩ := listed hKnown
    rw [getElem?_names hKnown, List.getElem?_eq_getElem h, Option.some.injEq] at hName
    rwa [hName]
  have hSame := hTag i hi
  rw [hEq, hTag j hj, Option.some.injEq] at hSame
  exact Fin.ext hSame.symm

/-! ## The lookup -/

/-- The tag is found if and only if its name is the one looked for, in lower case. -/
theorem gumbo_tagn_enum_eq_iff {tagname : Bytes} {tag : GumboTag} (hTag : tag < GumboTag.unknown) :
    gumbo_tagn_enum tagname tagname.length = tag ↔
      kGumboTagNames[tag]? = some (tolower tagname) := by
  obtain ⟨name, hName, hNonempty, hLower, hSize, hPlace⟩ := listed hTag
  have hUnknown : GumboTag.unknown ≠ tag := Nat.ne_of_gt hTag
  unfold gumbo_tagn_enum
  constructor
  · intro h
    split at h
    · split at h
      · next found hFound =>
        split at h
        · next hMatch =>
          obtain rfl := h
          obtain ⟨hLength, hCompare⟩ := hMatch
          have hEqual : name.length = tagname.length := Option.some.inj (hSize.symm.trans hLength)
          rw [case_memcmp, List.getD_eq_getElem?_getD, hName, Option.getD_some, List.take_length,
            ← hEqual, List.take_length, hLower, beq_iff_eq] at hCompare
          rw [hName, hCompare]
        · exact absurd h hUnknown
      · exact absurd h hUnknown
    · exact absurd h hUnknown
  · intro h
    obtain rfl : tolower tagname = name := Option.some.inj (h.symm.trans hName)
    have hPos : tagname.length ≠ 0 := by
      intro hZero
      exact hNonempty (List.length_eq_zero_iff.mp ((length_tolower tagname).trans hZero))
    rw [length_tolower] at hSize hPlace
    rw [tag_hash_tolower] at hPlace
    rw [if_pos hPos, hPlace]
    have hCompare : case_memcmp tagname (kGumboTagNames.getD tag []) tagname.length = true := by
      rw [case_memcmp, List.getD_eq_getElem?_getD, hName, Option.getD_some, List.take_length,
        List.take_of_length_le (Nat.le_of_eq (length_tolower tagname)), tolower_tolower, beq_self_eq_true]
    simp only [hSize, hCompare, and_self, if_true]

theorem gumbo_tagn_enum_le (tagname : Bytes) (length : Nat) :
    gumbo_tagn_enum tagname length ≤ GumboTag.unknown := by
  unfold gumbo_tagn_enum
  split
  · next hPos =>
    split
    · next tag hFound =>
      split
      · next hMatch =>
        rcases tag_le hFound with hLt | rfl
        · exact Nat.le_of_lt hLt
        · -- no name is as short as the one of `GUMBO_TAG_LAST`
          have hSize : kGumboTagSizes[GumboTag.last]? = some 0 := by decide
          rw [hSize, Option.some.injEq] at hMatch
          exact absurd hMatch.1.symm hPos
      · exact Nat.le_refl _
    · exact Nat.le_refl _
  · exact Nat.le_refl _

/-- `gumbo_tag_enum` is the place of the name, in lower case, among the names of the tags: the hash
misses none of them, whatever the case, and takes no other name for one. -/
theorem gumbo_tag_enum_eq {name : Bytes} (hLength : name.length < 2 ^ 32) :
    gumbo_tag_enum name = (tagStrings.map ascii).idxOf (tolower (c_str name)) := by
  have hShort : (c_str name).length < 2 ^ 32 :=
    Nat.lt_of_le_of_lt (List.takeWhile_prefix _).length_le hLength
  rw [gumbo_tag_enum, Nat.mod_eq_of_lt hShort]
  rcases Nat.lt_or_eq_of_le (gumbo_tagn_enum_le (c_str name) _) with hTag | hTag
  · have hName := (gumbo_tagn_enum_eq_iff hTag).mp rfl
    rw [getElem?_names hTag] at hName
    obtain ⟨hPlace, hName⟩ := List.getElem?_eq_some_iff.mp hName
    rw [← hName, nodup_tagStrings.idxOf_getElem]
  · rw [hTag, ← length_tagStrings, eq_comm, List.idxOf_eq_length_iff]
    intro hMem
    obtain ⟨tag, hLt, hName⟩ := List.mem_iff_getElem.mp hMem
    have hKnown : tag < GumboTag.unknown := length_tagStrings ▸ hLt
    have hFound := (gumbo_tagn_enum_eq_iff hKnown).mpr
      ((getElem?_names hKnown).trans ((List.getElem?_eq_getElem hLt).trans (congrArg some hName)))
    exact absurd (hFound.symm.trans hTag) (Nat.ne_of_lt hKnown)

/-- A name in capitals that has a NUL after it. -/
theorem gumbo_tag_enum_div :
    ([68, 73, 86, 0, 120] : Bytes).length < 2 ^ 32 ∧
      gumbo_tag_enum [68, 73, 86, 0, 120] = (tagStrings.map ascii).idxOf (ascii "div") :=
  ⟨by decide, gumbo_tag_enum_eq (by decide)⟩

end RetroConfig.Html
