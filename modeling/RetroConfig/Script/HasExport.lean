import RetroConfig.Library.Words
import RetroConfig.Script.ModuleName

/-!
# `has_export`: modules without exports

`QuickJSScript::moduleLoader` and `loadModule` (`script/quickjs/QuickJSScript.cpp`) load a file as an
ES module. A file without the word `export`, as `has_export` finds it, is taken for a CommonJS module
and put between two lines that make one of it. `has_export` looks at the text only: the word counts
in a comment or a string as well.
-/

namespace RetroConfig.QuickJSScript

/-- `isWordChar`. -/
def isWordChar (x : UInt8) : Bool :=
  (97 ≤ x && x ≤ 122) || (65 ≤ x && x ≤ 90) || (48 ≤ x && x ≤ 57) || x = 95

/-- `key`. -/
def exportKey : Text := [101, 120, 112, 111, 114, 116]

/-- The loop of `has_export`, from an offset on. -/
def hasExportFrom (strcode : Text) (off : Nat) : Bool :=
  if off < strcode.length then
    match _h : Words.find exportKey strcode off with
    | some idx =>
      if Words.bounded isWordChar exportKey strcode idx then true
      else hasExportFrom strcode (idx + exportKey.length)
    | none => false
  else false
termination_by strcode.length - off
decreasing_by
  obtain ⟨hOff, -⟩ := Words.find_eq_some.mp _h
  simp only [exportKey, List.length_cons]
  omega

/-- `has_export`. -/
def hasExport (strcode : Text) : Bool := hasExportFrom strcode 0

/-- The line in front of a CommonJS module. -/
def moduleHead : Text := "const module = \x7bexports: \x7b\x7d\x7d; let exports = module.exports;\n".toUTF8.toList

/-- The line behind it, `export default module.exports;`. -/
def moduleTail : Text := exportKey ++ 32 :: "default module.exports;\n".toUTF8.toList

/-- What is compiled for a file. -/
def moduleSource (strcode : Text) : Text :=
  if hasExport strcode then strcode else moduleHead ++ strcode ++ [10] ++ moduleTail

/-! ## The word -/

theorem isWordChar_exportKey : ∀ c ∈ exportKey, isWordChar c = true :=
  List.all_eq_true.mp rfl

theorem exportKey_ne_nil : exportKey ≠ [] := by decide

theorem hasExportFrom_eq_true (strcode : Text) (off : Nat) : hasExportFrom strcode off = true ↔
    ∃ i, off ≤ i ∧ Words.Stands isWordChar exportKey strcode i := by
  fun_induction hasExportFrom strcode off with
  | case1 off hLt idx hFind hBounded =>
    obtain ⟨hOff, -, hOccurs, -⟩ := Words.find_eq_some.mp hFind
    exact iff_of_true rfl ⟨idx, hOff, hOccurs, hBounded⟩
  | case2 off hLt idx hFind hNot ih =>
    obtain ⟨hOff, -, hOccurs, hFirst⟩ := Words.find_eq_some.mp hFind
    rw [ih, Words.exists_stands_skip isWordChar_exportKey hOff hOccurs hFirst]
    exact Bool.eq_false_iff.mpr hNot
  | case3 off hLt hFind =>
    rw [Words.find_eq_none exportKey_ne_nil] at hFind
    refine iff_of_false Bool.false_ne_true ?_
    rintro ⟨i, hi, hStands⟩
    exact hFind i hi hStands.1
  | case4 off hNot =>
    refine iff_of_false Bool.false_ne_true ?_
    rintro ⟨i, hi, hStands⟩
    have hLt := Words.lt_length_of_prefix_drop exportKey_ne_nil hStands.1
    omega

/-- `has_export` finds the word exactly if it stands somewhere in the text, with no letter, digit or
underscore before or behind it. -/
theorem hasExport_iff (strcode : Text) : hasExport strcode = true ↔
    ∃ front back, strcode = front ++ exportKey ++ back ∧
      (∀ c ∈ front.getLast?, isWordChar c = false) ∧ ∀ c ∈ back.head?, isWordChar c = false := by
  rw [hasExport, hasExportFrom_eq_true, ← Words.exists_stands_iff exportKey_ne_nil]
  simp

/-- What is compiled has the word, whatever the file is. -/
theorem hasExport_moduleSource (strcode : Text) : hasExport (moduleSource strcode) = true := by
  unfold moduleSource
  split
  case isTrue h => exact h
  case isFalse =>
    rw [hasExport_iff]
    refine ⟨moduleHead ++ strcode ++ [10], _, by rw [moduleTail, ← List.append_assoc], ?_, ?_⟩
    · intro c hc
      obtain rfl : 10 = c := by simpa using hc
      rfl
    · intro c hc
      obtain rfl : 32 = c := by simpa using hc
      rfl

/-- To compile what is compiled changes nothing. -/
theorem moduleSource_moduleSource (strcode : Text) :
    moduleSource (moduleSource strcode) = moduleSource strcode :=
  if_pos (hasExport_moduleSource strcode)

end RetroConfig.QuickJSScript
