import Mathlib.Data.List.TakeWhile
import Mathlib.Data.String.Basic

/-!
# Texts that pass through a `const char *`

A text handed over as a C string ends at its first NUL. On texts without one nothing is lost.
-/

namespace Text

/-- What is left of a text that is read through a `const char *`. -/
def cString (text : String) : String := String.ofList (text.toList.takeWhile (· ≠ '\x00'))

/-- The text has no NUL. -/
def NulFree (text : String) : Prop := '\x00' ∉ text.toList

instance (text : String) : Decidable (NulFree text) := inferInstanceAs (Decidable (_ ∉ _))

theorem nulFree_cString (text : String) : NulFree (cString text) := by
  rw [NulFree, cString, String.toList_ofList]
  intro h
  simpa using List.mem_takeWhile_imp h

theorem cString_of_nulFree {text : String} (h : NulFree text) : cString text = text := by
  have hAll : text.toList.takeWhile (· ≠ '\x00') = text.toList := by
    rw [List.takeWhile_eq_self_iff]
    intro c hc
    simpa using fun hEq : c = '\x00' => h (hEq ▸ hc)
  rw [cString, hAll, String.ofList_toList]

@[simp] theorem cString_cString (text : String) : cString (cString text) = cString text :=
  cString_of_nulFree (nulFree_cString text)

theorem nulFree_repr (n : Nat) : NulFree n.repr := by
  intro h
  rw [Nat.toList_repr] at h
  exact absurd (Nat.isDigit_of_mem_toDigits (by decide) (by decide) h) (by decide)

end Text
