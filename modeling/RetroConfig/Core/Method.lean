import Mathlib.Data.List.Basic
import Mathlib.Tactic.Common

/-!
# `Method`: default arguments

A native method (`gcore/core/Method.h`, `MethodImp.h`) has a number of parameters, the last of which
may have default values. `Method::call` completes the arguments that it is given and hands an array
to `_call`, which reads one slot for each parameter.

The defaults are stored in the order of the declaration, while `call` takes them from the end.
`call_iff` says which calls get the right ones: those that leave out at most one argument, and
those whose missing defaults read the same backwards.
-/

namespace RetroConfig

/-- `Method`. `arity` is the number of slots that `_call` reads. -/
structure Method (α : Type) where
  arity : Nat
  pCount : UInt8
  dCount : UInt8
  defaultValues : List α

namespace Method

variable {α : Type}

/-- The constructor of `MethodImp`: `setParamsType` and `setDefaultValues` cut their counts to a
byte. -/
def make (arity : Nat) (dvs : List α) : Method α where
  arity := arity
  pCount := UInt8.ofNat arity
  dCount := UInt8.ofNat dvs.length
  defaultValues := dvs

def getParamsCount (m : Method α) : Nat := m.pCount.toNat

def getDefaultCount (m : Method α) : Nat := m.dCount.toNat

/-- `Method::call`: the array that `_call` gets, or `none` if it is not called. A slot is `none` if
it was read outside of its array. -/
def call (m : Method α) (params : List α) : Option (List (Option α)) :=
  let pc := m.getParamsCount
  let dc := m.getDefaultCount
  let count := params.length
  if count < pc then
    if count + dc < pc then none
    else
      some ((List.range count).map (fun i => params[i]?) ++
        (List.range' count (pc - count)).map fun i => m.defaultValues[dc - (i - count) - 1]?)
  else some (params.map some)

/-- The declared default of the parameter `i`, if it has one. -/
def defaultOf (m : Method α) (i : Nat) : Option α :=
  if m.arity - m.defaultValues.length ≤ i then
    m.defaultValues[i - (m.arity - m.defaultValues.length)]?
  else none

/-- The call hands the arguments on, and after them the default of each parameter that got none. -/
def Completes (m : Method α) (params : List α) : Prop :=
  ∃ vs, m.call params = some vs ∧ vs.length = m.arity ∧
    (∀ i < params.length, vs[i]? = some params[i]?) ∧
    ∀ i, params.length ≤ i → i < m.arity → vs[i]? = some (m.defaultOf i)

/-! ## What is passed -/

theorem map_getElem? (l : List α) : (List.range l.length).map (fun i => l[i]?) = l.map some := by
  refine List.ext_getElem? fun i => ?_
  rw [List.getElem?_map, List.getElem?_map]
  by_cases hi : i < l.length
  · rw [List.getElem?_range hi, List.getElem?_eq_getElem hi]
    simp [hi]
  · rw [List.getElem?_eq_none (by simpa using hi), List.getElem?_eq_none (by omega)]
    rfl

/-- The defaults are taken from the end. -/
theorem defaults_backwards {dvs : List α} {count missing : Nat} (h : missing ≤ dvs.length) :
    (List.range' count missing).map (fun i => dvs[dvs.length - (i - count) - 1]?) =
      (dvs.drop (dvs.length - missing)).reverse.map some := by
  refine List.ext_getElem? fun j => ?_
  rw [List.getElem?_map, List.getElem?_map]
  by_cases hj : j < missing
  · rw [List.getElem?_range' hj, List.getElem?_reverse (by rw [List.length_drop]; omega),
      List.length_drop, List.getElem?_drop]
    have hIndex : dvs.length - (count + 1 * j - count) - 1 =
        dvs.length - missing + (dvs.length - (dvs.length - missing) - 1 - j) := by omega
    have hLt : dvs.length - missing + (dvs.length - (dvs.length - missing) - 1 - j) < dvs.length := by
      omega
    rw [Option.map_some, hIndex, List.getElem?_eq_getElem hLt]
    rfl
  · rw [List.getElem?_eq_none (by rw [List.length_range']; omega),
      List.getElem?_eq_none (by rw [List.length_reverse, List.length_drop]; omega)]
    rfl

/-- The defaults of the parameters that get no argument. -/
def missing (dvs : List α) (arity count : Nat) : List α := dvs.drop (dvs.length - (arity - count))

variable {arity : Nat} {dvs params : List α}

theorem length_missing (hDefaults : arity ≤ params.length + dvs.length) :
    (missing dvs arity params.length).length = arity - params.length := by
  rw [missing, List.length_drop]
  omega

/-- The slots are the arguments and the missing defaults, in the order of the declaration. -/
theorem completes_iff (hDvs : dvs.length ≤ arity) (hCount : params.length ≤ arity)
    (hDefaults : arity ≤ params.length + dvs.length) :
    (make arity dvs).Completes params ↔
      (make arity dvs).call params =
        some ((params ++ missing dvs arity params.length).map some) := by
  have hLength : (params ++ missing dvs arity params.length).length = arity := by
    rw [List.length_append, length_missing hDefaults]
    omega
  have hSlot : ∀ i, params.length ≤ i →
      (missing dvs arity params.length)[i - params.length]? = (make arity dvs).defaultOf i := by
    intro i hi
    have hIndex : dvs.length - (arity - params.length) + (i - params.length) =
        i - (arity - dvs.length) := by omega
    rw [missing, List.getElem?_drop, hIndex, defaultOf, if_pos]
    · rfl
    · change arity - dvs.length ≤ i
      omega
  constructor
  · rintro ⟨vs, hCall, hSize, hGiven, hRest⟩
    have hSize : vs.length = arity := hSize
    rw [hCall, Option.some.injEq]
    refine List.ext_getElem? fun i => ?_
    rw [List.getElem?_map]
    by_cases hi : i < params.length
    · rw [hGiven i hi, List.getElem?_append_left hi, List.getElem?_eq_getElem hi]
      rfl
    · by_cases hLast : i < arity
      · rw [hRest i (by omega) hLast, ← hSlot i (by omega),
          List.getElem?_append_right (by omega),
          List.getElem?_eq_getElem (by rw [length_missing hDefaults]; omega)]
        rfl
      · rw [List.getElem?_eq_none (by omega), List.getElem?_eq_none (by omega)]
        rfl
  · intro hCall
    refine ⟨_, hCall, ?_, fun i hi => ?_, fun i hi hLast => ?_⟩
    · rw [List.length_map, hLength]
      rfl
    · rw [List.getElem?_map, List.getElem?_append_left hi, List.getElem?_eq_getElem hi]
      rfl
    · have hLast : i < arity := hLast
      rw [List.getElem?_map, List.getElem?_append_right hi, ← hSlot i hi,
        List.getElem?_eq_getElem (by rw [length_missing hDefaults]; omega)]
      rfl

theorem missing_all (h : params.length = arity) : missing dvs arity params.length = [] := by
  rw [missing, h, Nat.sub_self, Nat.sub_zero, List.drop_length]

theorem toNat_ofNat_of_lt {n : Nat} (h : n < 256) : (UInt8.ofNat n).toNat = n := by
  rw [UInt8.toNat_ofNat', Nat.mod_eq_of_lt h]

/-- A method with at most 255 parameters gets the missing defaults in reverse. -/
theorem call_make (hArity : arity < 256) (hDvs : dvs.length ≤ arity)
    (hCount : params.length ≤ arity) (hDefaults : arity ≤ params.length + dvs.length) :
    (make arity dvs).call params =
      some ((params ++ (missing dvs arity params.length).reverse).map some) := by
  have hPc : (make arity dvs).getParamsCount = arity := toNat_ofNat_of_lt hArity
  have hDc : (make arity dvs).getDefaultCount = dvs.length := toNat_ofNat_of_lt (by omega)
  rw [call, hPc, hDc]
  by_cases hLt : params.length < arity
  · have hMissing : arity - params.length ≤ dvs.length := by omega
    have hBack : (List.range' params.length (arity - params.length)).map
        (fun i => dvs[dvs.length - (i - params.length) - 1]?) =
          (dvs.drop (dvs.length - (arity - params.length))).reverse.map some :=
      defaults_backwards hMissing
    have hValues : (make arity dvs).defaultValues = dvs := rfl
    rw [if_pos hLt, if_neg (by omega), hValues, map_getElem?, hBack, List.map_append]
    rfl
  · rw [if_neg hLt, missing_all (by omega), List.reverse_nil, List.append_nil]

/-- A method with more parameters than a byte can count never gets that many slots, unless all
arguments are given. -/
theorem length_call_make (hArity : 256 ≤ arity) (hCount : params.length < arity)
    {vs : List (Option α)} (h : (make arity dvs).call params = some vs) : vs.length < arity := by
  have hPc : (make arity dvs).getParamsCount < 256 := (UInt8.ofNat arity).toNat_lt
  unfold call at h
  dsimp only at h
  split at h
  · split at h
    · cases h
    · rw [← Option.some.inj h, List.length_append, List.length_map, List.length_range,
        List.length_map, List.length_range']
      omega
  · rw [← Option.some.inj h, List.length_map]
    exact hCount

/-- A call gets the defaults of the parameters that it leaves out exactly if it leaves out none, or
if the method has at most 255 parameters and the missing defaults read the same backwards. -/
theorem call_iff (arity : Nat) (dvs params : List α) (hDvs : dvs.length ≤ arity)
    (hCount : params.length ≤ arity) (hDefaults : arity - dvs.length ≤ params.length) :
    (make arity dvs).Completes params ↔
      params.length = arity ∨
        arity < 256 ∧ (missing dvs arity params.length).reverse = missing dvs arity params.length := by
  rw [completes_iff hDvs hCount (by omega)]
  by_cases hArity : arity < 256
  · rw [call_make hArity hDvs hCount (by omega), Option.some.injEq,
      List.map_inj_right fun _ _ => Option.some.inj, List.append_right_inj]
    constructor
    · exact fun hSame => .inr ⟨hArity, hSame⟩
    · rintro (hAll | ⟨-, hSame⟩)
      · rw [missing_all hAll, List.reverse_nil]
      · exact hSame
  · by_cases hAll : params.length = arity
    · refine iff_of_true ?_ (.inl hAll)
      have hPc : (make arity dvs).getParamsCount < 256 := (UInt8.ofNat arity).toNat_lt
      rw [call, if_neg (by omega), missing_all hAll, List.append_nil]
    · refine iff_of_false (fun hCall => ?_) fun hOr => hOr.elim hAll fun hLt => hArity hLt.1
      have hLength := length_call_make (by omega) (by omega) hCall
      rw [List.length_map, List.length_append, length_missing (by omega)] at hLength
      omega

/-- A call that leaves out one argument is completed. -/
theorem call_one_missing : (make 3 ["a", "b"]).Completes ["x", "y"] :=
  (call_iff 3 ["a", "b"] ["x", "y"] (by decide) (by decide) (by decide)).mpr
    (.inr ⟨by decide, rfl⟩)

/-- One that leaves out two gets them in the wrong order. -/
theorem call_two_missing : ¬ (make 3 ["a", "b"]).Completes ["x"] := by
  rintro ⟨vs, hCall, -, -, hRest⟩
  obtain rfl : [some "x", some "b", some "a"] = vs := Option.some.inj hCall
  exact absurd (hRest 1 (by decide) (by decide)) (by decide)

end Method

end RetroConfig
