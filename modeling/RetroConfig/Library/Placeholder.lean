import Mathlib.Data.String.Basic
import Mathlib.Data.List.Basic
import Mathlib.Tactic.Common

/-!
# Texts with placeholders

A statement with parameters is made of pieces: fixed text, and arguments for which the text has a
`?`. `render` writes the pieces with a given text for each argument; a statement with placeholders
is `render placeholder`. `fill` puts values in the place of the placeholders of a text, from
left to right.

If no fixed text has a `?` of its own, the text has one placeholder for each argument
(`count_render`), filling it with the arguments puts every argument where it belongs
(`fill_render`), and it depends on the fixed texts only (`render_placeholder_congr`).
-/

namespace Placeholder

inductive Part where
  | fixed (s : String)
  | arg (s : String)

/-- The text of the pieces, with `write s` for the argument `s`. -/
def render (write : String → String) : List Part → String
  | [] => ""
  | .fixed s :: parts => s ++ render write parts
  | .arg s :: parts => write s ++ render write parts

/-- The arguments, in the order of the text. -/
def args : List Part → List String
  | [] => []
  | .fixed _ :: parts => args parts
  | .arg s :: parts => s :: args parts

def placeholder (_ : String) : String := "?"

theorem toList_placeholder (s : String) : (placeholder s).toList = ['?'] := by
  rw [placeholder]
  decide

def fillChars : List Char → List String → List Char
  | [], _ => []
  | c :: cs, vs =>
    if c = '?' then (vs.headD "?").toList ++ fillChars cs vs.tail
    else c :: fillChars cs vs

/-- The text with the values in the place of its placeholders. -/
def fill (text : String) (values : List String) : String :=
  String.ofList (fillChars text.toList values)

/-- The number of placeholders in a text. -/
def count (text : String) : Nat := text.toList.count '?'

/-- The text has no `?`. -/
def Free (text : String) : Prop := '?' ∉ text.toList

instance (text : String) : Decidable (Free text) :=
  inferInstanceAs (Decidable ('?' ∉ text.toList))

/-- No fixed text has a `?`. -/
def Plain (parts : List Part) : Prop := ∀ s, .fixed s ∈ parts → Free s

/-- A piece without its argument. -/
def Part.shape : Part → Option String
  | .fixed s => some s
  | .arg _ => none

theorem render_append (write : String → String) (a b : List Part) :
    render write (a ++ b) = render write a ++ render write b := by
  induction a with
  | nil => simp [render]
  | cons part a ih => cases part <;> simp [render, ih, String.append_assoc]

theorem args_append (a b : List Part) : args (a ++ b) = args a ++ args b := by
  induction a with
  | nil => rfl
  | cons part a ih => cases part <;> simp [args, ih]

theorem free_append {s t : String} : Free (s ++ t) ↔ Free s ∧ Free t := by
  rw [Free, String.toList_append, List.mem_append, not_or]
  rfl

theorem plain_nil : Plain [] := fun _ h => by cases h

theorem plain_append {a b : List Part} : Plain (a ++ b) ↔ Plain a ∧ Plain b := by
  constructor
  · intro h
    exact ⟨fun s hs => h s (List.mem_append_left b hs), fun s hs => h s (List.mem_append_right a hs)⟩
  · rintro ⟨ha, hb⟩ s hs
    exact (List.mem_append.mp hs).elim (ha s) (hb s)

theorem plain_fixed {s : String} {parts : List Part} :
    Plain (.fixed s :: parts) ↔ Free s ∧ Plain parts := by
  constructor
  · intro h
    exact ⟨h s List.mem_cons_self, fun t ht => h t (List.mem_cons_of_mem _ ht)⟩
  · rintro ⟨hs, hParts⟩ t ht
    rcases List.mem_cons.mp ht with hHead | hTail
    · rw [Part.fixed.inj hHead]
      exact hs
    · exact hParts t hTail

theorem plain_arg {s : String} {parts : List Part} : Plain (.arg s :: parts) ↔ Plain parts := by
  constructor
  · exact fun h t ht => h t (List.mem_cons_of_mem _ ht)
  · intro h t ht
    rcases List.mem_cons.mp ht with hHead | hTail
    · cases hHead
    · exact h t hTail

/-- The text has one placeholder for each argument. -/
theorem count_render {parts : List Part} (h : Plain parts) :
    count (render placeholder parts) = (args parts).length := by
  induction parts with
  | nil => rfl
  | cons part parts ih =>
    cases part with
    | fixed s =>
      obtain ⟨hs, hParts⟩ := plain_fixed.mp h
      rw [render, count, String.toList_append, List.count_append, List.count_eq_zero.mpr hs,
        Nat.zero_add]
      exact ih hParts
    | arg s =>
      rw [render, count, String.toList_append, List.count_append, args, List.length_cons,
        ← ih (plain_arg.mp h), toList_placeholder, Nat.add_comm]
      rfl

theorem fillChars_free {cs : List Char} (h : '?' ∉ cs) (rest : List Char) (vs : List String) :
    fillChars (cs ++ rest) vs = cs ++ fillChars rest vs := by
  induction cs with
  | nil => rfl
  | cons c cs ih =>
    have hc : c ≠ '?' := fun hEq => h (hEq ▸ List.mem_cons_self)
    rw [List.cons_append, fillChars, if_neg hc, ih fun hMem => h (List.mem_cons_of_mem c hMem)]
    rfl

/-- Filling the placeholders with the arguments puts every argument in its place. -/
theorem fill_render (write : String → String) {parts : List Part} (h : Plain parts) :
    fill (render placeholder parts) ((args parts).map write) = render write parts := by
  apply String.toList_inj.mp
  rw [fill, String.toList_ofList]
  induction parts with
  | nil => rfl
  | cons part parts ih =>
    cases part with
    | fixed s =>
      obtain ⟨hs, hParts⟩ := plain_fixed.mp h
      rw [render, render, String.toList_append, String.toList_append, fillChars_free hs]
      exact congrArg (s.toList ++ ·) (ih hParts)
    | arg s =>
      rw [render, render, String.toList_append, String.toList_append, toList_placeholder,
        List.singleton_append, fillChars, if_pos rfl]
      exact congrArg ((write s).toList ++ ·) (ih (plain_arg.mp h))

/-- The text with placeholders does not depend on the arguments. -/
theorem render_placeholder_congr {a b : List Part} (h : a.map Part.shape = b.map Part.shape) :
    render placeholder a = render placeholder b := by
  induction a generalizing b with
  | nil =>
    rw [List.map_nil] at h
    rw [List.map_eq_nil_iff.mp h.symm]
  | cons part a ih =>
    cases b with
    | nil => cases h
    | cons part' b =>
      obtain ⟨hHead, hTail⟩ := List.cons.inj h
      cases part <;> cases part' <;> cases hHead <;> rw [render, render, ih hTail]
      rfl

/-! ## Lists separated by commas -/

/-- What a loop writes that puts a comma before every element but the first. -/
def commas : List String → String
  | [] => ""
  | [s] => s
  | s :: ss => s ++ "," ++ commas ss

def commaParts : List (List Part) → List Part
  | [] => []
  | [ps] => ps
  | ps :: pss => ps ++ .fixed "," :: commaParts pss

theorem commaParts_cons (ps qs : List Part) (pss : List (List Part)) :
    commaParts (ps :: qs :: pss) = ps ++ .fixed "," :: commaParts (qs :: pss) := rfl

theorem render_commaParts (write : String → String) (pss : List (List Part)) :
    render write (commaParts pss) = commas (pss.map (render write)) := by
  induction pss with
  | nil => rfl
  | cons ps pss ih =>
    cases pss with
    | nil => rfl
    | cons qs pss =>
      rw [commaParts_cons, render_append, render, ih, ← String.append_assoc]
      rfl

theorem args_commaParts (pss : List (List Part)) : args (commaParts pss) = pss.flatMap args := by
  induction pss with
  | nil => rfl
  | cons ps pss ih =>
    cases pss with
    | nil => exact (List.append_nil _).symm
    | cons qs pss =>
      rw [commaParts_cons, args_append, args, ih]
      rfl

theorem plain_commaParts {pss : List (List Part)} (h : ∀ ps ∈ pss, Plain ps) :
    Plain (commaParts pss) := by
  induction pss with
  | nil => exact plain_nil
  | cons ps pss ih =>
    obtain ⟨hHead, hTail⟩ := List.forall_mem_cons.mp h
    cases pss with
    | nil => exact hHead
    | cons qs pss =>
      have hComma : Free "," := by decide
      rw [commaParts_cons]
      exact plain_append.mpr ⟨hHead, plain_fixed.mpr ⟨hComma, ih hTail⟩⟩

theorem free_commas {ss : List String} (h : ∀ s ∈ ss, Free s) : Free (commas ss) := by
  induction ss with
  | nil => exact (by decide : Free "")
  | cons s ss ih =>
    obtain ⟨hHead, hTail⟩ := List.forall_mem_cons.mp h
    cases ss with
    | nil => exact hHead
    | cons t ss =>
      have hComma : Free "," := by decide
      exact free_append.mpr ⟨free_append.mpr ⟨hHead, hComma⟩, ih hTail⟩

theorem shape_commaParts {pss qss : List (List Part)}
    (h : pss.map (List.map Part.shape) = qss.map (List.map Part.shape)) :
    (commaParts pss).map Part.shape = (commaParts qss).map Part.shape := by
  induction pss generalizing qss with
  | nil => rw [List.map_eq_nil_iff.mp h.symm]
  | cons ps pss ih =>
    cases qss with
    | nil => cases h
    | cons qs qss =>
      obtain ⟨hHead, hTail⟩ := List.cons.inj h
      have hRest := ih hTail
      cases pss with
      | nil =>
        rw [List.map_eq_nil_iff.mp hTail.symm]
        exact hHead
      | cons ps' pss =>
        cases qss with
        | nil => cases hTail
        | cons qs' qss =>
          rw [commaParts_cons, commaParts_cons, List.map_append, List.map_append, List.map_cons,
            List.map_cons, hHead, hRest]

end Placeholder
