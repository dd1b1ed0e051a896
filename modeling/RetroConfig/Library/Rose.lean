import Mathlib.Data.List.Lex
import Mathlib.Tactic.Common

/-!
# Ordered trees and the positions in them

A node of an ordered tree is given by its position: the indices that lead to it from the root, the
innermost one first, so that the parent of `i :: p` is `p`. `walk` lists the positions under a node,
entering only the children of nodes whose label is let through. It lists exactly the positions that
can be reached in that way (`mem_walk_iff`), each one once and in document order (`pairwise_walk`).
-/

inductive Rose (α : Type) where
  | node (label : α) (children : List (Rose α))

namespace Rose

variable {α : Type}

def label : Rose α → α
  | .node label _ => label

def children : Rose α → List (Rose α)
  | .node _ children => children

/-- The indices on the way from the root, the innermost one first. -/
abbrev Position := List Nat

/-- The node at a position. -/
def at? (t : Rose α) : Position → Option (Rose α)
  | [] => some t
  | i :: p => (at? t p).bind fun s => s.children[i]?

@[simp] theorem at?_nil (t : Rose α) : t.at? [] = some t := rfl

theorem at?_cons (t : Rose α) (i : Nat) (p : Position) :
    t.at? (i :: p) = (t.at? p).bind fun s => s.children[i]? := rfl

theorem at?_append (t : Rose α) (s p : Position) :
    t.at? (s ++ p) = (t.at? p).bind fun u => u.at? s := by
  induction s with
  | nil => simp
  | cons i s ih => rw [List.cons_append, at?_cons, ih, Option.bind_assoc]; rfl

/-- The parent of a node is a node. -/
theorem exists_at?_parent {t u : Rose α} {i : Nat} {p : Position} (h : t.at? (i :: p) = some u) :
    ∃ s, t.at? p = some s ∧ s.children[i]? = some u := by
  rw [at?_cons] at h
  exact Option.bind_eq_some_iff.mp h

/-- Positions in document order: a node before those under it, and those before its next sibling. -/
def Before (p q : Position) : Prop := List.Lex (· < ·) p.reverse q.reverse

theorem not_before_self (p : Position) : ¬ Before p p := by
  intro h
  exact List.lex_irrefl (fun n => Nat.lt_irrefl n) _ h

theorem Before.trans {p q r : Position} (h : Before p q) (h' : Before q r) : Before p r :=
  List.lex_trans (fun h h' => Nat.lt_trans h h') h h'

theorem before_child (i : Nat) (s p : Position) : Before p (s ++ i :: p) := by
  rw [Before, List.reverse_append, List.reverse_cons, List.append_assoc]
  generalize p.reverse = l
  induction l with
  | nil => exact .nil
  | cons a l ih => exact .cons ih

theorem before_siblings {i j : Nat} (h : i < j) (s s' p : Position) :
    Before (s ++ i :: p) (s' ++ j :: p) := by
  rw [Before, List.reverse_append, List.reverse_append, List.reverse_cons, List.reverse_cons,
    List.append_assoc, List.append_assoc]
  generalize p.reverse = l
  induction l with
  | nil => exact .rel h
  | cons a l ih => exact .cons ih

/-! ## The walk -/

section Walk

variable (enter : α → Bool)

mutual

/-- The positions of a node and of what can be reached below it, as long as nodes are entered. -/
def walk : Rose α → Position → List Position
  | .node label children, p => p :: if enter label then walkAll children 0 p else []

def walkAll : List (Rose α) → Nat → Position → List Position
  | [], _, _ => []
  | t :: ts, i, p => walk t (i :: p) ++ walkAll ts (i + 1) p

end

/-- The position can be reached from the root: all nodes above it are entered. -/
def Reaches (t : Rose α) : Position → Prop
  | [] => True
  | i :: p => Reaches t p ∧ ∃ s, t.at? p = some s ∧ enter s.label = true ∧ i < s.children.length

variable {enter}

/-- The first step of the way down. -/
theorem reaches_append_singleton (t : Rose α) (s : Position) (i : Nat) :
    Reaches enter t (s ++ [i]) ↔
      enter t.label = true ∧ ∃ u, t.children[i]? = some u ∧ Reaches enter u s := by
  induction s with
  | nil =>
    constructor
    · rintro ⟨-, u, hu, hEnter, hi⟩
      obtain rfl := Option.some.inj hu
      exact ⟨hEnter, t.children[i], List.getElem?_eq_getElem hi, trivial⟩
    · rintro ⟨hEnter, u, hu, -⟩
      exact ⟨trivial, t, rfl, hEnter, (List.getElem?_eq_some_iff.mp hu).1⟩
  | cons j s ih =>
    have hAt : ∀ u, t.children[i]? = some u → t.at? (s ++ [i]) = u.at? s := by
      intro u hu
      rw [at?_append, at?_cons, at?_nil, Option.bind_some, hu, Option.bind_some]
    constructor
    · rintro ⟨hReach, v, hv, hEnter, hj⟩
      obtain ⟨hRoot, u, hu, hReach'⟩ := ih.mp hReach
      exact ⟨hRoot, u, hu, hReach', v, (hAt u hu).symm.trans hv, hEnter, hj⟩
    · rintro ⟨hRoot, u, hu, hReach, v, hv, hEnter, hj⟩
      exact ⟨ih.mpr ⟨hRoot, u, hu, hReach⟩, v, (hAt u hu).trans hv, hEnter, hj⟩

mutual

theorem mem_walk_iff (t : Rose α) (p q : Position) :
    q ∈ walk enter t p ↔ ∃ s, q = s ++ p ∧ Reaches enter t s := by
  match t with
  | .node label children =>
    rw [walk, List.mem_cons]
    constructor
    · rintro (rfl | hq)
      · exact ⟨[], rfl, trivial⟩
      · split at hq
        · next hEnter =>
          obtain ⟨k, u, s, hu, rfl, hReach⟩ := (mem_walkAll_iff children 0 p q).mp hq
          refine ⟨s ++ [k], ?_, ?_⟩
          · rw [Nat.zero_add, List.append_assoc]; rfl
          · exact (reaches_append_singleton _ s k).mpr ⟨hEnter, u, hu, hReach⟩
        · cases hq
    · rintro ⟨s, rfl, hReach⟩
      rcases List.eq_nil_or_concat s with rfl | ⟨s, k, rfl⟩
      · exact .inl rfl
      · rw [List.concat_eq_append] at hReach ⊢
        obtain ⟨hEnter, u, hu, hReach⟩ := (reaches_append_singleton _ s k).mp hReach
        have hLabel : enter label = true := hEnter
        rw [if_pos hLabel]
        refine .inr ((mem_walkAll_iff children 0 p _).mpr ⟨k, u, s, hu, ?_, hReach⟩)
        rw [Nat.zero_add, List.append_assoc]
        rfl

theorem mem_walkAll_iff (ts : List (Rose α)) (i : Nat) (p q : Position) :
    q ∈ walkAll enter ts i p ↔
      ∃ k u s, ts[k]? = some u ∧ q = s ++ (i + k) :: p ∧ Reaches enter u s := by
  match ts with
  | [] => simp [walkAll]
  | t :: ts =>
    rw [walkAll, List.mem_append]
    constructor
    · rintro (hq | hq)
      · obtain ⟨s, rfl, hReach⟩ := (mem_walk_iff t (i :: p) q).mp hq
        exact ⟨0, t, s, rfl, rfl, hReach⟩
      · obtain ⟨k, u, s, hu, rfl, hReach⟩ := (mem_walkAll_iff ts (i + 1) p q).mp hq
        exact ⟨k + 1, u, s, hu, by rw [Nat.add_assoc, Nat.add_comm 1 k], hReach⟩
    · rintro ⟨k, u, s, hu, rfl, hReach⟩
      cases k with
      | zero =>
        obtain rfl := Option.some.inj hu
        exact .inl ((mem_walk_iff t (i :: p) _).mpr ⟨s, rfl, hReach⟩)
      | succ k =>
        refine .inr ((mem_walkAll_iff ts (i + 1) p _).mpr ⟨k, u, s, hu, ?_, hReach⟩)
        rw [Nat.add_assoc, Nat.add_comm 1 k]

end

mutual

theorem pairwise_walk (t : Rose α) (p : Position) : (walk enter t p).Pairwise Before := by
  match t with
  | .node label children =>
    rw [walk, List.pairwise_cons]
    constructor
    · intro q hq
      split at hq
      · obtain ⟨k, u, s, -, rfl, -⟩ := (mem_walkAll_iff children 0 p q).mp hq
        exact before_child _ s p
      · cases hq
    · split
      · exact pairwise_walkAll children 0 p
      · exact .nil

theorem pairwise_walkAll (ts : List (Rose α)) (i : Nat) (p : Position) :
    (walkAll enter ts i p).Pairwise Before := by
  match ts with
  | [] => exact .nil
  | t :: ts =>
    rw [walkAll, List.pairwise_append]
    refine ⟨pairwise_walk t (i :: p), pairwise_walkAll ts (i + 1) p, ?_⟩
    intro q hq r hr
    obtain ⟨s, rfl, -⟩ := (mem_walk_iff t (i :: p) q).mp hq
    obtain ⟨k, u, s', -, rfl, -⟩ := (mem_walkAll_iff ts (i + 1) p r).mp hr
    exact before_siblings (by omega) s s' p

end

theorem nodup_of_pairwise_before {ps : List Position} (h : ps.Pairwise Before) : ps.Nodup := by
  refine h.imp ?_
  rintro p _ hBefore rfl
  exact not_before_self p hBefore

end Walk

end Rose
