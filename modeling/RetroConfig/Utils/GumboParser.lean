import Mathlib.Algebra.Group.Nat.Defs
import Mathlib.Data.List.Chain
import Mathlib.Tactic.Common

/-!
# `GumboNode::getText`: the text of a parsed document

The loop of `getText` (`utils/GumboParser.cpp`) takes the nodes from the front of a list and puts the
children of an element in their place, the last one first. A flag tells whether a space would be the
first thing written or stand next to another one.

The number of children is an `unsigned int`, from which the loop over them starts as an `int`. The
vectors of the parser (`gumbo/vector.c`) double their capacity, which is an `unsigned int` too, so
none of them ever holds more than 2^31 nodes (`GumboVector.Made.length_le`), and all children are
visited. `getText_spec` says that the loop ends with the result of the recursive traversal.
-/

namespace RetroConfig

/-! ## The vectors of the parser -/

/-- `GumboVector`; its length is that of the list. -/
structure GumboVector (α : Type) where
  data : List α
  capacity : Nat

namespace GumboVector

variable {α : Type}

/-- `gumbo_vector_init`. -/
def init (capacity : Nat) : GumboVector α := ⟨[], capacity⟩

/-- `enlarge_vector_if_full`. -/
def enlargeIfFull (v : GumboVector α) : GumboVector α :=
  if v.capacity ≤ v.data.length then
    { v with capacity := if v.capacity = 0 then 2 else v.capacity * 2 % 2 ^ 32 }
  else v

/-- `gumbo_vector_insert_at`; there has to be room for the element. -/
def insertAt (v : GumboVector α) (element : α) (index : Nat) : Option (GumboVector α) :=
  if index ≤ v.data.length ∧ v.data.length < v.enlargeIfFull.capacity then
    some { v.enlargeIfFull with data := v.data.insertIdx index element }
  else none

/-- `gumbo_vector_add`. -/
def add (v : GumboVector α) (element : α) : Option (GumboVector α) :=
  if v.data.length < v.enlargeIfFull.capacity then
    some { v.enlargeIfFull with data := v.data ++ [element] }
  else none

/-- `gumbo_vector_remove_at`. -/
def removeAt (v : GumboVector α) (index : Nat) : GumboVector α :=
  { v with data := v.data.eraseIdx index }

/-- The children of an element, from the creation of its node on. -/
inductive Made : GumboVector α → Prop
  | init : Made (init 1)
  | add {v w : GumboVector α} {element : α} (h : Made v) (hAdd : v.add element = some w) : Made w
  | insertAt {v w : GumboVector α} {element : α} {index : Nat} (h : Made v)
    (hInsert : v.insertAt element index = some w) : Made w
  | removeAt {v : GumboVector α} {index : Nat} (h : Made v) : Made (v.removeAt index)

section Bounds

variable {v : GumboVector α}

/-- The capacity is a power of two that is an `unsigned int`. -/
def Bounded (v : GumboVector α) : Prop :=
  v.data.length ≤ v.capacity ∧ ∃ k ≤ 31, v.capacity = 2 ^ k

/-- Where there is room, the capacity stays such a power. -/
theorem Bounded.enlargeIfFull (h : v.Bounded) (hRoom : v.data.length < v.enlargeIfFull.capacity) :
    ∃ k ≤ 31, v.enlargeIfFull.capacity = 2 ^ k := by
  obtain ⟨-, k, hk, hCapacity⟩ := h
  unfold GumboVector.enlargeIfFull at hRoom ⊢
  split
  · next hFull =>
    have hPos : 0 < v.capacity := hCapacity ▸ Nat.two_pow_pos k
    rw [if_pos hFull] at hRoom
    simp only [if_neg (Nat.ne_of_gt hPos)] at hRoom ⊢
    rw [hCapacity, ← Nat.pow_succ] at hRoom ⊢
    rcases Nat.lt_or_ge k 31 with hLt | hGe
    · exact ⟨k + 1, hLt, Nat.mod_eq_of_lt (Nat.pow_lt_pow_right (by decide) (by omega))⟩
    · obtain rfl : k = 31 := by omega
      exact absurd hRoom (Nat.not_lt_zero _)
  · exact ⟨k, hk, hCapacity⟩

theorem Made.bounded (h : v.Made) : v.Bounded := by
  induction h with
  | init => exact ⟨Nat.zero_le 1, 0, Nat.zero_le 31, rfl⟩
  | @add v w element _ hAdd ih =>
    unfold GumboVector.add at hAdd
    split at hAdd
    · next hRoom =>
      obtain rfl := Option.some.inj hAdd
      refine ⟨?_, ih.enlargeIfFull hRoom⟩
      rw [List.length_append]
      exact hRoom
    · cases hAdd
  | @insertAt v w element index _ hInsert ih =>
    unfold GumboVector.insertAt at hInsert
    split at hInsert
    · next hRoom =>
      obtain rfl := Option.some.inj hInsert
      refine ⟨?_, ih.enlargeIfFull hRoom.2⟩
      rw [List.length_insertIdx_of_le_length hRoom.1]
      exact hRoom.2
    · cases hInsert
  | removeAt _ ih =>
    obtain ⟨hLength, hCapacity⟩ := ih
    exact ⟨Nat.le_trans (List.length_eraseIdx_le _ _) hLength, hCapacity⟩

theorem Made.length_le (h : v.Made) : v.data.length ≤ 2 ^ 31 := by
  obtain ⟨hLength, k, hk, hCapacity⟩ := h.bounded
  have hPow : 2 ^ k ≤ 2 ^ 31 := Nat.pow_le_pow_right (by decide) hk
  omega

end Bounds

end GumboVector

/-! ## Nodes -/

/-- The bytes of a `std::string`. -/
abbrev GumboText := List UInt8

/-- A node of the parser. The other ones are documents, comments, CDATA sections and templates,
which `getText` does not look into. -/
inductive Node where
  | element (children : List Node)
  | text (text : { text : GumboText // text ≠ [] })
  | whitespace
  | other

/-- The nodes that the parser makes. -/
inductive Node.Parsed : Node → Prop
  | element {children : GumboVector Node} (hMade : children.Made)
    (hChildren : ∀ n ∈ children.data, n.Parsed) : Parsed (.element children.data)
  | text (text : { text : GumboText // text ≠ [] }) : Parsed (.text text)
  | whitespace : Parsed .whitespace
  | other : Parsed .other

/-- `gs::GumboNode`. -/
structure GumboNode where
  n : Node
  parsed : n.Parsed

namespace GumboNode

/-! ## The loop -/

def space : UInt8 := 32

/-- What the loop works on. -/
structure State where
  nodes : List Node
  ss : GumboText
  whiteSpace : Bool

/-- The loop that puts the first `count` children in front, the last one first. -/
def pushFront (children : List Node) : Nat → List Node → List Node
  | 0, nodes => nodes
  | count + 1, nodes => pushFront children count (children[count]?.toList ++ nodes)

/-- How many rounds it makes: `length - 1`, computed as an `unsigned int`, is where it starts. -/
def rounds (length : Nat) : Nat := ((Int32.ofNat ((length + 2 ^ 32 - 1) % 2 ^ 32)).toInt + 1).toNat

/-- One separating space. -/
def State.separate (s : State) : State :=
  if s.whiteSpace then s else { s with ss := s.ss ++ [space], whiteSpace := true }

/-- The body of the loop. -/
def State.visit (s : State) : Node → State
  | .text text => { s with ss := s.ss ++ text, whiteSpace := false }
  | .whitespace => s.separate
  | .element children =>
    { s.separate with nodes := pushFront children (rounds children.length) s.nodes }
  | .other => s

/-- The loop, as far as `fuel` rounds. -/
def loop : Nat → State → Option GumboText
  | 0, _ => none
  | fuel + 1, s =>
    match s.nodes with
    | [] => some s.ss
    | n :: nodes => loop fuel ({ s with nodes }.visit n)

/-- `GumboNode::getText`, as far as `fuel` rounds of its loop. -/
def getText (fuel : Nat) (node : GumboNode) : Option GumboText := loop fuel ⟨[node.n], [], true⟩

/-! ## The traversal -/

/-- What a traversal writes. -/
inductive Piece where
  | text (text : { text : GumboText // text ≠ [] })
  | separator
  deriving DecidableEq

def Piece.bytes : Piece → GumboText
  | .text t => t
  | .separator => [space]

/-- A separator, unless nothing was written yet or the last thing was one. -/
def separate (written : List Piece) : List Piece :=
  if written = [] ∨ written.getLast? = some .separator then written else written ++ [.separator]

mutual

/-- The preorder traversal of a node. -/
def write : Node → List Piece → List Piece
  | .text text, written => written ++ [.text text]
  | .whitespace, written => separate written
  | .element children, written => writeAll children (separate written)
  | .other, written => written

/-- The traversals of nodes, one after the other. -/
def writeAll : List Node → List Piece → List Piece
  | [], written => written
  | n :: nodes, written => writeAll nodes (write n written)

end

/-- No separator is the first piece or directly behind another one. -/
structure Separated (written : List Piece) : Prop where
  first : written.head? ≠ some .separator
  next : written.IsChain fun a b => ¬ (a = .separator ∧ b = .separator)

/-! ## The loop over the children -/

theorem pushFront_eq {children : List Node} {count : Nat} (h : count ≤ children.length)
    (nodes : List Node) : pushFront children count nodes = children.take count ++ nodes := by
  induction count generalizing nodes with
  | zero => rfl
  | succ count ih =>
    rw [pushFront, ih (by omega), List.getElem?_eq_getElem (by omega), List.take_add_one,
      List.getElem?_eq_getElem (by omega), List.append_assoc]

/-- As long as the last child has a position that is an `int`, all of them are visited. -/
theorem rounds_eq {length : Nat} (h : length ≤ 2 ^ 31) : rounds length = length := by
  unfold rounds
  rcases Nat.eq_zero_or_pos length with rfl | hPos
  · decide
  · have hMod : (length + 2 ^ 32 - 1) % 2 ^ 32 = length - 1 := by omega
    rw [hMod, Int32.toInt_ofNat_of_lt (by omega)]
    omega

theorem pushFront_rounds {children : GumboVector Node} (h : children.Made) (nodes : List Node) :
    pushFront children.data (rounds children.data.length) nodes = children.data ++ nodes := by
  rw [rounds_eq h.length_le, pushFront_eq (Nat.le_refl _), List.take_length]

/-! ## The loop is the traversal -/

/-- The state of the loop where `written` has been written. -/
def State.ofWritten (nodes : List Node) (written : List Piece) : State :=
  { nodes
    ss := written.flatMap Piece.bytes
    whiteSpace := written = [] ∨ written.getLast? = some .separator }

theorem separate_ofWritten (nodes : List Node) (written : List Piece) :
    (State.ofWritten nodes written).separate = State.ofWritten nodes (separate written) := by
  unfold State.separate separate
  by_cases h : written = [] ∨ written.getLast? = some .separator
  · rw [if_pos h, State.ofWritten, if_pos (decide_eq_true h)]
  · rw [if_neg h, State.ofWritten, if_neg (by simpa using h), State.ofWritten]
    simp [Piece.bytes]

theorem loop_cons (fuel : Nat) (node : Node) (nodes : List Node) (written : List Piece) :
    loop (fuel + 1) (State.ofWritten (node :: nodes) written) =
      loop fuel ((State.ofWritten nodes written).visit node) := rfl

theorem visit_text (nodes : List Node) (written : List Piece) (t : { t : GumboText // t ≠ [] }) :
    (State.ofWritten nodes written).visit (.text t) =
      State.ofWritten nodes (written ++ [.text t]) := by
  simp [State.visit, State.ofWritten, Piece.bytes]

theorem visit_element (nodes : List Node) (written : List Piece) {children : GumboVector Node}
    (h : children.Made) : (State.ofWritten nodes written).visit (.element children.data) =
      State.ofWritten (children.data ++ nodes) (separate written) := by
  rw [State.visit, separate_ofWritten]
  exact congrArg (fun nodes => State.ofWritten nodes (separate written)) (pushFront_rounds h nodes)

/-- Visiting a node at the front is its traversal. -/
theorem loop_write {node : Node} (h : node.Parsed) (nodes : List Node) (written : List Piece) :
    ∃ k, ∀ fuel, loop (fuel + k) (State.ofWritten (node :: nodes) written) =
      loop fuel (State.ofWritten nodes (write node written)) := by
  induction h generalizing nodes written with
  | @element children hMade _ ih =>
    have hAll (rest : List Node) (hRest : ∀ n ∈ rest, n ∈ children.data) (written : List Piece) :
        ∃ k, ∀ fuel, loop (fuel + k) (State.ofWritten (rest ++ nodes) written) =
          loop fuel (State.ofWritten nodes (writeAll rest written)) := by
      induction rest generalizing written with
      | nil => exact ⟨0, fun fuel => rfl⟩
      | cons n rest ihRest =>
        obtain ⟨hMem, hTail⟩ := List.forall_mem_cons.mp hRest
        obtain ⟨k, hk⟩ := ih n hMem (rest ++ nodes) written
        obtain ⟨l, hl⟩ := ihRest hTail (write n written)
        refine ⟨l + k, fun fuel => ?_⟩
        rw [← Nat.add_assoc, List.cons_append, hk, hl, writeAll]
    obtain ⟨k, hk⟩ := hAll children.data (fun _ hMem => hMem) (separate written)
    refine ⟨k + 1, fun fuel => ?_⟩
    rw [write, ← hk, ← Nat.add_assoc, loop_cons, visit_element nodes written hMade]
  | text t =>
    refine ⟨1, fun fuel => ?_⟩
    rw [loop_cons, visit_text, write]
  | whitespace =>
    refine ⟨1, fun fuel => ?_⟩
    rw [loop_cons, State.visit, separate_ofWritten, write]
  | other => exact ⟨1, fun fuel => rfl⟩

/-! ## Separators -/

theorem separated_nil : Separated [] := ⟨Option.some_ne_none _ |>.symm, .nil⟩

theorem Separated.concat {written : List Piece} (h : Separated written) {piece : Piece}
    (hPiece : piece = .separator → written ≠ [] ∧ written.getLast? ≠ some .separator) :
    Separated (written ++ [piece]) := by
  constructor
  · rw [List.head?_append]
    cases written with
    | nil =>
      intro hHead
      exact (hPiece (Option.some.inj hHead)).1 rfl
    | cons first rest => exact h.first
  · rw [List.isChain_append]
    refine ⟨h.next, .singleton piece, fun last hLast next hNext hBoth => ?_⟩
    obtain rfl := Option.some.inj hNext
    obtain ⟨rfl, hNext⟩ := hBoth
    exact (hPiece hNext).2 hLast

theorem Separated.separate {written : List Piece} (h : Separated written) :
    Separated (separate written) := by
  unfold GumboNode.separate
  split
  · exact h
  · next hNot =>
    rw [not_or] at hNot
    exact h.concat fun _ => hNot

mutual

theorem Separated.write {written : List Piece} (h : Separated written) :
    (node : Node) → Separated (write node written)
  | .text _ => h.concat fun hPiece => Piece.noConfusion hPiece
  | .whitespace => h.separate
  | .element children => h.separate.writeAll children
  | .other => h

theorem Separated.writeAll {written : List Piece} (h : Separated written) :
    (nodes : List Node) → Separated (writeAll nodes written)
  | [] => h
  | n :: nodes => (h.write n).writeAll nodes

end

/-- For every tree of the parser: the loop ends with what the preorder traversal writes, and this has
no separator at the beginning or directly after another one. -/
theorem getText_spec (node : GumboNode) :
    (∃ k, ∀ fuel, k ≤ fuel → getText fuel node = some ((write node.n []).flatMap Piece.bytes)) ∧
      Separated (write node.n []) := by
  refine ⟨?_, separated_nil.write node.n⟩
  obtain ⟨k, hk⟩ := loop_write node.parsed [] []
  refine ⟨k + 1, fun fuel hFuel => ?_⟩
  obtain ⟨more, rfl⟩ := Nat.exists_eq_add_of_le' hFuel
  have hEnd := hk (more + 1)
  rw [Nat.add_right_comm, Nat.add_assoc more] at hEnd
  exact hEnd

/-- `<p>a <b>c</b></p>` -/
example : (write (.element [.text ⟨[97], by decide⟩, .whitespace,
    .element [.text ⟨[99], by decide⟩]]) []).flatMap Piece.bytes = [97, 32, 99] := by decide

end GumboNode

end RetroConfig
