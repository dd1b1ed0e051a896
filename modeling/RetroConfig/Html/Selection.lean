import RetroConfig.Html.SelectorBounds

/-!
# Queries

`GumboNode::query` looks for the nodes under a node that match a selector (`CSelection::find`,
`CSelector::matchAll`). It gives each of them once, in document order (`query_spec`), and where it is
asked for several nodes at once, each node that one of them leads to once (`find_spec`).
-/

namespace RetroConfig.Html

open Rose (Position)

/-! ## The code -/

mutual

/-- `CSelector::matchAllInto`. -/
def matchAllInto (matches1 : Position → Bool) : Node → Position → List Position → List Position
  | .node label children, p, nodes =>
    let nodes := if matches1 p then nodes ++ [p] else nodes
    if label.isElement then matchAllIntoFrom matches1 children 0 p nodes else nodes

/-- Its loop over the children, from the `i`th on. -/
def matchAllIntoFrom (matches1 : Position → Bool) :
    List Node → Nat → Position → List Position → List Position
  | [], _, _, nodes => nodes
  | child :: rest, i, p, nodes =>
    matchAllIntoFrom matches1 rest (i + 1) p (matchAllInto matches1 child (i :: p) nodes)

end

/-- `CSelector::matchAll`. -/
def Selector.matchAll (s : Selector) (d : Node) (p : Position) : List Position :=
  match d.at? p with
  | some node => matchAllInto (s.matchNode d) node p []
  | none => []

/-- `CQueryUtil::nodeExists`. -/
def nodeExists : List Position → Position → Bool
  | [], _ => false
  | pNode :: rest, apNode => if pNode = apNode then true else nodeExists rest apNode

/-- `CQueryUtil::unionNodes`. -/
def unionNodes (aNodes1 : List Position) : List Position → List Position
  | [] => aNodes1
  | pNode :: rest =>
    if nodeExists aNodes1 pNode then unionNodes aNodes1 rest
    else unionNodes (aNodes1 ++ [pNode]) rest

/-- The loop of `CSelection::find`. -/
def findLoop (s : Selector) (d : Node) : List Position → List Position → List Position
  | [], ret => ret
  | pNode :: rest, ret => findLoop s d rest (unionNodes ret (s.matchAll d pNode))

/-- `CSelection::find`. -/
def find (unsignedChar : Bool) (d : Node) (mNodes : List Position) (aSelector : Bytes) :
    Except Stop (List Position) := do
  let sel ← CParser.create unsignedChar aSelector
  .ok (findLoop sel d mNodes [])

/-- `gs::GumboNode::query`, through `CNode::find`. -/
def query (unsignedChar : Bool) (d : Node) (n : Position) (css : Bytes) :
    Except Stop (List Position) :=
  find unsignedChar d [n] css

/-! ## What it finds -/

section Union

variable {matches1 : Position → Bool}

mutual

theorem matchAllInto_eq (node : Node) (p : Position) (nodes : List Position) :
    matchAllInto matches1 node p nodes =
      nodes ++ (Rose.walk Content.isElement node p).filter matches1 := by
  match node with
  | .node label children =>
    rw [matchAllInto, Rose.walk]
    cases hMatch : matches1 p with
    | true =>
      rw [if_pos rfl, List.filter_cons_of_pos hMatch]
      split
      · rw [matchAllIntoFrom_eq children 0 p, List.append_assoc, List.singleton_append]
      · rw [List.filter_nil]
    | false =>
      rw [if_neg Bool.false_ne_true, List.filter_cons_of_neg (by simp [hMatch])]
      split
      · rw [matchAllIntoFrom_eq children 0 p]
      · rw [List.filter_nil, List.append_nil]

theorem matchAllIntoFrom_eq (children : List Node) (i : Nat) (p : Position) (nodes : List Position) :
    matchAllIntoFrom matches1 children i p nodes =
      nodes ++ (Rose.walkAll Content.isElement children i p).filter matches1 := by
  match children with
  | [] => rw [matchAllIntoFrom, Rose.walkAll, List.filter_nil, List.append_nil]
  | child :: rest =>
    rw [matchAllIntoFrom, Rose.walkAll, matchAllIntoFrom_eq rest, matchAllInto_eq child,
      List.filter_append, List.append_assoc]

end

theorem nodeExists_iff (aNodes : List Position) (apNode : Position) :
    nodeExists aNodes apNode = true ↔ apNode ∈ aNodes := by
  induction aNodes with
  | nil => simp [nodeExists]
  | cons pNode rest ih =>
    rw [nodeExists, List.mem_cons]
    split
    · next h => exact iff_of_true rfl (.inl h.symm)
    · next h => rw [ih, or_iff_right (Ne.symm h)]

theorem mem_unionNodes (aNodes1 aNodes2 : List Position) (q : Position) :
    q ∈ unionNodes aNodes1 aNodes2 ↔ q ∈ aNodes1 ∨ q ∈ aNodes2 := by
  induction aNodes2 generalizing aNodes1 with
  | nil => simp [unionNodes]
  | cons pNode rest ih =>
    rw [unionNodes, List.mem_cons]
    split
    · next h =>
      rw [ih]
      have hMem := (nodeExists_iff _ _).mp h
      constructor
      · exact Or.imp_right .inr
      · rintro (h | rfl | h)
        · exact .inl h
        · exact .inl hMem
        · exact .inr h
    · rw [ih, List.mem_append, List.mem_singleton, or_assoc]

theorem nodup_unionNodes {aNodes1 : List Position} (h : aNodes1.Nodup) (aNodes2 : List Position) :
    (unionNodes aNodes1 aNodes2).Nodup := by
  induction aNodes2 generalizing aNodes1 with
  | nil => exact h
  | cons pNode rest ih =>
    rw [unionNodes]
    split
    · exact ih h
    · next hNot =>
      refine ih (List.nodup_append.mpr ⟨h, List.nodup_singleton pNode, ?_⟩)
      rintro q hq _ hr rfl
      obtain rfl := List.mem_singleton.mp hr
      exact hNot ((nodeExists_iff _ _).mpr hq)

/-- Nodes that are new and different are all added, in their order. -/
theorem unionNodes_eq {aNodes1 aNodes2 : List Position} (h : (aNodes1 ++ aNodes2).Nodup) :
    unionNodes aNodes1 aNodes2 = aNodes1 ++ aNodes2 := by
  induction aNodes2 generalizing aNodes1 with
  | nil => rw [unionNodes, List.append_nil]
  | cons pNode rest ih =>
    have hNew : ¬ nodeExists aNodes1 pNode = true := by
      rw [nodeExists_iff]
      intro hMem
      exact (List.nodup_append.mp h).2.2 pNode hMem pNode List.mem_cons_self rfl
    rw [unionNodes, if_neg hNew, ih (by simpa using h), List.append_assoc, List.singleton_append]

end Union

/-- The nodes under `p` that can be reached through elements and that a selector selects. -/
def Selected (d : Document) (s : Selector) (p q : Position) : Prop :=
  (∃ node below, d.root.at? p = some node ∧ q = below ++ p ∧
    Rose.Reaches Content.isElement node below) ∧ q ∈ s.Denotes d.root

theorem matchAll_eq (d : Document) (s : Selector) {p : Position} {node : Node}
    (h : d.root.at? p = some node) :
    s.matchAll d.root p = (Rose.walk Content.isElement node p).filter (s.matchNode d.root) := by
  rw [Selector.matchAll, h]
  exact matchAllInto_eq node p []

theorem mem_matchAll_iff (d : Document) (s : Selector) (p q : Position) :
    q ∈ s.matchAll d.root p ↔ Selected d s p q := by
  cases hNode : d.root.at? p with
  | none =>
    rw [Selector.matchAll, hNode]
    refine iff_of_false (by simp) ?_
    rintro ⟨⟨node, below, hSome, -⟩, -⟩
    rw [hNode] at hSome
    cases hSome
  | some node =>
    rw [matchAll_eq d s hNode, List.mem_filter, Rose.mem_walk_iff, matchNode_iff]
    constructor
    · rintro ⟨⟨below, rfl, hReach⟩, h⟩
      exact ⟨⟨node, below, hNode, rfl, hReach⟩, h⟩
    · rintro ⟨⟨node', below, hNode', rfl, hReach⟩, h⟩
      obtain rfl := Option.some.inj (hNode.symm.trans hNode')
      exact ⟨⟨below, rfl, hReach⟩, h⟩

theorem pairwise_matchAll (d : Document) (s : Selector) (p : Position) :
    (s.matchAll d.root p).Pairwise Rose.Before := by
  cases hNode : d.root.at? p with
  | none =>
    rw [Selector.matchAll, hNode]
    exact .nil
  | some node =>
    rw [matchAll_eq d s hNode]
    exact (Rose.pairwise_walk node p).filter _

theorem mem_findLoop (d : Document) (s : Selector) (mNodes ret : List Position) (q : Position) :
    q ∈ findLoop s d.root mNodes ret ↔ q ∈ ret ∨ ∃ p ∈ mNodes, Selected d s p q := by
  induction mNodes generalizing ret with
  | nil => simp [findLoop]
  | cons p rest ih =>
    rw [findLoop, ih, mem_unionNodes, mem_matchAll_iff, or_assoc]
    simp

theorem nodup_findLoop (d : Document) (s : Selector) (mNodes : List Position) {ret : List Position}
    (h : ret.Nodup) : (findLoop s d.root mNodes ret).Nodup := by
  induction mNodes generalizing ret with
  | nil => exact h
  | cons p rest ih => exact ih (nodup_unionNodes h _)

/-- A selector that is looked for from several nodes: each node that is selected from one of them is
found, and once. -/
theorem find_spec (unsignedChar : Bool) (d : Document) (mNodes : List Position) (aSelector : Bytes)
    {ret : List Position} (h : find unsignedChar d.root mNodes aSelector = .ok ret) :
    ∃ sel, CParser.create unsignedChar aSelector = .ok sel ∧ ret.Nodup ∧
      ∀ q, q ∈ ret ↔ ∃ p ∈ mNodes, Selected d sel p q := by
  rw [find] at h
  cases hCreate : CParser.create unsignedChar aSelector with
  | error e => rw [hCreate] at h; cases h
  | ok sel =>
    rw [hCreate] at h
    obtain rfl : findLoop sel d.root mNodes [] = ret := Except.ok.inj h
    refine ⟨sel, rfl, nodup_findLoop d sel mNodes .nil, fun q => ?_⟩
    rw [mem_findLoop]
    simp

/-- What `p` finds from the body and from its first paragraph. -/
theorem find_sample :
    ∃ sel, CParser.create true (ascii "p") = .ok sel ∧ [[0], [2]].Nodup ∧
      ∀ q, q ∈ [[0], [2]] ↔ ∃ p ∈ [[], [0]], Selected sample sel p q :=
  find_spec true sample [[], [0]] (ascii "p") rfl

/-- A query: it fails where the selector cannot be read. Otherwise it gives the nodes that the
selector selects among the node itself and those that it leads to through elements, in document
order, each of them once. -/
theorem query_spec (unsignedChar : Bool) (d : Document) (n : Position) (css : Bytes) :
    (∀ e, query unsignedChar d.root n css = .error e ↔ CParser.create unsignedChar css = .error e) ∧
    ∀ sel, CParser.create unsignedChar css = .ok sel →
      ∃ ret, query unsignedChar d.root n css = .ok ret ∧ ret.Pairwise Rose.Before ∧ ret.Nodup ∧
        ∀ q, q ∈ ret ↔ Selected d sel n q := by
  cases hCreate : CParser.create unsignedChar css with
  | error e =>
    have hQuery : query unsignedChar d.root n css = .error e := by rw [query, find, hCreate]; rfl
    rw [hQuery]
    refine ⟨fun e' => ?_, fun sel h => by cases h⟩
    rw [Except.error.injEq, Except.error.injEq]
  | ok sel =>
    have hNodup := Rose.nodup_of_pairwise_before (pairwise_matchAll d sel n)
    have hQuery : query unsignedChar d.root n css = .ok (sel.matchAll d.root n) := by
      rw [query, find, hCreate]
      show Except.ok (findLoop sel d.root [n] []) = _
      rw [findLoop, findLoop, unionNodes_eq (by simpa using hNodup), List.nil_append]
    rw [hQuery]
    refine ⟨fun e => iff_of_false (fun h => by cases h) (fun h => by cases h), fun sel' h => ?_⟩
    obtain rfl := Except.ok.inj h
    exact ⟨_, rfl, pairwise_matchAll d sel n, hNodup, mem_matchAll_iff d sel n⟩

end RetroConfig.Html
