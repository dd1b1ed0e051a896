import Mathlib.Data.List.Infix
import RetroConfig.Html.Tags
import RetroConfig.Library.Rose

/-!
# The selectors of gumbo-query

The nodes of a parsed document are a tree, and a `GumboNode *` is a position in it; its parent and its
`index_within_parent` are read off the position. `Selector` has a constructor for each operator of
the classes of `Selector.h`, and `matchNode` is their `match`.
-/

namespace RetroConfig.Html

open Rose (Position)

/-- `GumboAttribute`. -/
structure GumboAttribute where
  name : Bytes
  value : Bytes
  deriving DecidableEq

/-- What a `GumboNode` holds besides its children, by its `type`. -/
inductive Content where
  | document
  | element (tag : GumboTag) (attributes : List GumboAttribute)
  | text (text : Bytes)
  | cdata
  | comment
  | whitespace
  | template
  deriving DecidableEq

/-- A node with what is below it. -/
abbrev Node := Rose Content

/-- `type == GUMBO_NODE_ELEMENT`. -/
def Content.isElement : Content → Bool
  | .element .. => true
  | _ => false

/-- The content of a node, and `none` where there is no node. -/
def content (d : Node) (p : Position) : Option Content := (d.at? p).map Rose.label

/-- `v.element.children`. -/
def childrenOf (d : Node) (p : Position) : List Node := ((d.at? p).map Rose.children).getD []

/-- `CUnarySelector::TOperator`. -/
inductive UnaryOperator where
  | not
  | hasDescendant
  | hasChild
  deriving DecidableEq

/-- `CBinarySelector::TOperator`, with the `mAdjacent` of `EAdjacent`. -/
inductive BinaryOperator where
  | union
  | intersection
  | child
  | descendant
  | adjacent (adjacent : Bool)
  deriving DecidableEq

/-- `CAttributeSelector::TOperator`. -/
inductive AttributeOperator where
  | exists
  | equals
  | includes
  | dashMatch
  | prefixed
  | suffixed
  | subString
  deriving DecidableEq

/-- `CTextSelector::TOperator`. -/
inductive TextOperator where
  | ownContains
  | contains
  deriving DecidableEq

/-- The selectors; the first five are the operators of `CSelector` itself. -/
inductive Selector where
  | dummy
  | empty
  | onlyChild (ofType : Bool)
  | nthChild (a b : UInt32) (last ofType : Bool)
  | tag (tag : GumboTag)
  | unary (op : UnaryOperator) (s : Selector)
  | binary (op : BinaryOperator) (s1 s2 : Selector)
  | ofAttribute (op : AttributeOperator) (key value : Bytes)
  | ofText (op : TextOperator) (value : Bytes)
  deriving DecidableEq

/-! ## The position among the children -/

/-- The children that `EOnlyChild` and `ENthChild` pass over, for a node of this tag. -/
def skips (ofType : Bool) (tag : GumboTag) (child : Node) : Bool :=
  match child.label with
  | .element childTag _ => ofType && tag == childTag
  | _ => true

/-- The loop of `EOnlyChild`. -/
def onlyChildLoop (skip : Node → Bool) : List Node → UInt32 → Bool
  | [], count => count == 1
  | child :: rest, count =>
    if skip child then onlyChildLoop skip rest count
    else if count + 1 > 1 then false else onlyChildLoop skip rest (count + 1)

/-- The loop of `ENthChild` over the children from the `j`th on, where the node itself is the one
at `self`. It gives `i` and `count`. -/
def nthChildLoop (skip : Node → Bool) (last : Bool) (self : Nat) :
    List Node → Nat → UInt32 → UInt32 → UInt32 × UInt32
  | [], _, i, count => (i, count)
  | child :: rest, j, i, count =>
    if skip child then nthChildLoop skip last self rest (j + 1) i count
    else if j = self then
      if last then nthChildLoop skip last self rest (j + 1) (count + 1) (count + 1)
      else (count + 1, count + 1)
    else nthChildLoop skip last self rest (j + 1) i (count + 1)

/-- The end of `ENthChild`. -/
def nthChildTest (a b i : UInt32) : Bool :=
  if a = 0 then i - b == 0 else (i - b) % a == 0 && (i - b) / a > 0

/-! ## Siblings and descendants -/

/-- The nodes that the loop of `EAdjacent` passes over. -/
def Content.isFiller : Content → Bool
  | .text _ | .comment | .whitespace => true
  | _ => false

/-- The loop of `EAdjacent` with `mAdjacent`, for the siblings before the one at `i`. -/
def adjacentLoop (children : List Node) (matches1 : Nat → Bool) : Nat → Bool
  | 0 => false
  | i + 1 =>
    match children[i]? with
    | some sibling =>
      if sibling.label.isFiller then adjacentLoop children matches1 i else matches1 i
    | none => false

/-- The loop of `EAdjacent` without `mAdjacent`. -/
def siblingLoop (matches1 : Nat → Bool) : Nat → Bool
  | 0 => false
  | i + 1 => matches1 i || siblingLoop matches1 i

/-- The loop of `EDescendant` over the parents of a node. -/
def ancestorLoop (matches1 : Position → Bool) : Position → Bool
  | [] => false
  | _ :: parent => matches1 parent || ancestorLoop matches1 parent

mutual

/-- `CUnarySelector::hasDescendantMatch`. -/
def hasDescendantMatch (matches1 : Position → Bool) : Node → Position → Bool
  | .node _ children, p => hasDescendantMatchFrom matches1 children 0 p

def hasDescendantMatchFrom (matches1 : Position → Bool) : List Node → Nat → Position → Bool
  | [], _, _ => false
  | child :: rest, i, p =>
    matches1 (i :: p) ||
      (child.label.isElement && hasDescendantMatch matches1 child (i :: p)) ||
      hasDescendantMatchFrom matches1 rest (i + 1) p

end

/-- `CUnarySelector::hasChildMatch`, over the children from the `i`th on. -/
def hasChildMatch (matches1 : Position → Bool) : List Node → Nat → Position → Bool
  | [], _, _ => false
  | _ :: rest, i, p => matches1 (i :: p) || hasChildMatch matches1 rest (i + 1) p

/-! ## Attributes and texts -/

/-- The bytes at which `EIncludes` cuts. -/
def isBlank (c : UInt8) : Bool := c == 32 || c == 9 || c == 13 || c == 10 || c == 12

/-- The loop of `EIncludes` from `i` on, for the rest of the value; the segment starts at `j`. -/
def includesLoop (mValue value : Bytes) : Bytes → Nat → Nat → Bool
  | [], _, _ => false
  | c :: rest, i, j =>
    if isBlank c || i == value.length - 1 then
      let length := if i = value.length - 1 then i - j + 1 else i - j
      if (value.drop j).take length = mValue then true
      else includesLoop mValue value rest (i + 1) (i + 1)
    else includesLoop mValue value rest (i + 1) j

/-- What the operators ask of the value of an attribute. -/
def attributeTest (mValue value : Bytes) : AttributeOperator → Bool
  | .exists => true
  | .equals => mValue == value
  | .includes => includesLoop mValue value value 0 0
  | .dashMatch =>
    if mValue = value then true
    else if value.length < mValue.length then false
    else value.take mValue.length == mValue && value[mValue.length]? == some 45
  | .prefixed => value.length ≥ mValue.length && value.take mValue.length == mValue
  | .suffixed =>
    value.length ≥ mValue.length && value.drop (value.length - mValue.length) == mValue
  | .subString => decide (mValue <:+: value)

/-- The loop of `CAttributeSelector::match`: the first attribute of the name decides. -/
def attributeLoop (op : AttributeOperator) (mKey mValue : Bytes) : List GumboAttribute → Bool
  | [] => false
  | attr :: rest =>
    if mKey ≠ attr.name then attributeLoop op mKey mValue rest
    else attributeTest mValue attr.value op

mutual

/-- `CQueryUtil::writeNodeText`, what it appends. -/
def writeNodeText : Node → Bytes
  | .node (.text text) _ => text
  | .node (.element ..) children => writeNodesText children
  | .node _ _ => []

def writeNodesText : List Node → Bytes
  | [] => []
  | child :: rest => writeNodeText child ++ writeNodesText rest

end

/-- `CQueryUtil::nodeText`. -/
def nodeText (node : Node) : Bytes := writeNodeText node

/-- `CQueryUtil::nodeOwnText`. -/
def nodeOwnText (node : Node) : Bytes :=
  if node.label.isElement then
    node.children.flatMap fun child => match child.label with
      | .text text => text
      | _ => []
  else []

/-! ## Matching -/

/-- A test for elements only: `match` returns false for a node of another type. -/
def onElement (d : Node) (p : Position) (test : GumboTag → List GumboAttribute → Bool) : Bool :=
  match content d p with
  | some (.element tag attributes) => test tag attributes
  | _ => false

/-- A test for elements that have a parent. -/
def onChild (d : Node) (p : Position) (test : GumboTag → Nat → Position → Bool) : Bool :=
  onElement d p fun tag _ =>
    match p with
    | [] => false
    | self :: parent => test tag self parent

/-- A test for a node. -/
def onNode (d : Node) (p : Position) (test : Node → Bool) : Bool :=
  match d.at? p with
  | some node => test node
  | none => false

/-- A test for the parent, if there is one. -/
def onParent (p : Position) (test : Position → Bool) : Bool :=
  match p with
  | [] => false
  | _ :: parent => test parent

/-- The children that `EEmpty` objects to. -/
def Content.isTextOrElement : Content → Bool
  | .text _ | .element .. => true
  | _ => false

/-- `CSelector::match` and its overrides. -/
def Selector.matchNode (d : Node) : Selector → Position → Bool
  | .dummy, _ => true
  | .empty, p => onElement d p fun _ _ =>
    (childrenOf d p).all fun child => !child.label.isTextOrElement
  | .onlyChild ofType, p => onChild d p fun tag _ parent =>
    onlyChildLoop (skips ofType tag) (childrenOf d parent) 0
  | .nthChild a b last ofType, p => onChild d p fun tag self parent =>
    let (i, count) := nthChildLoop (skips ofType tag) last self (childrenOf d parent) 0 0 0
    nthChildTest a b (if last then count - i + 1 else i)
  | .tag mTag, p => onElement d p fun tag _ => tag == mTag
  | .unary .not s, p => !s.matchNode d p
  | .unary .hasDescendant s, p => onNode d p fun node =>
    node.label.isElement && hasDescendantMatch (s.matchNode d) node p
  | .unary .hasChild s, p => onNode d p fun node =>
    node.label.isElement && hasChildMatch (s.matchNode d) node.children 0 p
  | .binary .union s1 s2, p => s1.matchNode d p || s2.matchNode d p
  | .binary .intersection s1 s2, p => s1.matchNode d p && s2.matchNode d p
  | .binary .child s1 s2, p => s2.matchNode d p && onParent p (s1.matchNode d)
  | .binary .descendant s1 s2, p => s2.matchNode d p && ancestorLoop (s1.matchNode d) p
  | .binary (.adjacent adjacent) s1 s2, p => s2.matchNode d p && onChild d p fun _ pos parent =>
    if adjacent then adjacentLoop (childrenOf d parent) (fun i => s1.matchNode d (i :: parent)) pos
    else siblingLoop (fun i => s1.matchNode d (i :: parent)) pos
  | .ofAttribute op mKey mValue, p => onElement d p fun _ attributes =>
    attributeLoop op mKey mValue attributes
  | .ofText op mValue, p => onNode d p fun node =>
    decide (mValue <:+: tolower (match op with
      | .contains => nodeText node
      | .ownContains => nodeOwnText node))

end RetroConfig.Html
