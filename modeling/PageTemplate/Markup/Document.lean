import PageTemplate.Markup.Error

/-! # Documents

A document stores its nodes in a table. Node 0 is the document node, and a node that leaves
the tree keeps its number and its place in the table. The getters answer for every number; a
number without a node looks like a document node of its own.

The tree below a node is read by following child lists at most as often as there are nodes,
which reaches everything in a document whose child lists form a tree.
-/

namespace PageTemplate.Markup

/-- A stored node: what it is, its parent and its children in order. -/
structure Node where
  kind : NodeKind := .root
  parent : Option NodeId := none
  children : List NodeId := []
deriving DecidableEq, Repr

instance : Inhabited Node := ⟨{}⟩

/-- A table of nodes, and the name of the source that the document was read from. -/
structure Document where
  nodes : Array Node
  sourceName : Option String := none
deriving DecidableEq, Repr

namespace Document

/-- The document with a document node and nothing else. -/
def empty : Document := { nodes := #[{}] }

/-- The number of the document node. -/
def root : NodeId := 0

variable (d : Document) (id : NodeId)

/-- The number of nodes, in the tree or not. -/
def size : Nat := d.nodes.size

def node : Node := d.nodes.getD id {}

def kind : NodeKind := (d.node id).kind

def parent : Option NodeId := (d.node id).parent

def children : List NodeId := (d.node id).children

def element? : Option Element := (d.kind id).element?

def isElement : Bool := (d.kind id).isElement

/-- The name of an element. -/
def name? : Option QualifiedName := (d.element? id).map (·.name)

/-- The attributes in the order they are written; a node that is no element has none. -/
def attributes : List Attribute := (d.element? id).elim [] (·.attributes)

/-- The value of the attribute with the given name. -/
def attribute? (raw : String) : Option String :=
  (d.element? id).bind (·.attribute? (QualifiedName.parse raw))

/-- The parent, when it is an element. -/
def parentElement? : Option NodeId := (d.parent id).filter (d.isElement ·)

def childElements : List NodeId := (d.children id).filter (d.isElement ·)

/-- The first element directly below the document node. -/
def rootElement? : Option NodeId := (d.children root).find? (d.isElement ·)

/-- The node and its ancestors, nearest first, as far as `fuel` reaches. -/
def lineage : Nat → NodeId → List NodeId
  | 0, _ => []
  | fuel + 1, id => id :: (d.parent id).elim [] (lineage fuel)

/-- The node and its ancestors, nearest first. -/
def ancestry : List NodeId := d.lineage d.size id

/-- The node can be reached from the document node. -/
def isAttached : Bool := (d.ancestry id).contains root

/-- Takes nodes from a stack, each followed by its children, as far as `fuel` reaches. -/
def visit : Nat → List NodeId → List NodeId
  | 0, _ => []
  | _ + 1, [] => []
  | fuel + 1, next :: stack => next :: visit fuel (d.children next ++ stack)

/-- Everything below the node in document order, the node itself left out. -/
def descendants : List NodeId := d.visit d.size (d.children id)

/-- The node and everything below it in document order. -/
def subtree : List NodeId := id :: d.descendants id

/-- The node and everything below it, by recursion on the child lists. -/
def preorder : Nat → NodeId → List NodeId
  | 0, _ => []
  | fuel + 1, id => id :: (d.children id).flatMap (preorder fuel)

/-- The characters of all text in the node and below it. -/
def textContent : String := String.join ((d.subtree id).map fun node => (d.kind node).ownText)

/-- The tree below a node, followed `fuel` levels deep. -/
def treeTo : Nat → NodeId → Tree
  | 0, id => .node (d.kind id) []
  | fuel + 1, id => .node (d.kind id) ((d.children id).map (treeTo fuel))

/-- The tree that the node stands for. -/
def tree : Tree := d.treeTo d.size id

/-- The links of a document agree: the parent of a node is the one node that lists it as a
child, no node is listed twice, and every listed number has a node. -/
structure WellLinked : Prop where
  mem_children_iff : ∀ parent child, child ∈ d.children parent ↔ d.parent child = some parent
  nodup_children : ∀ parent, (d.children parent).Nodup
  child_lt : ∀ parent child, child ∈ d.children parent → parent < d.size ∧ child < d.size
  parent_root : d.parent root = none

end Document

end PageTemplate.Markup
