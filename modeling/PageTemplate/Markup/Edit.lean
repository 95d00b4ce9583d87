import PageTemplate.Markup.Document

/-! # Editing a document

Nodes are created outside the tree, and nodes taken out of the tree stay in the table. An edit
that needs a place among siblings fails when the node it is given has no parent; what was done
before the failure stays done, so a failed edit still says what became of the document.
-/

namespace PageTemplate.Markup

/-- A change of a document that may fail. After a failure the document is the one that the
steps before it left behind. -/
abbrev Edit (α : Type) := ExceptT MarkupError (StateM Document) α

namespace Document

variable (d : Document)

/-- Replaces one stored node. -/
def update (id : NodeId) (change : Node → Node) : Document :=
  { d with nodes := d.nodes.modify id change }

/-- Stores a new node outside the tree. -/
def create (kind : NodeKind) : Document × NodeId :=
  ({ d with nodes := d.nodes.push { kind } }, d.size)

@[simp] theorem size_update (id : NodeId) (change : Node → Node) :
    (d.update id change).size = d.size := by
  simp [size, update]

/-- Only the node of that number changes, and only if there is one. -/
theorem node_update (id other : NodeId) (change : Node → Node) :
    (d.update id change).node other =
      if other = id ∧ id < d.size then change (d.node other) else d.node other := by
  unfold node update size
  by_cases hid : other = id
  · subst hid
    by_cases hlt : other < d.nodes.size <;> simp [hlt, Array.getElem_modify]
  · have hne : ¬ id = other := fun h => hid h.symm
    simp [hid, hne, Array.getElem?_modify]

@[simp] theorem size_create (kind : NodeKind) : (d.create kind).1.size = d.size + 1 := by
  simp [size, create]

/-- A new node is outside the tree and has no children; the others are as they were. -/
theorem node_create (kind : NodeKind) (other : NodeId) :
    (d.create kind).1.node other = if other = d.size then { kind } else d.node other := by
  unfold node create size
  by_cases hid : other = d.nodes.size
  · simp [hid]
  · simp [hid, Array.getElem?_push]

def createElement (raw : String) : Document × NodeId := d.create (.element (.named raw))

/-- Applies `change` to the element that the node is. -/
def updateElement (id : NodeId) (change : Element → Element) : Document :=
  d.update id fun node => { node with kind := node.kind.mapElement change }

def setKind (id : NodeId) (kind : NodeKind) : Document :=
  d.update id fun node => { node with kind }

/-- Takes a node out of its parent's child list. -/
def detach (id : NodeId) : Document :=
  match d.parent id with
  | none => d
  | some parent =>
    (d.update id fun node => { node with parent := none }).update parent
      fun node => { node with children := node.children.filter (· ≠ id) }

/-- Gives a node without a parent its place among the children of `parent`. -/
def place (parent : NodeId) (index : Nat) (child : NodeId) : Document :=
  (d.update child fun node => { node with parent := some parent }).update parent
    fun node => { node with children := node.children.insertIdx index child }

/-- Moves a node behind the last child of `parent`. -/
def append (parent child : NodeId) : Document :=
  let freed := d.detach child
  freed.place parent (freed.children parent).length child

/-- The parent of a node and the number of siblings before it. -/
def positionOf? (id : NodeId) : Option (NodeId × Nat) := do
  let parent ← d.parent id
  let index ← (d.children parent).findIdx? (· == id)
  return (parent, index)

/-- The parents of all children are taken away, and with them the children. -/
def clearChildren (id : NodeId) : Document :=
  let orphaned := (d.children id).foldl
    (fun d child => d.update child fun node => { node with parent := none }) d
  orphaned.update id fun node => { node with children := [] }

/-- The given nodes become the children of `id`, in order. -/
def replaceChildren (id : NodeId) (children : List NodeId) : Document :=
  children.foldl (fun d child => d.append id child) (d.clearChildren id)

mutual
/-- Adds a tree outside the tree of the document, each node before its children. -/
def graft (d : Document) : Tree → Document × NodeId
  | .node kind children =>
    let (d, top) := d.create kind
    (d.graftBelow top children, top)
/-- Adds trees behind the children of `top`, one after the other. -/
def graftBelow (d : Document) (top : NodeId) : List Tree → Document
  | [] => d
  | tree :: trees =>
    let (d, child) := d.graft tree
    (d.place top (d.children top).length child).graftBelow top trees
end

/-- Copies a node with everything below it. The copy has no parent. -/
def deepCopy (id : NodeId) : Document × NodeId := d.graft (d.tree id)

/-- Copies a node of another document with everything below it. When that document has a source
name, the top element of the copy remembers it. -/
def importSubtree (other : Document) (id : NodeId) : Document × NodeId :=
  let (d, copy) := d.graft (other.tree id)
  match other.sourceName with
  | none => (d, copy)
  | some source =>
    (d.updateElement copy fun element => { element with importedFrom := some source }, copy)

/-- The place of a node among its siblings; a node without one is the error. -/
def position (reference : NodeId) : Edit (NodeId × Nat) := do
  match (← get).positionOf? reference with
  | some found => return found
  | none => throw (.detached reference)

/-- Moves `new` right before `reference`. The move begins by taking `new` from its old place,
and that step stays when `reference` turns out to have no parent. -/
def insertBefore (reference new : NodeId) : Edit Unit := do
  modify (·.detach new)
  let (parent, index) ← position reference
  modify (·.place parent index new)

/-- Moves `new` right behind `reference`, in the same steps as `insertBefore`. -/
def insertAfter (reference new : NodeId) : Edit Unit := do
  modify (·.detach new)
  let (parent, index) ← position reference
  modify (·.place parent (index + 1) new)

/-- Puts the replacements where `old` stands, in order, and takes `old` out of the tree. -/
def replace (old : NodeId) (replacements : List NodeId) : Edit Unit := do
  replacements.forM (insertBefore old)
  modify (·.detach old)

/-- Strips the tag of an element: its children take its place. Gives the children. -/
def omitTag (id : NodeId) : Edit (List NodeId) := do
  let children := (← get).children id
  replace id children
  return children

/-- Sets an attribute of an element. -/
def setAttribute (id : NodeId) (raw value : String) : Edit Unit := do
  if (← get).isElement id then
    modify (·.updateElement id (Element.set (QualifiedName.parse raw) value))
  else throw (.notAnElement id)

/-- Removes the attribute at an index of an element's attributes. -/
def eraseAttribute (id : NodeId) (index : Nat) : Document :=
  d.updateElement id fun element => { element with attributes := element.attributes.eraseIdx index }

/-- Removes the first attribute of the given name. Gives the attribute, if there was one. -/
def removeAttribute (id : NodeId) (raw : String) : Document × Option Attribute :=
  match (d.attributes id).findIdx? (·.name = QualifiedName.parse raw) with
  | some index => (d.eraseAttribute id index, (d.attributes id)[index]?)
  | none => (d, none)

end Document

end PageTemplate.Markup
