import PageTemplate.Markup.Name
import PageTemplate.Markup.Location

/-! # Nodes

The kinds of node that markup is made of, and the tree that a node stands for when one forgets
how nodes are numbered and stored.
-/

namespace PageTemplate.Markup

/-- The number of a node in its document. Numbers are given in order of creation and are never
given again. -/
abbrev NodeId := Nat

/-- An attribute with its value, references resolved. -/
structure Attribute where
  name : QualifiedName
  value : String
deriving DecidableEq, Repr

/-- An element without its children. -/
structure Element where
  name : QualifiedName
  attributes : List Attribute := []
  /-- Where the start tag began in the text the element was read from. -/
  position : Option Location := none
  /-- Where the end tag began, for an element that has one. -/
  endPosition : Option Location := none
  /-- The source of the document the element was copied from, for the top of such a copy. -/
  importedFrom : Option String := none
deriving DecidableEq, Repr

namespace Element

/-- An element of the given name without attributes. -/
def named (raw : String) : Element := { name := QualifiedName.parse raw }

/-- The value of the first attribute of the given name. -/
def attribute? (element : Element) (name : QualifiedName) : Option String :=
  (element.attributes.find? (·.name = name)).map (·.value)

/-- Sets the first attribute of the given name, or adds the attribute behind the others. -/
def set (name : QualifiedName) (value : String) (element : Element) : Element :=
  match element.attributes.findIdx? (·.name = name) with
  | some index =>
    { element with attributes := element.attributes.modify index fun attr => { attr with value } }
  | none => { element with attributes := element.attributes ++ [⟨name, value⟩] }

end Element

/-- What a node is, its place in the tree aside. -/
inductive NodeKind where
  /-- The document node, which holds the prolog and the root element. -/
  | root
  | element (element : Element)
  | text (content : String)
  | cdata (content : String)
  | comment (content : String)
  | instruction (content : String)
  | declaration (version : String) (encoding standalone : Option String)
  | doctype (content : String)
deriving DecidableEq, Repr

instance : Inhabited NodeKind := ⟨.root⟩

namespace NodeKind

/-- The element that the node is, if it is one. -/
def element? : NodeKind → Option Element
  | .element e => some e
  | _ => none

def isElement (kind : NodeKind) : Bool := kind.element?.isSome

/-- The characters that the node itself adds to the text of a document. -/
def ownText : NodeKind → String
  | .text content => content
  | .cdata content => content
  | _ => ""

/-- The kind with `change` applied to its element; other kinds stay as they are. -/
def mapElement (change : Element → Element) : NodeKind → NodeKind
  | .element e => .element (change e)
  | kind => kind

end NodeKind

/-- A node with everything below it. -/
inductive Tree where
  | node (kind : NodeKind) (children : List Tree)

namespace Tree

def kind : Tree → NodeKind
  | .node kind _ => kind

def children : Tree → List Tree
  | .node _ children => children

mutual
/-- The number of nodes of a tree. -/
def size : Tree → Nat
  | .node _ children => 1 + sizeAll children
/-- The number of nodes of several trees. -/
def sizeAll : List Tree → Nat
  | [] => 0
  | tree :: trees => tree.size + sizeAll trees
end

end Tree

end PageTemplate.Markup
