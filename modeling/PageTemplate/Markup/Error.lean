import PageTemplate.Markup.Node

/-! # What can go wrong with markup

Malformed text, edits of the tree that have no place to act on, and output that cannot be
written.
-/

namespace PageTemplate.Markup

/-- A failure of reading, editing or writing markup. -/
inductive MarkupError where
  | malformed (message : String) (place : Location)
  | unknownEntity (name : String) (place : Location)
  | notAnElement (node : NodeId)
  | detached (node : NodeId)
  | refusedBySink (message : String)
  | unknownEncoding (label : String)
  | unencodable (encoding message : String)
deriving DecidableEq, Repr

/-- How messages name a node. -/
def NodeId.text (node : NodeId) : String := s!"#{node}"

namespace MarkupError

/-- The wording of an error. -/
def message : MarkupError → String
  | .malformed message place => s!"Markup error at {place.text}: {message}"
  | .unknownEntity name place => s!"Unknown entity reference '&{name};' at {place.text}"
  | .notAnElement node => s!"Node {NodeId.text node} is not an element"
  | .detached node => s!"Node {NodeId.text node} is not attached to a parent"
  | .refusedBySink message => s!"Write error: {message}"
  | .unknownEncoding label => s!"Unknown output encoding '{label}'"
  | .unencodable encoding message => s!"Output cannot be encoded as {encoding}: {message}"

end MarkupError

end PageTemplate.Markup
