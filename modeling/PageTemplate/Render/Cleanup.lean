import PageTemplate.Render.Vocabulary

/-! # Removing directives

After a rendering the attributes of the vocabularies are removed, with the declarations of their
qualifiers, and elements of the vocabularies lose their tags. What is to go is found before
anything goes, so that qualifiers still stand for what they stood for.
-/

namespace PageTemplate.Cleanup

open Markup

variable (v : Vocabularies)

/-- The attribute of an element belongs to a vocabulary. -/
def isDirective (d : Document) (node : NodeId) (attr : Attribute) : Bool :=
  d.attributeInNamespace node attr v.tal || d.attributeInNamespace node attr v.metal

/-- The element belongs to a vocabulary. -/
def isDirectiveElement (d : Document) (node : NodeId) : Bool :=
  d.inNamespace node v.tal || d.inNamespace node v.metal

/-- The names of the attributes that have to go. -/
def directiveNames (d : Document) (node : NodeId) : List String :=
  ((d.attributes node).filter (isDirective v d node)).map (·.name.text)

/-- Removes the attributes of the given names. -/
def removeNames (d : Document) (node : NodeId) (names : List String) : Document :=
  names.foldl (fun d name => (d.removeAttribute node name).1) d

/-- Takes the tag of an element away, if it has a parent. -/
def unwrap (d : Document) (node : NodeId) : Document :=
  if (d.parent node).isSome then ((Document.omitTag node).run d).2 else d

/-- Removes the directives from a node and everything below it. -/
def removeDirectives (d : Document) (root : NodeId) : Document :=
  let elements := (d.subtree root).filter (d.isElement ·)
  let doomed := elements.map fun node => (node, directiveNames v d node)
  let omitted := elements.filter (isDirectiveElement v d)
  let stripped := doomed.foldl (fun d (node, names) => removeNames d node names) d
  omitted.foldl unwrap stripped

end PageTemplate.Cleanup
