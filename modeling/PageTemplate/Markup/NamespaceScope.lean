import PageTemplate.Markup.Edit

/-! # What a qualifier stands for

A qualifier, or the absence of one, stands for the URI that the nearest declaration gives it,
on the element or on an ancestor. An attribute belongs to a vocabulary through its own
qualifier; an attribute without a qualifier belongs to the vocabulary of its element, so that
`content` on `tal:block` is the same directive as `tal:content` on `p`.
-/

namespace PageTemplate.Markup.Document

variable (d : Document) (id : NodeId)

/-- The URI that the nearest declaration gives to a qualifier, or to the default namespace. -/
def lookupNamespace (qualifier : Option String) : Option String :=
  (d.ancestry id).findSome? fun node =>
    (d.element? node).bind (·.attribute? (QualifiedName.declaration qualifier))

/-- The vocabulary that a qualifier at this node refers to. -/
def namespaceOf (qualifier : Option String) : Namespace :=
  ⟨qualifier, d.lookupNamespace id qualifier⟩

/-- The vocabulary of an element's own name. -/
def elementNamespace? : Option Namespace :=
  (d.element? id).map fun element => d.namespaceOf id element.name.qualifier

def inNamespace (vocabulary : Namespace) : Bool :=
  (d.elementNamespace? id).any (·.agrees vocabulary)

/-- The attribute, carried by element `id`, is the one that `spec` names. Declarations never
are. -/
def attributeMatches (attr : Attribute) (spec : AttributeSpec) : Bool :=
  if attr.name.localName ≠ spec.name || attr.name.isDeclaration then false
  else match attr.name.qualifier with
    | some qualifier => (d.namespaceOf id (some qualifier)).agrees spec.vocabulary
    | none => d.inNamespace id spec.vocabulary

/-- The first attribute that `spec` names. -/
def findAttribute? (spec : AttributeSpec) : Option Attribute :=
  (d.attributes id).find? (d.attributeMatches id · spec)

def hasAttribute (spec : AttributeSpec) : Bool := (d.findAttribute? id spec).isSome

/-- The place of the first attribute that `spec` names. -/
def matchingIndex? (spec : AttributeSpec) : Option Nat :=
  (d.attributes id).findIdx? (d.attributeMatches id · spec)

/-- Sets the attribute that `spec` names: an existing one keeps the name it is written with, a
new one gets the usual qualifier of the vocabulary. -/
def setAttributeBySpec (id : NodeId) (spec : AttributeSpec) (value : String) : Edit Unit := do
  let d ← get
  match d.matchingIndex? id spec with
  | some index =>
    modify (·.updateElement id fun element =>
      { element with
        attributes := element.attributes.modify index fun attr => { attr with value } })
  | none =>
    if d.isElement id then
      modify (·.updateElement id fun element =>
        { element with
          attributes := element.attributes ++ [⟨⟨spec.vocabulary.qualifier, spec.name⟩, value⟩] })
    else throw (.notAnElement id)

/-- Removes the first attribute that `spec` names. Gives the attribute, if there was one. -/
def removeAttributeBySpec (spec : AttributeSpec) : Document × Option Attribute :=
  match d.matchingIndex? id spec with
  | some index => (d.eraseAttribute id index, (d.attributes id)[index]?)
  | none => (d, none)

/-- The declarations on one element, as qualifiers with their URIs. -/
def declarations : List (Option String × String) :=
  (d.attributes id).filterMap fun attr => attr.name.declares?.map (·, attr.value)

/-- Adds the declarations of qualifiers that are not listed yet, in order. -/
def addDeclarations (seen : List (Option String × String)) :
    List (Option String × String) → List (Option String × String)
  | [] => seen
  | (qualifier, uri) :: rest =>
    if (seen.lookup qualifier).isSome then addDeclarations seen rest
    else addDeclarations (seen ++ [(qualifier, uri)]) rest

/-- The declarations in force at a node, nearest first, each qualifier once. -/
def namespacesInScope : List (Option String × String) :=
  addDeclarations [] ((d.ancestry id).flatMap d.declarations)

/-- The attribute, carried by element `id`, belongs to the vocabulary. A declaration of a
qualifier belongs to the vocabulary it declares. -/
def attributeInNamespace (attr : Attribute) (vocabulary : Namespace) : Bool :=
  match attr.name.qualifier with
  | some qualifier =>
    if qualifier = "xmlns" then
      Namespace.agrees ⟨some attr.name.localName, some attr.value⟩ vocabulary
    else (d.namespaceOf id (some qualifier)).agrees vocabulary
  | none => !attr.name.isDeclaration && d.inNamespace id vocabulary

end PageTemplate.Markup.Document
