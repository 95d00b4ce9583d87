import PageTemplate.Keyed
import PageTemplate.Markup.NamespaceScope

/-! # The vocabularies of a rendering

The vocabulary of directives and that of macros can be bound to other namespaces than the usual
ones. Further qualifiers can be registered, to be declared when an attribute that a directive
writes needs them.
-/

namespace PageTemplate

open Markup

/-- The namespaces of the directives. -/
structure Vocabularies where
  tal : Namespace := .tal
  metal : Namespace := .metal
  /-- URIs of further qualifiers. -/
  extra : List (String × String) := []
deriving Repr

namespace Vocabularies

variable (v : Vocabularies)

def define : AttributeSpec := ⟨v.tal, "define"⟩
def condition : AttributeSpec := ⟨v.tal, "condition"⟩
def repetition : AttributeSpec := ⟨v.tal, "repeat"⟩
def content : AttributeSpec := ⟨v.tal, "content"⟩
def replace : AttributeSpec := ⟨v.tal, "replace"⟩
def attributes : AttributeSpec := ⟨v.tal, "attributes"⟩
def omitTag : AttributeSpec := ⟨v.tal, "omit-tag"⟩
def onError : AttributeSpec := ⟨v.tal, "on-error"⟩

def defineMacro : AttributeSpec := ⟨v.metal, "define-macro"⟩
def useMacro : AttributeSpec := ⟨v.metal, "use-macro"⟩
def extendMacro : AttributeSpec := ⟨v.metal, "extend-macro"⟩
def defineSlot : AttributeSpec := ⟨v.metal, "define-slot"⟩
def fillSlot : AttributeSpec := ⟨v.metal, "fill-slot"⟩

/-- The namespace is that of the directives or that of the macros. -/
def covers (space : Namespace) : Bool := space.agrees v.tal || space.agrees v.metal

/-- The declarations in force at a node that bind a qualifier to a vocabulary. -/
def declarations (d : Document) (id : NodeId) : List (String × String) :=
  (d.namespacesInScope id).filterMap fun (qualifier, uri) =>
    qualifier.bind fun qualifier =>
      if v.covers ⟨some qualifier, some uri⟩ then some (qualifier, uri) else none

end Vocabularies

/-- Declares qualifiers on an element unless it declares them itself. -/
def declareMissing (d : Document) (id : NodeId) (declarations : List (String × String)) :
    Document :=
  declarations.foldl (fun d (qualifier, uri) =>
    let name := "xmlns:" ++ qualifier
    if (d.attribute? id name).isSome then d
    else d.updateElement id (Element.set (QualifiedName.parse name) uri)) d

end PageTemplate
