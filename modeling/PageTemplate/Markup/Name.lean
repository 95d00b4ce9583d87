import PageTemplate.Text.Split

/-! # Names and vocabularies

Elements and attributes carry names with an optional qualifier before a colon. A vocabulary
is known by its usual qualifier, by its URI, or by both; directive attributes are looked for
by vocabulary and local name, whatever qualifier a document binds to the vocabulary.
-/

namespace PageTemplate.Markup

/-- The name of an element or attribute, such as `tal:block` or `div`. -/
structure QualifiedName where
  qualifier : Option String
  localName : String
deriving DecidableEq, Repr

namespace QualifiedName

/-- Reads a name. The first colon separates the qualifier when there is text on both sides of
it; any other text is a local name as it stands. -/
def parse (raw : String) : QualifiedName :=
  match Text.splitAt? (· == ':') raw.toList with
  | some (q :: qualifier, l :: localName) =>
    ⟨some (String.ofList (q :: qualifier)), String.ofList (l :: localName)⟩
  | _ => ⟨none, raw⟩

/-- The name as it is written in markup. -/
def text (name : QualifiedName) : String :=
  match name.qualifier with
  | some qualifier => qualifier ++ ":" ++ name.localName
  | none => name.localName

/-- The name of the attribute that declares what `qualifier` stands for, or the default
namespace when there is no qualifier. -/
def declaration : Option String → QualifiedName
  | some qualifier => ⟨some "xmlns", qualifier⟩
  | none => ⟨none, "xmlns"⟩

/-- What a declaring attribute of this name declares: a qualifier, or the default namespace as
`none`. A name that declares nothing gives no answer. -/
def declares? (name : QualifiedName) : Option (Option String) :=
  match name.qualifier with
  | some qualifier => if qualifier = "xmlns" then some (some name.localName) else none
  | none => if name.localName = "xmlns" then some none else none

/-- The name is `xmlns` or begins with `xmlns:`. -/
def isDeclaration (name : QualifiedName) : Bool := name.declares?.isSome

theorem declares?_eq_some_iff {name : QualifiedName} {qualifier : Option String} :
    name.declares? = some qualifier ↔ name = declaration qualifier := by
  obtain ⟨q, l⟩ := name
  cases q <;> cases qualifier <;>
    simp [declares?, declaration]

end QualifiedName

/-- A vocabulary, identified by its qualifier, its URI or both. -/
structure Namespace where
  qualifier : Option String
  uri : Option String
deriving DecidableEq, Repr

namespace Namespace

/-- The vocabulary of the directives that transform an element. -/
def tal : Namespace := ⟨some "tal", some "http://xml.zope.org/namespaces/tal"⟩

/-- The vocabulary of macros and slots. -/
def metal : Namespace := ⟨some "metal", some "http://xml.zope.org/namespaces/metal"⟩

/-- Two vocabularies agree when both have a URI and the URIs are equal; when either lacks a
URI, the qualifiers decide. The relation is not transitive. -/
def agrees (first second : Namespace) : Bool :=
  match first.uri, second.uri with
  | some uri, some other => uri == other
  | _, _ => first.qualifier == second.qualifier

end Namespace

/-- The attribute of a vocabulary with a local name, such as `tal:repeat`. -/
structure AttributeSpec where
  vocabulary : Namespace
  name : String
deriving DecidableEq, Repr

/-- The attribute under the usual qualifier of its vocabulary, as error messages show it. -/
def AttributeSpec.text (spec : AttributeSpec) : String :=
  QualifiedName.text ⟨spec.vocabulary.qualifier, spec.name⟩

end PageTemplate.Markup
