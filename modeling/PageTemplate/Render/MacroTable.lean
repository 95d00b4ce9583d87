import PageTemplate.Render.Context

/-! # Macros

The macros of a rendering are those defined anywhere in its document or in its libraries. They
are copied before the rendering begins, so that an expansion copies the markup as it was
written. Of two macros of one name the first counts.
-/

namespace PageTemplate.MacroTable

open Markup

variable (v : Vocabularies)

/-- Copies a macro's element together with the declarations of directive qualifiers that it
inherits. The copy has no parent. -/
def copyElement (d : Document) (element : NodeId) : Document × NodeId :=
  let declarations := v.declarations d element
  let (d, copy) := d.deepCopy element
  (declareMissing d copy declarations, copy)

/-- The nodes that define macros, among `nodes`. -/
def definitions (d : Document) (nodes : List NodeId) : List NodeId :=
  nodes.filter fun node => d.isElement node && d.hasAttribute node v.defineMacro

/-- Copies one macro element of a library into the document. -/
def importElement (library d : Document) (element : NodeId) : Document × NodeId :=
  let (d, copy) := d.importSubtree library element
  (declareMissing d copy (v.declarations library element), copy)

/-- Copies the macro elements of a library into the document, in document order. -/
def importLibrary (library d : Document) : Document × List NodeId :=
  match library.rootElement? with
  | none => (d, [])
  | some root =>
    (definitions v library (library.subtree root)).foldl (fun (d, copies) element =>
      let (d, copy) := importElement v library d element
      (d, copies ++ [copy])) (d, [])

/-- Copies the macro elements of several libraries into the document. -/
def importLibraries (libraries : List Document) (d : Document) : Document × List NodeId :=
  libraries.foldl (fun (d, copies) library =>
    let (d, more) := importLibrary v library d
    (d, copies ++ more)) (d, [])

/-- Adds the macro that an element defines. An element in the tree is copied; one outside it is
a copy already. -/
def register (d : Document) (macros : List (String × Value)) (element : NodeId) :
    Document × List (String × Value) :=
  match d.findAttribute? element v.defineMacro with
  | none => (d, macros)
  | some attr =>
    let name := Text.trimmed attr.value
    if (macros.lookup name).isSome then (d, macros)
    else
      let (d, element) := if d.isAttached element then copyElement v d element else (d, element)
      (d, Keyed.insert name (.macroRef { name, element }) macros)

/-- Adds the macros that are defined at a node or below it. -/
def registerBelow (d : Document) (macros : List (String × Value)) (root : NodeId) :
    Document × List (String × Value) :=
  (definitions v d (d.subtree root)).foldl (fun (d, macros) element => register v d macros element)
    (d, macros)

/-- The macros of the document and of libraries that were copied into it, by name. -/
def registerAll (d : Document) (imported : List NodeId) : Document × List (String × Value) :=
  (Document.root :: imported).foldl (fun (d, macros) root => registerBelow v d macros root) (d, [])

end PageTemplate.MacroTable
