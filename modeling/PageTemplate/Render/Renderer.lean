import PageTemplate.Render.Cleanup
import PageTemplate.Render.Walk

/-! # Rendering a document

A rendering copies in the macros of its libraries, publishes all macros, walks through the
document and then removes the directives. A document that could not be rendered is left as it
was at the failure, directives and all.
-/

namespace PageTemplate.Renderer

open Markup

variable (settings : Settings) (libraries : List Document)

/-- Publishes the macros of the document and of the libraries. -/
def publishMacros : Rendering Unit := do
  let v := settings.vocabularies
  let imported ← Rendering.createIn (MacroTable.importLibraries v libraries)
  let macros ← Rendering.createIn (MacroTable.registerAll v · imported)
  Rendering.bindGlobal macrosBinding (.map macros)

/-- Renders a node and everything below it. Macros are looked for in the whole document, and
directives are removed from all of it. -/
def renderNode (node : NodeId) : Rendering Unit := do
  publishMacros settings libraries
  let d ← Rendering.document
  Walk.render settings (Walk.bound settings d.size) (.ofNode d node {})
  if settings.cleanup then
    Rendering.changeDocument (Cleanup.removeDirectives settings.vocabularies · Document.root)

/-- Renders a document from its root element on; a document without one is left alone. -/
def renderDocument : Rendering Unit := do
  match (← Rendering.document).rootElement? with
  | some root => renderNode settings libraries root
  | none => return ()

/-- The state in which a rendering of a document against a model begins. -/
def start (d : Document) (model : Value) (cache : ExpressionCache) : RenderState :=
  { document := d, globals := { root := model }, cache }

end PageTemplate.Renderer
