import PageTemplate.Markup.Reader
import PageTemplate.Render.Context
import PageTemplate.Render.Directive

/-! # What a directive leaves to do

A directive lets contexts go on to the next directive, and exposes others: elements whose parent
has lost its tag, which have to be rendered from the start.
-/

namespace PageTemplate

open Markup

/-- The contexts that a directive hands on. -/
structure Outcome where
  contexts : List Context := []
  exposed : List Context := []

namespace Outcome

/-- The element goes on as it is. -/
def keep (ctx : Context) : Outcome := { contexts := [ctx] }

/-- Nothing is left of the element. -/
def removed : Outcome := {}

end Outcome

/-- The nodes that a value becomes as content. -/
def contentNodes (mode : Directive.ContentMode) (value : Value) : Rendering (List NodeId) := do
  match mode with
  | .text => return [← Rendering.createIn (·.create (.text value.text))]
  | .markup => Rendering.edit (Document.parseFragment value.text)

/-- The contexts of the elements among the children of an element that has lost its tag. -/
def exposeChildren (d : Document) (ctx : Context) (promoted : List NodeId) : List Context :=
  (promoted.filter (d.isElement ·)).map (ctx.child d ·)

end PageTemplate
