import PageTemplate.Render.Outcome

/-! # Content and replacement

A value takes the place of an element's children, or of the element itself. Null leaves nothing.
What is written in this way is output and is never rendered. When a replacement is cancelled
the element loses its tag and its children are rendered.
-/

namespace PageTemplate.Content

open Markup

variable (settings : Settings) (ctx : Context)

/-- Carries out a content directive with the given value. -/
def handleContent (value : String) : Rendering Outcome := do
  let spec := settings.vocabularies.content
  let (mode, expression) ← ctx.readDirective spec value (Directive.readContent value)
  let result ← ctx.evaluateDirective settings spec expression
  if result.cancels then return .keep ctx
  if result.isNull then Rendering.changeDocument (·.clearChildren ctx.node)
  else do
    let nodes ← contentNodes mode result
    Rendering.changeDocument (·.replaceChildren ctx.node nodes)
  return .keep { ctx with rendersChildren := false }

/-- Carries out a replacement with the given value. -/
def handleReplace (value : String) : Rendering Outcome := do
  let spec := settings.vocabularies.replace
  let (mode, expression) ← ctx.readDirective spec value (Directive.readContent value)
  let result ← ctx.evaluateDirective settings spec expression
  if result.cancels then
    let promoted ← Rendering.edit (Document.omitTag ctx.node)
    return { exposed := exposeChildren (← Rendering.document) ctx promoted }
  if result.isNull then Rendering.changeDocument (·.detach ctx.node)
  else do
    let nodes ← contentNodes mode result
    Rendering.edit (Document.replace ctx.node nodes)
  return .removed

/-- Carries out the content directive or the replacement of an element, which may not have
both. -/
def handle : Rendering Outcome := do
  let d ← Rendering.document
  match ctx.directive? d settings.vocabularies.content,
      ctx.directive? d settings.vocabularies.replace with
  | some _, some _ => Rendering.fail (.contentAndReplace (describeElement d ctx.node))
  | some value, none => handleContent settings ctx value
  | none, some value => handleReplace settings ctx value
  | none, none => return .keep ctx

end PageTemplate.Content
