import PageTemplate.Render.Outcome

/-! # Recovering from errors

An element with an error handler recovers from the errors of its own rendering and of what lies
below it. The handler sees the error, and its value takes the place of the element's children.
-/

namespace PageTemplate.OnError

open Markup

variable (settings : Settings) (ctx : Context)

/-- Carries out the handler with the given value. -/
def handleWith (value : String) (error : RenderError) : Rendering Unit := do
  let spec := settings.vocabularies.onError
  let caught := Value.object (caughtError error.kind error.message)
  let handler := { ctx with scope := ctx.scope.setCaught caught }
  let (mode, expression) ← handler.readDirective spec value (Directive.readContent value)
  let result ← handler.evaluateDirective settings spec expression
  if result.cancels then return ()
  else if result.isNull then Rendering.changeDocument (·.clearChildren ctx.node)
  else do
    let nodes ← contentNodes mode result
    Rendering.changeDocument (·.replaceChildren ctx.node nodes)

/-- Recovers from an error, or hands it on: an error that is not to be recovered from, and any
error of an element without a handler. -/
def recover (error : RenderError) : Rendering Unit := do
  if error.isRecoverable then
    match ctx.directive? (← Rendering.document) settings.vocabularies.onError with
    | some value => handleWith settings ctx value error
    | none => Rendering.fail error
  else Rendering.fail error

end PageTemplate.OnError
