import PageTemplate.Render.Outcome

/-! # Conditions

An element whose condition is false is removed.
-/

namespace PageTemplate.Condition

/-- Carries out the condition of an element. -/
def handle (settings : Settings) (ctx : Context) : Rendering Outcome := do
  let spec := settings.vocabularies.condition
  match ctx.directive? (← Rendering.document) spec with
  | none => return .keep ctx
  | some expression =>
    let value ← ctx.evaluateDirective settings spec expression
    if value.cancels || value.isTruthy then return .keep ctx
    else do
      Rendering.changeDocument (·.detach ctx.node)
      return .removed

end PageTemplate.Condition
