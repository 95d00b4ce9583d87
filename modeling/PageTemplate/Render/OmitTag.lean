import PageTemplate.Render.Outcome

/-! # Omitting tags

An element whose expression is true, or is blank, loses its tag. Its children take its place and
are rendered there, unless they are output already.
-/

namespace PageTemplate.OmitTag

open Markup

variable (settings : Settings) (ctx : Context)

/-- The tag is to be omitted. -/
def omits (expression : String) : Rendering Bool := do
  if (Text.trim expression.toList).isEmpty then return true
  else do
    let value ← ctx.evaluateDirective settings settings.vocabularies.omitTag expression
    return !value.cancels && value.isTruthy

/-- Omits the tag of an element if it is to be. -/
def handle : Rendering Outcome := do
  match ctx.directive? (← Rendering.document) settings.vocabularies.omitTag with
  | none => return .keep ctx
  | some expression =>
    if ← omits settings ctx expression then do
      let promoted ← Rendering.edit (Document.omitTag ctx.node)
      let d ← Rendering.document
      return { exposed := if ctx.rendersChildren then exposeChildren d ctx promoted else [] }
    else return .keep ctx

end PageTemplate.OmitTag
