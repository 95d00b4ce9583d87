import PageTemplate.Render.Outcome

/-! # Definitions

The definitions of an element are made in order, each seeing those before it. A definition is
local unless a scope says otherwise; a scope in front of the name has precedence over a keyword.
-/

namespace PageTemplate.Define

variable (settings : Settings)

/-- Makes one definition of the list. -/
def defineItem (ctx : Context) (item : String) : Rendering Context := do
  let spec := settings.vocabularies.define
  let definition ← ctx.readDirective spec item (Directive.readDefinition item)
  let target := (parseDefinitionTarget definition.target).mapError ExpressionError.message
  let (written, name) ← ctx.readDirective spec item target
  let value ← ctx.evaluateDirective settings spec definition.expression
  if value.cancels then return ctx
  else match (written <|> definition.scope).getD .localScope with
    | .localScope => return { ctx with scope := ctx.scope.bind name value }
    | .globalScope => do
      Rendering.bindGlobal name value
      return ctx

/-- Carries out the definitions of an element. -/
def handle (ctx : Context) : Rendering Outcome := do
  match ctx.directive? (← Rendering.document) settings.vocabularies.define with
  | none => return .keep ctx
  | some value => return .keep (← (Directive.splitItems value).foldlM (defineItem settings) ctx)

end PageTemplate.Define
