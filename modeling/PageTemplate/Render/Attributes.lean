import PageTemplate.Render.Outcome

/-! # Attributes

Attributes are set in the order of the list; null removes an attribute. A registered qualifier
that is not declared at the element is declared along with the attribute that needs it.
-/

namespace PageTemplate.Attributes

open Markup

variable (settings : Settings) (ctx : Context)

/-- The declaration that an attribute of this name needs, if its qualifier is registered and
not in scope: the qualifier and its URI. -/
def missingDeclaration? (d : Document) (name : QualifiedName) : Option (String × String) := do
  let qualifier ← name.qualifier
  if (d.lookupNamespace ctx.node (some qualifier)).isSome then none
  else return (qualifier, ← settings.vocabularies.extra.lookup qualifier)

/-- Sets or removes one attribute of the list. -/
def assignItem (item : String) : Rendering Unit := do
  let spec := settings.vocabularies.attributes
  let (name, expression) ← ctx.readDirective spec item (Directive.readAssignment item)
  let value ← ctx.evaluateDirective settings spec expression
  if value.cancels then return ()
  else if value.isNull then
    Rendering.changeDocument fun d => (d.removeAttribute ctx.node name).1
  else do
    let d ← Rendering.document
    match missingDeclaration? settings ctx d (QualifiedName.parse name) with
    | some (qualifier, uri) =>
      Rendering.edit (Document.setAttribute ctx.node ("xmlns:" ++ qualifier) uri)
    | none => pure ()
    Rendering.edit (Document.setAttribute ctx.node name value.text)

/-- Carries out the list of attributes of an element. -/
def handle : Rendering Outcome := do
  match ctx.directive? (← Rendering.document) settings.vocabularies.attributes with
  | none => return .keep ctx
  | some value => do
    (Directive.splitItems value).forM (assignItem settings ctx)
    return .keep ctx

end PageTemplate.Attributes
