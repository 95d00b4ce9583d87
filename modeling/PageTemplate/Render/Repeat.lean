import PageTemplate.Render.Outcome

/-! # Repetition

An element is replaced by one copy of itself for each item of a sequence. Every copy has a scope
of its own, in which the item is bound.
-/

namespace PageTemplate.Repeat

open Markup

variable (settings : Settings) (ctx : Context)

/-- Makes the copy for one item, right before the element. -/
def copyFor (name : String) (count : Nat) (item : Value) (index : Nat) : Rendering Context := do
  let copy ← Rendering.createIn (·.deepCopy ctx.node)
  Rendering.edit (Document.insertBefore ctx.node copy)
  Rendering.changeDocument fun d =>
    (d.removeAttributeBySpec copy settings.vocabularies.repetition).1
  let sibling := ctx.sibling (← Rendering.document) copy
  return { sibling with scope := sibling.scope.bindRepetition { name, index, count, item } }

/-- Carries out the repetition of an element. -/
def handle : Rendering Outcome := do
  let spec := settings.vocabularies.repetition
  match ctx.directive? (← Rendering.document) spec with
  | none => return .keep ctx
  | some value =>
    let (name, expression) ← ctx.readDirective spec value (Directive.readRepeat value)
    let result ← ctx.evaluateDirective settings spec expression
    if result.cancels || result.isNull then return .keep ctx
    else match result.items? with
      | none =>
        let d ← Rendering.document
        Rendering.fail (.notIterable (describeElement d ctx.node) expression result.typeName)
      | some items =>
        let contexts ← items.zipIdx.mapM fun (item, index) =>
          copyFor settings ctx name items.length item index
        Rendering.changeDocument (·.detach ctx.node)
        return { contexts }

end PageTemplate.Repeat
