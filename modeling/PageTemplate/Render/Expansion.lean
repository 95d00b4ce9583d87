import PageTemplate.Render.MacroTable
import PageTemplate.Render.Slots

/-! # Using macros

An element that uses a macro is replaced by a copy of the macro, its slots filled with elements
from the place of use. A macro that extends another one is filled first and then gives elements
to fill the slots of the other with, which becomes the result.
-/

namespace PageTemplate.Expansion

open Markup

variable (settings : Settings) (ctx : Context)

/-- The macro that an expression of `element` names. There is none when the expression cancels;
any other value is an error, and so is a failure, which counts as a macro that is not found
unless the expression is malformed. -/
def resolve (element : NodeId) (spec : AttributeSpec) (expression : String) :
    Rendering (Option MacroRef) := do
  let result ← ctx.evaluate settings expression
  let described := describeElement (← Rendering.document) element
  let notFound := RenderError.macroNotFound spec.text described expression
  match result with
  | .ok value =>
    if value.cancels then return none
    else match value.asMacro? with
      | some found => return some found
      | none => Rendering.fail notFound
  | .error source =>
    if source.isMalformed then
      Rendering.fail (.evaluation spec.text described expression source)
    else Rendering.fail notFound

/-- An expansion on its way along the macros that extend one another. -/
structure State where
  /-- The copy of the macro that is being filled. -/
  current : NodeId
  fillers : Slots.Fillers
  /-- The names of the macros so far. -/
  chain : List String

/-- Fills the slots of the current macro. -/
def fillCurrent (state : State) : Rendering State := do
  let fillers ← Rendering.createIn fun d =>
    let filling := Slots.fill settings.vocabularies d state.current state.fillers
    (filling.document, filling.fillers)
  return { state with fillers }

/-- Goes on to the macro that the current one extends. Elements of the current macro take the
place of those from the place of use. -/
def advance (state : State) (parent : MacroRef) : Rendering State := do
  let d ← Rendering.document
  let fillers := Keyed.merge state.fillers (Slots.collect settings.vocabularies d state.current)
  let copy ← Rendering.createIn (MacroTable.copyElement settings.vocabularies · parent.element)
  let chain := state.chain ++ [parent.name]
  if state.chain.contains parent.name then
    Rendering.fail (.macroChain chain "extends itself")
  else if settings.maxMacroDepth < chain.length then
    Rendering.fail (.macroChain chain s!"is deeper than the limit of {settings.maxMacroDepth}")
  else return { current := copy, fillers, chain }

/-- Follows the macros that extend one another, at most `fuel` of them. -/
def extendTo : Nat → State → Rendering State
  | 0, _ => throw .exhausted
  | fuel + 1, state => do
    let spec := settings.vocabularies.extendMacro
    match (← Rendering.document).findAttribute? state.current spec with
    | none => return state
    | some attr =>
      match ← resolve settings ctx state.current spec attr.value with
      | none => return state
      | some parent => do
        extendTo fuel (← fillCurrent settings (← advance settings state parent))

/-- Expands a macro for the element. Gives the result, which has no parent. The chain of macros
never gets longer than the greatest depth, so that many steps and one suffice. -/
def expand (used : MacroRef) : Rendering NodeId := do
  let fillers := Slots.collect settings.vocabularies (← Rendering.document) ctx.node
  let copy ← Rendering.createIn (MacroTable.copyElement settings.vocabularies · used.element)
  let state ← fillCurrent settings { current := copy, fillers, chain := [used.name] }
  return (← extendTo settings ctx (settings.maxMacroDepth + 1) state).current

/-- Replaces an element that uses a macro by the expansion, with which the rendering goes on. -/
def handle : Rendering Context := do
  let spec := settings.vocabularies.useMacro
  match ctx.directive? (← Rendering.document) spec with
  | none => return ctx
  | some expression =>
    match ← resolve settings ctx ctx.node spec expression with
    | none => return ctx
    | some used =>
      if settings.maxMacroDepth ≤ ctx.macroStack.length then
        Rendering.fail (.macroChain (ctx.macroStack ++ [used.name])
          s!"nests use-macro deeper than the limit of {settings.maxMacroDepth}")
      else do
        let expanded ← expand settings ctx used
        Rendering.edit (Document.replace ctx.node [expanded])
        return ctx.enterMacro (← Rendering.document) expanded used.name

end PageTemplate.Expansion
