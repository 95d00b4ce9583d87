import PageTemplate.Render.Attributes
import PageTemplate.Render.Condition
import PageTemplate.Render.Content
import PageTemplate.Render.Define
import PageTemplate.Render.Expansion
import PageTemplate.Render.OmitTag
import PageTemplate.Render.OnError
import PageTemplate.Render.Repeat
import PageTemplate.Render.SourceComment

/-! # Walking through a document

An element is rendered in a fixed order: a macro is expanded, visitors run, then the directives
are carried out one after the other, and then the children are rendered. Each of these steps runs
under the protection of the element's error handler. Elements that a directive exposes are
rendered last, as if they had been there from the start.
-/

namespace PageTemplate

open Markup

/-- The directives of an element, apart from its error handler. -/
inductive Handler where
  | define
  | condition
  | repetition
  | content
  | attributes
  | omitTag
deriving DecidableEq, Repr

namespace Handler

/-- The order in which directives are carried out. -/
def order : List Handler := [.define, .condition, .repetition, .content, .attributes, .omitTag]

/-- Carries out one directive. -/
def handle (handler : Handler) (settings : Settings) (ctx : Context) : Rendering Outcome :=
  match handler with
  | .define => Define.handle settings ctx
  | .condition => Condition.handle settings ctx
  | .repetition => Repeat.handle settings ctx
  | .content => Content.handle settings ctx
  | .attributes => Attributes.handle settings ctx
  | .omitTag => OmitTag.handle settings ctx

end Handler

namespace Walk

variable (settings : Settings)

/-- The visitors of a rendering: source comments come first. -/
def visitors : List Visitor :=
  if settings.sourceComments then
    SourceComment.visitor settings.vocabularies settings.commentRoot :: settings.visitors
  else settings.visitors

/-- Runs a step under the protection of the element's error handler. -/
def guarded {α : Type} (ctx : Context) (step : Rendering α) : Rendering (Option α) :=
  Rendering.guarded (OnError.recover settings ctx) step

/-- Expands a macro and runs the visitors. -/
def prepare (ctx : Context) : Rendering Context := do
  let ctx ← Expansion.handle settings ctx
  (visitors settings).foldlM (fun ctx visitor => visitor.visit ctx) ctx

/-- Carries out one directive on each context, each under its own protection. -/
def runHandler (handler : Handler) (contexts : List Context) : Rendering Outcome := do
  let outcomes ← contexts.mapM fun ctx => guarded settings ctx (handler.handle settings ctx)
  let outcomes := outcomes.filterMap id
  return { contexts := outcomes.flatMap (·.contexts), exposed := outcomes.flatMap (·.exposed) }

/-- Carries out directives in order: the contexts that one hands on go to the next. -/
def runHandlers (start : Outcome) (handlers : List Handler) : Rendering Outcome :=
  handlers.foldlM (fun outcome handler => do
    let next ← runHandler settings handler outcome.contexts
    return { contexts := next.contexts, exposed := outcome.exposed ++ next.exposed }) start

/-- Renders the child elements of an element, in order. -/
def renderChildren (render : Context → Rendering Unit) (ctx : Context) : Rendering Unit := do
  ((← Rendering.document).childElements ctx.node).forM fun node => do
    render (ctx.child (← Rendering.document) node)

/-- Renders an element, at most `fuel` levels deep. -/
def render : Nat → Context → Rendering Unit
  | 0, _ => throw .exhausted
  | fuel + 1, ctx => do
    match ← guarded settings ctx (prepare settings ctx) with
    | none => return ()
    | some ctx =>
      let outcome ← runHandlers settings { contexts := [ctx] } Handler.order
      outcome.contexts.forM fun ctx => do
        if ctx.rendersChildren then
          let _ ← guarded settings ctx (renderChildren (render fuel) ctx)
      outcome.exposed.forM (render fuel)

/-- A bound on the levels that a rendering goes through. Every level goes down in the tree, and
a tree only grows where a macro is expanded, by no more than the macros of one chain, or where a
visitor adds to it. -/
def bound (size : Nat) : Nat :=
  Nat.pow (settings.maxMacroDepth + 2) 2 * (size + 2) * (settings.visitors.length + 1)

end Walk

end PageTemplate
