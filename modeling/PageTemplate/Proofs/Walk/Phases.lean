import PageTemplate.Proofs.Walk.Unwinding

/-! # The phases of a rendering

A rendering prepares the element, carries out the directives, goes on to the children of the
contexts that are left and ends with the elements that were exposed.
-/

namespace PageTemplate.Walk.Recorded

open Markup

variable (settings : Settings) (fuel : Nat) (path : List Enclosure) (entry : Context)
  (start : RenderState)

/-- Renders one child of an element. -/
def renderChild (render : Context → Recorded Unit) (ctx : Context) (child : NodeId) :
    Recorded Unit := do
  render (ctx.child (← unrecorded Rendering.document) child)

/-- The children of a context, if they are to be rendered, under the protection of its error
handler. -/
def renderWithin (ctx : Context) : Recorded Unit := do
  if ctx.rendersChildren then
    let _ ← guarded settings path ctx
      (renderChildren (render settings fuel (⟨entry, start, ctx, false⟩ :: path)) ctx)

/-- An element that was exposed, with the context that exposed it. -/
def renderExposed (exposed : Context × Context) : Recorded Unit :=
  render settings fuel (⟨entry, start, exposed.1, true⟩ :: path) exposed.2

/-- What follows on the directives. -/
def renderHanded (handed : Handed) : Recorded Unit := do
  handed.contexts.forM (renderWithin settings fuel path entry start)
  handed.exposed.forM (renderExposed settings fuel path entry start)

/-- What follows on the preparation. -/
def renderPrepared (ctx : Context) : Recorded Unit := do
  renderHanded settings fuel path entry start
    (← runHandlers settings path { contexts := [ctx] } Handler.order)

/-- What follows on the preparation, unless there was an error to recover from. -/
def renderFound : Option Context → Recorded Unit
  | none => return ()
  | some ctx => renderPrepared settings fuel path entry start ctx

theorem render_succ :
    render settings (fuel + 1) path entry = (do
      let start ← get
      renderFound settings fuel path entry start.state
        (← guarded settings path entry
          (record .prepare path entry (prepare settings entry)))) := rfl

theorem outcome_render_succ (r : Recording) :
    outcome (render settings (fuel + 1) path entry) r =
      outcome (guarded settings path entry (record .prepare path entry (prepare settings entry)) >>=
        renderFound settings fuel path entry r.state) r := by
  have hget : outcome (get : Recorded Recording) r = (.ok r, r) := rfl
  rw [render_succ, outcome_bind_ok hget]

/-! ## No phase loses an error -/

theorem unwinding_renderChild (ctx : Context) (child : NodeId) :
    Unwinding settings (sheltering (places path))
      (renderChild (render settings fuel path) ctx child) :=
  (unwinding_document settings).bind fun _ => unwinding_render settings fuel path _

theorem unwinding_renderChildren (ctx : Context) :
    Unwinding settings (sheltering (places path))
      (renderChildren (render settings fuel path) ctx) :=
  (unwinding_document settings).bind fun _ =>
    unwinding_forM (unwinding_renderChild settings fuel path ctx) _

theorem unwinding_renderWithin (ctx : Context) :
    Unwinding settings (sheltering (places path))
      (renderWithin settings fuel path entry start ctx) := by
  unfold renderWithin
  split
  · exact (unwinding_guarded settings (unwinding_renderChildren settings fuel
      (⟨entry, start, ctx, false⟩ :: path) ctx)).bind fun _ => unwinding_pure _
  · exact unwinding_pure _

theorem unwinding_renderExposed (exposed : Context × Context) :
    Unwinding settings (sheltering (places path))
      (renderExposed settings fuel path entry start exposed) :=
  unwinding_render settings fuel (⟨entry, start, exposed.1, true⟩ :: path) exposed.2

theorem unwinding_renderHanded (handed : Handed) :
    Unwinding settings (sheltering (places path))
      (renderHanded settings fuel path entry start handed) :=
  (unwinding_forM (unwinding_renderWithin settings fuel path entry start) _).bind fun _ =>
    unwinding_forM (unwinding_renderExposed settings fuel path entry start) _

theorem unwinding_renderPrepared (ctx : Context) :
    Unwinding settings (sheltering (places path))
      (renderPrepared settings fuel path entry start ctx) :=
  (unwinding_runHandlers settings path _ _).bind fun _ =>
    unwinding_renderHanded settings fuel path entry start _

theorem unwinding_renderFound (found : Option Context) :
    Unwinding settings (sheltering (places path))
      (renderFound settings fuel path entry start found) := by
  cases found with
  | none => exact unwinding_pure _
  | some ctx => exact unwinding_renderPrepared settings fuel path entry start ctx

end PageTemplate.Walk.Recorded
