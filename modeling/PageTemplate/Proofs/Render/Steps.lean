import PageTemplate.Proofs.Render.Stage

/-! # The steps that renderings are made of

What holds after the single steps on the state of a rendering, and after reading and evaluating
the value of a directive. Evaluation only fills the cache, and brings out only published macros.
-/

namespace PageTemplate

open Markup Document

variable {α : Type} {s : RenderState} {ok : α → RenderState → Prop}
  {bad : Stop → RenderState → Prop}

namespace Rendering

theorem outcome_document (s : RenderState) :
    outcome document s = (.ok s.document, s) := rfl

theorem outcome_createIn (make : Document → Document × α) (s : RenderState) :
    outcome (createIn make) s = (.ok (make s.document).2,
      { s with document := (make s.document).1 }) := rfl

theorem ensures_document {ok : Document → RenderState → Prop} (h : ok s.document s) :
    Ensures document s ok bad :=
  Ensures.bind (Ensures.get (Ensures.pure h))

theorem ensures_changeDocument {change : Document → Document} {ok : Unit → RenderState → Prop}
    (h : ok () { s with document := change s.document }) :
    Ensures (changeDocument change) s ok bad :=
  Ensures.modify h

theorem ensures_createIn {change : Document → Document × α}
    (h : ok (change s.document).2 { s with document := (change s.document).1 }) :
    Ensures (createIn change) s ok bad :=
  Ensures.modifyGet h

theorem ensures_bindGlobal {name : String} {value : Value} {ok : Unit → RenderState → Prop}
    (h : ok () { s with globals := s.globals.bind name value }) :
    Ensures (bindGlobal name value) s ok bad :=
  Ensures.modify h

theorem ensures_fail {error : RenderError} (h : bad (.failed error) s) :
    Ensures (fail error : Rendering α) s ok bad :=
  Ensures.throw h

/-- An edit of the document of a rendering leaves the rest of its state alone. -/
theorem outcome_edit_ok {change : Edit α} {a : α} {d : Document}
    (h : outcome change s.document = (.ok a, d)) :
    outcome (edit change) s = (.ok a, { s with document := d }) := by
  have hrun : change.run s.document = (.ok a, d) := h
  unfold edit
  rw [outcome_bind, outcome_createIn, hrun]
  rfl

/-- An edit does to the document of a rendering what it does to any document. -/
theorem ensures_edit {change : Edit α}
    (h : Ensures change s.document (fun a d => ok a { s with document := d })
      fun error d => bad (.failed (.tree error)) { s with document := d }) :
    Ensures (edit change) s ok bad := by
  unfold edit
  refine Ensures.bind (ensures_createIn ?_)
  rcases heq : outcome change s.document with ⟨error | a, d⟩
  · have hrun : change.run s.document = (.error error, d) := heq
    rw [hrun]
    exact ensures_fail (h.bad_of_outcome heq)
  · have hrun : change.run s.document = (.ok a, d) := heq
    rw [hrun]
    exact Ensures.pure (h.ok_of_outcome heq)

/-- An edit that cannot fail. -/
theorem ensures_edit_ok {change : Edit α} {done : α → Document → Prop}
    (h : Ensures change s.document done fun _ _ => False)
    (hok : ∀ a d, done a d → ok a { s with document := d }) : Ensures (edit change) s ok bad :=
  ensures_edit (h.mono hok fun _ _ => False.elim)

end Rendering

namespace Context

variable (ctx : Context) {stage : Stage}

theorem allMacros_environment (hadmits : stage.Admits ctx)
    (hglobals : s.globals.AllMacros stage.Known) :
    (ctx.environment stage.settings s.globals).AllMacros stage.Known :=
  ⟨hadmits.scope, hglobals, fun entry hentry => .of_macroFree (stage.faithful.options entry hentry),
    stage.faithful.functions, stage.faithful.modules⟩

theorem ensures_evaluate (hadmits : stage.Admits ctx)
    (hglobals : s.globals.AllMacros stage.Known) (text : String)
    {ok : Except ExpressionError Value → RenderState → Prop}
    (hok : ∀ result cache, Yields stage.Known result →
      ok result { s with cache }) :
    Ensures (ctx.evaluate stage.settings text) s ok bad := by
  unfold evaluate
  refine Ensures.bind (Ensures.modifyGet (Ensures.bind (Ensures.get (Ensures.pure ?_))))
  refine hok _ _ (yields_bind fun entry _ => ?_)
  exact Environment.yields_evaluate (allMacros_environment ctx hadmits hglobals) entry.expression

theorem ensures_evaluateDirective (hadmits : stage.Admits ctx)
    (hglobals : s.globals.AllMacros stage.Known)
    (spec : AttributeSpec) (text : String) {ok : Value → RenderState → Prop}
    (hok : ∀ value cache, value.AllMacros stage.Known →
      ok value { s with cache })
    (hbad : ∀ (error : RenderError) cache, ¬ error.IsTree → bad (.failed error) { s with cache }) :
    Ensures (ctx.evaluateDirective stage.settings spec text) s ok bad := by
  unfold evaluateDirective
  refine Ensures.bind (ensures_evaluate ctx hadmits hglobals text fun result cache hresult => ?_)
  cases result with
  | ok value => exact Ensures.pure (hok value cache (hresult value rfl))
  | error error =>
      exact Ensures.bind (Rendering.ensures_document (Rendering.ensures_fail (hbad _ cache id)))

theorem ensures_readDirective (spec : AttributeSpec) (value : String) (read : Except String α)
    (hok : ∀ result, read = .ok result → ok result s)
    (hbad : ∀ error : RenderError, ¬ error.IsTree → bad (.failed error) s) :
    Ensures (ctx.readDirective spec value read) s ok bad := by
  unfold readDirective
  cases read with
  | ok result => exact Ensures.pure (hok result rfl)
  | error message =>
      exact Ensures.bind (Rendering.ensures_document (Rendering.ensures_fail (hbad _ id)))

/-- The value that is written for a directive is authored. -/
theorem authored_of_directive? {d : Document} (hadmits : stage.Admits ctx) {spec : AttributeSpec}
    {value : String} (h : ctx.directive? d spec = some value) : Authored stage.origin value := by
  unfold directive? at h
  obtain ⟨attr, hattr, rfl⟩ := Option.map_eq_some_iff.mp h
  exact hadmits.written attr (List.mem_of_find?_eq_some hattr)

end Context

end PageTemplate
