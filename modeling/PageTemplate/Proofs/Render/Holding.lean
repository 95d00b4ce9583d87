import PageTemplate.Proofs.Render.Steps
import PageTemplate.Render.Walk

/-! # Properties of the document that steps keep

Steps of a rendering that do not touch the document keep whatever holds of it, and the others keep
what their change of the document keeps, however they end.
-/

namespace PageTemplate

open Markup Document

variable {good : Document → Prop} {α : Type}

namespace Rendering

theorem holds_document : Holds (fun s : RenderState => good s.document) document :=
  .bind .get fun _ => .pure _

theorem holds_fail (error : RenderError) :
    Holds (fun s : RenderState => good s.document) (fail error : Rendering α) := .throw _

theorem holds_changeDocument {change : Document → Document}
    (hchange : ∀ d, good d → good (change d)) :
    Holds (fun s => good s.document) (changeDocument change) :=
  .modify fun _ hs => hchange _ hs

theorem holds_createIn {change : Document → Document × α}
    (hchange : ∀ d, good d → good (change d).1) :
    Holds (fun s => good s.document) (createIn change) :=
  .modifyGet fun _ hs => hchange _ hs

theorem holds_edit {change : Edit α} (hchange : Holds good change) :
    Holds (fun s => good s.document) (edit change) :=
  fun s hs => ensures_edit (hchange s.document hs)

theorem holds_bindGlobal (key : String) (value : Value) :
    Holds (fun s => good s.document) (bindGlobal key value) :=
  .modify fun _ => id

end Rendering

namespace Context

variable (ctx : Context) (settings : Settings)

theorem holds_evaluate (text : String) :
    Holds (fun s => good s.document) (ctx.evaluate settings text) :=
  .bind (.modifyGet fun _ => id) fun _ => .bind .get fun _ => .pure _

theorem holds_evaluateDirective (spec : AttributeSpec) (text : String) :
    Holds (fun s => good s.document) (ctx.evaluateDirective settings spec text) := by
  refine .bind (ctx.holds_evaluate settings text) fun result => ?_
  cases result with
  | ok value => exact .pure value
  | error source => exact .bind Rendering.holds_document fun _ => Rendering.holds_fail _

theorem holds_readDirective (spec : AttributeSpec) (value : String) (read : Except String α) :
    Holds (fun s => good s.document) (ctx.readDirective spec value read) := by
  unfold readDirective
  cases read with
  | ok result => exact .pure result
  | error message => exact .bind Rendering.holds_document fun _ => Rendering.holds_fail _

end Context

theorem Expansion.holds_resolve (settings : Settings) (ctx : Context) (element : NodeId)
    (spec : AttributeSpec) (expression : String) :
    Holds (fun s => good s.document) (resolve settings ctx element spec expression) := by
  refine .bind (ctx.holds_evaluate settings expression) fun result =>
    .bind Rendering.holds_document fun d => ?_
  dsimp only
  split
  · split
    · exact .pure _
    · split
      · exact .pure _
      · exact Rendering.holds_fail _
  · split
    · exact Rendering.holds_fail _
    · exact Rendering.holds_fail _

theorem Define.holds_handle (settings : Settings) (ctx : Context) :
    Holds (fun s => good s.document) (Define.handle settings ctx) := by
  refine .bind Rendering.holds_document fun d => ?_
  split
  · exact .pure _
  refine .bind (.foldlM (fun ctx item => ?_) _ ctx) fun _ => .pure _
  refine .bind (ctx.holds_readDirective _ _ _) fun definition =>
    .bind (ctx.holds_readDirective _ _ _) fun target =>
      .bind (ctx.holds_evaluateDirective settings _ _) fun value => ?_
  split
  · exact .pure _
  split
  · exact .pure _
  · exact .bind (Rendering.holds_bindGlobal _ _) fun _ => .pure _

end PageTemplate
