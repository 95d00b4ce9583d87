import PageTemplate.Expression.Data
import PageTemplate.Markup.Encoding
import PageTemplate.Render.Renderer

/-! # Templates

A template is a document with the settings and the libraries that it is rendered with. Rendering
works on a copy of the document, so a template can be rendered any number of times; the cache of
expressions is handed on from one rendering to the next.
-/

namespace PageTemplate

open Markup

/-- What can go wrong between reading a template and writing its output. -/
inductive TemplateError where
  | unreadable (error : MarkupError)
  | unwritable (error : MarkupError)
  | rendering (error : RenderError)
  | model (error : ExpressionError)
  | sink (message : String)
  /-- The rendering went deeper than the bound that was computed for it. -/
  | exhausted

/-- The wording of an error. -/
def TemplateError.message : TemplateError → String
  | .unreadable error => "Template could not be read: " ++ error.message
  | .unwritable error => "Output could not be written: " ++ error.message
  | .rendering error => "Rendering failed: " ++ error.message
  | .model error => "Model conversion failed: " ++ error.message
  | .sink message => "I/O error: " ++ message
  | .exhausted => "Rendering failed: the bound on its depth was reached"

/-- A template. -/
structure Template where
  source : Document
  settings : Settings := {}
  libraries : List Document := []
  cache : ExpressionCache := {}

namespace Template

/-- Reads a template and records the name of its source, if it has one. -/
def parse (markup : String) (sourceName : Option String := none) :
    Except TemplateError Template :=
  match Document.parse markup sourceName with
  | .ok source => .ok { source }
  | .error error => .error (.unreadable error)

/-- The result of a rendering: the output, the template with what its cache holds now, and what
visitors have noted. -/
structure Rendered where
  output : Except TemplateError Document
  template : Template
  journal : List String

variable (template : Template)

/-- Renders the template against a value. -/
def render (model : Value) : Rendered :=
  let rendering := Renderer.renderDocument template.settings template.libraries
  let (result, state) := rendering.run (Renderer.start template.source model template.cache)
  { output := match result with
      | .ok () => .ok state.document
      | .error (.failed error) => .error (.rendering error)
      | .error .exhausted => .error .exhausted
    template := { template with cache := state.cache }
    journal := state.journal }

/-- Renders the template against host data and writes the output to a sink, in the encoding of
the settings. -/
def renderTo {σ : Type} (model : Data) (sink : Sink σ) (state : σ)
    (table : String → Option Encoding := Encoding.ofLabel?) : Except TemplateError Unit × σ :=
  match model.toValue with
  | .error error => (.error (.model error), state)
  | .ok value =>
    match (template.render value).output with
    | .error error => (.error error, state)
    | .ok d =>
      match d.writeTo (some template.settings.outputEncoding) sink state table with
      | (.error error, state) => (.error (.unwritable error), state)
      | (.ok (), state) =>
        let (result, state) := sink.flush state
        (result.mapError .sink, state)

end Template

end PageTemplate
