import PageTemplate.Expression.Cache
import PageTemplate.Expression.Evaluator
import PageTemplate.Render.Error
import PageTemplate.Render.Vocabulary

/-! # The state of a rendering

A context is an element that is being rendered together with the scope of its expressions. It
remembers the attributes that the element had when the context was made, so that directives are
read as they were written, whatever has been done to the element since.

A rendering changes the document, the global bindings and the cache of expressions, and may fail.
What was changed before a failure stays changed.
-/

namespace PageTemplate

open Markup

/-- An element that is being rendered. -/
structure Context where
  node : NodeId
  scope : Scope
  /-- The attributes that the element had when the context was made. -/
  written : List Attribute
  /-- The names of the macros whose expansions lie around the element, outermost first. -/
  macroStack : List String := []
  /-- The children of the element are markup of the template, not output. -/
  rendersChildren : Bool := true

/-- What a rendering changes. -/
structure RenderState where
  document : Document
  globals : Globals
  cache : ExpressionCache := {}
  /-- Lines that visitors have noted, in order. -/
  journal : List String := []

/-- Why a rendering stopped. -/
inductive Stop where
  | failed (error : RenderError)
  /-- The walk went deeper than the bound that was computed for it. -/
  | exhausted

/-- A step of a rendering. After a failure the state is the one that the step left behind. -/
abbrev Rendering (α : Type) := ExceptT Stop (StateM RenderState) α

/-- A hook that runs on every context before its directives are carried out. -/
structure Visitor where
  name : String
  visit : Context → Rendering Context

/-- How templates are rendered. -/
structure Settings where
  /-- Note in comments where the markup of the output was written. -/
  sourceComments : Bool := false
  /-- What source comments leave out at the start of a source name. -/
  commentRoot : Option String := none
  /-- The label of the encoding that output is written in. -/
  outputEncoding : String := "utf-8"
  visitors : List Visitor := []
  modules : ModuleTable := ModuleTable.builtin
  functions : String → Option HostFunction := fun _ => none
  strategies : List Strategy := Strategy.all
  options : List (String × Value) := []
  vocabularies : Vocabularies := {}
  /-- The greatest number of macros that may lie inside one another, or extend one another. -/
  maxMacroDepth : Nat := 32
  /-- Remove directives from the output. -/
  cleanup : Bool := true

/-! ## Steps on the document -/

namespace Rendering

def fail {α : Type} (error : RenderError) : Rendering α := throw (.failed error)

def document : Rendering Document := return (← get).document

def changeDocument (change : Document → Document) : Rendering Unit :=
  modify fun state => { state with document := change state.document }

/-- A change of the document that gives something back. -/
def createIn {α : Type} (change : Document → Document × α) : Rendering α :=
  modifyGet fun state =>
    let (d, result) := change state.document
    (result, { state with document := d })

/-- An edit of the document; its failure is a failure of the rendering. -/
def edit {α : Type} (change : Edit α) : Rendering α := do
  let result ← createIn fun d =>
    let (result, d) := change.run d
    (d, result)
  match result with
  | .ok value => return value
  | .error error => fail (.tree error)

def bindGlobal (name : String) (value : Value) : Rendering Unit :=
  modify fun state => { state with globals := state.globals.bind name value }

/-- Runs a step. A failure goes to `recover`, and then there is no result. -/
def guarded {α : Type} (recover : RenderError → Rendering Unit) (step : Rendering α) :
    Rendering (Option α) :=
  tryCatch (some <$> step) fun stop =>
    match stop with
    | .failed error => do
      recover error
      return none
    | .exhausted => throw .exhausted

end Rendering

/-- An element as messages name it: with its place in the source, when that is known. -/
def describeElement (d : Document) (id : NodeId) : String :=
  match d.element? id with
  | some element =>
    match element.position with
    | some place => s!"<{element.name.text}> at {place.text}"
    | none => s!"<{element.name.text}>"
  | none => "node " ++ NodeId.text id

namespace Context

/-- The context of a node, outside all macros. -/
def ofNode (d : Document) (node : NodeId) (scope : Scope) : Context :=
  { node, scope, written := d.attributes node }

variable (ctx : Context)

/-- The context of a child element, one scope further in. -/
def child (d : Document) (node : NodeId) : Context :=
  { ofNode d node ctx.scope.child with macroStack := ctx.macroStack }

/-- The context of an element that takes the place of this one. -/
def sibling (d : Document) (node : NodeId) : Context :=
  { ofNode d node ctx.scope.sibling with macroStack := ctx.macroStack }

/-- The context of the expansion of a macro, which takes the place of this element. -/
def enterMacro (d : Document) (node : NodeId) (name : String) : Context :=
  { ctx.sibling d node with macroStack := ctx.macroStack ++ [name] }

/-- The values of the written attributes under their names. -/
def attributeValues : List (String × String) :=
  Keyed.ofList (ctx.written.map fun attr => (attr.name.text, attr.value))

/-- The value that was written for a directive. -/
def directive? (d : Document) (spec : AttributeSpec) : Option String :=
  (ctx.written.find? (d.attributeMatches ctx.node · spec)).map (·.value)

/-- What the expressions of the element see. -/
def environment (settings : Settings) (globals : Globals) : Environment where
  scope := ctx.scope
  globals := globals
  strategies := settings.strategies
  modules := settings.modules
  functions := settings.functions
  options := settings.options
  attributes := ctx.attributeValues

variable (settings : Settings)

/-- Evaluates an expression, reading it from the cache. -/
def evaluate (text : String) : Rendering (Except ExpressionError Value) := do
  let parsed ← modifyGet fun state =>
    let (parsed, cache) := state.cache.get text
    (parsed, { state with cache })
  let globals := (← get).globals
  return parsed >>= fun entry => (ctx.environment settings globals).evaluate entry.expression

/-- Evaluates the expression of a directive. -/
def evaluateDirective (spec : AttributeSpec) (text : String) : Rendering Value := do
  match ← ctx.evaluate settings text with
  | .ok value => return value
  | .error source =>
    let d ← Rendering.document
    Rendering.fail (.evaluation spec.text (describeElement d ctx.node) text source)

/-- What a directive's value says, or the failure of a value that is malformed. -/
def readDirective {α : Type} (spec : AttributeSpec) (value : String) (read : Except String α) :
    Rendering α := do
  match read with
  | .ok result => return result
  | .error message =>
    let d ← Rendering.document
    Rendering.fail (.directiveSyntax spec.text (describeElement d ctx.node) value message)

end Context

end PageTemplate
