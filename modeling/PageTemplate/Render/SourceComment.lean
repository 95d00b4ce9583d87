import PageTemplate.Render.Context

/-! # Source comments

Comments in the output tell where its markup was written: before the root element, around
elements that were copied from another document, before macros and after slots.
-/

namespace PageTemplate.SourceComment

open Markup

/-- The tag of an element that a comment stands at. -/
inductive Tag where
  | start
  | ending
deriving DecidableEq, Repr

/-- The line above and below the text of a comment. -/
def divider : String := String.ofList (List.replicate 78 '=')

/-- The name of a source without `base` at its start and the slashes that then come first. -/
def relativeName (base : Option String) (name : String) : String :=
  match base with
  | none => name
  | some base =>
    if base.isEmpty then name
    else match Text.strip? base.toList name.toList with
      | some rest => String.ofList (rest.dropWhile (· == '/'))
      | none => name

/-- The source of an element's markup, and the line of the tag when it is known. -/
def describe (base : Option String) (d : Document) (node : NodeId) (tag : Tag) : String :=
  let element := d.element? node
  let source := match element.bind (·.importedFrom) <|> d.sourceName with
    | some name => relativeName base name
    | none => "<unknown source>"
  let place := element.bind fun element =>
    match tag with
    | .start => element.position
    | .ending => element.endPosition
  match place with
  | some place => s!"{source} (line {place.line})"
  | none => source

/-- The text of a comment. -/
def content (base : Option String) (d : Document) (node : NodeId) (tag : Tag) : String :=
  "\n" ++ divider ++ "\n" ++ describe base d node tag ++ "\n" ++ divider ++ "\n"

/-- Makes a comment and puts it where `insert` says. -/
def addComment (base : Option String) (node : NodeId) (tag : Tag)
    (insert : NodeId → NodeId → Edit Unit) : Rendering Unit := do
  let d ← Rendering.document
  let comment ← Rendering.createIn (·.create (.comment (content base d node tag)))
  Rendering.edit (insert node comment)

/-- Adds the comments of an element. -/
def annotate (v : Vocabularies) (base : Option String) (node : NodeId) : Rendering Unit := do
  let d ← Rendering.document
  match d.parent node, d.element? node with
  | some _, some element =>
    let before := addComment base node .start Document.insertBefore
    if (d.parentElement? node).isNone then before
    else if element.importedFrom.isSome then do
      before
      addComment base node .ending Document.insertAfter
    else if d.hasAttribute node v.defineMacro then before
    else if d.hasAttribute node v.defineSlot then
      addComment base node .start Document.insertAfter
    else return ()
  | _, _ => return ()

/-- The visitor that adds source comments. -/
def visitor (v : Vocabularies) (base : Option String) : Visitor where
  name := "source-annotation"
  visit ctx := do
    annotate v base ctx.node
    return ctx

end PageTemplate.SourceComment
