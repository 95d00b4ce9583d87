import PageTemplate.Markup.Edit
import PageTemplate.Markup.Event
import PageTemplate.Markup.Reference
import PageTemplate.Markup.Tag

/-! # Reading markup into a document

The events of a text are carried out one after the other on a document, below a container
node. Reading stops at the first event that cannot be carried out; what was read before it
stays in the document.

A byte order mark at the start of a text is skipped and does not count in byte offsets, but a
place is found by counting through the whole text, mark included.
-/

namespace PageTemplate.Markup

open Text

/-- The state between two events: the document, the open elements with the names of their start
tags, innermost first, and the bytes read so far. -/
structure Reading where
  document : Document
  opened : List (List Char × NodeId) := []
  offset : Nat := 0

namespace Reading

/-- Appends a new node of the given kind to `parent`. -/
def addNode (d : Document) (parent : NodeId) (kind : NodeKind) : Document × NodeId :=
  let (d, id) := d.create kind
  (d.append parent id, id)

/-- Adds text behind the last child of `parent`, into that child when it is text. -/
def addText (d : Document) (parent : NodeId) (content : String) : Document :=
  match (d.children parent).getLast? with
  | some last =>
    match d.kind last with
    | .text existing => d.setKind last (.text (existing ++ content))
    | _ => (addNode d parent (.text content)).1
  | none => (addNode d parent (.text content)).1

/-- The element of a start tag that stands at `place`. -/
def readElement (tag : List Char) (place : Location) : Except MarkupError Element := do
  let (written, fault) := Tag.attributes tag
  let attributes ← written.mapM fun attr =>
    match Reference.unescape 0 attr.value with
    | .ok value =>
      .ok { name := QualifiedName.parse (String.ofList attr.key), value := String.ofList value }
    | .error fault => .error (.malformed fault.message place)
  match fault with
  | some fault => throw (.malformed fault.message place)
  | none => pure ()
  return { Element.named (String.ofList (Tag.name tag)) with attributes, position := some place }

/-- The XML declaration of the given content. The version counts only as the first attribute;
the others count up to the first fault. -/
def readDeclaration (content : List Char) : NodeKind :=
  let written := (Tag.looseAttributes content).1
  let value? := fun name : String => (written.find? (·.key = name.toList)).map
    fun attr => String.ofList attr.value
  let version := match written.head? with
    | some attr => if attr.key = "version".toList then String.ofList attr.value else "1.0"
    | none => "1.0"
  .declaration version (value? "encoding") (value? "standalone")

/-- The message for an end tag that closes no open element, or not the innermost one. -/
def endTagFault (opened : List (List Char × NodeId)) (name : List Char) : String :=
  let found := String.ofList name
  match opened with
  | [] => s!"ill-formed document: close tag `</{found}>` does not match any open tag"
  | (expected, _) :: _ =>
    s!"ill-formed document: expected `</{String.ofList expected}>`, but `</{found}>` was found"

variable (container : NodeId) (locate : Nat → Location) (reading : Reading)

/-- The node that receives what is read next. -/
def parent : NodeId := (reading.opened.head?.map (·.2)).getD container

/-- Adds a node that holds no others. -/
def addLeaf (kind : NodeKind) : Reading :=
  { reading with document := (addNode reading.document (reading.parent container) kind).1 }

/-- Carries out one event. -/
def step (event : Event) : Except MarkupError Reading := do
  let place := locate reading.offset
  let parent := reading.parent container
  let d := reading.document
  let reading := { reading with offset := reading.offset + byteLength event.source }
  match event with
  | .startTag tag =>
    let element ← readElement tag place
    let (d, id) := addNode d parent (.element element)
    return { reading with document := d, opened := (Tag.name tag, id) :: reading.opened }
  | .emptyTag tag =>
    let element ← readElement tag place
    return { reading with document := (addNode d parent (.element element)).1 }
  | .endTag tag =>
    let name := Tag.closingName tag
    match reading.opened with
    | (expected, id) :: outer =>
      if expected = name then
        return { reading with
          document := d.updateElement id fun element =>
            { element with endPosition := some place }
          opened := outer }
      else throw (.malformed (endTagFault reading.opened name) place)
    | [] => throw (.malformed (endTagFault reading.opened name) place)
  | .text content =>
    return { reading with document := addText d parent (String.ofList content) }
  | .reference name =>
    match name with
    | '#' :: number =>
      match Reference.character number with
      | .ok c => return { reading with document := addText d parent (String.singleton c) }
      | .error fault => throw (.malformed fault.message place)
    | name =>
      match Reference.predefined? name with
      | some c => return { reading with document := addText d parent (String.singleton c) }
      | none => throw (.unknownEntity (String.ofList name) place)
  | .comment content => return reading.addLeaf container (.comment (String.ofList content))
  | .cdata content => return reading.addLeaf container (.cdata (String.ofList content))
  | .instruction content => return reading.addLeaf container (.instruction (String.ofList content))
  | .declaration content => return reading.addLeaf container (readDeclaration content)
  | .doctype _ content => return reading.addLeaf container (.doctype (String.ofList (trim content)))

/-- Carries out events up to the first that fails. -/
def run (reading : Reading) : List Event → Reading × Option MarkupError
  | [] => (reading, none)
  | event :: events =>
    match reading.step container locate event with
    | .ok reading => run reading events
    | .error error => (reading, some error)

end Reading

namespace Document

/-- Reads markup below `container`. -/
def readInto (container : NodeId) (markup : String) : Edit Unit := do
  let whole := markup.toList
  let (events, fault) := Event.scan ((strip? ['\uFEFF'] whole).getD whole)
  let locate := Location.ofOffset whole
  let d ← get
  let (reading, stopped) := Reading.run container locate { document := d } events
  set reading.document
  match stopped, fault with
  | some error, _ => throw error
  | none, some fault => throw (.malformed fault.message (locate reading.offset))
  | none, none =>
    if reading.opened.isEmpty then return ()
    else throw (.malformed "unclosed element at end of input" (Location.after whole))

/-- Reads a complete document and records the name of its source, if it has one. -/
def parse (markup : String) (sourceName : Option String := none) : Except MarkupError Document :=
  match (readInto root markup).run empty with
  | (.ok (), d) => .ok { d with sourceName }
  | (.error error, _) => .error error

/-- Reads markup with any number of nodes at the top into nodes without a parent. They are read
below a node created for them, which keeps what was read when reading fails. -/
def parseFragment (markup : String) : Edit (List NodeId) := do
  let holder ← modifyGet fun d => let (d, id) := d.createElement "fragment"; (id, d)
  readInto holder markup
  let nodes := (← get).children holder
  modify (·.clearChildren holder)
  return nodes

end Document

end PageTemplate.Markup
