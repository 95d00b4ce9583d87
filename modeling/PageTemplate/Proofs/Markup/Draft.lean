import PageTemplate.Markup.Reader
import PageTemplate.Proofs.Markup.Scanning
import PageTemplate.Proofs.Markup.Stored

/-! # Reading without a document

Reading numbers the nodes of a document and stores them in a table. What is read is a tree, and
it can be built without either: a draft holds the trees that were read so far, and the elements
that are still open. Places in the source play no part in a draft.
-/

namespace PageTemplate.Markup

open Text

/-- An element without a word on where it comes from. -/
def Element.bare (element : Element) : Element :=
  { element with position := none, endPosition := none, importedFrom := none }

/-- A kind of node without a word on where the node comes from. -/
def NodeKind.bare (kind : NodeKind) : NodeKind := kind.mapElement Element.bare

/-- A tree without a word on where its nodes come from. -/
def Tree.bare (tree : Tree) : Tree := tree.map NodeKind.bare

/-- An element that is still open when a text has been read to some point. -/
structure OpenElement where
  /-- The name of the start tag. -/
  name : List Char
  element : Element
  /-- What was read before the start tag, at the same level. -/
  before : List Tree

/-- What has been read of a text: the nodes of the innermost open element so far, and the open
elements, innermost first. -/
structure Draft where
  children : List Tree := []
  opened : List OpenElement := []

namespace Draft

/-- Adds a node that holds no others. -/
def addLeaf (kind : NodeKind) (draft : Draft) : Draft :=
  { draft with children := draft.children ++ [.node kind []] }

/-- Adds text, to the last node when that is text. -/
def addText (content : String) (draft : Draft) : Draft :=
  match draft.children.getLast? with
  | some (.node (.text existing) below) =>
    { draft with
      children := draft.children.dropLast ++ [.node (.text (existing ++ content)) below] }
  | _ => draft.addLeaf (.text content)

/-- An attribute with its references resolved. -/
def readAttribute? (attr : Tag.RawAttribute) : Option Attribute :=
  match Reference.unescape 0 attr.value with
  | .ok value =>
    some { name := QualifiedName.parse (String.ofList attr.key), value := String.ofList value }
  | .error _ => none

/-- The element of a start tag. -/
def readElement? (tag : List Char) : Option Element := do
  let (written, fault) := Tag.attributes tag
  let attributes ← written.mapM readAttribute?
  if fault.isSome then none
  else some { Element.named (String.ofList (Tag.name tag)) with attributes }

/-- The character that a reference in a text stands for. -/
def resolve? (name : List Char) : Option Char :=
  match name with
  | '#' :: number => (Reference.character number).toOption
  | name => Reference.predefined? name

/-- Reads one event. -/
def step (event : Event) (draft : Draft) : Option Draft :=
  match event with
  | .startTag tag =>
    (readElement? tag).map fun element =>
      { opened := ⟨Tag.name tag, element, draft.children⟩ :: draft.opened }
  | .emptyTag tag => (readElement? tag).map fun element => draft.addLeaf (.element element)
  | .endTag tag =>
    match draft.opened with
    | [] => none
    | innermost :: outer =>
      if innermost.name = Tag.closingName tag then
        some {
          children := innermost.before ++ [.node (.element innermost.element) draft.children]
          opened := outer }
      else none
  | .text content => some (draft.addText (String.ofList content))
  | .reference name => (resolve? name).map fun c => draft.addText (String.singleton c)
  | .comment content => some (draft.addLeaf (.comment (String.ofList content)))
  | .cdata content => some (draft.addLeaf (.cdata (String.ofList content)))
  | .instruction content => some (draft.addLeaf (.instruction (String.ofList content)))
  | .declaration content => some (draft.addLeaf (Reading.readDeclaration content))
  | .doctype _ content => some (draft.addLeaf (.doctype (String.ofList (trim content))))

/-- Reads events in order. -/
def run (draft : Draft) (events : List Event) : Option Draft :=
  events.foldlM (fun draft event => draft.step event) draft

/-- Reads a text to its end. -/
def read (draft : Draft) (s : List Char) : Option Draft :=
  match Event.scan s with
  | (events, none) => draft.run events
  | (_, some _) => none

/-- The trees of a complete text. -/
def trees? (s : List Char) : Option (List Tree) := do
  let draft ← ({} : Draft).read s
  if draft.opened.isEmpty then some draft.children else none

/-! ## Text behind text -/

section

variable {draft : Draft}

theorem addText_of_text {front below : List Tree} {existing : String}
    (h : draft.children = front ++ [.node (.text existing) below]) (content : String) :
    draft.addText content =
      { draft with children := front ++ [.node (.text (existing ++ content)) below] } := by
  unfold addText
  simp [h]

theorem addText_of_not_text
    (h : ∀ existing below, draft.children.getLast? ≠ some (.node (.text existing) below))
    (content : String) : draft.addText content = draft.addLeaf (.text content) := by
  unfold addText
  split
  next existing below heq => exact absurd heq (h existing below)
  next => rfl

/-- The last node of a draft is text, or it is not. -/
theorem text_or_not (draft : Draft) :
    (∃ front existing below, draft.children = front ++ [.node (.text existing) below]) ∨
      ∀ existing below, draft.children.getLast? ≠ some (.node (.text existing) below) := by
  by_cases h : ∃ existing below, draft.children.getLast? = some (.node (.text existing) below)
  · obtain ⟨existing, below, hlast⟩ := h
    obtain ⟨front, hfront⟩ := List.getLast?_eq_some_iff.mp hlast
    exact .inl ⟨front, existing, below, hfront⟩
  · exact .inr fun existing below hlast => h ⟨existing, below, hlast⟩

theorem addText_addText (draft : Draft) (first second : String) :
    (draft.addText first).addText second = draft.addText (first ++ second) := by
  rcases draft.text_or_not with ⟨front, existing, below, h⟩ | h
  · rw [addText_of_text h, addText_of_text h, addText_of_text rfl, String.append_assoc]
  · rw [addText_of_not_text h, addText_of_not_text h]
    exact addText_of_text rfl second

end

/-! ## Reading event by event -/

variable {draft : Draft} {s rest : List Char} {event : Event}

@[simp] theorem read_nil : draft.read [] = some draft := by
  unfold read
  rfl

theorem read_of_read (h : Event.read s = .ok (event, rest)) (hs : s ≠ []) :
    draft.read s = (draft.step event).bind (·.read rest) := by
  unfold read
  rw [Event.scan_of_read h hs]
  rcases hscan : Event.scan rest with ⟨events, _ | fault⟩
  · rfl
  · simp

theorem read_of_read_error {fault : Event.Fault} (h : Event.read s = .error fault) (hs : s ≠ []) :
    draft.read s = none := by
  unfold read
  rw [Event.scan_of_read_error h hs]

end Draft

end PageTemplate.Markup
