import PageTemplate.Render.Context

/-! # Slots

The place where a macro is used gives elements to fill the slots of the macro with. An element
fills the first slot of its name, once; a slot for which there is no element keeps what it has.
-/

namespace PageTemplate.Slots

open Markup

/-- The elements to fill slots with, by the name of the slot. -/
abbrev Fillers := List (String × NodeId)

variable (v : Vocabularies)

/-- The name of the slot that an element fills. -/
def fills? (d : Document) (element : NodeId) : Option String :=
  (d.findAttribute? element v.fillSlot).map fun attr => Text.trimmed attr.value

/-- The name of the slot that an element is. -/
def slotName? (d : Document) (element : NodeId) : Option String :=
  (d.findAttribute? element v.defineSlot).map fun attr => Text.trimmed attr.value

/-- Adds the elements below `node` that fill slots, followed `fuel` levels deep. What lies inside
another use of a macro belongs to that use; of two elements for one slot the first counts. -/
def collectTo (d : Document) : Nat → Fillers → NodeId → Fillers
  | 0, fillers, _ => fillers
  | fuel + 1, fillers, node =>
    (d.childElements node).foldl (fun fillers child =>
      let fillers := match fills? v d child with
        | some name => Keyed.insertNew name child fillers
        | none => fillers
      if d.hasAttribute child v.useMacro then fillers else collectTo d fuel fillers child) fillers

/-- The elements below `node` that fill slots. -/
def collect (d : Document) (node : NodeId) : Fillers := collectTo v d d.size [] node

/-- Puts a copy of `filler` where `slot` stands. The copy fills what the slot itself fills, if
anything: that is how a slot is handed on to the macro that is being extended. -/
def fillOne (d : Document) (slot filler : NodeId) : Document :=
  let (d, copy) := d.deepCopy filler
  match (Document.insertBefore slot copy).run d with
  | (.error _, d) => d
  | (.ok (), d) =>
    let d := (d.removeAttributeBySpec copy v.fillSlot).1
    let d := match d.findAttribute? slot v.fillSlot with
      | some attr => d.updateElement copy (Element.set (QualifiedName.parse attr.name.text) attr.value)
      | none => d
    d.detach slot

/-- A document in which slots are being filled, the elements that are left to fill slots with,
and the number of slots filled. -/
structure Filling where
  document : Document
  fillers : Fillers
  filled : Nat := 0

/-- Fills the slots below `node`, followed `fuel` levels deep. What has been put into a slot is
left as it is. -/
def fillTo : Nat → Filling → NodeId → Filling
  | 0, filling, _ => filling
  | fuel + 1, filling, node =>
    (filling.document.childElements node).foldl (fun filling child =>
      let name := slotName? v filling.document child
      match name, name.bind (filling.fillers.lookup ·) with
      | some name, some filler =>
        { document := fillOne v filling.document child filler
          fillers := Keyed.erase name filling.fillers
          filled := filling.filled + 1 }
      | _, _ => fillTo fuel filling child) filling

/-- Fills the slots below `node`. -/
def fill (d : Document) (node : NodeId) (fillers : Fillers) : Filling :=
  fillTo v d.size { document := d, fillers } node

end PageTemplate.Slots
