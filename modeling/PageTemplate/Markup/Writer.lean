import PageTemplate.Markup.Document

/-! # Writing a document

A tree is written as markup that reads back as the same tree: characters that would end a text
or an attribute value are written as references. An element without children is an empty tag.
-/

namespace PageTemplate.Markup

/-- The reference for a character that text may not hold as it is. -/
def escapeTextChar (c : Char) : List Char :=
  match c with
  | '<' => "&lt;".toList
  | '>' => "&gt;".toList
  | '&' => "&amp;".toList
  | c => [c]

/-- The reference for a character that an attribute value may not hold as it is, whichever
quotes stand around the value. -/
def escapeValueChar (c : Char) : List Char :=
  match c with
  | '\'' => "&apos;".toList
  | '"' => "&quot;".toList
  | c => escapeTextChar c

def escapeText (s : String) : String := String.ofList (s.toList.flatMap escapeTextChar)

def escapeValue (s : String) : String := String.ofList (s.toList.flatMap escapeValueChar)

/-- An attribute with the blank before it. -/
def Attribute.write (attr : Attribute) : String :=
  " " ++ attr.name.text ++ "=\"" ++ escapeValue attr.value ++ "\""

/-- An optional attribute of the XML declaration. Its value is written as it is. -/
def writeDeclared (name : String) : Option String → String
  | some value => " " ++ name ++ "=\"" ++ value ++ "\""
  | none => ""

namespace NodeKind

/-- The name and attributes inside a start tag. -/
def writeTag (element : Element) : String :=
  element.name.text ++ String.join (element.attributes.map Attribute.write)

/-- A node around the markup of its children, of which `isEmpty` says that there are none. A
`label` replaces the encoding that an XML declaration names. -/
def write (label : Option String) (isEmpty : Bool) (inner : String) : NodeKind → String
  | .root => inner
  | .element e =>
    if isEmpty then "<" ++ writeTag e ++ "/>"
    else "<" ++ writeTag e ++ ">" ++ inner ++ "</" ++ e.name.text ++ ">"
  | .text content => escapeText content
  | .cdata content => "<![CDATA[" ++ content ++ "]]>"
  | .comment content => "<!--" ++ content ++ "-->"
  | .instruction content => "<?" ++ content ++ "?>"
  | .declaration version encoding standalone =>
    "<?xml version=\"" ++ version ++ "\"" ++ writeDeclared "encoding" (label <|> encoding) ++
      writeDeclared "standalone" standalone ++ "?>"
  | .doctype content => "<!DOCTYPE " ++ content ++ ">"

end NodeKind

mutual
/-- The markup of a tree. -/
def Tree.write (label : Option String) : Tree → String
  | .node kind children => kind.write label children.isEmpty (Tree.writeAll label children)
/-- The markup of several trees, one after the other. -/
def Tree.writeAll (label : Option String) : List Tree → String
  | [] => ""
  | tree :: trees => tree.write label ++ Tree.writeAll label trees
end

namespace Document

/-- The markup of a node with everything below it. -/
def writeNode (d : Document) (id : NodeId) : String := (d.tree id).write none

/-- The markup of the whole document, its declarations naming `label` if there is one. -/
def writeLabelled (d : Document) (label : Option String) : String := (d.tree root).write label

/-- The markup of the whole document. -/
def write (d : Document) : String := d.writeLabelled none

end Document

end PageTemplate.Markup
