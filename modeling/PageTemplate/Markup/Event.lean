import PageTemplate.Text.Blank
import PageTemplate.Text.Split

/-! # The events of markup text

Markup is a sequence of events: tags, text, references, comments and so on. An event keeps the
text between its delimiters as it is written, so an event can be written back exactly.
-/

namespace PageTemplate.Markup

open Text

/-- A stretch of markup that is read at once. -/
inductive Event where
  | startTag (tag : List Char)
  | emptyTag (tag : List Char)
  | endTag (tag : List Char)
  | text (content : List Char)
  | reference (name : List Char)
  | comment (content : List Char)
  | cdata (content : List Char)
  | instruction (content : List Char)
  /-- The XML declaration, from its word `xml` on. -/
  | declaration (content : List Char)
  /-- A document type, with its keyword in the case it is written in. -/
  | doctype (keyword content : List Char)
deriving DecidableEq, Repr

namespace Event

/-- The constructs that begin with an angle bracket and have to be closed. -/
inductive Construct where
  | comment
  | cdata
  | doctype
  | instruction
  | declaration
  | tag
  | attributeValue (quote : Char)
deriving DecidableEq, Repr

/-- Why no event could be read. -/
inductive Fault where
  | unknownMarkup
  | unclosed (what : Construct)
  | openReference
  | namelessDoctype
deriving DecidableEq, Repr

def Fault.message : Fault → String
  | .unknownMarkup => "syntax error: unknown or missed symbol in markup"
  | .unclosed what =>
    let (name, ending) := match what with
      | .comment => ("comment", "-->")
      | .cdata => ("CDATA", "]]>")
      | .doctype => ("DOCTYPE", ">")
      | .instruction => ("processing instruction", "?>")
      | .declaration => ("XML declaration", "?>")
      | .tag => ("tag", ">")
      | .attributeValue quote => ("attribute value", String.singleton quote)
    s!"syntax error: {name} not closed: `{ending}` not found before end of input"
  | .openReference =>
    "ill-formed document: entity or character reference not closed: `;` not found before end of input"
  | .namelessDoctype =>
    "ill-formed document: `<!DOCTYPE>` declaration does not contain a name of a document type"

/-- The text that an event is read from. -/
def source : Event → List Char
  | .startTag tag => '<' :: tag ++ ['>']
  | .emptyTag tag => '<' :: tag ++ ['/', '>']
  | .endTag tag => '<' :: '/' :: tag ++ ['>']
  | .text content => content
  | .reference name => '&' :: name ++ [';']
  | .comment content => "<!--".toList ++ content ++ "-->".toList
  | .cdata content => "<![CDATA[".toList ++ content ++ "]]>".toList
  | .instruction content => '<' :: '?' :: content ++ "?>".toList
  | .declaration content => '<' :: '?' :: content ++ "?>".toList
  | .doctype keyword content => '<' :: '!' :: keyword ++ content ++ ['>']

/-- A character of a text event. -/
def isTextChar (c : Char) : Bool := c != '<' && c != '&'

/-- A character that a reference runs over. -/
def isReferenceChar (c : Char) : Bool := c != '<' && c != '&' && c != ';'

/-- The text of a tag up to the first closing bracket outside quotes, and the text after it.
`quote` is the quote that is open. -/
def cutTag (quote : Option Char) : List Char → Except Fault (List Char × List Char)
  | [] =>
    match quote with
    | some q => .error (.unclosed (.attributeValue q))
    | none => .error (.unclosed .tag)
  | c :: rest =>
    match quote with
    | some q => do
      let (tag, after) ← cutTag (if c = q then none else quote) rest
      return (c :: tag, after)
    | none =>
      if c = '>' then .ok ([], rest)
      else do
        let (tag, after) ← cutTag (if c = '"' ∨ c = '\'' then some c else none) rest
        return (c :: tag, after)

/-- Where in a document type the reader stands. -/
inductive DoctypeState where
  | beforeSubset
  | quoted (quote : Char)
  /-- In the internal subset, between its brackets. -/
  | subset
  /-- In a comment of the internal subset; `written` holds what follows its opening angle bracket,
  last character first. -/
  | subsetComment (written : List Char)
  /-- In a processing instruction of the internal subset; `written` is as for a comment. -/
  | subsetInstruction (written : List Char)
  /-- In a declaration whose quotes hide closing brackets. -/
  | subsetDeclaration (quote : Option Char)
  /-- In any other markup of the internal subset. -/
  | subsetMarkup
  /-- Behind the internal subset, where quotes and brackets are characters like any other. -/
  | afterSubset
deriving DecidableEq, Repr

/-- The declarations of the internal subset in which quotes hide closing brackets. -/
def quotedDeclarations : List (List Char) :=
  ["<!ENTITY".toList, "<!ATTLIST".toList, "<!NOTATION".toList]

/-- The state after a character `c` that is followed by `rest`, or `none` when `c` closes the
document type. The opening and the closing of a comment or a processing instruction share no
character, so `<!-->` and `<?>` are only opened. -/
def DoctypeState.next (state : DoctypeState) (c : Char) (rest : List Char) :
    Option DoctypeState :=
  match state with
  | .beforeSubset =>
    if c = '>' then none
    else if c = '"' ∨ c = '\'' then some (.quoted c)
    else if c = '[' then some .subset
    else some .beforeSubset
  | .quoted q => some (if c = q then .beforeSubset else .quoted q)
  | .subset =>
    if c = ']' then some .afterSubset
    else if c ≠ '<' then some .subset
    else if (strip? "!--".toList rest).isSome then some (.subsetComment [])
    else if rest.head? = some '?' then some (.subsetInstruction [])
    else if quotedDeclarations.any fun keyword => (strip? keyword (c :: rest)).isSome then
      some (.subsetDeclaration none)
    else some .subsetMarkup
  | .subsetComment written =>
    if c = '>' ∧ (strip? "--".toList written).isSome ∧ "!----".length ≤ written.length then
      some .subset
    else some (.subsetComment (c :: written))
  | .subsetInstruction written =>
    if c = '>' ∧ written.head? = some '?' ∧ "??".length ≤ written.length then some .subset
    else some (.subsetInstruction (c :: written))
  | .subsetDeclaration (some q) => some (.subsetDeclaration (if c = q then none else some q))
  | .subsetDeclaration none =>
    if c = '>' then some .subset
    else if c = '"' ∨ c = '\'' then some (.subsetDeclaration (some c))
    else some (.subsetDeclaration none)
  | .subsetMarkup => some (if c = '>' then .subset else .subsetMarkup)
  | .afterSubset => if c = '>' then none else some .afterSubset

/-- The text of a document type up to its closing bracket, and the text after it. -/
def cutDoctype (state : DoctypeState) : List Char → Option (List Char × List Char)
  | [] => none
  | c :: rest =>
    match state.next c rest with
    | none => some ([], rest)
    | some state =>
      (cutDoctype state rest).map fun (content, after) => (c :: content, after)

/-- Reads what follows `<!`. -/
def readMarked (s : List Char) : Except Fault (Event × List Char) :=
  match s with
  | '-' :: _ =>
    match (strip? "--".toList s).bind (cutAt? "-->".toList) with
    | some (content, after) => .ok (.comment content, after)
    | none => .error (.unclosed .comment)
  | '[' :: _ =>
    match (strip? "[CDATA[".toList s).bind (cutAt? "]]>".toList) with
    | some (content, after) => .ok (.cdata content, after)
    | none => .error (.unclosed .cdata)
  | c :: _ =>
    if c = 'D' ∨ c = 'd' then
      match cutDoctype .beforeSubset s with
      | none => .error (.unclosed .doctype)
      | some (whole, after) =>
        let (keyword, content) := whole.splitAt 7
        if keyword.map Char.toUpper ≠ "DOCTYPE".toList then .error (.unclosed .doctype)
        else if content.all isMarkupBlank then .error .namelessDoctype
        else .ok (.doctype keyword content, after)
    else .error .unknownMarkup
  | [] => .error .unknownMarkup

/-- The content of a processing instruction is that of the XML declaration. -/
def isDeclaration (content : List Char) : Bool :=
  match strip? "xml".toList content with
  | some [] => true
  | some (c :: _) => isMarkupBlank c
  | none => false

/-- Reads what follows `<?`. A closing bracket right there closes nothing. -/
def readInstruction (s : List Char) : Except Fault (Event × List Char) :=
  if s.head? = some '>' then .error (.unclosed .instruction)
  else
    match cutAt? "?>".toList s with
    | some (content, after) =>
      .ok (if isDeclaration content then .declaration content else .instruction content, after)
    | none =>
      if isDeclaration (s.takeWhile (· != '?')) then .error (.unclosed .declaration)
      else .error (.unclosed .instruction)

/-- Reads the first event of a text that is not empty. -/
def read (s : List Char) : Except Fault (Event × List Char) :=
  match s with
  | '<' :: '!' :: rest => readMarked rest
  | '<' :: '?' :: rest => readInstruction rest
  | '<' :: '/' :: rest => do
    let (tag, after) ← cutTag none rest
    return (.endTag tag, after)
  | '<' :: rest => do
    let (tag, after) ← cutTag none rest
    if tag.getLast? = some '/' then return (.emptyTag tag.dropLast, after)
    else return (.startTag tag, after)
  | '&' :: rest =>
    match rest.dropWhile isReferenceChar with
    | ';' :: after => .ok (.reference (rest.takeWhile isReferenceChar), after)
    | _ => .error .openReference
  | s => .ok (.text (s.takeWhile isTextChar), s.dropWhile isTextChar)

/-- Reads up to `fuel` events. -/
def scanTo : Nat → List Char → List Event × Option Fault
  | 0, _ => ([], none)
  | _ + 1, [] => ([], none)
  | fuel + 1, s =>
    match read s with
    | .error fault => ([], some fault)
    | .ok (event, rest) =>
      let (events, fault) := scanTo fuel rest
      (event :: events, fault)

/-- All events of a text up to the first fault. No event is empty, so there are at most as many
events as characters. -/
def scan (s : List Char) : List Event × Option Fault := scanTo s.length s

end Event

end PageTemplate.Markup
