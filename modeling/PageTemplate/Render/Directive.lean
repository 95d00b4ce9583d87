import PageTemplate.Expression.Basic
import PageTemplate.Text.Blank
import PageTemplate.Text.Split

/-! # The values of directives

Lists of definitions and of attributes are separated by semicolons, and a doubled semicolon is a
semicolon. An item is a name and an expression with blanks between them; before it, or before
the expression of a content directive, a keyword may stand.
-/

namespace PageTemplate.Directive

open Text

/-- The items of a list as they stand between single semicolons: the first, and the others. -/
def splitAll : List Char → List Char × List (List Char)
  | [] => ([], [])
  | ';' :: ';' :: rest =>
    let (item, items) := splitAll rest
    (';' :: item, items)
  | ';' :: rest =>
    let (item, items) := splitAll rest
    ([], item :: items)
  | c :: rest =>
    let (item, items) := splitAll rest
    (c :: item, items)

/-- The items of a list, blanks around them and empty items left out. -/
def splitItems (value : String) : List String :=
  let (item, items) := splitAll value.toList
  (((item :: items).map trim).filter (!·.isEmpty)).map String.ofList

/-- Reads a keyword and at least one blank at the start of a text. -/
def stripKeyword? (keyword : String) (s : List Char) : Option (List Char) :=
  match strip? keyword.toList s with
  | some (c :: rest) => if isMarkupBlank c then some (rest.dropWhile isMarkupBlank) else none
  | _ => none

/-- Reads a name, blanks, and an expression. The name ends at a blank of any kind, but only the
blanks of markup separate it from the expression. -/
def nameAndExpression (s : List Char) : Except String (String × String) :=
  let text := trim s
  let name := text.takeWhile (!isBlank ·)
  let rest := text.dropWhile (!isBlank ·)
  let expression := trim (rest.dropWhile isMarkupBlank)
  if name.isEmpty || !(rest.head?.any isMarkupBlank) || expression.isEmpty then
    .error ("expected 'name expression', found '" ++ String.ofList text ++ "'")
  else .ok (String.ofList name, String.ofList expression)

/-- A binding that a definition list asks for. A scope may also be written before the name, and
is still part of `target`. -/
structure Definition where
  scope : Option DefinitionScope
  target : String
  expression : String
deriving DecidableEq, Repr

/-- Reads one item of a definition list. -/
def readDefinition (item : String) : Except String Definition := do
  let text := trim item.toList
  let (scope, rest) := match stripKeyword? "local" text, stripKeyword? "global" text with
    | some rest, _ => (some DefinitionScope.localScope, rest)
    | none, some rest => (some DefinitionScope.globalScope, rest)
    | none, none => (none, text)
  let (target, expression) ← nameAndExpression rest
  return { scope, target, expression }

/-- Reads the name and the expression of a repetition. -/
def readRepeat (value : String) : Except String (String × String) :=
  nameAndExpression value.toList

/-- Reads one item of a list of attributes. The name has at most one colon, and not at its
ends. -/
def readAssignment (item : String) : Except String (String × String) := do
  let (name, expression) ← nameAndExpression item.toList
  let chars := name.toList
  if chars.head? = some ':' || chars.getLast? = some ':' || chars.count ':' > 1 then
    throw s!"'{name}' is not a valid attribute name"
  return (name, expression)

/-- How a value becomes content. -/
inductive ContentMode where
  /-- As text, in which nothing is markup. -/
  | text
  /-- As markup. -/
  | markup
deriving DecidableEq, Repr

/-- Reads the mode and the expression of a content directive. -/
def readContent (value : String) : Except String (ContentMode × String) :=
  let text := trim value.toList
  let (mode, rest) := match stripKeyword? "text" text, stripKeyword? "structure" text with
    | some rest, _ => (ContentMode.text, rest)
    | none, some rest => (ContentMode.markup, rest)
    | none, none => (ContentMode.text, text)
  let expression := trim rest
  if expression.isEmpty then .error "missing expression"
  else .ok (mode, String.ofList expression)

end PageTemplate.Directive
