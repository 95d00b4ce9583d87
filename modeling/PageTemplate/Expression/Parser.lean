import PageTemplate.Expression.Basic
import PageTemplate.Expression.Error
import PageTemplate.Text.Alphanumeric
import PageTemplate.Text.Blank
import PageTemplate.Text.Split

/-! # Reading expressions

A path is split at bars into alternates and at slashes into segments, until a segment begins
with a module name and a colon: what follows is the argument of the module, whatever characters
it holds. A string expression is text in which a dollar sign begins a path; a doubled dollar
sign is a dollar sign.
-/

namespace PageTemplate

open Text

/-- The error for a text that is no expression. -/
private def malformed {α : Type} (expression : List Char) (message : String) :
    Except ExpressionError α :=
  .error (.malformed (String.ofList expression) message)

/-- Reads a scope at the start of a text. -/
def DefinitionScope.strip (s : List Char) : Option DefinitionScope × List Char :=
  match strip? "local:".toList s, strip? "global:".toList s with
  | some rest, _ => (some .localScope, rest)
  | none, some rest => (some .globalScope, rest)
  | none, none => (none, s)

/-! ## Paths -/

/-- A character of a module name. -/
def isModuleChar (c : Char) : Bool := c.isAlphanum || c == '_' || c == '-'

/-- A character of a segment that is no operation. -/
def isSegmentChar (c : Char) : Bool := c != '/' && c != '|'

namespace Segment

/-- A segment as it is written, before its name is looked at. -/
inductive Raw where
  | name (text : List Char)
  | operation (module argument : List Char)
deriving DecidableEq, Repr

/-- Reads a module name, a colon and the argument, which is everything that follows. -/
def operation? (s : List Char) : Option (List Char × List Char) :=
  match s.takeWhile isModuleChar, s.dropWhile isModuleChar with
  | c :: module, ':' :: argument => some (c :: module, argument)
  | _, _ => none

/-- Splits a text into the segments of its first alternate and those of the others. -/
def splitAll (s : List Char) : List Raw × List (List Raw) :=
  let body := s.dropWhile isMarkupBlank
  match operation? body with
  | some (module, argument) => ([.operation module argument], [])
  | none =>
    let word := body.takeWhile isSegmentChar
    match _hrest : body.dropWhile isSegmentChar with
    | [] => ([.name word], [])
    | c :: rest =>
      let (first, others) := splitAll rest
      if c = '/' then (.name word :: first, others) else ([.name word], first :: others)
termination_by s.length
decreasing_by
  have h1 := (List.dropWhile_suffix (l := s) isMarkupBlank).length_le
  have h2 := (List.dropWhile_suffix (l := s.dropWhile isMarkupBlank) isSegmentChar).length_le
  rw [_hrest] at h2
  simp only [List.length_cons] at h2
  omega

/-- The segment that is written. A segment that `starts` an alternate is no dynamic one. -/
def ofRaw (starts : Bool) : Raw → Except String Segment
  | .operation module argument => .ok (.operation (String.ofList module) (String.ofList argument))
  | .name text =>
    match trim text with
    | [] => .error "empty path segment"
    | '?' :: word =>
      if starts then .error "a dynamic segment cannot start an alternate"
      else if word.isEmpty then .error "dynamic segment has no name"
      else .ok (.dynamic (String.ofList word))
    | word => .ok (.name (String.ofList word))

/-- The segments of one alternate. -/
def ofRaws : List Raw → Except String (List Segment)
  | [] => .ok []
  | raw :: raws => do return (← ofRaw true raw) :: (← raws.mapM (ofRaw false))

end Segment

/-- Reads a path, blanks around it left aside. -/
def Path.parseChars (input : List Char) : Except ExpressionError Path :=
  let text := trim input
  let (scope, body) := DefinitionScope.strip text
  if (trim body).isEmpty then malformed text "empty path expression"
  else
    let (first, others) := Segment.splitAll body
    match (first :: others).mapM Segment.ofRaws with
    | .ok alternates => .ok { text := String.ofList text, scope, alternates }
    | .error message => malformed text message

/-- Reads a path, blanks around it left aside. -/
def Path.parse (input : String) : Except ExpressionError Path := Path.parseChars input.toList

/-! ## String expressions -/

/-- A character of a path that is written right behind a dollar sign. -/
def isShortPathChar (c : Char) : Bool := isAlphanumeric c || c == '_' || c == '/'

namespace StringPart

/-- A stretch as it is written, before its path is read. -/
inductive Raw where
  | literal (text : List Char)
  | substitution (path : List Char)
deriving DecidableEq, Repr

/-- Puts a character in front of the stretches, into the first one when it is literal. -/
def addChar (c : Char) : List Raw → List Raw
  | .literal text :: parts => .literal (c :: text) :: parts
  | parts => .literal [c] :: parts

/-- Splits a text into literal stretches, no two of them side by side, and paths. There is no
answer when an opening brace behind a dollar sign is not closed. -/
def splitAll (s : List Char) : Option (List Raw) :=
  match s with
  | [] => some []
  | '$' :: '$' :: rest => (splitAll rest).map (addChar '$')
  | '$' :: '\x7b' :: rest =>
    match _hclose : splitAt? (· == '\x7d') rest with
    | some (path, after) => (splitAll after).map (.substitution path :: ·)
    | none => none
  | '$' :: rest =>
    if (rest.takeWhile isShortPathChar).isEmpty then (splitAll rest).map (addChar '$')
    else (splitAll (rest.dropWhile isShortPathChar)).map
      (.substitution (rest.takeWhile isShortPathChar) :: ·)
  | c :: rest => (splitAll rest).map (addChar c)
termination_by s.length
decreasing_by
  · simp only [List.length_cons]; omega
  · have h := splitAt?_length _hclose
    simp only [List.length_cons]
    omega
  · simp only [List.length_cons]; omega
  · have h := (List.dropWhile_suffix (l := rest) isShortPathChar).length_le
    simp only [List.length_cons]
    omega
  · simp only [List.length_cons]; omega

/-- The stretch that is written. -/
def ofRaw : Raw → Except ExpressionError StringPart
  | .literal text => .ok (.literal (String.ofList text))
  | .substitution path => (Path.parseChars path).map .substitution

/-- Reads a string expression. That every brace is closed is checked before any path is read. -/
def parseChars (input : List Char) : Except ExpressionError (List StringPart) :=
  match splitAll input with
  | some parts => parts.mapM ofRaw
  | none => malformed input "Parsing Failure: Error \x7b input: \"\", code: Char \x7d"

/-- Reads a string expression. -/
def parse (input : String) : Except ExpressionError (List StringPart) := parseChars input.toList

end StringPart

/-! ## Expressions of directives -/

namespace Expression

/-- The operators that an expression may begin with. -/
inductive Operator where
  | string
  | path
  | negation
  | existence
deriving DecidableEq, Repr

/-- Reads an operator with its colon at the start of a text. -/
def Operator.strip? (s : List Char) : Option (Operator × List Char) :=
  let candidates : List (Operator × String) :=
    [(.string, "string:"), (.path, "path:"), (.negation, "not:"), (.existence, "exists:")]
  candidates.findSome? fun (operator, word) =>
    (Text.strip? word.toList s).map fun rest => (operator, rest)

theorem Operator.length_of_strip? {s rest : List Char} {operator : Operator}
    (hstrip : Operator.strip? s = some (operator, rest)) : rest.length < s.length := by
  simp only [Operator.strip?, List.findSome?_eq_some_iff] at hstrip
  obtain ⟨before, ⟨candidate, word⟩, after, hcandidates, hfound, -⟩ := hstrip
  obtain ⟨rest, hrest, hpair⟩ := Option.map_eq_some_iff.mp hfound
  simp only [Prod.mk.injEq] at hpair
  obtain ⟨rfl, rfl⟩ := hpair
  have hword : word ∈ ["string:", "path:", "not:", "exists:"] := by
    have hmem : (candidate, word) ∈ before ++ (candidate, word) :: after := by simp
    rw [← hcandidates] at hmem
    simp only [List.mem_cons, Prod.mk.injEq, List.not_mem_nil, or_false] at hmem ⊢
    rcases hmem with ⟨-, h⟩ | ⟨-, h⟩ | ⟨-, h⟩ | ⟨-, h⟩ <;> simp [h]
  rw [eq_append_of_strip? hrest, List.length_append]
  have hpositive : 0 < word.toList.length := by
    simp only [List.mem_cons, List.not_mem_nil, or_false] at hword
    rcases hword with rfl | rfl | rfl | rfl <;> decide
  dsimp only
  omega

/-- Reads an expression, blanks before it left aside. Without an operator it is a path. -/
def parseChars (input : List Char) : Except ExpressionError Expression :=
  match _hoperator : Operator.strip? (trimStart input) with
  | some (.string, rest) => (StringPart.parseChars rest).map .string
  | some (.negation, rest) => (parseChars rest).map .negation
  | some (.existence, rest) => (Path.parseChars rest).map .existence
  | some (.path, rest) => (Path.parseChars rest).map .path
  | none => (Path.parseChars (trimStart input)).map .path
termination_by input.length
decreasing_by
  have h1 := Operator.length_of_strip? _hoperator
  have h2 := trimStart_length_le input
  omega

/-- Reads an expression, blanks before it left aside. -/
def parse (input : String) : Except ExpressionError Expression := parseChars input.toList

end Expression

/-- Reads the name that a definition binds, with its scope if one is written. -/
def parseDefinitionTarget (input : String) :
    Except ExpressionError (Option DefinitionScope × String) :=
  let text := trim input.toList
  let (scope, name) := DefinitionScope.strip text
  if name.isEmpty || name.any isBlank then malformed text "expected a single variable name"
  else .ok (scope, String.ofList name)

end PageTemplate
