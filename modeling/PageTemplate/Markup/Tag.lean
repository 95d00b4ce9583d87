import PageTemplate.Text.Blank
import PageTemplate.Text.Split

/-! # Inside a tag

The text of a tag, angle brackets and closing slash left out, is a name up to the first blank
and then attributes. Offsets in faults count bytes from the start of the name.
-/

namespace PageTemplate.Markup.Tag

open Text

/-- Why the attributes of a tag could not be read. -/
inductive Fault where
  | noEquals (offset : Nat)
  | duplicate (offset previous : Nat)
  | noValue (offset : Nat)
  | unquoted (offset : Nat)
  | unclosed (offset : Nat) (quote : Char)
deriving DecidableEq, Repr

def Fault.message : Fault → String
  | .noEquals offset =>
    s!"position {offset}: attribute key must be directly followed by `=` or space"
  | .duplicate offset previous =>
    s!"position {offset}: duplicated attribute, previous declaration at position {previous}"
  | .noValue offset => s!"position {offset}: `=` must be followed by an attribute value"
  | .unquoted offset => s!"position {offset}: attribute value must be enclosed in `\"` or `'`"
  | .unclosed offset quote =>
    s!"position {offset}: missing closing quote `{quote}` in attribute value"

/-- An attribute as it is written, references unresolved. -/
structure RawAttribute where
  key : List Char
  value : List Char
deriving DecidableEq, Repr

/-- The name at the start of a tag. -/
def name (tag : List Char) : List Char := tag.takeWhile (!isMarkupBlank ·)

/-- The name in an end tag: its text without the blanks at the end. A text of blanks only is a
name as it stands. -/
def closingName (tag : List Char) : List Char :=
  if tag.all isMarkupBlank then tag else (tag.reverse.dropWhile isMarkupBlank).reverse

/-- A character that an attribute's key runs over. -/
def isKeyChar (c : Char) : Bool := c != '=' && !isMarkupBlank c

/-- Reads attributes up to the first fault. A key is at least one character, whichever it is.
`total` is the length of the tag, `seen` lists the keys before with their offsets; without a
list the keys may repeat. -/
def readAttributes (total : Nat) (seen : Option (List (List Char × Nat))) (s : List Char) :
    List RawAttribute × Option Fault :=
  match _hkey : s.dropWhile isMarkupBlank with
  | [] => ([], none)
  | first :: rest =>
    let offset := total - byteLength (first :: rest)
    let key := first :: rest.takeWhile isKeyChar
    match _hequals : (rest.dropWhile isKeyChar).dropWhile isMarkupBlank with
    | '=' :: beforeValue =>
      match seen.bind (·.lookup key) with
      | some previous => ([], some (.duplicate offset previous))
      | none =>
        match _hquote : beforeValue.dropWhile isMarkupBlank with
        | [] => ([], some (.noValue total))
        | quote :: body =>
          if quote = '"' ∨ quote = '\'' then
            match _hvalue : splitAt? (· == quote) body with
            | none => ([], some (.unclosed total quote))
            | some (value, after) =>
              let (more, fault) := readAttributes total (seen.map ((key, offset) :: ·)) after
              (⟨key, value⟩ :: more, fault)
          else ([], some (.unquoted (total - byteLength (quote :: body))))
    | other => ([], some (.noEquals (total - byteLength other)))
termination_by s.length
decreasing_by
  have h1 := (List.dropWhile_suffix (l := s) isMarkupBlank).length_le
  have h2 := (List.dropWhile_suffix (l := rest) isKeyChar).length_le
  have h3 := (List.dropWhile_suffix (l := rest.dropWhile isKeyChar) isMarkupBlank).length_le
  have h4 := (List.dropWhile_suffix (l := beforeValue) isMarkupBlank).length_le
  have h5 := splitAt?_length _hvalue
  rw [_hkey] at h1
  rw [_hequals] at h3
  rw [_hquote] at h4
  simp only [List.length_cons] at h1 h3 h4
  omega

/-- The attributes of a tag up to the first fault; a repeated key is a fault. -/
def attributes (tag : List Char) : List RawAttribute × Option Fault :=
  readAttributes (byteLength tag) (some []) (tag.dropWhile (!isMarkupBlank ·))

/-- The attributes of a tag up to the first fault, repeated keys included. -/
def looseAttributes (tag : List Char) : List RawAttribute × Option Fault :=
  readAttributes (byteLength tag) none (tag.dropWhile (!isMarkupBlank ·))

end PageTemplate.Markup.Tag
