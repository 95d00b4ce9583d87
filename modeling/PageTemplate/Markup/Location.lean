import PageTemplate.Text.Split

/-! # Places in the source text

A place is a line and a column, both counted from one. Columns count bytes, so a character
beyond ASCII moves the column by more than one.
-/

namespace PageTemplate.Markup

/-- A line and a column, both counted from one. -/
structure Location where
  line : Nat
  column : Nat
deriving DecidableEq, Repr

namespace Location

/-- The place of the first character of a text. -/
def start : Location := ⟨1, 1⟩

/-- The place right after a character at this place. -/
def advance (place : Location) (c : Char) : Location :=
  if c = '\n' then ⟨place.line + 1, 1⟩ else ⟨place.line, place.column + c.utf8Size⟩

/-- The place right after a text that begins at the start. -/
def after (text : List Char) : Location := text.foldl advance start

/-- The place of the byte `offset` of a text. A byte within a character counts as the place of that
character; a reader that cuts the text at its offsets would fail there instead. Offsets come to lie
within characters only behind a byte order mark, which they do not count and the text still has. -/
def ofOffset (text : List Char) (offset : Nat) : Location :=
  after (Text.takeBytes offset text)

/-- The place as messages show it. -/
def text (place : Location) : String := s!"line {place.line}, column {place.column}"

theorem after_append_singleton (text : List Char) (c : Char) :
    after (text ++ [c]) = (after text).advance c := by
  simp [after]

end Location

end PageTemplate.Markup
