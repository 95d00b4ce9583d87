/-! # Doubled marks

Where a character has a meaning of its own, a text is written with that character doubled, so that
it stands for itself.
-/

namespace PageTemplate.Text

/-- The text with the mark written twice wherever it stands. -/
def doubled (mark : Char) : List Char → List Char
  | [] => []
  | c :: s => if c = mark then mark :: mark :: doubled mark s else c :: doubled mark s

@[simp] theorem doubled_nil (mark : Char) : doubled mark [] = [] := rfl

@[simp] theorem doubled_cons_self (mark : Char) (s : List Char) :
    doubled mark (mark :: s) = mark :: mark :: doubled mark s := by
  simp [doubled]

@[simp] theorem doubled_cons_of_ne {mark c : Char} (h : c ≠ mark) (s : List Char) :
    doubled mark (c :: s) = c :: doubled mark s := by
  simp [doubled, h]

end PageTemplate.Text
