import Mathlib.Data.List.DropRight
import PageTemplate.Markup.Location
import PageTemplate.Proofs.Text.Cutting

/-! # Places counted out

The place behind a text is found by going through its characters. Its line is one more than the
number of line ends, and its column one more than the number of bytes behind the last of them. A
place behind more of a text comes later.
-/

namespace PageTemplate.Markup.Location

open Text

variable {place place' place'' : Location} {s t : List Char}

/-- The place behind a text, counted in lines and in bytes of the last line. -/
def behind (text : List Char) : Location :=
  ⟨1 + text.count '\n', 1 + byteLength (text.rtakeWhile (· ≠ '\n'))⟩

/-- The place comes before another one: on an earlier line, or farther to the left. -/
def Before (place other : Location) : Prop :=
  place.line < other.line ∨ place.line = other.line ∧ place.column < other.column

theorem after_eq_behind (text : List Char) : after text = behind text := by
  induction text using List.reverseRecOn with
  | nil => rfl
  | append_singleton text c ih =>
      rw [after_append_singleton, ih]
      unfold advance behind
      rw [List.count_append, List.rtakeWhile_concat]
      by_cases hline : c = '\n'
      · subst hline
        rfl
      · have hbyte : byteLength [c] = c.utf8Size := rfl
        simp [hline, byteLength_append, hbyte, Nat.add_assoc]

/-- The place of a byte of a text is the place behind what comes before the byte. -/
theorem ofOffset_byteLength (s t : List Char) : ofOffset (s ++ t) (byteLength s) = behind s := by
  rw [ofOffset, takeBytes_byteLength_append, after_eq_behind]

theorem Before.trans (h : place.Before place') (h' : place'.Before place'') :
    place.Before place'' := by
  unfold Before at *
  omega

theorem before_advance (place : Location) (c : Char) : place.Before (place.advance c) := by
  unfold Before advance
  split
  · exact .inl (Nat.lt_succ_self _)
  · exact .inr ⟨rfl, Nat.lt_add_of_pos_right c.utf8Size_pos⟩

theorem before_foldl_advance (place : Location) (ht : t ≠ []) :
    place.Before (t.foldl advance place) := by
  induction t generalizing place with
  | nil => exact absurd rfl ht
  | cons c t ih =>
      by_cases hrest : t = []
      · subst hrest
        exact before_advance place c
      · exact (before_advance place c).trans (ih _ hrest)

/-- More text ends at a later place. -/
theorem before_behind_append (s : List Char) (ht : t ≠ []) :
    (behind s).Before (behind (s ++ t)) := by
  rw [← after_eq_behind, ← after_eq_behind]
  unfold after
  rw [List.foldl_append]
  exact before_foldl_advance _ ht

end PageTemplate.Markup.Location
