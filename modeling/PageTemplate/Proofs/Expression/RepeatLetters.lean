import Mathlib.Data.Char
import Mathlib.Data.List.Shortlex
import PageTemplate.Expression.Repetition

/-! # Items counted in letters

The letters of an item are its number in base twenty-six, written with the digits one to twenty-six
and without a zero. Every word of letters is the numeral of exactly one number. Numbers are ordered
as their numerals are: the shorter one comes first, and of two that are equally long the one that
comes first in the alphabet.
-/

namespace PageTemplate.Repetition

variable {value value' : Nat} {c c' : Char} {s t : List Char}

/-- The digit that a letter stands for: one for `a`, twenty-six for `z`. -/
def letterValue (c : Char) : Nat := c.toNat - 'a'.toNat + 1

/-- The number that letters are read as behind others that are read as `value`. The first letter
weighs most. -/
def readLetters (value : Nat) (word : List Char) : Nat :=
  word.foldl (fun value c => 26 * value + letterValue c) value

theorem readLetters_cons (value : Nat) (c : Char) (word : List Char) :
    readLetters value (c :: word) = readLetters (26 * value + letterValue c) word := rfl

/-- The word consists of the letters from `a` to `z`. -/
def IsLetters (word : List Char) : Prop := ∀ c ∈ word, 'a' ≤ c ∧ c ≤ 'z'

/-- Letters are taken off a number, the last one first, until nothing of it is left. They are put
behind those that were collected before, and `all` is what this comes to. -/
inductive CountsDown : Nat → List Char → List Char → Prop where
  | done (all : List Char) : CountsDown 0 all all
  | turn {n : Nat} {collected all : List Char} (hn : 0 < n)
    (hrest : CountsDown ((n - 1) / 26)
      (collected ++ [Char.ofNat ('a'.toNat + (n - 1) % 26)]) all) : CountsDown n collected all

/-! ## The letters of a number -/

/-- The count comes to its end, whatever the number is. -/
theorem countsDown_letterDigits (n : Nat) (collected : List Char) :
    CountsDown n collected (collected ++ letterDigits n) := by
  induction n using Nat.strongRecOn generalizing collected with
  | _ n ih =>
      unfold letterDigits
      split
      next hn =>
        rw [hn, List.append_nil]
        exact .done collected
      next hn =>
        rw [List.append_cons]
        exact .turn (Nat.pos_of_ne_zero hn) (ih ((n - 1) / 26) (by omega) _)

theorem toNat_letter {digit : Nat} (h : digit < 26) :
    (Char.ofNat ('a'.toNat + digit)).toNat = 'a'.toNat + digit := by
  revert digit
  decide

theorem isLetters_letterDigits (n : Nat) : IsLetters (letterDigits n) := by
  induction n using Nat.strongRecOn with
  | _ n ih =>
      unfold letterDigits
      split
      next => exact nofun
      next hn =>
        refine List.forall_mem_cons.mpr ⟨?_, ih ((n - 1) / 26) (by omega)⟩
        have hletter := toNat_letter (Nat.mod_lt (n - 1) (show 0 < 26 by decide))
        have hz : 'z'.toNat = 'a'.toNat + 25 := rfl
        simp only [Char.le_def, UInt32.le_iff_toNat_le, Char.toNat_val]
        omega

/-- What is read is the number that was written. -/
theorem readLetters_letterDigits (n : Nat) : readLetters 0 (letterDigits n).reverse = n := by
  induction n using Nat.strongRecOn with
  | _ n ih =>
      unfold letterDigits
      split
      next hn => exact hn.symm
      next hn =>
        have hrest := ih ((n - 1) / 26) (by omega)
        have hletter := toNat_letter (Nat.mod_lt (n - 1) (show 0 < 26 by decide))
        unfold readLetters at hrest ⊢
        rw [List.reverse_cons, List.foldl_append, hrest]
        simp only [List.foldl_cons, List.foldl_nil, letterValue, hletter]
        omega

/-! ## The order of numerals -/

theorem letterValue_le (h : c ≤ 'z') : letterValue c ≤ 26 := by
  have hz : 'z'.toNat = 'a'.toNat + 25 := rfl
  simp only [Char.le_def, UInt32.le_iff_toNat_le, Char.toNat_val] at h
  unfold letterValue
  omega

theorem letterValue_lt (hc : 'a' ≤ c) (h : c < c') : letterValue c < letterValue c' := by
  simp only [Char.le_def, Char.lt_def, UInt32.le_iff_toNat_le, UInt32.lt_iff_toNat_lt,
    Char.toNat_val] at hc h
  unfold letterValue
  omega

/-- What is greater stays greater when no more letters come behind what is less. Here it counts
that the digits end at twenty-six and begin at one. -/
theorem readLetters_lt (hs : IsLetters s) (hlength : s.length ≤ t.length) (h : value < value') :
    readLetters value s < readLetters value' t := by
  induction t generalizing s value value' with
  | nil =>
      obtain rfl := List.eq_nil_of_length_eq_zero (Nat.le_zero.mp hlength)
      exact h
  | cons c' t ih =>
      have hpos : 1 ≤ letterValue c' := Nat.le_add_left 1 _
      cases s with
      | nil =>
          rw [readLetters_cons]
          exact ih hs (Nat.zero_le _) (by omega)
      | cons c s =>
          obtain ⟨hc, hs⟩ := List.forall_mem_cons.mp hs
          have hle := letterValue_le hc.2
          rw [readLetters_cons, readLetters_cons]
          exact ih hs (Nat.le_of_succ_le_succ hlength) (by omega)

/-- Of two equally long words the one that comes first in the alphabet is read as less. -/
theorem readLetters_lt_of_lex (hs : IsLetters s) (hlength : s.length = t.length)
    (h : List.Lex (· < ·) s t) : readLetters value s < readLetters value t := by
  induction h generalizing value with
  | nil => cases hlength
  | cons _ ih =>
      rw [readLetters_cons, readLetters_cons]
      exact ih (List.forall_mem_cons.mp hs).2 (Nat.succ.inj hlength)
  | @rel c s c' t hlt =>
      obtain ⟨hc, hs⟩ := List.forall_mem_cons.mp hs
      rw [readLetters_cons, readLetters_cons]
      exact readLetters_lt hs (Nat.le_of_eq (Nat.succ.inj hlength))
        (Nat.add_lt_add_left (letterValue_lt hc.1 hlt) _)

theorem readLetters_lt_of_shortlex (hs : IsLetters s) (h : List.Shortlex (· < ·) s t) :
    readLetters 0 s < readLetters 0 t := by
  rcases List.shortlex_def.mp h with hlength | ⟨hlength, hlex⟩
  · cases t with
    | nil => cases hlength
    | cons c t =>
        rw [readLetters_cons]
        exact readLetters_lt hs (Nat.le_of_lt_succ hlength) (Nat.succ_pos _)
  · exact readLetters_lt_of_lex hs hlength hlex

theorem readLetters_lt_iff (hs : IsLetters s) (ht : IsLetters t) :
    readLetters 0 s < readLetters 0 t ↔ List.Shortlex (· < ·) s t := by
  refine ⟨fun hlt => ?_, readLetters_lt_of_shortlex hs⟩
  rcases trichotomous_of (List.Shortlex (· < ·)) s t with h | rfl | h
  · exact h
  · exact absurd hlt (Nat.lt_irrefl _)
  · exact absurd (readLetters_lt_of_shortlex ht h) (Nat.lt_asymm hlt)

/-- Words that are read as the same number are the same. -/
theorem eq_of_readLetters_eq (hs : IsLetters s) (ht : IsLetters t)
    (h : readLetters 0 s = readLetters 0 t) : s = t := by
  rcases trichotomous_of (List.Shortlex (· < ·)) s t with hlt | heq | hlt
  · exact absurd h (Nat.ne_of_lt (readLetters_lt_of_shortlex hs hlt))
  · exact heq
  · exact absurd h.symm (Nat.ne_of_lt (readLetters_lt_of_shortlex ht hlt))

/-! ## The letters of an item -/

theorem toList_letters (n : Nat) : (letters n).toList = (letterDigits n).reverse :=
  String.toList_ofList

theorem isLetters_letters (n : Nat) : IsLetters (letters n).toList := by
  intro c hc
  rw [toList_letters, List.mem_reverse] at hc
  exact isLetters_letterDigits n c hc

theorem readLetters_letters (n : Nat) : readLetters 0 (letters n).toList = n := by
  rw [toList_letters, readLetters_letterDigits]

/-- The letters of an item are found by counting down its number, which comes to an end, and are
read as that number. No other item has them, those of later items come later, by length and then by
alphabet, and every word of letters belongs to some item. -/
theorem letters_number (r : Repetition) :
    (∃ collected, CountsDown r.number [] collected ∧
      letters r.number = String.ofList collected.reverse) ∧
    letters r.number ≠ "" ∧ IsLetters (letters r.number).toList ∧
    readLetters 0 (letters r.number).toList = r.index + 1 ∧
    (∀ r' : Repetition, letters r.number = letters r'.number → r.index = r'.index) ∧
    (∀ r' : Repetition, r.index < r'.index ↔
      List.Shortlex (· < ·) (letters r.number).toList (letters r'.number).toList) ∧
    ∀ word, word ≠ "" → IsLetters word.toList → ∃ r' : Repetition, letters r'.number = word := by
  refine ⟨⟨_, countsDown_letterDigits r.number [], rfl⟩, fun hempty => ?_, isLetters_letters _,
    readLetters_letters _, fun r' hsame => ?_, fun r' => ?_, fun word hword hletters => ?_⟩
  · have hzero := readLetters_letters r.number
    rw [hempty] at hzero
    exact Nat.succ_ne_zero r.index hzero.symm
  · have hnumber := congrArg (readLetters 0 ·.toList) hsame
    simp only [readLetters_letters] at hnumber
    exact Nat.succ.inj hnumber
  · rw [← readLetters_lt_iff (isLetters_letters _) (isLetters_letters _), readLetters_letters,
      readLetters_letters]
    exact Nat.succ_lt_succ_iff.symm
  · have hpos : readLetters 0 [] < readLetters 0 word.toList := by
      refine readLetters_lt_of_shortlex nofun (.of_length_lt ?_)
      exact List.length_pos_iff.mpr fun hnil => hword (String.toList_eq_nil_iff.mp hnil)
    obtain ⟨index, hindex⟩ := Nat.exists_eq_succ_of_ne_zero (Nat.ne_of_gt hpos)
    refine ⟨{ r with index }, String.toList_inj.mp ?_⟩
    refine eq_of_readLetters_eq (isLetters_letters _) hletters ?_
    rw [readLetters_letters]
    exact hindex.symm

example : letters 703 = "aaa" := by decide +kernel

end PageTemplate.Repetition
