import PageTemplate.Expression.Value

/-! # Repetitions

What a repetition tells about the item it stands at: counted from zero and from one, by letters
and by roman numerals.
-/

namespace PageTemplate

/-- The record of one item of a repetition. -/
structure Repetition where
  name : String
  /-- The number of items before this one. -/
  index : Nat
  /-- The number of all items. -/
  count : Nat
  item : Value

namespace Repetition

/-- The digits of a positive number in the notation that counts `a` to `z`, then `aa`, `ab` and
so on: base twenty-six with the digits one to twenty-six, the last digit first. -/
def letterDigits (n : Nat) : List Char :=
  if _hn : n = 0 then []
  else Char.ofNat ('a'.toNat + (n - 1) % 26) :: letterDigits ((n - 1) / 26)
termination_by n
decreasing_by omega

/-- The number of an item in letters. -/
def letters (n : Nat) : String := String.ofList (letterDigits n).reverse

/-- The numerals with their values, greatest first. -/
def numerals : List (Nat × String) :=
  [(1000, "M"), (900, "CM"), (500, "D"), (400, "CD"), (100, "C"), (90, "XC"), (50, "L"),
    (40, "XL"), (10, "X"), (9, "IX"), (5, "V"), (4, "IV"), (1, "I")]

/-- Writes each numeral as often as it fits. -/
def romanFrom (n : Nat) : List (Nat × String) → String
  | [] => ""
  | (value, numeral) :: rest =>
    String.join (List.replicate (n / value) numeral) ++ romanFrom (n % value) rest

/-- The roman numeral of a number from 1 to 3999; other numbers are written with digits. -/
def roman (n : Nat) : String :=
  if n = 0 ∨ 3999 < n then toString n else romanFrom n numerals

variable (r : Repetition)

/-- The number of the item, counted from one. -/
def number : Nat := r.index + 1

/-- What the record tells under a name. -/
def member (name : String) : Option Value :=
  match name with
  | "index" => some (.ofNat r.index)
  | "number" => some (.ofNat r.number)
  | "even" => some (.bool (r.index % 2 == 0))
  | "odd" => some (.bool (r.index % 2 != 0))
  | "start" => some (.bool (r.index == 0))
  | "end" => some (.bool (r.index + 1 == r.count))
  | "length" => some (.ofNat r.count)
  | "letter" => some (.string (letters r.number))
  | "Letter" => some (.string (letters r.number).toUpper)
  | "roman" => some (.string (roman r.number).toLower)
  | "Roman" => some (.string (roman r.number))
  | "name" => some (.string r.name)
  | "item" => some r.item
  | _ => none

/-- The record as an object that expressions can look into. -/
def object : HostObject Value where
  key := s!"repeat/{r.name}/{r.index}"
  typeName := "repetition"
  text := toString r.number
  member := fun name => .ok (r.member name)

end Repetition

end PageTemplate
