import PageTemplate.Text.Split

/-! # References to characters and entities

Between an ampersand and a semicolon stands the number of a character, decimal or hexadecimal,
or the name of one of the five entities that need no declaration.
-/

namespace PageTemplate.Markup.Reference

open Text

/-- Why the number of a character could not be read. -/
inductive NumberFault where
  | signed
  | empty
  | notADigit
  | tooLarge
  | zero
  | notACharacter (code : Nat)
deriving DecidableEq, Repr

/-- Why a reference inside an attribute value could not be resolved. Ranges count bytes of the
value. -/
inductive Fault where
  | number (fault : NumberFault)
  | unrecognized (first last : Nat) (name : String)
  | unterminated (first last : Nat)
deriving DecidableEq, Repr

def NumberFault.message (fault : NumberFault) : String :=
  "invalid character reference: " ++ match fault with
    | .signed => "unexpected number sign"
    | .empty => "cannot parse integer from empty string"
    | .notADigit => "invalid digit found in string"
    | .tooLarge => "number too large to fit in target type"
    | .zero => "0x0 character is not permitted in XML"
    | .notACharacter code => s!"`{code}` is not a valid codepoint"

def Fault.message : Fault → String
  | .number fault => fault.message
  | .unrecognized first last name => s!"at {first}..{last}: unrecognized entity `{name}`"
  | .unterminated first last =>
    s!"Error while escaping character at range {first}..{last}: Cannot find ';' after '&'"

/-- The value of a digit below sixteen, letters in either case. -/
def digitValue? (c : Char) : Option Nat :=
  if '0' ≤ c ∧ c ≤ '9' then some (c.toNat - '0'.toNat)
  else if 'a' ≤ c ∧ c ≤ 'f' then some (c.toNat - 'a'.toNat + 10)
  else if 'A' ≤ c ∧ c ≤ 'F' then some (c.toNat - 'A'.toNat + 10)
  else none

/-- Reads digits behind a number already read. The number has to stay below `2 ^ 32`. -/
def readDigits (radix : Nat) (number : Nat) : List Char → Except NumberFault Nat
  | [] => .ok number
  | c :: rest =>
    match (digitValue? c).filter (· < radix) with
    | none => .error .notADigit
    | some digit =>
      if number * radix + digit < 2 ^ 32 then readDigits radix (number * radix + digit) rest
      else .error .tooLarge

/-- Reads an unsigned number of at least one digit. -/
def readNumber (radix : Nat) (s : List Char) : Except NumberFault Nat :=
  match s with
  | [] => .error .empty
  | '+' :: _ => .error .signed
  | '-' :: _ => .error .signed
  | s => readDigits radix 0 s

/-- The character whose number is written, after `x` in hexadecimal, otherwise in decimal. -/
def character (s : List Char) : Except NumberFault Char := do
  let code ← match s with
    | 'x' :: digits => readNumber 16 digits
    | digits => readNumber 10 digits
  if code = 0 then throw .zero
  if code.isValidChar then return Char.ofNat code
  else throw (.notACharacter code)

/-- The character that an entity without declaration stands for. -/
def predefined? (name : List Char) : Option Char :=
  match String.ofList name with
  | "lt" => some '<'
  | "gt" => some '>'
  | "amp" => some '&'
  | "apos" => some '\''
  | "quot" => some '"'
  | _ => none

/-- What a reference inside an attribute value stands for. -/
def resolve (first : Nat) (name : List Char) : Except Fault Char :=
  match name with
  | '#' :: number => (character number).mapError .number
  | name =>
    match predefined? name with
    | some c => .ok c
    | none => .error (.unrecognized first (first + byteLength name) (String.ofList name))

/-- A character that a reference runs over: neither its end nor the start of another one. -/
def isNameChar (c : Char) : Bool := c != '&' && c != ';'

/-- Replaces the references of an attribute value, of which `offset` bytes have been read. -/
def unescape (offset : Nat) (value : List Char) : Except Fault (List Char) :=
  match value with
  | [] => .ok []
  | '&' :: rest =>
    match hrest : rest.dropWhile isNameChar with
    | ';' :: after => do
      let name := rest.takeWhile isNameChar
      let c ← resolve (offset + 1) name
      return c :: (← unescape (offset + 1 + byteLength name + 1) after)
    | _ => .error (.unterminated offset (offset + 1 + byteLength rest))
  | c :: rest => do return c :: (← unescape (offset + c.utf8Size) rest)
termination_by value.length
decreasing_by
  all_goals try
    have hle := (List.dropWhile_suffix (l := rest) isNameChar).length_le
    rw [hrest] at hle
    simp at hle ⊢
    omega
  all_goals simp

end PageTemplate.Markup.Reference
