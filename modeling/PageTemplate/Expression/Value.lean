import PageTemplate.Decimal.Shortest
import PageTemplate.Expression.Error
import PageTemplate.Keyed
import PageTemplate.Markup.Node

/-! # Values

What expressions produce and directives consume: plain data, macros, and objects whose parts
the host looks up.
-/

namespace PageTemplate

/-- An object of the host. A look-up that finds nothing lets the next way of looking have its
turn; a look-up that fails ends the evaluation of the path. What is found depends on the object and
the name alone: objects that change while a page is rendered are left out. -/
structure HostObject (V : Type) where
  /-- What tells the object apart: objects are equal when their keys are. -/
  key : String
  typeName : String := "object"
  text : String := ""
  truthy : Bool := true
  /-- Parts that are published under an explicit name. -/
  aliased : String → Except ExpressionError (Option V) := fun _ => .ok none
  member : String → Except ExpressionError (Option V) := fun _ => .ok none
  index : String → Except ExpressionError (Option V) := fun _ => .ok none
  /-- What a repetition runs through, for an object that can be run through. -/
  items : Option (List V) := none
  /-- The host function that the object applies, for an object that can be called. -/
  callable : Option String := none

/-- A macro: its name and the element that defines it. -/
structure MacroRef where
  name : String
  element : Markup.NodeId
deriving DecidableEq, Repr

/-- A value. Maps are sorted by key. -/
inductive Value where
  | null
  /-- The value of `default`: a directive that receives it leaves the markup as it is. -/
  | keep
  | bool (b : Bool)
  | int (i : Int)
  | float (x : Float)
  | string (s : String)
  | list (items : List Value)
  | map (entries : List (String × Value))
  | macroRef (reference : MacroRef)
  | object (object : HostObject Value)

namespace Value

instance : Inhabited Value := ⟨.null⟩

/-- The greatest integer a value holds. -/
def maxInt : Int := Int.pow 2 63 - 1

/-- A count as a value; the greatest integer stands for every larger count. -/
def ofNat (n : Nat) : Value := .int (min (n : Int) maxInt)

def isNull : Value → Bool
  | .null => true
  | _ => false

/-- The value makes a directive leave the markup as it is. -/
def cancels : Value → Bool
  | .keep => true
  | _ => false

/-- Null, and the zero or empty value of each type, are false. -/
def isTruthy : Value → Bool
  | .null => false
  | .keep => true
  | .bool b => b
  | .int i => i != 0
  | .float x => x != 0.0 && !x.isNaN
  | .string s => !s.isEmpty
  | .list items => !items.isEmpty
  | .map entries => !entries.isEmpty
  | .macroRef _ => true
  | .object o => o.truthy

mutual
/-- The text that the value leaves in markup. -/
def text : Value → String
  | .null => ""
  | .keep => ""
  | .bool b => if b then "true" else "false"
  | .int i => toString i
  | .float x => Decimal.text x
  | .string s => s
  | .list items => ", ".intercalate (texts items)
  | .map _ => ""
  | .macroRef reference => reference.name
  | .object o => o.text
/-- The texts of several values. -/
def texts : List Value → List String
  | [] => []
  | value :: values => value.text :: texts values
end

/-- What a repetition over the value runs through; nothing for a value that is no sequence. -/
def items? : Value → Option (List Value)
  | .list items => some items
  | .map entries => some (entries.map (·.2))
  | .object o => o.items
  | _ => none

def asMacro? : Value → Option MacroRef
  | .macroRef reference => some reference
  | _ => none

def asString? : Value → Option String
  | .string s => some s
  | _ => none

def typeName : Value → String
  | .null => "null"
  | .keep => "default"
  | .bool _ => "boolean"
  | .int _ => "integer"
  | .float _ => "float"
  | .string _ => "string"
  | .list _ => "list"
  | .map _ => "map"
  | .macroRef _ => "macro"
  | .object o => o.typeName

mutual
/-- Equality of values: an integer and a float are compared as floats, an object equals only
itself, and a float that is no number equals nothing. -/
def beq : Value → Value → Bool
  | .null, .null => true
  | .keep, .keep => true
  | .bool a, .bool b => a == b
  | .int a, .int b => a == b
  | .float a, .float b => a == b
  | .int a, .float b => Float.ofInt a == b
  | .float a, .int b => a == Float.ofInt b
  | .string a, .string b => a == b
  | .list a, .list b => beqAll a b
  | .map a, .map b => beqEntries a b
  | .macroRef a, .macroRef b => a == b
  | .object a, .object b => a.key == b.key
  | _, _ => false
def beqAll : List Value → List Value → Bool
  | [], [] => true
  | a :: as, b :: bs => a.beq b && beqAll as bs
  | _, _ => false
def beqEntries : List (String × Value) → List (String × Value) → Bool
  | [], [] => true
  | (k, a) :: as, (l, b) :: bs => k == l && a.beq b && beqEntries as bs
  | _, _ => false
end

/-- A host function as a value. -/
def function (key name : String) : Value :=
  .object { key, typeName := "function", text := name, callable := some name }

end Value

/-- A function of the host. Its result depends on the argument alone: functions that keep a state are
left out. -/
abbrev HostFunction := Value → Except ExpressionError Value

end PageTemplate
