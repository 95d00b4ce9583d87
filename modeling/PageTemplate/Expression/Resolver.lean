import PageTemplate.Expression.Value

/-! # Looking into a value

A segment of a path after the first is looked up on the value so far, in several ways one after
the other. The first way that finds something decides.
-/

namespace PageTemplate

/-- A way of looking for a part of a value. A host may bring other ways, which are left out. -/
inductive Strategy where
  /-- Parts of objects that are published under an explicit name. -/
  | aliased
  /-- Named parts of objects, and the ones that sequences, strings and macros have. -/
  | member
  /-- Keys of maps, positions in lists, and indexes of objects. -/
  | indexer
deriving DecidableEq, Repr

namespace Strategy

/-- The name that the way is known by. -/
def name : Strategy → String
  | .aliased => "aliased-member"
  | .member => "member"
  | .indexer => "indexer"

/-- All ways, in their usual order. -/
def all : List Strategy := [.aliased, .member, .indexer]

/-- A position in a list: decimal digits, a plus sign allowed before them. -/
def position? (segment : String) : Option Nat :=
  let digits := match segment.toList with
    | '+' :: digits => digits
    | digits => digits
  if digits.isEmpty || digits.any (!·.isDigit) then none
  else some (digits.foldl (fun n c => 10 * n + (c.toNat - '0'.toNat)) 0)

/-- What this way of looking finds. -/
def find (strategy : Strategy) (target : Value) (segment : String) :
    Except ExpressionError (Option Value) :=
  match strategy, target with
  | .aliased, .object o => o.aliased segment
  | .aliased, _ => .ok none
  | .member, .object o => o.member segment
  | .member, .list items => .ok (if segment = "length" then some (.ofNat items.length) else none)
  | .member, .string s => .ok (if segment = "length" then some (.ofNat s.length) else none)
  | .member, .macroRef reference =>
    .ok (if segment = "name" then some (.string reference.name) else none)
  | .member, _ => .ok none
  | .indexer, .map entries => .ok (entries.lookup segment)
  | .indexer, .list items => .ok ((position? segment).bind (items[·]?))
  | .indexer, .object o => o.index segment
  | .indexer, _ => .ok none

/-- What the first way that finds something finds. -/
def findFirst (target : Value) (segment : String) :
    List Strategy → Except ExpressionError (Option Value)
  | [] => .ok none
  | strategy :: strategies => do
    match ← strategy.find target segment with
    | some found => return some found
    | none => findFirst target segment strategies

/-- The part of a value under a name. Null and the value of `default` have no parts. -/
def resolve (strategies : List Strategy) (target : Value) (segment : String) :
    Except ExpressionError Value :=
  if target.isNull || target.cancels then
    .error (.unresolved segment s!"cannot traverse into {target.typeName}")
  else do
    match ← findFirst target segment strategies with
    | some found => return found
    | none =>
      throw (.unresolved segment s!"no member, alias or key on {target.typeName} value")

end Strategy

end PageTemplate
