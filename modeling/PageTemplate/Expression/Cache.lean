import PageTemplate.Expression.Parser

/-! # A cache of expressions

Expressions are kept under their exact text, so that each is read once however often it is
evaluated. A text that is no expression leaves nothing behind.
-/

namespace PageTemplate

/-- A kept expression. The serial number tells two readings of one text apart. -/
structure CachedExpression where
  serial : Nat
  expression : Expression

/-- Expressions under their texts. -/
structure ExpressionCache where
  entries : List (String × CachedExpression) := []
  nextSerial : Nat := 0

namespace ExpressionCache

variable (cache : ExpressionCache)

def size : Nat := cache.entries.length

def isEmpty : Bool := cache.size == 0

/-- Forgets all expressions. Serial numbers go on. -/
def clear : ExpressionCache := { cache with entries := [] }

/-- The expression of a text, read now unless it is kept. -/
def get (text : String) : Except ExpressionError CachedExpression × ExpressionCache :=
  match cache.entries.lookup text with
  | some entry => (.ok entry, cache)
  | none =>
    match Expression.parse text with
    | .error error => (.error error, cache)
    | .ok expression =>
      let entry := { serial := cache.nextSerial, expression }
      (.ok entry,
        { entries := (text, entry) :: cache.entries, nextSerial := cache.nextSerial + 1 })

end ExpressionCache

end PageTemplate
