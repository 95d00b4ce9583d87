/-! # What can go wrong with an expression

Malformed text, names and members that are not there, and failures of the modules, functions
and objects that the host brings along.
-/

namespace PageTemplate

/-- A failure of reading or evaluating an expression. -/
inductive ExpressionError where
  | malformed (expression message : String)
  | unresolved (segment message : String)
  | undefined (name : String)
  /-- Every alternate of a path failed, each with its own error. -/
  | allFailed (expression : String) (attempts : List ExpressionError)
  | unknownModule (name : String)
  | moduleFailure (module message : String)
  | hostFailure (member message : String)
  | conversion (message : String)
deriving Repr

instance : Inhabited ExpressionError := ⟨.undefined ""⟩

namespace ExpressionError

mutual
/-- The wording of an error. -/
def message : ExpressionError → String
  | .malformed expression message => s!"TALES parse error in '{expression}': {message}"
  | .unresolved segment message => s!"Cannot resolve '{segment}': {message}"
  | .undefined name => s!"Name '{name}' is not defined"
  | .allFailed expression attempts =>
    let details := "; ".intercalate (messages attempts)
    s!"All {attempts.length} alternate(s) of '{expression}' failed: [{details}]"
  | .unknownModule name => s!"Unknown namespace module '{name}'"
  | .moduleFailure module message => s!"Module '{module}' error: {message}"
  | .hostFailure member message => s!"Host object error reading '{member}': {message}"
  | .conversion message => s!"Conversion error: {message}"
/-- The wordings of several errors. -/
def messages : List ExpressionError → List String
  | [] => []
  | error :: errors => error.message :: messages errors
end

/-- The text of the expression is at fault. -/
def isMalformed : ExpressionError → Bool
  | .malformed .. => true
  | _ => false

/-- The number of alternates that were tried. -/
def attemptCount : ExpressionError → Option Nat
  | .allFailed _ attempts => some attempts.length
  | _ => none

end ExpressionError

end PageTemplate
