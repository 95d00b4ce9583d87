import PageTemplate.Expression.Error
import PageTemplate.Markup.Error

/-! # What can go wrong in a rendering

An error names the directive and the element at fault. Errors of the template itself are never
recovered from: malformed directives, malformed expressions and macro chains without end. All
others go to the nearest element around them that has a handler.
-/

namespace PageTemplate

open Markup

/-- A failure of rendering. Elements are named as messages show them. -/
inductive RenderError where
  | evaluation (directive element expression : String) (source : ExpressionError)
  | directiveSyntax (directive element value message : String)
  | contentAndReplace (element : String)
  | notIterable (element expression typeName : String)
  | macroNotFound (directive element expression : String)
  | macroChain (chain : List String) (message : String)
  | visitor (name message : String)
  | tree (error : MarkupError)
deriving Repr

namespace RenderError

/-- The wording of an error. -/
def message : RenderError → String
  | .evaluation directive element expression source =>
    s!"Could not evaluate {directive}=\"{expression}\" on {element}: {source.message}"
  | .directiveSyntax directive element value message =>
    s!"Malformed {directive} value '{value}' on {element}: {message}"
  | .contentAndReplace element => s!"{element} carries both tal:content and tal:replace"
  | .notIterable element expression typeName =>
    s!"Cannot repeat over {typeName} value of '{expression}' on {element}"
  | .macroNotFound directive element expression =>
    s!"{directive}=\"{expression}\" on {element} does not resolve to a macro"
  | .macroChain chain message =>
    let names := " -> ".intercalate chain
    s!"Macro chain {names} {message}"
  | .visitor name message => s!"Context visitor '{name}' failed: {message}"
  | .tree error => s!"Tree error: {error.message}"

/-- A handler may recover from the error. -/
def isRecoverable : RenderError → Bool
  | .evaluation _ _ _ source => !source.isMalformed
  | .directiveSyntax .. => false
  | .contentAndReplace .. => false
  | .macroChain .. => false
  | _ => true

/-- What templates see as the type of the error. -/
def kind : RenderError → String
  | .evaluation .. => "EvaluationError"
  | .directiveSyntax .. => "DirectiveSyntaxError"
  | .contentAndReplace .. => "ContentAndReplaceError"
  | .notIterable .. => "NotIterableError"
  | .macroNotFound .. => "MacroNotFoundError"
  | .macroChain .. => "MacroChainError"
  | .visitor .. => "VisitorError"
  | .tree .. => "TreeError"

end RenderError

end PageTemplate
