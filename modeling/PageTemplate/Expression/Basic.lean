/-! # The syntax of expressions

A path walks from a root name through the parts of a value; paths separated by bars are tried
in order. A string expression mixes text with paths. Around these stand the operators that a
directive's expression may begin with.
-/

namespace PageTemplate

/-- Where a name that is written `local:name` or `global:name` is to be bound. -/
inductive DefinitionScope where
  | localScope
  | globalScope
deriving DecidableEq, Repr

/-- One step of a path. -/
inductive Segment where
  | name (text : String)
  /-- A root name whose value gives, as text, the name to look for. -/
  | dynamic (text : String)
  /-- A call of a module, which reads the argument in its own way. -/
  | operation (module argument : String)
deriving DecidableEq, Repr

/-- Paths to be tried one after the other. -/
structure Path where
  /-- The text the path was read from, for messages. -/
  text : String
  scope : Option DefinitionScope
  alternates : List (List Segment)
deriving DecidableEq, Repr

/-- A stretch of a string expression. -/
inductive StringPart where
  | literal (text : String)
  | substitution (path : Path)
deriving DecidableEq, Repr

/-- An expression as a directive holds it. -/
inductive Expression where
  | path (path : Path)
  | string (parts : List StringPart)
  | negation (inner : Expression)
  | existence (path : Path)
deriving DecidableEq, Repr

end PageTemplate
