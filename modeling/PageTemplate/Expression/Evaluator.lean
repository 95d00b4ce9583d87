import PageTemplate.Expression.Parser
import PageTemplate.Expression.Resolver
import PageTemplate.Expression.Scope

/-! # Evaluating expressions

A path starts at a name in scope and looks into values; its alternates are tried from left to
right until one succeeds. An operation hands the value so far and its argument to a module. The
built-in modules read their argument as an expression of some kind; every operation inside an
argument has a shorter argument, so evaluation ends.
-/

namespace PageTemplate

/-- What a segment with a module name and a colon calls. -/
inductive Module where
  /-- The argument is a string expression. -/
  | string
  /-- The argument is an expression whose truth is turned around; without an argument it is the
  truth of the value so far. -/
  | negation
  /-- The argument is a path, which starts at the value so far. -/
  | path
  /-- Asks whether the argument, a path from the value so far, leads anywhere. -/
  | existence
  /-- The argument is a path and an expression; the value of the expression is applied to the
  value of the path. -/
  | pipe
  /-- A module of the host, which receives the value so far and the argument. Its result depends on
  these alone: modules that look at the scope or the options, or keep a state, are left out. -/
  | host (run : Option Value → String → Except ExpressionError Value)

/-- Modules by the names that call them. -/
abbrev ModuleTable := List (String × Module)

/-- The built-in modules. -/
def ModuleTable.builtin : ModuleTable :=
  Keyed.ofList [("string", .string), ("not", .negation), ("path", .path),
    ("exists", .existence), ("pipe", .pipe)]

/-- The global name under which the macros of a rendering are published. -/
def macrosBinding : String := "macros"

/-- Everything that an expression can see. -/
structure Environment where
  scope : Scope
  globals : Globals
  strategies : List Strategy := Strategy.all
  modules : ModuleTable := ModuleTable.builtin
  functions : String → Option HostFunction := fun _ => none
  /-- What expressions see as `options`. -/
  options : List (String × Value) := []
  /-- What expressions see as `attrs`. -/
  attributes : List (String × String) := []

namespace Environment

variable (env : Environment)

/-- The macros that are published, by name. -/
def macros : Value := (env.globals.lookup macrosBinding).getD (.map [])

/-- The value of a name that is not bound. -/
def builtin (name : String) : Except ExpressionError Value :=
  match name with
  | "here" => .ok env.globals.root
  | "nothing" => .ok .null
  | "default" => .ok .keep
  | "true" => .ok (.bool true)
  | "false" => .ok (.bool false)
  | "repeat" => .ok env.scope.repetitions
  | "options" => .ok (.map env.options)
  | "attrs" => .ok (.map (env.attributes.map fun (name, value) => (name, .string value)))
  | "macros" => .ok env.macros
  | "template" => .ok (.map [(macrosBinding, env.macros)])
  | "error" => env.scope.caught?.elim (.error (.undefined name)) .ok
  | _ => .error (.undefined name)

/-- The value of the first segment of a path: a binding in scope, or else a built-in name. -/
def resolveRoot (name : String) : Except ExpressionError Value :=
  match env.scope.lookup env.globals name with
  | some value => .ok value
  | none => env.builtin name

/-- How an operation is carried out: module name, argument and the value so far. -/
abbrev Operate := String → String → Option Value → Except ExpressionError Value

variable (operate : Operate)

/-- Looks a name up on the value so far, or as a root name at the start. -/
def stepTo (current : Option Value) (name : String) : Except ExpressionError Value :=
  match current with
  | none => env.resolveRoot name
  | some value => Strategy.resolve env.strategies value name

/-- One step of a path. -/
def step (current : Option Value) : Segment → Except ExpressionError Value
  | .name text => env.stepTo current text
  | .dynamic text => do env.stepTo current (← env.resolveRoot text).text
  | .operation module argument => operate module argument current

/-- Walks the segments of an alternate. -/
def walk (current : Option Value) : List Segment → Except ExpressionError Value
  | [] => .ok (current.getD .null)
  | segment :: segments => do
    walk (some (← env.step operate current segment)) segments

/-- The value of the first alternate that succeeds, or the errors of all. -/
def tryAlternates (start : Option Value) :
    List (List Segment) → Except (List ExpressionError) Value
  | [] => .error []
  | alternate :: alternates =>
    match env.walk operate start alternate with
    | .ok value => .ok value
    | .error error => (tryAlternates start alternates).mapError (error :: ·)

/-- The value of a path. With a `start`, the first segment is looked up on it. -/
def pathWith (start : Option Value) (path : Path) : Except ExpressionError Value :=
  (env.tryAlternates operate start path.alternates).mapError (.allFailed path.text ·)

/-- The text of a string expression: literal text and the texts of its paths. -/
def stringWith : List StringPart → Except ExpressionError String
  | [] => .ok ""
  | .literal text :: parts => do return text ++ (← stringWith parts)
  | .substitution path :: parts => do
    let value ← env.pathWith operate none path
    return value.text ++ (← stringWith parts)

/-- The value of an expression. -/
def evaluateWith : Expression → Except ExpressionError Value
  | .path path => env.pathWith operate none path
  | .string parts => do return .string (← env.stringWith operate parts)
  | .negation inner => do return .bool !(← evaluateWith inner).isTruthy
  | .existence path => .ok (.bool (env.pathWith operate none path).toOption.isSome)

/-- Applies a value to another one. `written` is the expression of the value that is applied. -/
def apply (written : String) (function argument : Value) : Except ExpressionError Value :=
  let failure := fun message => Except.error (.moduleFailure "pipe" message)
  match function with
  | .object o =>
    match o.callable.bind env.functions with
    | none => failure s!"'{written}' is not callable"
    | some run =>
      match run argument with
      | .ok result => .ok result
      | .error error => failure s!"'{written}' failed: {error.message}"
  | other => failure s!"'{written}' is a {other.typeName} value, not a function"

/-- The two halves of the argument of a pipe: up to the first blank, and what follows. -/
def pipeHalves (argument : String) : Option (String × String) :=
  match Text.splitAt? Text.isBlank (Text.trim argument.toList) with
  | some (source, callable) =>
    let callable := Text.trim callable
    if callable.isEmpty then none else some (String.ofList source, String.ofList callable)
  | none => none

/-- Carries out a pipe. -/
def pipeWith (argument : String) (current : Option Value) : Except ExpressionError Value :=
  let failure := fun message => Except.error (.moduleFailure "pipe" message)
  match pipeHalves argument with
  | none => failure s!"expected 'source callable', found '{Text.trimmed argument}'"
  | some (source, callable) =>
    match Path.parse source >>= env.pathWith operate current with
    | .error error => failure s!"cannot resolve source '{source}': {error.message}"
    | .ok value =>
      match Expression.parse callable >>= env.evaluateWith operate with
      | .error error => failure s!"cannot resolve callable '{callable}': {error.message}"
      | .ok function => env.apply callable function value

/-- Carries out a module, given how the operations inside its argument are carried out. -/
def runModule (module : Module) (argument : String) (current : Option Value) :
    Except ExpressionError Value :=
  match module with
  | .string => do
    let parts ← StringPart.parse argument
    return .string (← env.stringWith operate parts)
  | .negation =>
    if (Text.trim argument.toList).isEmpty then
      match current with
      | some value => .ok (.bool !value.isTruthy)
      | none => .error (.moduleFailure "not" "nothing to negate")
    else do
      let inner ← Expression.parse argument
      return .bool !(← env.evaluateWith operate inner).isTruthy
  | .path => do env.pathWith operate current (← Path.parse argument)
  | .existence => do
    let path ← Path.parse argument
    return .bool (env.pathWith operate current path).toOption.isSome
  | .pipe => env.pipeWith operate argument current
  | .host run => run current argument

/-- Carries out an operation. The operations inside the argument have shorter arguments, since
they are read from a part of it. -/
def operation (name argument : String) (current : Option Value) : Except ExpressionError Value :=
  match env.modules.lookup name with
  | none => .error (.unknownModule name)
  | some module =>
    let inner : Operate := fun name' argument' current' =>
      if argument'.length < argument.length then operation name' argument' current'
      else .error (.unknownModule name')
    env.runModule inner module argument current
termination_by argument.length

/-- The value of an expression. -/
def evaluate (expression : Expression) : Except ExpressionError Value :=
  env.evaluateWith env.operation expression

/-- The value of a path that starts at a value. -/
def evaluateFrom (start : Option Value) (path : Path) : Except ExpressionError Value :=
  env.pathWith env.operation start path

end Environment

end PageTemplate
