import PageTemplate.Expression.Repetition

/-! # Scopes

A scope is a frame of local bindings. A child or sibling scope begins with the bindings its
origin has at that moment; later changes of the one are not seen by the other. Global bindings
belong to no frame: all scopes of a rendering see them, those made earlier as well.
-/

namespace PageTemplate

/-- The local part of a scope. -/
structure Frame where
  bindings : List (String × Value) := []
  repetitions : List (String × Repetition) := []
  /-- The error that is being recovered from. -/
  caught : Option Value := none

/-- A scope: its frame, the scope it lies in, as that scope was when this one was made, and how
many scopes lie around it. -/
structure Scope where
  frame : Frame := {}
  parent : Option Scope := none
  depth : Nat := 0

/-- What all scopes of a rendering share: the model and the global bindings. -/
structure Globals where
  root : Value
  bindings : List (String × Value) := []

namespace Globals

def lookup (globals : Globals) (name : String) : Option Value := globals.bindings.lookup name

def bind (globals : Globals) (name : String) (value : Value) : Globals :=
  { globals with bindings := Keyed.insert name value globals.bindings }

theorem lookup_bind (globals : Globals) (name other : String) (value : Value) :
    (globals.bind name value).lookup other =
      if other = name then some value else globals.lookup other :=
  Keyed.lookup_insert name other value globals.bindings

end Globals

namespace Scope

variable (scope : Scope)

/-- A scope one level further in. -/
def child : Scope := { frame := scope.frame, parent := some scope, depth := scope.depth + 1 }

/-- A scope at the same level. -/
def sibling : Scope := { frame := scope.frame, parent := scope.parent, depth := scope.depth }

def lookupLocal (name : String) : Option Value := scope.frame.bindings.lookup name

/-- The local binding of a name, or else its global binding. -/
def lookup (globals : Globals) (name : String) : Option Value :=
  scope.lookupLocal name <|> globals.lookup name

def bind (name : String) (value : Value) : Scope :=
  { scope with
    frame := { scope.frame with bindings := Keyed.insert name value scope.frame.bindings } }

/-- Binds the name of a repetition to its item and records the repetition. -/
def bindRepetition (r : Repetition) : Scope :=
  { scope with
    frame := { scope.frame with
      bindings := Keyed.insert r.name r.item scope.frame.bindings
      repetitions := Keyed.insert r.name r scope.frame.repetitions } }

def repetition? (name : String) : Option Repetition := scope.frame.repetitions.lookup name

/-- All repetitions in scope, by name. -/
def repetitions : Value :=
  .map (scope.frame.repetitions.map fun (name, r) => (name, .object r.object))

def caught? : Option Value := scope.frame.caught

def setCaught (error : Value) : Scope :=
  { scope with frame := { scope.frame with caught := some error } }

@[simp] theorem lookupLocal_child (name : String) :
    scope.child.lookupLocal name = scope.lookupLocal name := rfl

@[simp] theorem lookupLocal_sibling (name : String) :
    scope.sibling.lookupLocal name = scope.lookupLocal name := rfl

theorem lookupLocal_bind (name other : String) (value : Value) :
    (scope.bind name value).lookupLocal other =
      if other = name then some value else scope.lookupLocal other :=
  Keyed.lookup_insert name other value scope.frame.bindings

/-- The name of a repetition stands for its item. -/
theorem lookupLocal_bindRepetition (r : Repetition) (other : String) :
    (scope.bindRepetition r).lookupLocal other =
      if other = r.name then some r.item else scope.lookupLocal other :=
  Keyed.lookup_insert r.name other r.item scope.frame.bindings

end Scope

/-- An error that is being recovered from, as an object that expressions can look into. -/
def caughtError (kind message : String) : HostObject Value where
  key := "error/" ++ kind ++ "/" ++ message
  typeName := "error"
  text := message
  member := fun name => .ok <|
    match name with
    | "type" => some (.string kind)
    | "value" => some (.string message)
    | "message" => some (.string message)
    | _ => none

end PageTemplate
