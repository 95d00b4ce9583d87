import PageTemplate.Expression.Scope

/-! # Families of scopes

The scopes of a rendering all come from a first one, by steps that make a scope from another one
or change one. Here they are numbered in the order they are made, so that a look-up in any of them
can be told from the steps alone.
-/

namespace PageTemplate

/-- A step in the life of a family of scopes, which are named by their numbers. -/
inductive ScopeStep where
  | child (origin : Nat)
  | sibling (origin : Nat)
  | bind (scope : Nat) (name : String) (value : Value)
  | bindGlobal (name : String) (value : Value)
  | bindRepetition (scope : Nat) (r : Repetition)
  | setCaught (scope : Nat) (error : Value)

/-- Scopes in the order they were made, and what they share. -/
structure ScopeFamily where
  scopes : Array Scope
  globals : Globals

namespace ScopeFamily

/-- The family of a first scope without bindings. -/
def start (root : Value) : ScopeFamily := { scopes := #[{}], globals := { root } }

variable (family : ScopeFamily)

/-- The scope with a number. A number without a scope looks like a scope without bindings. -/
def scope (index : Nat) : Scope := family.scopes.getD index {}

/-- Adds a scope, which gets the next number. -/
def add (scope : Scope) : ScopeFamily := { family with scopes := family.scopes.push scope }

/-- Changes one scope. -/
def update (index : Nat) (change : Scope → Scope) : ScopeFamily :=
  { family with scopes := family.scopes.modify index change }

/-- Carries out one step. -/
def take : ScopeStep → ScopeFamily
  | .child origin => family.add (family.scope origin).child
  | .sibling origin => family.add (family.scope origin).sibling
  | .bind index name value => family.update index (·.bind name value)
  | .bindGlobal name value => { family with globals := family.globals.bind name value }
  | .bindRepetition index r => family.update index (·.bindRepetition r)
  | .setCaught index error => family.update index (·.setCaught error)

/-- Carries out steps one after the other. -/
def run (steps : List ScopeStep) : ScopeFamily := steps.foldl take family

/-- What a name stands for in one of the scopes. -/
def lookup (index : Nat) (name : String) : Option Value :=
  (family.scope index).lookup family.globals name

end ScopeFamily

end PageTemplate
