import Mathlib.Data.List.Induction
import PageTemplate.Expression.Family

/-! # The history of scopes

What a scope shows is told by the steps that were taken: the last step that bound the name in the
scope itself decides, then what the scope that it was made from showed at that moment, and then the
last global binding, whenever it was made. The records of repetitions and the error that was caught
follow the first two of these rules.
-/

namespace PageTemplate

/-! ## What a step does -/

namespace ScopeStep

/-- The value that the step binds the name to in the scope. -/
def binding? (index : Nat) (name : String) : ScopeStep → Option Value
  | .bind scope bound value => if scope = index ∧ bound = name then some value else none
  | .bindRepetition scope r => if scope = index ∧ r.name = name then some r.item else none
  | _ => none

/-- The repetition that the step records under the name in the scope. -/
def repetition? (index : Nat) (name : String) : ScopeStep → Option Repetition
  | .bindRepetition scope r => if scope = index ∧ r.name = name then some r else none
  | _ => none

/-- The error that the step stores in the scope. -/
def caught? (index : Nat) : ScopeStep → Option Value
  | .setCaught scope error => if scope = index then some error else none
  | _ => none

/-- The value that the step binds the name to in all scopes. -/
def globalBinding? (name : String) : ScopeStep → Option Value
  | .bindGlobal bound value => if bound = name then some value else none
  | _ => none

end ScopeStep

section

variable {β : Type} (what : ScopeStep → Option β)

/-- The last of the things that the steps do. -/
def latest (steps : List ScopeStep) : Option β := (steps.filterMap what).getLast?

theorem latest_cons (step : ScopeStep) (steps : List ScopeStep) :
    latest what (step :: steps) = (latest what steps).or (what step) := by
  unfold latest
  cases h : what step with
  | none => simp [h]
  | some b => simp [h, List.getLast?_cons]

end

/-! ## Scopes of a family -/

namespace ScopeFamily

variable {family : ScopeFamily} {index : Nat}

@[simp] theorem size_add (scope : Scope) :
    (family.add scope).scopes.size = family.scopes.size + 1 := Array.size_push _

@[simp] theorem size_update (other : Nat) (change : Scope → Scope) :
    (family.update other change).scopes.size = family.scopes.size := Array.size_modify

@[simp] theorem scope_add_size (scope : Scope) :
    (family.add scope).scope family.scopes.size = scope := by
  simp [ScopeFamily.scope, add]

theorem scope_add_of_lt (h : index < family.scopes.size) (scope : Scope) :
    (family.add scope).scope index = family.scope index := by
  simp [ScopeFamily.scope, add, Array.getElem_push_lt h, h, Nat.lt_succ_of_lt h]

theorem scope_update (h : index < family.scopes.size) (other : Nat) (change : Scope → Scope) :
    (family.update other change).scope index =
      if other = index then change (family.scope index) else family.scope index := by
  simp [ScopeFamily.scope, update, Array.getElem_modify, h]

theorem size_le_take (step : ScopeStep) : family.scopes.size ≤ (family.take step).scopes.size := by
  cases step <;> simp [take]

/-- When each step, as long as something that steps keep holds, changes what is seen to what the
step does, then the last step that does something decides what is seen after all of them. -/
theorem view_run {β : Type} (view : ScopeFamily → Option β) {what : ScopeStep → Option β}
    {kept : ScopeFamily → Prop} (hkept : ∀ family step, kept family → kept (family.take step))
    (htake : ∀ family step, kept family → view (family.take step) = (what step).or (view family))
    (steps : List ScopeStep) (h : kept family) :
    view (family.run steps) = (latest what steps).or (view family) := by
  induction steps generalizing family with
  | nil => rfl
  | cons step steps ih =>
      have hrest := ih (hkept family step h)
      rw [htake family step h] at hrest
      rw [latest_cons, Option.or_assoc]
      exact hrest

theorem run_cons (step : ScopeStep) (steps : List ScopeStep) :
    family.run (step :: steps) = (family.take step).run steps := rfl

theorem run_append (steps steps' : List ScopeStep) :
    family.run (steps ++ steps') = (family.run steps).run steps' := List.foldl_append ..

theorem lookup_globals_take (name : String) (family : ScopeFamily) (step : ScopeStep) :
    (family.take step).globals.lookup name =
      (step.globalBinding? name).or (family.globals.lookup name) := by
  cases step with
  | bindGlobal bound value =>
      rw [take, Globals.lookup_bind]
      by_cases h : bound = name
      · simp [ScopeStep.globalBinding?, h]
      · simp [ScopeStep.globalBinding?, h, Ne.symm h]
  | _ => rfl

theorem lookup_globals_run (name : String) (steps : List ScopeStep) :
    (family.run steps).globals.lookup name =
      (latest (·.globalBinding? name) steps).or (family.globals.lookup name) := by
  have hkept : ∀ (family : ScopeFamily) (step : ScopeStep), True → True := fun _ _ => id
  exact view_run (·.globals.lookup name) hkept
    (fun family step _ => lookup_globals_take name family step) steps trivial

end ScopeFamily

/-! ## What a step makes of a scope -/

namespace ScopeStep

/-- What the step makes of the scope with the number. -/
def change (index : Nat) (scope : Scope) : ScopeStep → Scope
  | .bind other name value => if other = index then scope.bind name value else scope
  | .bindRepetition other r => if other = index then scope.bindRepetition r else scope
  | .setCaught other error => if other = index then scope.setCaught error else scope
  | _ => scope

variable (index : Nat) (scope : Scope) (step : ScopeStep)

theorem lookupLocal_change (name : String) : (step.change index scope).lookupLocal name =
    (step.binding? index name).or (scope.lookupLocal name) := by
  cases step with
  | bind other bound value =>
      by_cases hindex : other = index
      · simp only [change, binding?, hindex, if_true, true_and, Scope.lookupLocal_bind,
          eq_comm (a := name)]
        split <;> rfl
      · simp [change, binding?, hindex]
  | bindRepetition other r =>
      by_cases hindex : other = index
      · simp only [change, binding?, hindex, if_true, true_and, Scope.lookupLocal_bindRepetition,
          eq_comm (a := name)]
        split <;> rfl
      · simp [change, binding?, hindex]
  | setCaught =>
      rw [change]
      split <;> rfl
  | _ => rfl

theorem repetition?_change (name : String) : (step.change index scope).repetition? name =
    (step.repetition? index name).or (scope.repetition? name) := by
  cases step with
  | bindRepetition other r =>
      by_cases hindex : other = index
      · simp only [change, repetition?, hindex, if_true, true_and, Scope.repetition?,
          Scope.bindRepetition, Keyed.lookup_insert, eq_comm (a := name)]
        split <;> rfl
      · simp [change, repetition?, hindex]
  | bind | setCaught =>
      rw [change]
      split <;> rfl
  | _ => rfl

theorem caught?_change : (step.change index scope).caught? =
    (step.caught? index).or scope.caught? := by
  cases step with
  | setCaught other error =>
      rw [change, caught?]
      split <;> rfl
  | bind | bindRepetition =>
      rw [change]
      split <;> rfl
  | _ => rfl

theorem parent_change : (step.change index scope).parent = scope.parent := by
  cases step with
  | bind | bindRepetition | setCaught =>
      rw [change]
      split <;> rfl
  | _ => rfl

end ScopeStep

namespace ScopeFamily

variable {family : ScopeFamily} {index : Nat}

theorem scope_take (step : ScopeStep) (h : index < family.scopes.size) :
    (family.take step).scope index = step.change index (family.scope index) := by
  cases step with
  | child origin => exact scope_add_of_lt h _
  | sibling origin => exact scope_add_of_lt h _
  | bindGlobal name value => rfl
  | bind other name value => exact scope_update h other _
  | bindRepetition other r => exact scope_update h other _
  | setCaught other error => exact scope_update h other _

/-- What is seen in a scope after some steps, when `what` tells how a step changes it. -/
theorem look_run {β : Type} (look : Scope → Option β) {what : ScopeStep → Option β}
    (hchange : ∀ step scope, look (step.change index scope) = (what step).or (look scope))
    (steps : List ScopeStep) (h : index < family.scopes.size) :
    look ((family.run steps).scope index) = (latest what steps).or (look (family.scope index)) := by
  have hkept : ∀ (family : ScopeFamily) (step : ScopeStep),
      index < family.scopes.size → index < (family.take step).scopes.size :=
    fun family step h => Nat.lt_of_lt_of_le h (size_le_take step)
  refine view_run (fun family => look (family.scope index)) hkept (fun family step h => ?_) steps h
  rw [scope_take step h]
  exact hchange step _

theorem parent_run (steps : List ScopeStep) (h : index < family.scopes.size) :
    ((family.run steps).scope index).parent = (family.scope index).parent := by
  have hchange : ∀ (step : ScopeStep) (scope : Scope),
      (step.change index scope).parent = Option.or none scope.parent :=
    fun step scope => step.parent_change index scope
  have hnone : latest (fun _ => (none : Option Scope)) steps = none := by simp [latest]
  rw [look_run Scope.parent hchange steps h, hnone]
  rfl

end ScopeFamily

/-! ## How scopes come about -/

namespace ScopeFamily

/-- How a scope came about in the course of the steps: what it began with, the scope it lies in, and
the steps since. -/
inductive Arises (root : Value) (steps : List ScopeStep) :
    Nat → Scope → Option Scope → List ScopeStep → Prop
  | first : Arises root steps 0 {} none steps
  | child {before since : List ScopeStep} {origin : Nat}
    (hsteps : steps = before ++ .child origin :: since) :
    Arises root steps ((start root).run before).scopes.size (((start root).run before).scope origin)
      (some (((start root).run before).scope origin)) since
  | sibling {before since : List ScopeStep} {origin : Nat}
    (hsteps : steps = before ++ .sibling origin :: since) :
    Arises root steps ((start root).run before).scopes.size (((start root).run before).scope origin)
      (((start root).run before).scope origin).parent since

variable {root : Value} {steps since : List ScopeStep} {index : Nat} {inherited : Scope}
  {parent : Option Scope}

theorem Arises.concat (h : Arises root steps index inherited parent since) (step : ScopeStep) :
    Arises root (steps ++ [step]) index inherited parent (since ++ [step]) := by
  cases h with
  | first => exact .first
  | child hsteps => exact .child (by simp [hsteps])
  | sibling hsteps => exact .sibling (by simp [hsteps])

theorem exists_arises (steps : List ScopeStep) {index : Nat}
    (h : index < ((start root).run steps).scopes.size) :
    ∃ inherited parent since, Arises root steps index inherited parent since := by
  induction steps using List.reverseRecOn with
  | nil =>
      obtain rfl : index = 0 := Nat.lt_one_iff.mp h
      exact ⟨_, _, _, .first⟩
  | append_singleton steps step ih =>
      by_cases hold : index < ((start root).run steps).scopes.size
      · obtain ⟨inherited, parent, since, harises⟩ := ih hold
        exact ⟨inherited, parent, _, harises.concat step⟩
      -- Otherwise the last step is the one that has made the scope.
      · rw [run_append] at h
        have hnew : ∀ scope, index < (((start root).run steps).add scope).scopes.size →
            index = ((start root).run steps).scopes.size := by
          intro scope hlt
          rw [size_add] at hlt
          omega
        cases step with
        | child origin =>
            obtain rfl := hnew _ h
            exact ⟨_, _, _, .child rfl⟩
        | sibling origin =>
            obtain rfl := hnew _ h
            exact ⟨_, _, _, .sibling rfl⟩
        | bindGlobal name value => exact absurd h hold
        | bind other name value => exact absurd (size_update other _ ▸ h) hold
        | bindRepetition other r => exact absurd (size_update other _ ▸ h) hold
        | setCaught other error => exact absurd (size_update other _ ▸ h) hold

/-- From the moment when a scope is made, the steps since lead to the end. -/
theorem Arises.exists_start (h : Arises root steps index inherited parent since) :
    ∃ family : ScopeFamily, family.run since = (start root).run steps ∧
      index < family.scopes.size ∧ (family.scope index).frame = inherited.frame ∧
      (family.scope index).parent = parent := by
  cases h with
  | first => exact ⟨start root, rfl, Nat.one_pos, rfl, rfl⟩
  | @child before _ origin hsteps =>
      refine ⟨((start root).run before).take (.child origin), ?_, ?_, ?_⟩
      · rw [hsteps, run_append, run_cons]
      · rw [take, size_add]
        exact Nat.lt_succ_self _
      · rw [take, scope_add_size]
        exact ⟨rfl, rfl⟩
  | @sibling before _ origin hsteps =>
      refine ⟨((start root).run before).take (.sibling origin), ?_, ?_, ?_⟩
      · rw [hsteps, run_append, run_cons]
      · rw [take, size_add]
        exact Nat.lt_succ_self _
      · rw [take, scope_add_size]
        exact ⟨rfl, rfl⟩

/-- What the frame of a scope tells: the last step since the scope was made decides, or else what
was seen in the scope that it was made from. -/
theorem Arises.look_eq {β : Type} (h : Arises root steps index inherited parent since)
    (look : Scope → Option β) (hlook : ∀ a b : Scope, a.frame = b.frame → look a = look b)
    {what : ScopeStep → Option β}
    (hchange : ∀ step scope, look (step.change index scope) = (what step).or (look scope)) :
    look (((start root).run steps).scope index) = (latest what since).or (look inherited) := by
  obtain ⟨made, hrun, hindex, hframe, -⟩ := h.exists_start
  rw [← hrun, look_run look hchange since hindex, hlook _ inherited hframe]

theorem Arises.parent_eq (h : Arises root steps index inherited parent since) :
    (((start root).run steps).scope index).parent = parent := by
  obtain ⟨made, hrun, hindex, -, hparent⟩ := h.exists_start
  rw [← hrun, parent_run since hindex, hparent]

theorem lookup_globals_start (root : Value) (steps : List ScopeStep) (name : String) :
    ((start root).run steps).globals.lookup name = latest (·.globalBinding? name) steps := by
  rw [lookup_globals_run]
  exact Option.or_none

/-- A name stands for what was last bound to it in the scope since the scope was made, or else for
what it stood for locally in the scope that this one was made from, at that moment, or else for what
was last bound to it globally, at any time. The records of repetitions and the error that was caught
follow the same rule without the global part. The scope around a scope is as it was when the inner
one was made, but for the global bindings. -/
theorem scopes_follow_history (root : Value) (steps : List ScopeStep) :
    let family := (start root).run steps
    (∀ index < family.scopes.size, ∃ inherited parent since,
      Arises root steps index inherited parent since) ∧
    ∀ index inherited parent since, Arises root steps index inherited parent since →
      (∀ name, family.lookup index name =
        ((latest (·.binding? index name) since).or (inherited.lookupLocal name)).or
          (latest (·.globalBinding? name) steps)) ∧
      (∀ name, (family.scope index).repetition? name =
        (latest (·.repetition? index name) since).or (inherited.repetition? name)) ∧
      (family.scope index).caught? = (latest (·.caught? index) since).or inherited.caught? ∧
      (family.scope index).parent = parent ∧
      ∀ outer ∈ parent, ∀ name, outer.lookup family.globals name =
        (outer.lookupLocal name).or (latest (·.globalBinding? name) steps) := by
  intro family
  have hlookup : ∀ (scope : Scope) (name : String), scope.lookup family.globals name =
      (scope.lookupLocal name).or (latest (·.globalBinding? name) steps) := by
    intro scope name
    rw [Scope.lookup, lookup_globals_start]
    cases scope.lookupLocal name <;> rfl
  refine ⟨fun index hindex => exists_arises steps hindex, ?_⟩
  intro index inherited parent since harises
  refine ⟨fun name => ?_, fun name => ?_, ?_, harises.parent_eq, fun outer _ => hlookup outer⟩
  · have hlocal := harises.look_eq (·.lookupLocal name)
      (fun a b hframe => by simp only [Scope.lookupLocal, hframe])
      (fun step scope => step.lookupLocal_change index scope name)
    exact (hlookup _ name).trans (congrArg (Option.or · _) hlocal)
  · exact harises.look_eq (·.repetition? name)
      (fun a b hframe => by simp only [Scope.repetition?, hframe])
      (fun step scope => step.repetition?_change index scope name)
  · exact harises.look_eq Scope.caught? (fun a b hframe => by simp only [Scope.caught?, hframe])
      (fun step scope => step.caught?_change index scope)

/-- A scope inside the first one gets a sibling, and bindings are made before and after. -/
def forkingSteps : List ScopeStep :=
  [.bind 0 "x" (.int 1), .child 0, .bind 0 "x" (.int 2), .bind 1 "y" (.int 3), .sibling 1,
    .bindGlobal "z" (.int 4), .bind 1 "y" (.int 5), .bind 2 "x" (.int 6)]

/-- The sibling has its own binding, the one it began with, and the global one that came later. The
scope around it is as it was when the first of the siblings was made. -/
theorem scopes_follow_history_forked :
    let family := (start .null).run forkingSteps
    2 < family.scopes.size ∧ ∃ inherited parent since,
      Arises .null forkingSteps 2 inherited parent since ∧
      family.lookup 2 "x" = some (.int 6) ∧ family.lookup 2 "y" = some (.int 3) ∧
      family.lookup 2 "z" = some (.int 4) ∧
      ∃ outer ∈ parent, outer.lookup family.globals "x" = some (.int 1) := by
  have harises :=
    @Arises.sibling .null forkingSteps (forkingSteps.take 4) (forkingSteps.drop 5) 1 rfl
  obtain ⟨hlookup, -, -, -, houter⟩ :=
    (scopes_follow_history .null forkingSteps).2 2 _ _ _ harises
  exact ⟨by decide, _, _, _, harises, (hlookup "x").trans rfl, (hlookup "y").trans rfl,
    (hlookup "z").trans rfl, _, rfl, (houter _ rfl "x").trans rfl⟩

end ScopeFamily

end PageTemplate
