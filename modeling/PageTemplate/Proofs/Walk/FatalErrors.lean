import PageTemplate.Proofs.Walk.NearestHandler

/-! # Errors that no handler gets

An error that is not to be recovered from has no receiver, wherever it is raised: in the expansion
of a macro, in a directive or in an error handler, on an element that was written, copied, exposed
or put into a slot. All elements around it hand it on, and it is how the rendering ends.
-/

namespace PageTemplate.Walk

open Markup

variable {settings : Settings} {libraries : List Document} {node : NodeId} {s : RenderState}
  {pre later : List Step} {step : Step} {error : RenderError}

/-- An element never catches an error that is not to be recovered from. -/
theorem receiver?_of_not_isRecoverable (hfatal : error.isRecoverable = false) :
    step.receiver? settings error = none := by
  unfold Step.receiver?
  refine List.find?_eq_none.mpr fun place _ => ?_
  simp [catches, hfatal]

/-- An error without a receiver is how the rendering ends, and after it nothing changes. -/
theorem outcome_of_receiver?_eq_none
    (hsteps : Recorded.stepsOf settings libraries node s = pre ++ step :: later)
    (hfailure : step.failure = some (.failed error))
    (hnone : step.receiver? settings error = none) :
    outcome (Renderer.renderNode settings libraries node) s = (.error (.failed error), step.after) ∧
      ∀ other ∈ later, other.PassesOn settings error step.after := by
  obtain ⟨hpassed, hend⟩ : (∀ other ∈ later, other.PassesOn settings error step.after) ∧
      failureOf settings libraries node s = some (.failed error) := by
    have hreaches := reaches_receiver settings libraries node s hsteps hfailure
    rwa [hnone] at hreaches
  refine ⟨?_, hpassed⟩
  obtain ⟨steps, hrecorded, hunwinds⟩ :=
    Recorded.unwinding_renderNode settings libraries node { state := s }
  obtain rfl : steps = pre ++ step :: later := by
    rw [← hsteps]
    exact hrecorded.symm
  rw [failureOf_eq] at hend
  obtain ⟨last, hlast, -, hafter⟩ := hunwinds.failed error hend
  -- Every later step only handed the error on, so the last one left what this one had left.
  have hstate : last.after = step.after := by
    have hmem : last ∈ step :: later := by
      rw [List.getLast?_append_of_ne_nil _ (List.cons_ne_nil step later)] at hlast
      exact List.mem_of_getLast? hlast
    rcases List.mem_cons.mp hmem with rfl | hmem
    · rfl
    · exact (hpassed last hmem).after
  rw [Recorded.erases_renderNode settings libraries node { state := s }, ← hstate, hafter]
  revert hend
  cases (outcome (Recorded.renderNode settings libraries node) { state := s }).1 with
  | error stop =>
      intro hend
      obtain rfl := Option.some.inj hend
      rfl
  | ok _ => nofun

/-- An error that is not to be recovered from is how the rendering ends, whatever handlers there
are around the element that it is raised on: all of them hand it on, and nothing changes after
it. -/
theorem fatal_error_ends_rendering
    (hsteps : Recorded.stepsOf settings libraries node s = pre ++ step :: later)
    (hfailure : step.failure = some (.failed error)) (hfatal : error.isRecoverable = false) :
    outcome (Renderer.renderNode settings libraries node) s = (.error (.failed error), step.after) ∧
      ∀ other ∈ later, other.PassesOn settings error step.after :=
  outcome_of_receiver?_eq_none hsteps hfailure (receiver?_of_not_isRecoverable hfatal)

/-- A page with a paragraph that has an error handler and is repeated. Its child has both a content
and a replacement, and an error handler of its own. -/
def clashingPage : Document where
  nodes := #[
    { kind := .root, children := [1] },
    { kind := .element (.named "r"), parent := some 0, children := [2] },
    { kind := .element {
        name := .parse "p"
        attributes := [⟨.parse "tal:repeat", "item here"⟩,
          ⟨.parse "tal:on-error", "string:recovered"⟩] },
      parent := some 1, children := [3] },
    { kind := .element {
        name := .parse "b"
        attributes := [⟨.parse "tal:content", "item"⟩, ⟨.parse "tal:replace", "item"⟩,
          ⟨.parse "tal:on-error", "string:recovered"⟩] },
      parent := some 2 }]

/-- The step failed with an error that is not to be recovered from. -/
def Step.failsFatally (step : Step) : Bool :=
  match step.failure with
  | some (.failed error) => !error.isRecoverable
  | _ => false

theorem fatal_error_ends_rendering_clashingPage :
    let s := Renderer.start clashingPage (.list [.int 1, .int 2]) {}
    ∃ pre step later error, Recorded.stepsOf {} [] 1 s = pre ++ step :: later ∧
      step.failure = some (.failed error) ∧ error.isRecoverable = false ∧
      outcome (Renderer.renderNode {} [] 1) s = (.error (.failed error), step.after) ∧
      ∀ other ∈ later, other.PassesOn {} error step.after := by
  intro s
  have hfails : (Recorded.stepsOf {} [] 1 s).any (·.failsFatally) := by decide +kernel
  obtain ⟨step, hmem, hstep⟩ := List.any_eq_true.mp hfails
  obtain ⟨pre, later, hsteps⟩ := List.append_of_mem hmem
  unfold Step.failsFatally at hstep
  split at hstep
  next error hfailure =>
    have hfatal : error.isRecoverable = false := by simpa using hstep
    exact ⟨pre, step, later, error, hsteps, hfailure, hfatal,
      fatal_error_ends_rendering hsteps hfailure hfatal⟩
  next => cases hstep

end PageTemplate.Walk
