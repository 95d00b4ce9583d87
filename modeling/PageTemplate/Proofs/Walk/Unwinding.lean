import Mathlib.Data.List.Chain
import PageTemplate.Proofs.Walk.Recorded

/-! # Where errors go

An error that is raised on an element goes to the elements around it, one after the other, until
one of them has an error handler. The renderings that an element lies in are these elements. A
rendering shelters what is rendered in the course of it, as long as the element has not lost its
tag: the children of an element without a tag are rendered outside of its protection.
-/

namespace PageTemplate.Walk

open Markup

/-- An element around a step, with the renderings that it lies in itself. -/
structure Place where
  ctx : Context
  path : List Enclosure
  /-- The element shelters the step: it has its tag. -/
  kept : Bool

/-- The elements of a path, innermost first. -/
def places : List Enclosure → List Place
  | [] => []
  | enclosure :: path => ⟨enclosure.ctx, path, !enclosure.stripped⟩ :: places path

/-- The elements that an error of a task can go to: the element of the task itself, unless it is
its handler that fails, and the elements around it. -/
def Task.around (ctx : Context) (path : List Enclosure) : Task → List Place
  | .recover _ => places path
  | _ => ⟨ctx, path, true⟩ :: places path

/-- The elements that have their tag. -/
def sheltering (places : List Place) : List Place := places.filter (·.kept)

namespace Step

/-- The elements that an error of the step can go to. -/
def around (step : Step) : List Place := step.task.around step.ctx step.path

/-- The step is an attempt to recover from an error in a place, made in the given state. -/
def RecoversAt (error : RenderError) (state : RenderState) (place : Place) (step : Step) : Prop :=
  step.task = .recover error ∧ step.ctx = place.ctx ∧ step.path = place.path ∧ step.before = state

/-- The error of the first step goes to the second: the nearest sheltering element around the
first recovers from it. -/
def HandsTo (first second : Step) : Prop :=
  ∀ error, first.failure = some (.failed error) →
    ∃ place, (sheltering first.around).head? = some place ∧
      second.RecoversAt error first.after place

end Step

namespace Recorded

variable {α β : Type} (settings : Settings)

/-! ## Sequences of steps that errors travel through -/

/-- In a sequence of steps no error is lost: it goes to the step that follows, or it is how the
whole sequence fails, and then it is up to the elements around the sequence. -/
structure Unwinds (outer : List Place) (steps : List Step)
    (failure : Option Stop) (final : RenderState) : Prop where
  genuine : ∀ step ∈ steps, Genuine settings step
  handed : steps.IsChain Step.HandsTo
  last : ∀ step ∈ steps.getLast?, ∀ error, step.failure = some (.failed error) →
    failure = some (.failed error) ∧ sheltering step.around = outer
  failed : ∀ error, failure = some (.failed error) →
    ∃ step ∈ steps.getLast?, step.failure = some (.failed error) ∧ step.after = final

/-- Whatever was recorded before, the steps that a rendering adds lose no error. -/
def Unwinding (outer : List Place) (m : Recorded α) : Prop :=
  ∀ r, ∃ steps, (outcome m r).2.steps = r.steps ++ steps ∧
    Unwinds settings outer steps (failure? (outcome m r).1) (outcome m r).2.state

section Rules

variable {settings} {outer : List Place} {m : Recorded α}

theorem unwinds_nil {failure : Option Stop} {final : RenderState}
    (h : ∀ error, failure ≠ some (.failed error)) : Unwinds settings outer [] failure final where
  genuine := by simp
  handed := .nil
  last := by simp
  failed := fun error herror => absurd herror (h error)

/-- The failure of a single step is up to the elements around the step. -/
theorem unwinds_singleton {step : Step} (h : Genuine settings step) :
    Unwinds settings (sheltering step.around) [step] step.failure step.after where
  genuine := by simpa using h
  handed := .singleton step
  last := by
    intro last hlast error herror
    obtain rfl : step = last := by simpa using hlast
    exact ⟨herror, rfl⟩
  failed := fun error herror => ⟨step, rfl, herror, rfl⟩

theorem Unwinds.append {outer' : List Place} {first second : List Step}
    {failure failure' : Option Stop} {middle final : RenderState}
    (hfirst : Unwinds settings outer first failure middle)
    (hsecond : Unwinds settings outer' second failure' final)
    (hhanded : ∀ step ∈ first.getLast?, ∀ error, step.failure = some (.failed error) →
      ∃ next ∈ second.head?, step.HandsTo next) :
    Unwinds settings outer' (first ++ second) failure' final := by
  constructor
  · intro step hstep
    exact (List.mem_append.mp hstep).elim (hfirst.genuine step) (hsecond.genuine step)
  · refine List.isChain_append.mpr ⟨hfirst.handed, hsecond.handed, ?_⟩
    intro step hstep next hnext error herror
    obtain ⟨next', hnext', hhands⟩ := hhanded step hstep error herror
    rw [Option.mem_unique hnext hnext']
    exact hhands error herror
  · intro step hstep error herror
    cases second with
    | nil =>
        obtain ⟨next, hnext, _⟩ := hhanded step (by simpa using hstep) error herror
        simp at hnext
    | cons next rest => exact hsecond.last step (by simpa using hstep) error herror
  · intro error herror
    obtain ⟨step, hstep, hfailure, hafter⟩ := hsecond.failed error herror
    refine ⟨step, ?_, hfailure, hafter⟩
    cases second with
    | nil => simp at hstep
    | cons next rest => simpa using hstep

/-- Steps that no error comes out of can stand anywhere. -/
theorem Unwinds.of_not_failed {outer' : List Place} {steps : List Step}
    {failure failure' : Option Stop} {final final' : RenderState}
    (h : Unwinds settings outer steps failure final)
    (hfailure : ∀ error, failure ≠ some (.failed error))
    (hfailure' : ∀ error, failure' ≠ some (.failed error)) :
    Unwinds settings outer' steps failure' final' where
  genuine := h.genuine
  handed := h.handed
  last := fun step hstep error herror =>
    absurd (h.last step hstep error herror).1 (hfailure error)
  failed := fun error herror => absurd herror (hfailure' error)

theorem unwinding_pure (a : α) : Unwinding settings outer (pure a) := fun _ =>
  ⟨[], (List.append_nil _).symm, unwinds_nil (by simp [failure?])⟩

theorem unwinding_throw_exhausted :
    Unwinding settings outer (throw .exhausted : Recorded α) := fun _ =>
  ⟨[], (List.append_nil _).symm, unwinds_nil (by simp [failure?])⟩

theorem unwinding_get : Unwinding settings outer (get : Recorded Recording) := fun _ =>
  ⟨[], (List.append_nil _).symm, unwinds_nil (by simp [failure?])⟩

/-- A step that cannot fail need not be recorded. -/
theorem unwinding_unrecorded {step : Rendering α}
    (h : ∀ s, failure? (outcome step s).1 = none) : Unwinding settings outer (unrecorded step) := by
  intro r
  refine ⟨[], (List.append_nil _).symm, unwinds_nil ?_⟩
  simp [outcome_unrecorded, h]

theorem unwinding_record {task : Task} {path : List Enclosure} {ctx : Context}
    {step : Rendering α} (h : ∀ s, Genuine settings (taken task path ctx step s)) :
    Unwinding settings (sheltering (task.around ctx path)) (record task path ctx step) := fun r =>
  ⟨[taken task path ctx step r.state], rfl, unwinds_singleton (h r.state)⟩

theorem Unwinding.bind {k : α → Recorded β} (hm : Unwinding settings outer m)
    (hk : ∀ a, Unwinding settings outer (k a)) : Unwinding settings outer (m >>= k) := by
  intro r
  obtain ⟨steps, hsteps, hunwinds⟩ := hm r
  rw [outcome_bind]
  rcases hresult : outcome m r with ⟨stop | a, r'⟩ <;> rw [hresult] at hsteps hunwinds
  · exact ⟨steps, hsteps, hunwinds⟩
  · obtain ⟨rest, hrest, hunwinds'⟩ := hk a r'
    refine ⟨steps ++ rest, hrest.trans (by rw [hsteps, List.append_assoc]), ?_⟩
    refine hunwinds.append hunwinds' ?_
    -- The first part succeeded, so its last step did not fail.
    intro step hstep error herror
    cases (hunwinds.last step hstep error herror).1

theorem Unwinding.map {f : α → β} (hm : Unwinding settings outer m) :
    Unwinding settings outer (f <$> m) := by
  rw [map_eq_pure_bind]
  exact hm.bind fun a => unwinding_pure (f a)

theorem unwinding_mapM {ι : Type} {k : ι → Recorded α} (hk : ∀ i, Unwinding settings outer (k i))
    (items : List ι) : Unwinding settings outer (items.mapM k) := by
  induction items with
  | nil => exact unwinding_pure _
  | cons i items ih =>
      rw [List.mapM_cons]
      exact (hk i).bind fun a => ih.bind fun as => unwinding_pure (a :: as)

theorem unwinding_forM {ι : Type} {k : ι → Recorded Unit} (hk : ∀ i, Unwinding settings outer (k i))
    (items : List ι) : Unwinding settings outer (items.forM k) := by
  induction items with
  | nil => exact unwinding_pure _
  | cons i items ih => exact (hk i).bind fun _ => ih

end Rules

/-- An element with its tag takes the errors of what it guards. An error that comes out of it is
one of its handler, and goes to the elements around it. -/
theorem unwinding_guarded {m : Recorded α} {path : List Enclosure} {ctx : Context}
    (hm : Unwinding settings (⟨ctx, path, true⟩ :: sheltering (places path)) m) :
    Unwinding settings (sheltering (places path)) (guarded settings path ctx m) := by
  intro r
  obtain ⟨steps, hsteps, hunwinds⟩ := hm r
  rcases hresult : outcome m r with ⟨(error | _) | a, r'⟩ <;> rw [hresult] at hsteps hunwinds
  · obtain ⟨result, next, hnext, hfailure, houtcome⟩ := outcome_guarded_failed settings hresult
    rw [houtcome, hfailure]
    refine ⟨steps ++ [next], ?_, ?_⟩
    · rw [hsteps, List.append_assoc]
    subst hnext
    have hnext : Unwinds settings _ _ _ _ :=
      unwinds_singleton (.recover error path ctx r'.state)
    refine hunwinds.append hnext ?_
    intro step hstep error' herror
    -- The step that failed is the last one, and it failed with the error that is recovered from.
    obtain ⟨last, hlast, -, hafter⟩ := hunwinds.failed error rfl
    obtain rfl := Option.mem_unique hstep hlast
    refine ⟨_, rfl, fun error'' herror'' => ⟨⟨ctx, path, true⟩, ?_, ?_⟩⟩
    · rw [(hunwinds.last step hstep error' herror).2]
      rfl
    · cases (hunwinds.last step hstep error'' herror'').1
      exact ⟨rfl, rfl, rfl, hafter.symm⟩
  · rw [outcome_guarded_exhausted settings hresult]
    exact ⟨steps, hsteps, hunwinds.of_not_failed (by simp [failure?]) (by simp [failure?])⟩
  · rw [outcome_guarded_ok settings hresult]
    exact ⟨steps, hsteps, hunwinds.of_not_failed (by simp [failure?]) (by simp [failure?])⟩

theorem unwinding_runHandler (path : List Enclosure) (handler : Handler)
    (contexts : List Context) :
    Unwinding settings (sheltering (places path)) (runHandler settings path handler contexts) := by
  have hcontext : ∀ ctx, Unwinding settings (sheltering (places path)) (guarded settings path ctx
      ((ctx, ·) <$> record (.handle handler) path ctx (handler.handle settings ctx))) := fun ctx =>
    unwinding_guarded settings (unwinding_record (.handle handler path ctx)).map
  exact (unwinding_mapM hcontext contexts).bind fun outcomes => unwinding_pure _

theorem unwinding_runHandlers (path : List Enclosure) (start : Handed) (handlers : List Handler) :
    Unwinding settings (sheltering (places path)) (runHandlers settings path start handlers) := by
  induction handlers generalizing start with
  | nil => exact unwinding_pure _
  | cons handler handlers ih =>
      unfold runHandlers
      rw [List.foldlM_cons]
      refine Unwinding.bind ?_ fun handed => ih handed
      exact (unwinding_runHandler settings path handler start.contexts).bind fun _ =>
        unwinding_pure _

theorem unwinding_document {outer : List Place} :
    Unwinding settings outer (unrecorded Rendering.document) :=
  unwinding_unrecorded fun _ => rfl

theorem unwinding_render (fuel : Nat) (path : List Enclosure) (entry : Context) :
    Unwinding settings (sheltering (places path)) (render settings fuel path entry) := by
  induction fuel generalizing path entry with
  | zero => exact unwinding_throw_exhausted
  | succ fuel ih =>
      unfold render
      refine unwinding_get.bind fun start => ?_
      have hprepare : Unwinding settings _ (record .prepare path entry (prepare settings entry)) :=
        unwinding_record (.prepare path entry)
      refine (unwinding_guarded settings hprepare).bind fun ctx? => ?_
      cases ctx? with
      | none => exact unwinding_pure _
      | some ctx =>
          refine (unwinding_runHandlers settings path _ _).bind fun handed => ?_
          refine (unwinding_forM (fun ctx => ?_) _).bind fun _ => ?_
          · split
            · refine Unwinding.bind (unwinding_guarded settings ?_) fun _ => unwinding_pure _
              refine (unwinding_document settings).bind fun d => unwinding_forM (fun node => ?_) _
              exact (unwinding_document settings).bind fun d =>
                ih (⟨entry, start.state, ctx, false⟩ :: path) _
            · exact unwinding_pure _
          · -- An element without its tag adds nothing to what shelters its children.
            refine unwinding_forM ?_ _
            rintro ⟨origin, ctx⟩
            exact ih (⟨entry, start.state, origin, true⟩ :: path) ctx

/-- No error of a rendering is lost, and one that no element shelters from is its result. -/
theorem unwinding_renderNode (libraries : List Document) (node : NodeId) :
    Unwinding settings [] (renderNode settings libraries node) := by
  refine (unwinding_unrecorded fun _ => rfl).bind fun _ => ?_
  refine (unwinding_document settings).bind fun d => ?_
  refine (unwinding_render settings _ [] _).bind fun _ => ?_
  split
  · exact unwinding_unrecorded fun _ => rfl
  · exact unwinding_pure _

/-- Every step of a rendering did what its task says. -/
theorem genuine_of_mem_stepsOf {libraries : List Document} {node : NodeId} {s : RenderState}
    {step : Step} (h : step ∈ stepsOf settings libraries node s) : Genuine settings step := by
  obtain ⟨steps, hrecorded, hunwinds⟩ := unwinding_renderNode settings libraries node ⟨s, []⟩
  obtain rfl : steps = stepsOf settings libraries node s := hrecorded.symm
  exact hunwinds.genuine step h

end Recorded

end PageTemplate.Walk
