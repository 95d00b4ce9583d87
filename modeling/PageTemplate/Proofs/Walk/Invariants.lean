import PageTemplate.Proofs.Walk.Agreement
import PageTemplate.Proofs.Walk.Phases

/-! # What holds at every moment of a walk

A walk changes the state by the steps that it records and by nothing else. So a property of states
that every genuine step keeps holds before and after each recorded step, and when the walk ends.
-/

namespace PageTemplate.Walk.Recorded

open Markup

variable {settings : Settings} {inv : Recording → Prop} {α : Type}

theorem holds_document : Holds inv (unrecorded Rendering.document) :=
  fun _ hr => .of_state hr

theorem holds_renderChild {fuel : Nat} {path : List Enclosure}
    (hrender : ∀ path entry, Holds inv (render settings fuel path entry)) (ctx : Context)
    (child : NodeId) : Holds inv (renderChild (render settings fuel path) ctx child) :=
  holds_document.bind fun _ => hrender _ _

section

variable (hinv : ∀ r step, Genuine settings step → step.before = r.state → inv r →
  inv ⟨step.after, r.steps ++ [step]⟩)

include hinv

theorem holds_record {task : Task} {path : List Enclosure} {ctx : Context} {step : Rendering α}
    (hgenuine : ∀ s, Genuine settings (taken task path ctx step s)) :
    Holds inv (record task path ctx step) := by
  intro r hr
  refine .of_state ?_
  rw [outcome_record]
  exact hinv r _ (hgenuine r.state) rfl hr

theorem holds_guarded {path : List Enclosure} {ctx : Context} {m : Recorded α}
    (hm : Holds inv m) : Holds inv (guarded settings path ctx m) := by
  intro r hr
  refine Ensures.tryCatch (Ensures.map ((hm r hr).mono (fun _ _ => id) fun stop t ht => ?_))
  cases stop with
  | failed error =>
      have hrecover := holds_record hinv (.recover error path ctx)
      exact (hrecover.bind fun _ => .pure none) t ht
  | exhausted => exact Ensures.throw ht

theorem holds_runHandler (path : List Enclosure) (handler : Handler) (contexts : List Context) :
    Holds inv (runHandler settings path handler contexts) := by
  refine .bind (.mapM (fun ctx => ?_) _) fun _ => .pure _
  exact holds_guarded hinv (holds_record hinv (.handle handler path ctx)).map

theorem holds_runHandlers (path : List Enclosure) (start : Handed) (handlers : List Handler) :
    Holds inv (runHandlers settings path start handlers) := by
  refine .foldlM (fun handed handler => ?_) handlers start
  exact (holds_runHandler hinv path handler handed.contexts).bind fun _ => .pure _

theorem holds_renderWithin {fuel : Nat} {path : List Enclosure} {entry : Context}
    {start : RenderState}
    (hrender : ∀ path entry, Holds inv (render settings fuel path entry)) (ctx : Context) :
    Holds inv (renderWithin settings fuel path entry start ctx) := by
  unfold renderWithin
  split
  · refine (holds_guarded hinv ?_).bind fun _ => .pure ()
    exact holds_document.bind fun d => .forM (holds_renderChild hrender _) _
  · exact .pure ()

theorem holds_render (fuel : Nat) (path : List Enclosure) (entry : Context) :
    Holds inv (render settings fuel path entry) := by
  induction fuel generalizing path entry with
  | zero => exact fun _ hr => Ensures.throw hr
  | succ fuel ih =>
      rw [render_succ]
      refine Holds.bind (fun _ hr => Ensures.get hr) fun start => ?_
      refine (holds_guarded hinv (holds_record hinv (.prepare path entry))).bind fun found => ?_
      cases found with
      | none => exact .pure ()
      | some ctx =>
          refine (holds_runHandlers hinv _ _ _).bind fun handed => ?_
          exact .bind (.forM (holds_renderWithin hinv ih) _) fun _ => .forM (fun _ => ih _ _) _

end

/-! ## Properties of states -/

variable {good : RenderState → Prop}

/-- The property holds now and held before and after each step so far. -/
structure Held (good : RenderState → Prop) (r : Recording) : Prop where
  now : good r.state
  before : ∀ step ∈ r.steps, good step.before
  after : ∀ step ∈ r.steps, good step.after

theorem held_start {s : RenderState} (h : good s) : Held good ⟨s, []⟩ :=
  ⟨h, List.forall_mem_nil _, List.forall_mem_nil _⟩

section

variable (hgood : ∀ step, Genuine settings step → good step.before → good step.after)

include hgood

theorem held_taken (r : Recording) (step : Step) (hstep : Genuine settings step)
    (hbefore : step.before = r.state) (h : Held good r) :
    Held good ⟨step.after, r.steps ++ [step]⟩ := by
  have hnow : good step.before := hbefore ▸ h.now
  have hnext := hgood step hstep hnow
  exact ⟨hnext, List.forall_mem_append.mpr ⟨h.before, List.forall_mem_singleton.mpr hnow⟩,
    List.forall_mem_append.mpr ⟨h.after, List.forall_mem_singleton.mpr hnext⟩⟩

/-- What publishing the macros brings about, every step keeps and cleaning up keeps, holds at every
moment of a rendering. -/
theorem held_renderNode {libraries : List Document} {node : NodeId} {s : RenderState}
    (hpublished : good (outcome (Renderer.publishMacros settings libraries) s).2)
    (hcleaned : ∀ t, good t → good { t with
      document := Cleanup.removeDirectives settings.vocabularies t.document Document.root }) :
    Held good (outcome (renderNode settings libraries node) { state := s }).2 := by
  have hstart : Held good (outcome (unrecorded (Renderer.publishMacros settings libraries))
      { state := s }).2 := by
    rw [outcome_unrecorded]
    exact held_start hpublished
  have hrest : ∀ d : Document, Holds (Held good) (do
      render settings (bound settings d.size) [] (.ofNode d node {})
      if settings.cleanup then
        unrecorded <| Rendering.changeDocument
          (Cleanup.removeDirectives settings.vocabularies · Document.root)) := by
    refine fun d => (holds_render (held_taken hgood) _ _ _).bind fun _ => ?_
    split
    · exact fun r hr => .of_state ⟨hcleaned r.state hr.now, hr.before, hr.after⟩
    · exact .pure ()
  have hrun : Ensures (renderNode settings libraries node) { state := s } (fun _ => Held good)
      fun _ => Held good :=
    Ensures.bind ((Ensures.of_state hstart).mono
      (fun _ r hr => (holds_document.bind hrest) r hr) fun _ _ => id)
  exact hrun.state

end

/-- Every step leaves a faithful cache faithful. -/
theorem isFaithful_of_genuine (hvisitors : settings.visitors = []) (step : Step)
    (hstep : Genuine settings step) (hcache : step.before.cache.IsFaithful) :
    step.after.cache.IsFaithful := by
  cases hstep with
  | prepare path ctx s =>
      exact isFaithful_cache_outcome (agree_prepare hvisitors (.refl ctx)) hcache
  | handle handler path ctx s =>
      exact isFaithful_cache_outcome (handler.agree_handle settings (.refl ctx)) hcache
  | recover error path ctx s =>
      exact isFaithful_cache_outcome (OnError.agree_recover settings (.refl ctx) error) hcache

theorem isFaithful_cache_published {libraries : List Document} {s : RenderState}
    (hcache : s.cache.IsFaithful) :
    (outcome (Renderer.publishMacros settings libraries) s).2.cache.IsFaithful := by
  have hpublish : Agree settings False Eq (Renderer.publishMacros settings libraries)
      (Renderer.publishMacros settings libraries) :=
    (Agree.createIn _).next fun imported => (Agree.createIn _).next fun macros => .bindGlobal _ _
  exact isFaithful_cache_outcome hpublish hcache

/-- The cache is faithful at every moment of a rendering that begins with a faithful one. -/
theorem isFaithful_cache (hvisitors : settings.visitors = []) {libraries : List Document}
    {node : NodeId} {s : RenderState} (hcache : s.cache.IsFaithful) :
    ∀ step ∈ stepsOf settings libraries node s, step.before.cache.IsFaithful := by
  have hheld : Held (fun t => t.cache.IsFaithful)
      (outcome (renderNode settings libraries node) { state := s }).2 :=
    held_renderNode (isFaithful_of_genuine hvisitors) (isFaithful_cache_published hcache)
      fun _ => id
  exact hheld.before

end PageTemplate.Walk.Recorded
