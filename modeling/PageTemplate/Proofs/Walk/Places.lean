import PageTemplate.Proofs.Render.CheckedExpanding
import PageTemplate.Proofs.Walk.Termination

/-! # A rendering never loses its place in the tree

Contexts are queued: copies of a repetition, exposed children, lists of children. Whatever has been
replaced, stripped or removed by the time that a context gets its turn, its element is still an
element of the document's tree. So no edit of the tree ever fails for want of a place, and what
could have failed without a word did not fail.
-/

namespace PageTemplate

open Markup Document

namespace Walk

variable {settings : Settings} {node : NodeId} {s t : RenderState}

/-- What a step finds in the tree, and how the tree may make it fail. -/
structure KeepsPlace (settings : Settings) (step : Step) : Prop where
  attached : step.before.document.isAttached step.ctx.node = true
  element : step.before.document.isElement step.ctx.node = true
  /-- The tree makes a step fail only where the element writes a value as markup that cannot be
  read. Otherwise it is the failure of such a step that is handed on. -/
  failure : ∀ error, step.failure = some (.failed (.tree error)) → error.IsReading ∧
    (step.ctx.Misreads settings step.before.document error ∨
      step.task = .recover (.tree error))
  /-- A macro is expanded without a failure that is kept silent about. -/
  prepared : step.task = .prepare → outcome (Checked.prepare settings step.ctx) step.before =
    outcome (prepare settings step.ctx) step.before

theorem keepsPlace_of_allows {stage : Stage} {earlier : List Step} {step : Step}
    (h : stage.Allows earlier step) (hvisitors : stage.settings.visitors = []) :
    KeepsPlace stage.settings step := by
  have hground := h.grounded hvisitors
  refine ⟨(isAttached_iff hground.linked hground.lt).mpr (h.below hvisitors), h.element,
    fun error hfailure => ?_, fun htask => ?_⟩
  · have hends := h.ends _ hfailure
    refine ⟨hends.expects.isExpected hvisitors, ?_⟩
    rcases hends with hmisreads | ⟨_, htask, ⟨⟩, -⟩ | ⟨-, hobjects⟩
    · exact .inl hmisreads
    · exact .inr htask
    · exact absurd hvisitors hobjects.1
  · obtain ⟨f, hgood⟩ := h.exists_throughout hvisitors htask
    exact Checked.outcome_prepare h.sound h.admits hgood

/-- The state that a walk leaves is sound. -/
theorem sound_render {stage : Stage} {libraries : List Document}
    (hopens : Recorded.Opens stage settings libraries s t) (h : Recorded.Ready settings node s) :
    stage.Sound (outcome (render settings (bound settings t.document.size)
      (.ofNode t.document node {})) t).2 := by
  have hsame := Recorded.erases_render settings (bound settings t.document.size) []
    (.ofNode t.document node {}) { state := t }
  have hlogged := (Recorded.ensures_walk hopens h.begins).mono (fun _ _ => id) fun _ _ => And.right
  rw [show outcome (render _ _ _) t = _ from hsame]
  exact hlogged.state.sound

/-- Every step of a rendering is taken on an element of the document's tree. The tree never makes a
rendering fail, values that cannot be read as markup apart; and the failures that are kept silent
about in publishing and expanding macros and in removing directives never happen. -/
theorem rendering_keeps_places (libraries : List Document) (h : Recorded.Ready settings node s) :
    let published := (outcome (Renderer.publishMacros settings libraries) s).2
    let walk := render settings (bound settings published.document.size)
      (.ofNode published.document node {})
    let walked := (outcome walk published).2.document
    (∀ step ∈ Recorded.stepsOf settings libraries node s, KeepsPlace settings step) ∧
    (∀ error, failureOf settings libraries node s = some (.failed (.tree error)) →
      error.IsReading) ∧
    outcome (Checked.publishMacros settings libraries) s =
      outcome (Renderer.publishMacros settings libraries) s ∧
    outcome (Checked.removeDirectives settings.vocabularies root) walked =
      (.ok (), Cleanup.removeDirectives settings.vocabularies walked root) := by
  intro published walk walked
  obtain ⟨stage, t, hopens⟩ := h.begins.exists_opens libraries
  refine ⟨fun step hstep => ?_, fun error hfailure => ?_,
    Checked.outcome_publishMacros h.linked settings libraries,
    Checked.outcome_removeDirectives settings.vocabularies ?_⟩
  · obtain ⟨earlier, later, hsteps⟩ := List.append_of_mem hstep
    rw [← hopens.settings_eq]
    exact keepsPlace_of_allows (hopens.allows h.begins hsteps)
      (hopens.settings_eq ▸ h.visitors)
  · exact isExpected_of_failureOf hopens h hfailure
  · have hpublished : published = t := congrArg Prod.snd hopens.published
    unfold walked walk
    rw [hpublished]
    exact (sound_render hopens h).kept.linked

/-- A page with a paragraph that is repeated and shows its item as markup. -/
def repeatedPage : Document where
  nodes := #[
    { kind := .root, children := [1] },
    { kind := .element (.named "r"), parent := some 0, children := [2] },
    { kind := .element {
        name := .parse "p"
        attributes := [⟨.parse "tal:repeat", "item here"⟩,
          ⟨.parse "tal:content", "structure item"⟩] },
      parent := some 1 }]

/-- The step wrote a value as markup that cannot be read. -/
def Step.failsToRead (step : Step) : Bool :=
  match step.task, step.failure with
  | .handle .content, some (.failed (.tree _)) => true
  | _, _ => false

/-- The markup of the second item cannot be read. The copy of the paragraph that it is for is still
in its place. -/
theorem rendering_keeps_places_repeatedPage :
    let s := Renderer.start repeatedPage (.list [.string "<i/>", .string "<i"]) {}
    Recorded.Ready {} 1 s ∧
      ∃ step ∈ Recorded.stepsOf {} [] 1 s, ∃ error,
        step.failure = some (.failed (.tree error)) ∧ error.IsReading ∧
        step.ctx.Misreads {} step.before.document error ∧
        step.before.document.isAttached step.ctx.node = true := by
  intro s
  have hready : Recorded.Ready {} 1 s := by
    refine ⟨by decide +kernel, rfl, by decide +kernel, by decide +kernel, rfl,
      Settings.isFaithful_of_builtin (fun _ => rfl) rfl nofun, .list ?_, nofun⟩
    simp [Value.AllMacros.string]
  have hfails : (Recorded.stepsOf {} [] 1 s).any (·.failsToRead) := by decide +kernel
  obtain ⟨step, hmem, hstep⟩ := List.any_eq_true.mp hfails
  have hkeeps := (rendering_keeps_places [] hready).1 step hmem
  unfold Step.failsToRead at hstep
  split at hstep
  next error htask hfailure =>
    obtain ⟨hreading, hmisreads⟩ := hkeeps.failure error hfailure
    refine ⟨hready, step, hmem, error, hfailure, hreading, hmisreads.resolve_right ?_,
      hkeeps.attached⟩
    rw [htask]
    nofun
  next => cases hstep

end Walk

end PageTemplate
