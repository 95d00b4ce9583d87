import PageTemplate.Proofs.Render.MacroStack
import PageTemplate.Proofs.Walk.Course
import PageTemplate.Proofs.Walk.NearestHandler

/-! # Every rendering comes to an end

A use of a macro may put any number of nodes in the place of one, a repetition copies elements,
and what an omitted tag exposes is rendered anew: no size goes down. But each macro that is entered
takes from the number of macros that may still be entered, and the levels of the tree that it can
add are counted in advance.
-/

namespace PageTemplate

open Markup Document

/-- The modules that are built in make up no macros. -/
theorem Settings.isFaithful_of_builtin {settings : Settings}
    (hfunctions : ∀ name, settings.functions name = none)
    (hmodules : settings.modules = ModuleTable.builtin)
    (hoptions : ∀ entry ∈ settings.options, entry.2.MacroFree) : settings.IsFaithful := by
  refine ⟨fun name f hf => ?_, fun entry hentry => ?_, hoptions⟩
  · rw [hfunctions] at hf
    cases hf
  · rw [hmodules] at hentry
    have hmem := Keyed.mem_ofList hentry
    simp only [List.mem_cons, List.not_mem_nil, or_false] at hmem
    rcases hmem with rfl | rfl | rfl | rfl | rfl <;> trivial

namespace Walk

variable {settings : Settings} {node : NodeId} {s : RenderState}

/-- The levels that the rendering of an element may take: those of the tree below it, and those of
the macros that may still be entered, in a document that began with `size` nodes. -/
def levels (settings : Settings) (size : Nat) (d : Document) (ctx : Context) : Nat :=
  d.height ctx.node +
    (settings.maxMacroDepth - ctx.macroStack.length) * (settings.maxMacroDepth * size)

/-- The contexts that the step gives to the steps after it. -/
def Step.given (settings : Settings) (step : Step) : List Context :=
  match step.task with
  | .prepare =>
    match (outcome (prepare settings step.ctx) step.before).1 with
    | .ok ctx => [ctx]
    | .error _ => []
  | .handle handler =>
    match (outcome (handler.handle settings step.ctx) step.before).1 with
    | .ok outcome => outcome.contexts ++ outcome.exposed
    | .error _ => []
  | .recover _ => []

theorem Step.shallow_given {step : Step} (hvisitors : settings.visitors = [])
    (h : step.ctx.Shallow settings) : ∀ ctx ∈ step.given settings, ctx.Shallow settings := by
  intro ctx hctx
  unfold given at hctx
  split at hctx
  · have hreturns := returns_prepare hvisitors h step.before
    rcases houtcome : outcome (prepare settings step.ctx) step.before with ⟨stop | c, t⟩
    · rw [houtcome] at hctx
      cases hctx
    · rw [houtcome] at hctx
      obtain rfl := List.mem_singleton.mp hctx
      exact hreturns.ok_of_outcome houtcome
  next handler _ =>
    have hreturns := handler.returns_handle settings step.ctx step.before
    rcases houtcome : outcome (handler.handle settings step.ctx) step.before with ⟨stop | handed, t⟩
    · rw [houtcome] at hctx
      cases hctx
    · rw [houtcome] at hctx
      unfold Context.Shallow
      rw [hreturns.ok_of_outcome houtcome ctx hctx]
      exact h
  · cases hctx

/-- A rendering fails only as renderings may fail. -/
theorem isExpected_of_failureOf {stage : Stage} {libraries : List Document} {t : RenderState}
    {stop : Stop} (hopens : Recorded.Opens stage settings libraries s t)
    (h : Recorded.Ready settings node s)
    (hfailure : failureOf settings libraries node s = some stop) : stop.IsExpected := by
  have hensures := Recorded.ensures_renderNode hopens h.begins
  have hvisitors : stage.settings.visitors = [] := hopens.settings_eq ▸ h.visitors
  rw [failureOf_eq] at hfailure
  rcases houtcome : outcome (Recorded.renderNode settings libraries node) { state := s } with
    ⟨failed | _, r⟩
  · rw [houtcome] at hfailure
    exact Option.some.inj hfailure ▸ (hensures.bad_of_outcome houtcome).1.isExpected hvisitors
  · rw [houtcome] at hfailure
    cases hfailure

/-- A rendering comes to an end. No context lies in more macros than the settings allow, and
whenever the rendering of an element begins in the course of another one, the levels that it may
take are fewer than when that one began. -/
theorem render_terminates (libraries : List Document) (h : Recorded.Ready settings node s) :
    let size := (outcome (Renderer.publishMacros settings libraries) s).2.document.size
    failureOf settings libraries node s ≠ some .exhausted ∧
      ∀ step ∈ Recorded.stepsOf settings libraries node s,
        (∀ ctx ∈ step.ctx :: step.given settings, ctx.Shallow settings) ∧
        (step.task = .prepare → ∀ around ∈ step.path.head?,
          levels settings size step.before.document step.ctx <
            levels settings size around.start.document around.entry) := by
  intro size
  obtain ⟨stage, t, hopens⟩ := h.begins.exists_opens libraries
  have hlevels : ∀ d ctx, stage.level d ctx = levels settings size d ctx := by
    intro d ctx
    unfold Stage.level Stage.reserve
    rw [hopens.settings_eq, hopens.base_eq]
    simp only [levels, size, hopens.published]
  refine ⟨fun hfailure => ?_, fun step hstep => ?_⟩
  · exact isExpected_of_failureOf hopens h hfailure
  · obtain ⟨earlier, later, hsteps⟩ := List.append_of_mem hstep
    have hallows := hopens.allows h.begins hsteps
    have hdepth := hallows.admits.depth
    rw [hopens.settings_eq] at hdepth
    refine ⟨List.forall_mem_cons.mpr ⟨hdepth, Step.shallow_given h.visitors hdepth⟩, ?_⟩
    intro htask around haround
    rw [← hlevels, ← hlevels]
    exact hallows.descends htask around haround

/-- A page with a macro that uses itself. -/
def selfUsingPage : Document where
  nodes := #[
    { kind := .root, children := [1] },
    { kind := .element (.named "r"), parent := some 0, children := [2] },
    { kind := .element {
        name := .parse "p", attributes := [⟨.parse "metal:define-macro", "m"⟩] },
      parent := some 1, children := [3] },
    { kind := .element {
        name := .parse "b", attributes := [⟨.parse "metal:use-macro", "macros/m"⟩] },
      parent := some 2 }]

theorem ready_selfUsingPage :
    Recorded.Ready {} 1 (Renderer.start selfUsingPage (.map []) {}) where
  linked := by decide +kernel
  kind_root := rfl
  attached := by decide +kernel
  element := by decide +kernel
  visitors := rfl
  faithful := Settings.isFaithful_of_builtin (fun _ => rfl) rfl nofun
  globals := ⟨.map nofun, nofun⟩

/-- A macro that uses itself does not keep the rendering from coming to an end. -/
theorem render_terminates_selfUsingPage :
    let s := Renderer.start selfUsingPage (.map []) {}
    let size := (outcome (Renderer.publishMacros {} []) s).2.document.size
    Recorded.Ready {} 1 s ∧ failureOf {} [] 1 s ≠ some .exhausted ∧
      ∀ step ∈ Recorded.stepsOf {} [] 1 s,
        (∀ ctx ∈ step.ctx :: step.given {}, ctx.Shallow {}) ∧
        (step.task = .prepare → ∀ around ∈ step.path.head?,
          levels {} size step.before.document step.ctx <
            levels {} size around.start.document around.entry) :=
  ⟨ready_selfUsingPage, render_terminates [] ready_selfUsingPage⟩

end Walk

end PageTemplate
