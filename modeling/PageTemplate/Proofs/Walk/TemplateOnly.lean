import PageTemplate.Proofs.Walk.Termination

/-! # Values are never rendered as templates

Nodes that a content directive or an error handler makes out of a value become part of the tree in
which the walk goes on. Still no step of the walk is taken on such a node, none gives elements to
fill slots with or is copied by a repetition, and none is a macro: what is rendered stems from the
document and its libraries.
-/

namespace PageTemplate

open Markup Document

namespace Walk

variable {settings : Settings} {node : NodeId} {s : RenderState}

/-- What a step finds when nothing that is rendered was made out of values: `earlier` are the steps
before it, `origin` are the nodes of the document and its libraries, and `base` is the document in
which the macros were published. -/
structure FindsTemplate (settings : Settings) (origin : NodeKind → Prop) (base : Document)
    (earlier : List Step) (step : Step) : Prop where
  /-- No value has become the element. -/
  node : ¬ IsOutput earlier step.ctx.node
  /-- The directives of the element are attributes that an author wrote. -/
  directives : ∀ d spec value, step.ctx.directive? d spec = some value → Authored origin value
  written : ∀ attr ∈ step.ctx.written, Authored origin attr.value
  /-- What is copied or searched below the element is markup of the template. -/
  below : step.task.needsTemplate = true → ∀ n, step.before.document.Below step.ctx.node n →
    ¬ IsOutput earlier n ∧ Stems origin (step.before.document.kind n)
  fillers : step.task = .prepare →
    ∀ entry ∈ Slots.collect settings.vocabularies step.before.document step.ctx.node,
      ¬ IsOutput earlier entry.2 ∧ Stems origin (step.before.document.kind entry.2)
  /-- All macros that expressions can name were published before the walk. -/
  scope : step.ctx.scope.AllMacros (Published origin base)
  globals : step.before.globals.AllMacros (Published origin base)

/-- No step of a rendering is taken on what a value has become, or makes use of it as a template:
every element that is rendered and every directive stem from the document and its libraries. -/
theorem values_never_rendered (libraries : List Document) (h : Recorded.Ready settings node s)
    {earlier later : List Step} {step : Step}
    (hsteps : Recorded.stepsOf settings libraries node s = earlier ++ step :: later) :
    FindsTemplate settings (Origin s.document libraries)
      (outcome (Renderer.publishMacros settings libraries) s).2.document earlier step := by
  obtain ⟨stage, t, hopens⟩ := h.begins.exists_opens libraries
  have hallows := hopens.allows h.begins hsteps
  rw [hopens.published, ← hopens.origin_eq, ← hopens.base_eq]
  refine ⟨hallows.node, fun d spec value hvalue => ?_, hallows.admits.written, hallows.template,
    fun htask entry hentry => ?_, hallows.admits.scope.mono fun _ => And.left,
    hallows.sound.globals.mono fun _ => And.left⟩
  · exact step.ctx.authored_of_directive? hallows.admits hvalue
  · obtain ⟨c, hc, hbelow⟩ := Slots.exists_below_of_mem_collect hentry
    refine hallows.template ?_ entry.2 (.of_child hc hbelow)
    rw [htask]
    rfl

/-- A page that shows markup from the model: a paragraph gets it as its content, and an element
behind the paragraph is rendered after that. -/
def showingPage : Document where
  nodes := #[
    { kind := .root, children := [1] },
    { kind := .element (.named "r"), parent := some 0, children := [2, 3] },
    { kind := .element {
        name := .parse "p", attributes := [⟨.parse "tal:content", "structure here"⟩] },
      parent := some 1 },
    { kind := .element (.named "b"), parent := some 1 }]

theorem ready_showingPage :
    Recorded.Ready {} 1 (Renderer.start showingPage (.string "<i tal:content=\"x\"/>") {}) where
  linked := by decide +kernel
  kind_root := rfl
  attached := by decide +kernel
  element := by decide +kernel
  visitors := rfl
  faithful := Settings.isFaithful_of_builtin (fun _ => rfl) rfl nofun
  globals := ⟨.string _, nofun⟩

theorem values_never_rendered_showingPage :
    let s := Renderer.start showingPage (.string "<i tal:content=\"x\"/>") {}
    ∃ earlier step later, Recorded.stepsOf {} [] 1 s = earlier ++ step :: later ∧
      step.ctx.node = 3 ∧ Recorded.Ready {} 1 s ∧
      FindsTemplate {} (Origin s.document [])
        (outcome (Renderer.publishMacros {} []) s).2.document earlier step := by
  intro s
  have hstep : (Recorded.stepsOf {} [] 1 s).any (·.ctx.node == 3) := by decide +kernel
  obtain ⟨step, hmem, hnode⟩ := List.any_eq_true.mp hstep
  obtain ⟨earlier, later, hsteps⟩ := List.append_of_mem hmem
  exact ⟨earlier, step, later, hsteps, eq_of_beq hnode, ready_showingPage,
    values_never_rendered [] ready_showingPage hsteps⟩

end Walk

end PageTemplate
