import PageTemplate.Proofs.Walk.FrozenMacros
import PageTemplate.Proofs.Walk.Invariants
import PageTemplate.Proofs.Walk.NotedWalks
import PageTemplate.Proofs.Walk.Termination

/-! # Annotation only adds comments

A rendering with source comments gives the result of the rendering without them. Its document is
the other one with the comments that were made for the elements, each of them once.
-/

namespace PageTemplate

open Markup Document Stage

/-- The settings without source comments. -/
def Settings.plain (settings : Settings) : Settings := { settings with sourceComments := false }

namespace Walk.Recorded

variable {settings : Settings} {libraries : List Document} {node : NodeId} {s t : RenderState}
  {stage : Stage}

theorem Ready.plain (h : Ready settings node s) : Ready settings.plain node s :=
  ⟨h.linked, h.kind_root, h.attached, h.element, h.visitors,
    ⟨h.faithful.functions, h.faithful.modules, h.faithful.options⟩, h.globals⟩

theorem Ready.annotated (h : Ready settings node s) : Ready settings.annotated node s :=
  ⟨h.linked, h.kind_root, h.attached, h.element, h.visitors,
    ⟨h.faithful.functions, h.faithful.modules, h.faithful.options⟩, h.globals⟩

theorem Opens.annotated (h : Opens stage settings libraries s t) :
    Opens stage.annotated settings.annotated libraries s t :=
  ⟨h.published, congrArg Settings.annotated h.settings_eq, h.origin_eq, h.base_eq, h.grown,
    h.sound.kept, h.sound.globals⟩

/-- The two recordings are the same but for comments, and so are their trees. -/
def NotedTrees (stage : Stage) (r r' : Recording) : Prop :=
  ∃ M, M root root ∧ Noted stage M r r' ∧ r.state.document.WellLinked ∧
    r'.state.document.WellLinked

theorem NotedTrees.cleaned {r r' : Recording} (h : NotedTrees stage r r') (v : Vocabularies) :
    NotedTrees stage
      { r with state := { r.state with
        document := Cleanup.removeDirectives v r.state.document root } }
      { r' with state := { r'.state with
        document := Cleanup.removeDirectives v r'.state.document root } } := by
  obtain ⟨M, hroot, hnoted, hlinked, hlinked'⟩ := h
  exact ⟨M, hroot,
    ⟨Cleanup.noted_removeDirectives hnoted.documents hroot hlinked hlinked', hnoted.globals,
      hnoted.cache, hnoted.cache'⟩,
    (Cleanup.confined_removeDirectives hlinked).linked,
    (Cleanup.confined_removeDirectives hlinked').linked⟩

/-- Every step of a walk that has gone well is allowed. -/
theorem allAllowed_of_logged {α : Type} {m : Recorded α} {r : Recording} {E : Stop → Prop}
    (h : Ensures m r (fun _ r' => stage.Logged r') fun stop r' => E stop ∧ stage.Logged r') :
    stage.AllAllowed (outcome m r).2.steps :=
  (h.mono (fun _ _ => id) fun _ _ => And.right).state.allowed

/-- Source comments have nothing to do with the macros. -/
theorem publishMacros_plain (settings : Settings) (libraries : List Document) :
    Renderer.publishMacros settings.plain libraries = Renderer.publishMacros settings libraries :=
  rfl

/-- What is left of a rendering when the macros have been published. -/
theorem outcome_renderNode (hopens : Opens stage settings libraries s t) (node : NodeId) :
    outcome (renderNode settings libraries node) { state := s } =
      outcome (do
        render settings (bound settings t.document.size) [] (.ofNode t.document node {})
        if settings.cleanup then
          unrecorded <| Rendering.changeDocument
            (Cleanup.removeDirectives settings.vocabularies · root)) { state := t } := by
  have hpublished : outcome (unrecorded (Renderer.publishMacros settings libraries))
      ({ state := s } : Recording) = (.ok (), { state := t }) := by
    rw [outcome_unrecorded, hopens.published]
  have hdocument : outcome (unrecorded Rendering.document) ({ state := t } : Recording) =
      (.ok t.document, { state := t }) := rfl
  unfold renderNode
  rw [outcome_bind_ok hpublished, outcome_bind_ok hdocument]

/-- The renderings of a node with and without source comments end alike. -/
theorem endAlike_renderNode (hopens : Opens stage settings libraries s t)
    (h : Ready settings node s) (hplain : settings.sourceComments = false)
    (hcache : s.cache.IsFaithful) :
    EndAlike (fun _ r _ r' => NotedTrees stage r r') (SameError (NotedTrees stage))
      (outcome (renderNode settings libraries node) { state := s })
      (outcome (renderNode settings.annotated libraries node) { state := s }) := by
  have hnode := lt_size_of_isElement (hopens.grown.elements node h.element)
  have hcache' : t.cache.IsFaithful := by
    have hfaithful : (outcome (Renderer.publishMacros settings libraries) s).2.cache.IsFaithful :=
      isFaithful_cache_published hcache
    rwa [hopens.published] at hfaithful
  have hwalk := ensures_walk hopens h.begins
  have hwalk' := ensures_walk hopens.annotated h.annotated.begins
  have hvisitors := h.visitors
  rw [outcome_renderNode hopens, outcome_renderNode hopens.annotated]
  obtain rfl := hopens.settings_eq
  let M : NodeId → NodeId → Prop := fun n n' => n' = n ∧ n < t.document.size
  have hctx : (Context.ofNode t.document node {}).Paired M (.ofNode t.document node {}) :=
    ⟨node, ⟨rfl, hnode⟩, rfl⟩
  have hstart : Noted stage M { state := t } { state := t } :=
    ⟨noted_self hopens.grown.linked, rfl, hcache', hcache'⟩
  have hwalks := (annotating_render hvisitors hplain (bound stage.settings t.document.size) hctx M
    le_rfl _ _ (allAllowed_of_logged hwalk) (allAllowed_of_logged hwalk') hstart).ensured hwalk
      hwalk'
  have hroot : M root root := ⟨rfl, Nat.zero_lt_of_lt hnode⟩
  have htrees : ∀ {M' r r'}, M ≤ M' → Noted stage M' r r' → stage.Logged r →
      stage.annotated.Logged r' → NotedTrees stage r r' := fun hM hnoted hlogged hlogged' =>
    ⟨_, hM _ _ hroot, hnoted, hlogged.sound.kept.linked, hlogged'.sound.kept.linked⟩
  refine EndAlike.bind (R := fun _ r _ r' => NotedTrees stage r r') (hwalks.mono ?_ ?_) ?_
  · rintro _ r _ r' ⟨⟨M', hM, hnoted, -⟩, hlogged, hlogged'⟩
    exact htrees hM hnoted hlogged hlogged'
  · rintro stop r stop' r' ⟨⟨hstop, M', hM, hnoted⟩, ⟨-, hlogged⟩, -, hlogged'⟩
    exact ⟨hstop, htrees hM hnoted hlogged hlogged'⟩
  · intro _ r _ r' hnoted
    show EndAlike _ _ (outcome (if stage.settings.cleanup then _ else _) r)
      (outcome (if stage.settings.cleanup then _ else _) r')
    split
    · exact .ok (hnoted.cleaned _)
    · exact .ok hnoted

/-- What elements are annotated with is made after the macros have been published. -/
theorem le_of_isNote (hopens : Opens stage settings libraries s t) (h : Begins settings node s)
    {n : NodeId} (hn : stage.IsNote (stepsOf settings libraries node s) n) :
    t.document.size ≤ n := by
  obtain ⟨p, hfield, hplaced, hpending⟩ := hopens.first h
  have hrenders : Renders stage (bound settings t.document.size) := renders _
  have hrender := hrenders _ p _ [] _ _ hfield hplaced hpending (Nat.le_refl _) nofun
  rw [hopens.settings_eq] at hrender
  have hnew : ∀ {r}, stage.Goes (t.document.own node) p ⟨t, []⟩ r → ∀ n, stage.IsNote r.steps n →
      t.document.size ≤ n := fun hgoes n hn => (hgoes.notes n hn).resolve_left (by rintro ⟨-, ⟨⟩⟩)
  have hall : Ensures (renderNode settings libraries node) ⟨s, []⟩
      (fun _ r => ∀ n, stage.IsNote r.steps n → t.document.size ≤ n)
      fun _ r => ∀ n, stage.IsNote r.steps n → t.document.size ≤ n := by
    unfold renderNode
    refine Ensures.bind (ensures_unrecorded (.of_eq _ hopens.published ?_))
    refine Ensures.bind (ensures_document (Ensures.bind ?_))
    refine hrender.mono (fun _ r hgoes => ?_) fun _ _ hstops => hnew hstops.2
    split
    · exact ensures_unrecorded (Rendering.ensures_changeDocument fun n hn => hnew hgoes n hn)
    · exact Ensures.pure (hnew hgoes)
  exact hall.state n hn

end Walk.Recorded

namespace Walk

open Recorded

variable {settings : Settings} {node : NodeId} {s : RenderState}

/-- Without the comments the second tree is the first one. The comments are different nodes. -/
theorem Recorded.NotedTrees.without {stage : Stage} {r r' : Recording} (h : NotedTrees stage r r')
    {notes : List NodeId} (hnotes : stage.notesIn r'.steps = notes) :
    (r'.state.document.without notes).tree root = r.state.document.tree root ∧ notes.Nodup ∧
      ∀ n ∈ notes, ∃ text, r'.state.document.kind n = .comment text := by
  obtain ⟨M, hroot, hnoted, hlinked, hlinked'⟩ := h
  obtain rfl := hnotes
  have hground : r.state.document.Grounded root :=
    ⟨hlinked, (hnoted.documents.lt hroot).1, root, hlinked.parent_root, .refl⟩
  exact ⟨hnoted.documents.tree_without hroot hground hlinked', hnoted.documents.nodup,
    hnoted.documents.comment⟩

/-- What the two renderings end with, when the macros have been published. -/
theorem renderNode_without {stage : Stage} {t : RenderState} {libraries : List Document}
    (h : Ready settings node s) (hcache : s.cache.IsFaithful)
    (hopens : Opens stage settings.plain libraries s t) :
    let notes := notesOf settings.annotated (stepsOf settings.annotated libraries node s)
    (outcome (Renderer.renderNode settings.annotated libraries node) s).1 =
        (outcome (Renderer.renderNode settings.plain libraries node) s).1 ∧
      ((outcome (Renderer.renderNode settings.annotated libraries node) s).2.document.without
          notes).tree root =
        (outcome (Renderer.renderNode settings.plain libraries node) s).2.document.tree root ∧
      notes.Nodup ∧ ∀ n ∈ notes, ∃ text,
        (outcome (Renderer.renderNode settings.annotated libraries node) s).2.document.kind n =
          .comment text := by
  intro notes
  have hends := endAlike_renderNode hopens h.plain rfl hcache
  have hnotes : ∀ steps, stage.notesIn steps = notesOf settings.annotated steps := fun steps =>
    congrArg (notesOf · steps) hopens.annotated.settings_eq
  have hsame := erases_renderNode settings.plain libraries node { state := s }
  have hsame' := erases_renderNode settings.annotated libraries node { state := s }
  unfold notes stepsOf
  rw [show outcome (Renderer.renderNode settings.plain libraries node) s = _ from hsame,
    show outcome (Renderer.renderNode settings.annotated libraries node) s = _ from hsame']
  change EndAlike _ _ _ (outcome (renderNode settings.annotated libraries node) _) at hends
  generalize outcome (renderNode settings.plain libraries node) _ = o,
    outcome (renderNode settings.annotated libraries node) _ = o' at hends ⊢
  cases hends with
  | ok htrees => exact ⟨rfl, htrees.without (hnotes _)⟩
  | error htrees =>
      obtain ⟨rfl, htrees⟩ := htrees
      exact ⟨rfl, htrees.without (hnotes _)⟩

/-- The rendering of a document with source comments is the one without them and some comments. -/
structure AddsComments (settings : Settings) (libraries : List Document) (node : NodeId)
    (s : RenderState) : Prop where
  /-- Both renderings end well, or they fail with the same error. -/
  result_eq : (outcome (Renderer.renderNode settings.annotated libraries node) s).1 =
    (outcome (Renderer.renderNode settings.plain libraries node) s).1
  /-- Without the comments that elements were annotated with, the trees are the same. -/
  tree_eq : ((outcome (Renderer.renderNode settings.annotated libraries node) s).2.document.without
      (notesOf settings.annotated (stepsOf settings.annotated libraries node s))).tree root =
    (outcome (Renderer.renderNode settings.plain libraries node) s).2.document.tree root
  /-- Every comment is made once. -/
  nodup : (notesOf settings.annotated (stepsOf settings.annotated libraries node s)).Nodup
  comment : ∀ n ∈ notesOf settings.annotated (stepsOf settings.annotated libraries node s), ∃ text,
    (outcome (Renderer.renderNode settings.annotated libraries node) s).2.document.kind n =
      .comment text
  /-- No comment lies below the element that a macro is expanded for or a directive works on. -/
  clear : ∀ earlier step later,
    stepsOf settings.annotated libraries node s = earlier ++ step :: later →
    step.task.recovers = false →
    ∀ n, step.before.document.Below step.ctx.node n → n ∉ notesOf settings.annotated earlier
  /-- No comment lies below a macro. -/
  macros : ∀ reference, Registered (outcome (Renderer.publishMacros settings libraries) s).2
      reference →
    ∀ step ∈ stepsOf settings.annotated libraries node s,
      ∀ n, step.before.document.Below reference.element n →
        n ∉ notesOf settings.annotated (stepsOf settings.annotated libraries node s)

/-- A rendering with source comments ends as the one without them does. Taking the comments that
were made for the elements out of its document leaves the tree of the other document. -/
theorem annotation_adds_comments (libraries : List Document) (h : Ready settings node s)
    (hcache : s.cache.IsFaithful) : AddsComments settings libraries node s := by
  obtain ⟨stage, t, hopens⟩ := h.plain.begins.exists_opens libraries
  have hopens' : Opens stage.annotated settings.annotated libraries s t := hopens.annotated
  have hbegins := h.annotated.begins
  have hvisitors : stage.annotated.settings.visitors = [] := hopens'.settings_eq ▸ h.visitors
  obtain ⟨hresult, htree, hnodup, hcomment⟩ := renderNode_without h hcache hopens
  refine ⟨hresult, htree, hnodup, hcomment, fun earlier step later hsteps htask n hn hnote => ?_,
    fun reference hreference step hstep n hn hnote => ?_⟩
  · have hallows := hopens'.allows hbegins hsteps
    exact (hallows.finds htask).clear n hn ⟨hvisitors, hopens'.settings_eq ▸ hnote⟩
  · rw [← publishMacros_plain, hopens.published] at hreference
    obtain ⟨earlier, later, hsteps⟩ := List.append_of_mem hstep
    have hsound := (hopens'.allows hbegins hsteps).sound
    obtain ⟨⟨top, hapart, hbelow⟩, -⟩ := hreference.of_allMacros hopens'.sound.globals
    have hkept := (kept_apart hsound.kept hapart).1
    have hbase : stage.base.Below top n := (hkept n).mp (((hkept _).mpr hbelow).trans hn)
    have hlt : n < t.document.size := hopens.base_eq ▸ stage.linked.below_lt hbase hapart.lt
    have hnote : stage.annotated.IsNote (stepsOf settings.annotated libraries node s) n :=
      ⟨hvisitors, hopens'.settings_eq ▸ hnote⟩
    exact Nat.not_lt_of_le (le_of_isNote hopens' hbegins hnote) hlt

section Examples

/-- The page on which a macro is used twice gets four comments. -/
theorem annotation_adds_comments_twicePage :
    Ready {} 1 twiceState ∧ twiceState.cache.IsFaithful ∧
      (notesOf (Settings.annotated {}) (stepsOf (Settings.annotated {}) [] 1 twiceState)).length = 4 ∧
      AddsComments {} [] 1 twiceState :=
  ⟨ready_twicePage, ExpressionCache.isFaithful_empty, by decide +kernel,
    annotation_adds_comments [] ready_twicePage ExpressionCache.isFaithful_empty⟩

/-- A page that uses the macro `m` once. -/
def hostedPage : Document where
  nodes := #[
    { kind := .root, children := [1] },
    { kind := .element {
        name := .parse "r", attributes := [⟨.parse "tal:define", "k j | string:m; j string:z"⟩] },
      parent := some 0, children := [2] },
    { kind := .element {
        name := .parse "p"
        attributes := [⟨.parse "metal:use-macro", "options/?k | default"⟩] },
      parent := some 1 }]

/-- The host brings along a macro that is the page itself. -/
def hostedSettings : Settings := { options := [("m", .macroRef ⟨"m", root⟩)] }

/-- A macro from elsewhere can be the page that is being annotated: its expansion copies the comment
before the root element. -/
theorem not_annotation_adds_comments_hostedPage :
    let s := Renderer.start hostedPage (.map []) {}
    hostedSettings.visitors = [] ∧ s.document.WellLinked ∧ s.document.isElement 1 = true ∧
      (outcome (Renderer.renderNode hostedSettings.plain [] 1) s).1 = .ok () ∧
      ¬ AddsComments hostedSettings [] 1 s := by
  intro s
  refine ⟨rfl, by decide +kernel, by decide +kernel, eq_ok_of_toOption (by decide +kernel), fun h => ?_⟩
  have hsize : (((outcome (Renderer.renderNode hostedSettings.annotated [] 1) s).2.document.without
      (notesOf hostedSettings.annotated (stepsOf hostedSettings.annotated [] 1 s))).tree root).size ≠
      ((outcome (Renderer.renderNode hostedSettings.plain [] 1) s).2.document.tree root).size := by
    decide +kernel
  exact hsize (congrArg Tree.size h.tree_eq)

end Examples

end Walk

end PageTemplate
