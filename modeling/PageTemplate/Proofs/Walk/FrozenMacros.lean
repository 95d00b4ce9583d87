import PageTemplate.Proofs.Render.ExpansionTwins
import PageTemplate.Proofs.Walk.Invariants
import PageTemplate.Proofs.Walk.Termination

/-! # Macros never change while a document is rendered

From the moment at which the macros have been published, everything below the element of a macro
stays as it is: no directive, repetition, expansion or error handler reaches it, and the removal of
directives at the end does not either. So it does not matter when a macro is expanded: two elements
that use it, with the same fillers and where the macros of its chain name the same next ones, become
the same tree. Fillers that are written at two places make trees that differ in those places alone.
-/

namespace PageTemplate

open Markup Document

theorem Rendering.fail_bind {α β : Type} (error : RenderError) (f : α → Rendering β) :
    (Rendering.fail error >>= f) = Rendering.fail error := rfl

namespace Expansion

variable {settings : Settings} {ctx : Context}

/-- The macro that is to be expanded for an element, if there is one. -/
def wanted (settings : Settings) (ctx : Context) : Rendering (Option MacroRef) := do
  let spec := settings.vocabularies.useMacro
  match ctx.directive? (← Rendering.document) spec with
  | none => return none
  | some expression =>
    match ← resolve settings ctx ctx.node spec expression with
    | none => return none
    | some used =>
      if settings.maxMacroDepth ≤ ctx.macroStack.length then
        Rendering.fail (.macroChain (ctx.macroStack ++ [used.name])
          s!"nests use-macro deeper than the limit of {settings.maxMacroDepth}")
      else return some used

/-- The element of a macro is expanded and the expansion is put in the place of the element. -/
theorem handle_eq (settings : Settings) (ctx : Context) :
    handle settings ctx = (do
      match ← wanted settings ctx with
      | none => return ctx
      | some used => do
        let made ← expand settings ctx used
        Rendering.edit (Document.replace ctx.node [made])
        return ctx.enterMacro (← Rendering.document) made used.name) := by
  unfold handle wanted
  simp only [bind_assoc]
  congr 1
  funext d
  cases ctx.directive? d settings.vocabularies.useMacro with
  | none => rfl
  | some expression =>
      dsimp only
      rw [bind_assoc]
      congr 1
      funext found
      cases found with
      | none => rfl
      | some used =>
          dsimp only
          split
          · rw [Rendering.fail_bind]
          · rw [pure_bind]

theorem ensures_wanted {stage : Stage} {s : RenderState} (hadmits : stage.Admits ctx)
    (hglobals : s.globals.AllMacros stage.Known)
    (hcache : s.cache.IsFaithful) :
    Ensures (wanted stage.settings ctx) s
      (fun found t => ∀ used, found = some used → Recached s t ∧
        stage.Known used ∧ 1 ≤ stage.settings.maxMacroDepth)
      fun _ _ => True := by
  unfold wanted
  refine Ensures.bind (Rendering.ensures_document ?_)
  split
  · exact Ensures.pure nofun
  next expression _ =>
    have hread : Recached s (outcome (resolve stage.settings ctx ctx.node
        stage.settings.vocabularies.useMacro expression) s).2 := by
      rw [outcome_resolve hcache]
      exact ⟨_, (hcache.get expression).2, rfl⟩
    have hfound := ensures_resolve_known hadmits hglobals ctx.node
      stage.settings.vocabularies.useMacro expression
    refine Ensures.bind ((hfound.and (Ensures.of_state hread)).mono ?_ fun _ _ _ => trivial)
    rintro found t ⟨⟨-, hknown⟩, hread⟩
    cases found with
    | none => exact Ensures.pure nofun
    | some used =>
        dsimp only
        split
        · exact Rendering.ensures_fail trivial
        next hdepth =>
          refine Ensures.pure ?_
          rintro _ ⟨⟩
          exact ⟨hread, hknown used rfl, by omega⟩

end Expansion

namespace Walk

variable {settings : Settings} {node : NodeId} {s : RenderState}

/-- The macro is among those that have been published. -/
def Registered (t : RenderState) (reference : MacroRef) : Prop :=
  ∃ macros name, t.globals.lookup macrosBinding = some (.map macros) ∧
    (name, .macroRef reference) ∈ macros

theorem Registered.of_allMacros {P : MacroRef → Prop} {t : RenderState} {reference : MacroRef}
    (h : Registered t reference) (hglobals : t.globals.AllMacros P) : P reference := by
  obtain ⟨macros, name, hlookup, hentry⟩ := h
  have hmacros := hglobals.bindings _ (Keyed.mem_of_lookup hlookup)
  cases hmacros with
  | map hentries =>
      have hvalue := hentries _ hentry
      cases hvalue with
      | macroRef hreference => exact hreference

/-- In the step a macro is expanded for the element. -/
def Step.Expands (settings : Settings) (used : MacroRef) (step : Step) : Prop :=
  step.task = .prepare ∧
    (outcome (Expansion.wanted settings step.ctx) step.before).1 = .ok (some used)

/-- The tree that the expansion in the step gives, or the reason why it gives none. -/
def Step.expansion (settings : Settings) (used : MacroRef) (step : Step) : Except Stop Tree :=
  Expansion.expanded settings step.ctx used
    (outcome (Expansion.wanted settings step.ctx) step.before).2

/-- The elements that fill slots are the same in both steps: their slots have the same names, and
their trees are the same in the view. In the bare view it does not count where in a source they were
written. -/
def Step.SameFillers (settings : Settings) (view : View) (step step' : Step) : Prop :=
  Keyed.Matches (fun n n' => view.tree (step'.before.document.tree n') =
      view.tree (step.before.document.tree n))
    (Slots.collect settings.vocabularies step.before.document step.ctx.node)
    (Slots.collect settings.vocabularies step'.before.document step'.ctx.node)

/-- Where a macro of the chain extends another one, the expression by which it does has the same
value in both steps. Other expressions may have other values: attributes of the elements that use
the macro, local definitions and repetitions may differ. -/
def Step.SameValues (settings : Settings) (used : MacroRef) (step step' : Step) : Prop :=
  Expansion.SameValues settings used step.ctx step'.ctx step.before step'.before

/-! ## Nothing reaches a macro -/

section

variable {stage : Stage} {t : RenderState}

/-- What lies below a published macro is in every state of a walk what it was at the beginning. -/
theorem node_eq_of_published (hsound : stage.Sound t) {reference : MacroRef}
    (h : Published stage.origin stage.base reference) {n : NodeId}
    (hn : stage.base.Below reference.element n) : t.document.node n = stage.base.node n := by
  obtain ⟨top, hapart, hbelow⟩ := h
  exact (Stage.kept_apart hsound.kept hapart).2 n (hbelow.trans hn)

/-- The state in which a rendering ends is that in which its record ends. -/
theorem sound_renderNode {libraries : List Document}
    (hopens : Recorded.Opens stage settings libraries s t) (h : Recorded.Ready settings node s) :
    stage.Sound (outcome (Renderer.renderNode settings libraries node) s).2 := by
  have hsame := Recorded.erases_renderNode settings libraries node { state := s }
  have hlogged := (hopens.logged h.begins).sound
  rw [show outcome (Renderer.renderNode settings libraries node) s = _ from hsame]
  exact hlogged

/-! ## Expansions do not depend on the moment -/

/-- A step that is allowed expands macros of the stage only, and only the cache of expressions has
changed when it begins to do so. -/
theorem Step.Expands.of_allows {earlier : List Step} {used : MacroRef} {step : Step}
    (h : step.Expands stage.settings used) (hallows : stage.Allows earlier step)
    (hcache : step.before.cache.IsFaithful) :
    Expansion.Recached step.before
        (outcome (Expansion.wanted stage.settings step.ctx) step.before).2 ∧
      stage.Known used ∧ 1 ≤ stage.settings.maxMacroDepth := by
  have hwanted := Expansion.ensures_wanted hallows.admits hallows.sound.globals hcache
  exact hwanted.ok_of_outcome (Prod.ext h.2 rfl) used rfl

theorem expansion_eq {earlier earlier' : List Step} {used : MacroRef} {step step' : Step}
    {view : View} (hvisitors : stage.settings.visitors = [])
    (hallows : stage.Allows earlier step) (hallows' : stage.Allows earlier' step')
    (hcache : step.before.cache.IsFaithful) (hcache' : step'.before.cache.IsFaithful)
    (h : step.Expands stage.settings used) (h' : step'.Expands stage.settings used)
    (hfillers : step.SameFillers stage.settings view step')
    (hvalues : step.SameValues stage.settings used step') :
    (step.expansion stage.settings used).map view.tree =
      (step'.expansion stage.settings used).map view.tree := by
  obtain ⟨⟨cache, hread, hwanted⟩, hused, hdepth⟩ := h.of_allows hallows hcache
  obtain ⟨⟨cache', hread', hwanted'⟩, -, -⟩ := h'.of_allows hallows' hcache'
  obtain ⟨f, hgood⟩ := hallows.exists_throughout hvisitors h.1
  obtain ⟨f', hgood'⟩ := hallows'.exists_throughout hvisitors h'.1
  -- The fillers lie below the elements that use the macro, in trees that have a height.
  have hsame : Keyed.Matches (SameTree view step.before.document step'.before.document)
      (Slots.collect stage.settings.vocabularies step.before.document step.ctx.node)
      (Slots.collect stage.settings.vocabularies step'.before.document step'.ctx.node) := by
    refine Keyed.Matches.imp hfillers fun entry hentry entry' hentry' htree => ?_
    obtain ⟨c, hc, hbelow⟩ := Slots.exists_below_of_mem_collect hentry
    obtain ⟨c', hc', hbelow'⟩ := Slots.exists_below_of_mem_collect hentry'
    have hground := (hallows.grounded hvisitors).below (.of_child hc hbelow)
    have hground' := (hallows'.grounded hvisitors).below (.of_child hc' hbelow')
    exact ⟨hground.lt, hground'.lt, hground.throughout, hground'.throughout, htree⟩
  have hsound := hallows.sound.cached cache
  have hsound' := hallows'.sound.cached cache'
  unfold Step.expansion
  rw [hwanted, hwanted']
  exact Expansion.expanded_eq hsound hsound' hallows.admits hallows'.admits hused hdepth hgood
    hgood' hread hread' (hvalues.cached cache cache') hsame

end

/-- From the moment at which the macros have been published to the end of the rendering, nothing
below the element of a macro changes. Two steps that expand one macro, with the same fillers and
where the expressions of its chain have the same values, get the same tree or fail for the same
reason. When fillers are the same but for where they were written, so are the trees. -/
theorem published_macros_frozen (libraries : List Document) (h : Recorded.Ready settings node s)
    (hcache : s.cache.IsFaithful) :
    let published := (outcome (Renderer.publishMacros settings libraries) s).2
    let steps := Recorded.stepsOf settings libraries node s
    (∀ reference, Registered published reference →
      ∀ n, published.document.Below reference.element n →
        (∀ step ∈ steps, step.before.document.node n = published.document.node n ∧
          step.after.document.node n = published.document.node n) ∧
        (outcome (Renderer.renderNode settings libraries node) s).2.document.node n =
          published.document.node n) ∧
    ∀ step ∈ steps, ∀ step' ∈ steps, ∀ used view, step.Expands settings used →
      step'.Expands settings used → step.SameFillers settings view step' →
      step.SameValues settings used step' →
      (step.expansion settings used).map view.tree =
        (step'.expansion settings used).map view.tree := by
  intro published steps
  obtain ⟨stage, t, hopens⟩ := h.begins.exists_opens libraries
  have hpublished : published = t := by
    unfold published
    rw [hopens.published]
  have hallowed : ∀ step ∈ steps, ∃ earlier, stage.Allows earlier step := by
    intro step hstep
    obtain ⟨earlier, later, hsteps⟩ := List.append_of_mem hstep
    exact ⟨earlier, hopens.allows h.begins hsteps⟩
  have hcaches : ∀ step ∈ steps, step.before.cache.IsFaithful :=
    Recorded.isFaithful_cache h.visitors hcache
  refine ⟨fun reference hreference n hn => ?_, fun step hstep step' hstep' used view => ?_⟩
  · rw [hpublished] at hreference hn ⊢
    have hbase := hopens.base_eq
    have hmacro := (hreference.of_allMacros hopens.sound.globals).1
    rw [← hbase] at hn ⊢
    refine ⟨fun step hstep => ?_, node_eq_of_published (sound_renderNode hopens h) hmacro hn⟩
    obtain ⟨earlier, hallows⟩ := hallowed step hstep
    exact ⟨node_eq_of_published hallows.sound hmacro hn,
      node_eq_of_published hallows.after hmacro hn⟩
  · obtain ⟨earlier, hallows⟩ := hallowed step hstep
    obtain ⟨earlier', hallows'⟩ := hallowed step' hstep'
    rw [← hopens.settings_eq]
    exact expansion_eq (hopens.settings_eq ▸ h.visitors) hallows hallows' (hcaches step hstep)
      (hcaches step' hstep')

section Examples

/-- An element that fills a slot, written at a place in the source. -/
def writtenFiller (place : Location) : NodeKind :=
  .element {
    name := .parse "b"
    attributes := [⟨.parse "metal:fill-slot", "s"⟩]
    position := some place }

/-- A page on which a macro with a slot is used both before and behind the element that defines it,
by elements with different attributes. -/
def twicePage : Document where
  nodes := #[
    { kind := .root, children := [1] },
    { kind := .element (.named "r"), parent := some 0, children := [2, 5, 8] },
    { kind := .element {
        name := .parse "u"
        attributes := [⟨.parse "metal:use-macro", "macros/m"⟩, ⟨.parse "class", "first"⟩] },
      parent := some 1, children := [3] },
    { kind := writtenFiller ⟨1, 52⟩, parent := some 2, children := [4] },
    { kind := .text "filled", parent := some 3 },
    { kind := .element {
        name := .parse "p"
        attributes := [⟨.parse "metal:define-macro", "m"⟩, ⟨.parse "tal:content", "string:"⟩] },
      parent := some 1, children := [6] },
    { kind := .element { name := .parse "i", attributes := [⟨.parse "metal:define-slot", "s"⟩] },
      parent := some 5, children := [7] },
    { kind := .text "empty", parent := some 6 },
    { kind := .element
        { name := .parse "u", attributes := [⟨.parse "metal:use-macro", "macros/m"⟩] },
      parent := some 1, children := [9] },
    { kind := writtenFiller ⟨3, 39⟩, parent := some 8, children := [10] },
    { kind := .text "filled", parent := some 9 }]

/-- The state in which the rendering of the page begins. -/
def twiceState : RenderState := Renderer.start twicePage (.map []) {}

/-- The steps of rendering the page. -/
def twiceSteps : List Step := Recorded.stepsOf {} [] 1 twiceState

theorem ready_twicePage : Recorded.Ready {} 1 twiceState where
  linked := by decide +kernel
  kind_root := rfl
  attached := by decide +kernel
  element := by decide +kernel
  visitors := rfl
  faithful := Settings.isFaithful_of_builtin (fun _ => rfl) rfl nofun
  globals := ⟨.map nofun, nofun⟩

theorem length_twiceSteps : twiceSteps.length = 28 := by decide +kernel

/-- The step in which the macro is expanded before the element that defines it. -/
def useBefore : Step := twiceSteps.get ⟨7, by rw [length_twiceSteps]; decide⟩

/-- The step in which the macro is expanded behind the element that defines it. -/
def useBehind : Step := twiceSteps.get ⟨21, by rw [length_twiceSteps]; decide⟩

/-- The tree that fills the slot, wherever it was written. -/
def twiceFiller : Tree :=
  .node (.element { name := .parse "b", attributes := [⟨.parse "metal:fill-slot", "s"⟩] })
    [.node (.text "filled") []]

/-- The bindings that all scopes of the rendering see: the macro of the page. -/
def twiceGlobals : Globals where
  root := .map []
  bindings := [(macrosBinding, .map [("m", .macroRef ⟨"m", 11⟩)])]

def isTwiceGlobals : Globals → Bool
  | ⟨.map [], [(binding, .map [(name, .macroRef used)])]⟩ =>
    binding = macrosBinding ∧ name = "m" ∧ used = ⟨"m", 11⟩
  | _ => false

theorem eq_of_isTwiceGlobals {globals : Globals} (h : isTwiceGlobals globals = true) :
    globals = twiceGlobals := by
  unfold isTwiceGlobals at h
  split at h
  · obtain ⟨rfl, rfl, rfl⟩ := of_decide_eq_true h
    rfl
  · cases h

/-- The rendering of an element begins. -/
def begins (step : Step) : Bool :=
  match step.task with
  | .prepare => true
  | _ => false

theorem eq_of_begins {step : Step} (h : begins step = true) : step.task = .prepare := by
  unfold begins at h
  split at h
  next htask => exact htask
  next => cases h

theorem tree_eq_of_leaf {d : Document} {n c : NodeId} {kind kind' : NodeKind}
    {p q : Option NodeId} (hsize : 1 < d.size) (hn : d.node n = ⟨kind, p, [c]⟩)
    (hc : d.node c = ⟨kind', q, []⟩) : d.tree n = .node kind [.node kind' []] := by
  obtain ⟨k, hk⟩ := Nat.exists_eq_add_of_le' hsize
  simp [tree, hk, treeTo, Document.kind, Document.children, hn, hc]

/-- The element is a use of the macro, which extends none, with the element `n` to fill its slot. -/
structure UsesMacro (step : Step) (n : NodeId) : Prop where
  expands : step.Expands {} ⟨"m", 11⟩
  extends_none : Expansion.extension? {} step.before ⟨"m", 11⟩ = none
  fillers : Slots.collect {} step.before.document step.ctx.node = [("s", n)]
  tree : View.bare.tree (step.before.document.tree n) = twiceFiller

theorem usesMacro_of_checks {step : Step} {n c : NodeId} {p : Option NodeId}
    (place : Location) (h : begins step = true ∧
      (outcome (Expansion.wanted {} step.ctx) step.before).1.toOption = some (some ⟨"m", 11⟩) ∧
      Expansion.extension? {} step.before ⟨"m", 11⟩ = none ∧
      Slots.collect {} step.before.document step.ctx.node = [("s", n)] ∧
      1 < step.before.document.size ∧
      step.before.document.node n = ⟨writtenFiller place, p, [c]⟩ ∧
      step.before.document.node c = ⟨.text "filled", some n, []⟩) : UsesMacro step n := by
  obtain ⟨hbegins, hwanted, hnone, hfillers, hsize, hn, hc⟩ := h
  refine ⟨⟨eq_of_begins hbegins, eq_ok_of_toOption hwanted⟩, hnone, hfillers, ?_⟩
  rw [tree_eq_of_leaf hsize hn hc]
  rfl

theorem usesMacro_useBefore : UsesMacro useBefore 3 :=
  usesMacro_of_checks ⟨1, 52⟩ (c := 4) (p := some 2) (by decide +kernel)

theorem usesMacro_useBehind : UsesMacro useBehind 9 :=
  usesMacro_of_checks ⟨3, 39⟩ (c := 10) (p := some 8) (by decide +kernel)

/-- The macro is the same after it was expanded and after the element that defines it was rendered,
and the two elements that use it get the same tree but for the places of the fillers. -/
theorem published_macros_frozen_twicePage :
    let published := (outcome (Renderer.publishMacros {} []) twiceState).2
    let rendered := (outcome (Renderer.renderNode {} [] 1) twiceState).2
    Recorded.Ready {} 1 twiceState ∧ twiceState.cache.IsFaithful ∧
      Registered published ⟨"m", 11⟩ ∧
      (∀ n, published.document.Below 11 n →
        (∀ step ∈ twiceSteps, step.before.document.node n = published.document.node n ∧
          step.after.document.node n = published.document.node n) ∧
        rendered.document.node n = published.document.node n) ∧
      (useBefore.Expands {} ⟨"m", 11⟩ ∧ useBehind.Expands {} ⟨"m", 11⟩ ∧
        useBefore.SameFillers {} .bare useBehind ∧
        useBefore.SameValues {} ⟨"m", 11⟩ useBehind) ∧
      (useBefore.expansion {} ⟨"m", 11⟩).map View.bare.tree =
        (useBehind.expansion {} ⟨"m", 11⟩).map View.bare.tree := by
  intro published rendered
  have hpublished : published.globals = twiceGlobals := eq_of_isTwiceGlobals (by decide +kernel)
  have hregistered : Registered published ⟨"m", 11⟩ := by
    refine ⟨_, "m", ?_, List.mem_singleton_self _⟩
    rw [hpublished]
    rfl
  have hbefore := usesMacro_useBefore
  have hbehind := usesMacro_useBehind
  have hfillers : useBefore.SameFillers {} .bare useBehind := by
    unfold Step.SameFillers
    rw [hbefore.fillers, hbehind.fillers]
    exact .cons ⟨rfl, hbehind.tree.trans hbefore.tree.symm⟩ .nil
  have hvalues : useBefore.SameValues {} ⟨"m", 11⟩ useBehind :=
    Expansion.sameValues_of_none hbefore.extends_none
  obtain ⟨hkept, hsame⟩ :=
    published_macros_frozen [] ready_twicePage ExpressionCache.isFaithful_empty
  refine ⟨ready_twicePage, ExpressionCache.isFaithful_empty, hregistered, hkept _ hregistered,
    ⟨hbefore.expands, hbehind.expands, hfillers, hvalues⟩, ?_⟩
  exact hsame useBefore (List.get_mem _ _) useBehind (List.get_mem _ _) _ .bare hbefore.expands
    hbehind.expands hfillers hvalues

end Examples

end Walk

end PageTemplate
