import PageTemplate.Markup.Writer
import PageTemplate.Proofs.Markup.Acyclicity
import PageTemplate.Proofs.Walk.Termination
import PageTemplate.Proofs.Walk.Unwinding

/-! # What is seen of an error that was recovered from

An element that recovers from an error shows what its error handler produced: the nodes that its
value became are its children, and the element stands in the document. Only when the macro that
the element uses had already taken its place, and a visitor then failed, the handler writes to an
element that is out of the document, and the expansion stays.
-/

namespace PageTemplate

open Markup Document

/-! ## What an error handler produces -/

namespace OnError

variable (settings : Settings) (ctx : Context)

/-- What an error handler with the given value makes of an error: the nodes that are to be the
children of the element, none of them for null. It produces nothing when its value cancels it. -/
def produce (value : String) (error : RenderError) : Rendering (Option (List NodeId)) := do
  let spec := settings.vocabularies.onError
  let caught := Value.object (caughtError error.kind error.message)
  let handler := { ctx with scope := ctx.scope.setCaught caught }
  let (mode, expression) ← handler.readDirective spec value (Directive.readContent value)
  let result ← handler.evaluateDirective settings spec expression
  if result.cancels then return none
  else if result.isNull then return some []
  else some <$> contentNodes mode result

/-- Puts what was produced in the place of the children. -/
def install : Option (List NodeId) → Rendering Unit
  | none => return ()
  | some nodes => Rendering.changeDocument (·.replaceChildren ctx.node nodes)

theorem handleWith_eq (value : String) (error : RenderError) :
    handleWith settings ctx value error = produce settings ctx value error >>= install ctx := by
  unfold handleWith produce
  simp only [bind_assoc]
  refine bind_congr fun read => bind_congr fun result => ?_
  split
  · rfl
  split
  · rfl
  · rw [bind_map_left]
    rfl

variable {settings ctx} {stage : Stage} {s t : RenderState}

/-- What an error handler produces are new nodes, and it adds nothing else when it fails. -/
theorem ensures_produce (hlinked : s.document.WellLinked) (hadmits : stage.Admits ctx)
    (hglobals : s.globals.AllMacros stage.Known) (value : String) (error : RenderError) :
    Ensures (produce stage.settings ctx value error) s
      (fun produced t => Extends s.document t.document ∧ ∀ nodes, produced = some nodes →
        nodes.Nodup ∧ ∀ n ∈ nodes, s.document.size ≤ n ∧ n < t.document.size)
      fun _ t => Extends s.document t.document := by
  have hcaught : stage.Admits
      { ctx with
        scope := ctx.scope.setCaught (.object (caughtError error.kind error.message)) } :=
    ⟨hadmits.scope.setCaught (allMacros_caughtError _ _), hadmits.written, hadmits.depth⟩
  unfold produce
  refine Ensures.bind (Context.ensures_readDirective _ _ _ _ (fun read _ => ?_) fun _ _ =>
    .refl hlinked)
  refine Ensures.bind (Context.ensures_evaluateDirective _ hcaught hglobals _ _
    (fun result cache _ => ?_) fun _ _ _ => .refl hlinked)
  split
  · exact Ensures.pure ⟨.refl hlinked, nofun⟩
  split
  · refine Ensures.pure ⟨.refl hlinked, ?_⟩
    rintro _ ⟨⟩
    exact ⟨List.nodup_nil, nofun⟩
  · refine Ensures.map ((ensures_contentNodes (s := { s with cache }) hlinked _ _).mono ?_
      fun _ _ h => h.2.2)
    rintro nodes t ⟨-, hgrown, hnew⟩
    refine ⟨hgrown, ?_⟩
    rintro _ ⟨⟩
    exact hnew

/-- An element that recovers from an error has a handler, and has done what the handler says. -/
theorem exists_produced {error : RenderError}
    (h : outcome (recover settings ctx error) s = (.ok (), t)) :
    ∃ value produced u, ctx.directive? s.document settings.vocabularies.onError = some value ∧
      outcome (produce settings ctx value error) s = (.ok produced, u) ∧
      ∀ nodes, produced = some nodes →
        t = { u with document := u.document.replaceChildren ctx.node nodes } := by
  unfold recover at h
  split at h
  · have hdocument : outcome Rendering.document s = (.ok s.document, s) := rfl
    rw [outcome_bind_ok hdocument] at h
    split at h
    next value hvalue =>
      rw [handleWith_eq, outcome_bind] at h
      rcases houtcome : outcome (produce settings ctx value error) s with ⟨stop | produced, u⟩
      · rw [houtcome] at h
        cases h
      · rw [houtcome] at h
        refine ⟨value, produced, u, hvalue, houtcome, ?_⟩
        rintro nodes rfl
        exact (congrArg Prod.snd h).symm
    next => cases h
  · cases h

end OnError

/-! ## What a recovery leaves -/

namespace Stage.Allows

open Walk

variable {stage : Stage} {earlier : List Step} {step : Step}

/-- An element in the tree is worked on in its own region. -/
theorem exists_works (h : stage.Allows earlier step)
    (hbelow : step.before.document.Below root step.ctx.node) :
    ∃ p, stage.Works (step.before.document.own step.ctx.node) p step.before step.ctx ∧
      step.before.document.parent step.ctx.node = some p ∧ step.before.document.Below root p := by
  have hlinked := h.sound.kept.linked
  obtain heq | ⟨p, hparent, hp⟩ := hlinked.below_cases hbelow
  · exact absurd heq h.ne_root
  · exact ⟨p, ⟨region_own hlinked ⟨root, hlinked.parent_root, hp⟩ hparent, own_self _ _,
      h.element, h.sound.globals, h.admits⟩, hparent, hp⟩

/-- New nodes become the children of an element that an error was recovered on, and nothing but
its children changes their places. -/
theorem recovered {t : RenderState} {nodes : List NodeId} (h : stage.Allows earlier step)
    (hgrown : Extends step.before.document t.document) (hnodup : nodes.Nodup)
    (hnew : ∀ n ∈ nodes, step.before.document.size ≤ n ∧ n < t.document.size)
    (hafter : step.after.document = t.document.replaceChildren step.ctx.node nodes) :
    step.ctx.node < step.after.document.size ∧
      step.after.document.children step.ctx.node = nodes ∧
      (step.before.document.parent step.ctx.node = none →
        step.after.document.parent step.ctx.node = none) ∧
      (step.before.document.Below root step.ctx.node →
        step.after.document.Below root step.ctx.node) := by
  have hlt := lt_size_of_isElement h.element
  have hlt' := Nat.lt_of_lt_of_le hlt hgrown.size_le
  have hcoherent : Coherent False t.document := ⟨hgrown.linked.toLinked, False.elim⟩
  have hold : ∀ n ∈ nodes, n < t.document.size := fun n hn => (hnew n hn).2
  have hrelinked := hcoherent.relinked_replaceChildren hlt' hold nofun
  rw [hafter]
  refine ⟨Nat.lt_of_lt_of_le hlt' hrelinked.size_le,
    hcoherent.children_replaceChildren hlt' hold nofun hnodup, fun hnone => ?_, fun hbelow => ?_⟩
  · cases hparent : (t.document.replaceChildren step.ctx.node nodes).parent step.ctx.node with
    | none => rfl
    | some q =>
        rcases hrelinked.parents _ hlt' q hparent with hold | ⟨-, hmem⟩
        · rw [hgrown.parent_eq (Nat.not_le_of_lt hlt), hnone] at hold
          cases hold
        · exact absurd hlt (Nat.not_lt_of_le (hnew _ hmem).1)
  · obtain ⟨p, hworks, hparent, hp⟩ := h.exists_works hbelow
    obtain ⟨hturn, hkept⟩ := turn_replaceChildren hworks
      (t := { t with globals := step.before.globals }) rfl hgrown hnew
    exact (hworks.region.below_outer hturn.within hp).child
      (hturn.within.linked.mem_children (hkept hparent))

end Stage.Allows

namespace Walk

variable {settings : Settings} {libraries : List Document} {node : NodeId} {s : RenderState}
  {earlier later : List Step} {step : Step} {error : RenderError}

open Recorded

/-- Every step did what its task says, and an error goes to the step that comes next. -/
theorem Recorded.genuine_and_handed
    (h : stepsOf settings libraries node s = earlier ++ step :: later) :
    Genuine settings step ∧ ∀ last ∈ earlier.getLast?, last.HandsTo step := by
  obtain ⟨steps, hrecorded, hunwinds⟩ := unwinding_renderNode settings libraries node ⟨s, []⟩
  obtain rfl : steps = earlier ++ step :: later := hrecorded.symm.trans h
  refine ⟨hunwinds.genuine step (by simp), fun last hlast => ?_⟩
  exact (List.isChain_append.mp hunwinds.handed).2.2 last hlast step rfl

/-- A recovery that did not fail ended in the state after it. -/
theorem Recorded.Genuine.outcome_recover (h : Genuine settings step)
    (htask : step.task = .recover error) (hrecovered : step.failure = none) :
    outcome (OnError.recover settings step.ctx error) step.before = (.ok (), step.after) := by
  cases h with
  | prepare => cases htask
  | handle => cases htask
  | recover _ path ctx s =>
      cases htask
      change failure? (outcome (OnError.recover settings ctx error) s).1 = none at hrecovered
      change outcome (OnError.recover settings ctx error) s = (.ok (), (outcome _ s).2)
      rcases houtcome : outcome (OnError.recover settings ctx error) s with ⟨stop | _, t⟩
      · rw [houtcome] at hrecovered
        cases hrecovered
      · rfl

/-- After the failure of a visitor on an expansion, the element that was expanded is out of the
document. -/
theorem parent_of_displaces (h : Begins settings node s)
    (hsteps : stepsOf settings libraries node s = earlier ++ step :: later)
    (hdisplaces : Displaces settings step.ctx earlier) :
    step.before.document.parent step.ctx.node = none := by
  obtain ⟨stage, t, hopens⟩ := h.exists_opens libraries
  obtain ⟨last, hlast, htask, hctx, hfailure, c, u, hexpanded, hne⟩ := hdisplaces
  have hhands := (genuine_and_handed hsteps).2 last hlast
  obtain ⟨first, rfl⟩ := List.getLast?_eq_some_iff.mp hlast
  rw [List.append_assoc, List.singleton_append] at hsteps
  have hallows := hopens.allows h hsteps
  -- The failure of the last step is what is recovered from next.
  have hbefore : step.before = last.after := by
    obtain ⟨stop, hstop⟩ := Option.isSome_iff_exists.mp hfailure
    cases stop with
    | exhausted =>
        rcases (hallows.ends _ hstop).expects with hexpected | hobjects
        · exact absurd rfl hexpected.ne_exhausted
        · exact absurd rfl hobjects.2
    | failed error =>
        obtain ⟨place, -, -, -, -, hbefore⟩ := hhands error hstop
        exact hbefore
  have hplace := hallows.replaced htask c u (by rwa [hopens.settings_eq, hctx])
  rw [hctx] at hplace
  rw [hbefore]
  exact (hplace.resolve_left fun hsame => hne hsame.1).2

/-- The children of an element that recovered from an error are what its error handler produced,
and it stands in the document unless a visitor failed after the expansion of a macro had taken its
place. -/
theorem recovered_visible_iff (h : Begins settings node s)
    (hsteps : stepsOf settings libraries node s = earlier ++ step :: later)
    (htask : step.task = .recover error) (hrecovered : step.failure = none) :
    ∃ value produced t,
      step.ctx.directive? step.before.document settings.vocabularies.onError = some value ∧
      outcome (OnError.produce settings step.ctx value error) step.before = (.ok produced, t) ∧
      ∀ nodes, produced = some nodes →
        step.after.document.children step.ctx.node = nodes ∧
        (step.after.document.isAttached step.ctx.node = true ↔
          ¬ Displaces settings step.ctx earlier) := by
  obtain ⟨stage, _, hopens⟩ := h.exists_opens libraries
  obtain rfl := hopens.settings_eq
  have hallows := hopens.allows h hsteps
  have hrecovers := (genuine_and_handed hsteps).1.outcome_recover htask hrecovered
  obtain ⟨value, produced, t, hvalue, hproduced, hinstalled⟩ := OnError.exists_produced hrecovers
  refine ⟨value, produced, t, hvalue, hproduced, ?_⟩
  rintro nodes rfl
  obtain ⟨hgrown, hnodes⟩ := (OnError.ensures_produce hallows.sound.kept.linked hallows.admits
    hallows.sound.globals value error).ok_of_outcome hproduced
  obtain ⟨hnodup, hnew⟩ := hnodes nodes rfl
  obtain ⟨hlt, hchildren, hdetached, hbelow⟩ := hallows.recovered hgrown hnodup hnew
    (congrArg RenderState.document (hinstalled nodes rfl))
  have hlinked := hallows.after.kept.linked
  refine ⟨hchildren, ?_⟩
  rw [isAttached_iff hlinked hlt]
  constructor
  · intro hattached hdisplaces
    have hparent := hdetached (parent_of_displaces h hsteps hdisplaces)
    obtain heq | ⟨p, hp, -⟩ := hlinked.below_cases hattached
    · exact hallows.ne_root heq
    · rw [hparent] at hp
      cases hp
  · exact fun hnot => hbelow (hallows.attached.resolve_right fun hlies => hnot hlies.2.2)

/-! ## Recoveries from the failures of a visitor -/

/-- A visitor that fails at every paragraph. -/
def refusing : Visitor where
  name := "refusing"
  visit ctx := do
    let d ← Rendering.document
    if (d.element? ctx.node).any (·.name == .parse "p") then
      Rendering.fail (.visitor "refusing" "refused")
    else return ctx

theorem isTame_refusing : refusing.IsTame := by
  intro ctx s
  refine Ensures.bind (Rendering.ensures_document ?_)
  split
  · exact Rendering.ensures_fail ⟨nofun, rfl, rfl⟩
  · exact Ensures.pure ⟨rfl, rfl, rfl⟩

/-- A library with a paragraph as its macro. -/
def paragraphLibrary : Document where
  nodes := #[
    { kind := .root, children := [1] },
    { kind := .element (.named "x"), parent := some 0, children := [2] },
    { kind := .element { name := .parse "p", attributes := [⟨.parse "metal:define-macro", "m"⟩] },
      parent := some 1, children := [3] },
    { kind := .text "new", parent := some 2 }]

/-- A page with a paragraph and a division that uses the macro, both with error handlers. -/
def refusedPage : Document where
  nodes := #[
    { kind := .root, children := [1] },
    { kind := .element (.named "r"), parent := some 0, children := [2, 4] },
    { kind := .element {
        name := .parse "p", attributes := [⟨.parse "tal:on-error", "string:recovered"⟩] },
      parent := some 1, children := [3] },
    { kind := .text "text", parent := some 2 },
    { kind := .element {
        name := .parse "div"
        attributes := [⟨.parse "metal:use-macro", "macros/m"⟩,
          ⟨.parse "tal:on-error", "string:recovered"⟩] },
      parent := some 1, children := [5] },
    { kind := .text "old", parent := some 4 }]

def refusedState : RenderState := Renderer.start refusedPage (.map []) {}

def refusedSettings : Settings := { visitors := [refusing] }

/-- The steps of the page's rendering. -/
def refusedSteps : List Step := stepsOf refusedSettings [paragraphLibrary] 1 refusedState

theorem begins_refusedState : Begins refusedSettings 1 refusedState where
  linked := by decide +kernel
  kind_root := rfl
  attached := by decide +kernel
  element := by decide +kernel
  tame := by simpa [refusedSettings] using isTame_refusing
  faithful := Settings.isFaithful_of_builtin (fun _ => rfl) rfl nofun
  globals := ⟨.map nofun, nofun⟩

/-- The element recovered from an error, and its handler produced nodes for it. -/
def Step.Recovers (settings : Settings) (step : Step) (error : RenderError) : Prop :=
  step.task = .recover error ∧ step.failure = none ∧ ∃ value nodes t,
    step.ctx.directive? step.before.document settings.vocabularies.onError = some value ∧
    outcome (OnError.produce settings step.ctx value error) step.before = (.ok (some nodes), t)

/-- The step is such a recovery. -/
def Step.recovers (settings : Settings) (step : Step) : Bool :=
  match step.task, step.failure with
  | .recover error, none =>
    match step.ctx.directive? step.before.document settings.vocabularies.onError with
    | some value =>
      match outcome (OnError.produce settings step.ctx value error) step.before with
      | (.ok (some _), _) => true
      | _ => false
    | none => false
  | _, _ => false

theorem Step.exists_recovers {step : Step} (h : step.recovers settings = true) :
    ∃ error, step.Recovers settings error := by
  unfold Step.recovers at h
  split at h
  next error htask hfailure =>
    split at h
    next value hvalue =>
      split at h
      next nodes t hproduced =>
        exact ⟨error, htask, hfailure, value, nodes, t, hvalue, hproduced⟩
      next => cases h
    next => cases h
  next => cases h

/-- The paragraph recovered from the failure of the visitor, and it shows that. -/
theorem recovered_visible_iff_refusedPage :
    Begins refusedSettings 1 refusedState ∧ ∃ earlier step later error,
      refusedSteps = earlier ++ step :: later ∧ step.task = .recover error ∧
      step.failure = none ∧ step.after.document.isAttached step.ctx.node = true ∧
      ∃ value produced t,
        step.ctx.directive? step.before.document refusedSettings.vocabularies.onError = some value ∧
        outcome (OnError.produce refusedSettings step.ctx value error) step.before =
          (.ok produced, t) ∧
        ∀ nodes, produced = some nodes →
          step.after.document.children step.ctx.node = nodes ∧
          (step.after.document.isAttached step.ctx.node = true ↔
            ¬ Displaces refusedSettings step.ctx earlier) := by
  have hany : refusedSteps.any fun step => step.recovers refusedSettings &&
      step.after.document.isAttached step.ctx.node := by decide +kernel
  obtain ⟨step, hmem, hstep⟩ := List.any_eq_true.mp hany
  obtain ⟨hrecovers, hattached⟩ := Bool.and_eq_true_iff.mp hstep
  obtain ⟨error, htask, hfailure, -⟩ := Step.exists_recovers hrecovers
  obtain ⟨earlier, later, hsteps⟩ := List.append_of_mem hmem
  exact ⟨begins_refusedState, earlier, step, later, error, hsteps, htask, hfailure, hattached,
    recovered_visible_iff begins_refusedState hsteps htask hfailure⟩

/-- The division recovered as well, but the failure was that of the expansion that had taken its
place: the division is out of the document, and the paragraph of the library stays. -/
theorem not_recovered_visible_refusedPage :
    let rendered := (outcome (Renderer.renderNode refusedSettings [paragraphLibrary] 1)
      refusedState).2.document
    Begins refusedSettings 1 refusedState ∧
      (∃ step ∈ refusedSteps, (∃ error, step.Recovers refusedSettings error) ∧
        step.after.document.isAttached step.ctx.node = false) ∧
      rendered.write = "<r><p>recovered</p><p>new</p></r>" := by
  have hany : refusedSteps.any fun step => step.recovers refusedSettings &&
      !step.after.document.isAttached step.ctx.node := by decide +kernel
  obtain ⟨step, hmem, hstep⟩ := List.any_eq_true.mp hany
  obtain ⟨hrecovers, hattached⟩ := Bool.and_eq_true_iff.mp hstep
  exact ⟨begins_refusedState,
    ⟨step, hmem, Step.exists_recovers hrecovers, by simpa using hattached⟩, by decide +kernel⟩

end Walk

end PageTemplate
