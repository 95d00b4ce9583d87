import PageTemplate.Proofs.Walk.Unwinding

/-! # Which handler receives an error

An error is received by the nearest element around it that has its tag and an error handler. The
elements that it passes on the way hand it on and change nothing. An element whose children were
put in its place does not receive their errors, even when it has a handler and is the nearest
element that has one.
-/

namespace PageTemplate.Walk

open Markup

variable (settings : Settings)

/-- The element carries an error handler. -/
def hasHandler (d : Document) (ctx : Context) : Bool :=
  (ctx.directive? d settings.vocabularies.onError).isSome

/-- The element has an error handler, and the error is one that handlers get. -/
def catches (error : RenderError) (d : Document) (ctx : Context) : Bool :=
  error.isRecoverable && hasHandler settings d ctx

namespace Step

/-- The nearest element around a step that carries an error handler. -/
def nearest? (step : Step) : Option Place :=
  step.around.find? (hasHandler settings step.after.document ·.ctx)

/-- The nearest element around a step that has its tag and a handler for the error. -/
def receiver? (error : RenderError) (step : Step) : Option Place :=
  (sheltering step.around).find? (catches settings error step.after.document ·.ctx)

/-- An attempt to recover from an error that hands the error on and leaves everything as it was,
made on an element that does not catch it. -/
structure PassesOn (error : RenderError) (state : RenderState) (step : Step) : Prop where
  task : step.task = .recover error
  before : step.before = state
  after : step.after = state
  failure : step.failure = some (.failed error)
  not_catches : catches settings error state.document step.ctx = false

end Step

/-- Where an error goes that was left in a state: `later` are the steps after it, and `failure` is
how the rendering ends. With no place to go, the error is the end of the rendering. -/
def Reaches (error : RenderError) (state : RenderState) (later : List Step)
    (failure : Option Stop) : Option Place → Prop
  | none => (∀ step ∈ later, step.PassesOn settings error state) ∧ failure = some (.failed error)
  | some place => ∃ passed step rest, later = passed ++ step :: rest ∧
      (∀ step ∈ passed, step.PassesOn settings error state) ∧
      step.RecoversAt error state place

variable {settings}

/-- An element that does not catch an error hands it on, with nothing changed. -/
theorem recover_of_not_catches {ctx : Context} {error : RenderError} {s : RenderState}
    (h : catches settings error s.document ctx = false) :
    outcome (OnError.recover settings ctx error) s = (.error (.failed error), s) := by
  unfold catches hasHandler at h
  unfold OnError.recover
  split
  next hrecoverable =>
    have hnone : ctx.directive? s.document settings.vocabularies.onError = none := by
      simpa [hrecoverable] using h
    have hdocument : outcome Rendering.document s = (.ok s.document, s) := rfl
    rw [outcome_bind, hdocument]
    dsimp only
    rw [hnone]
    rfl
  next => rfl

namespace Recorded

theorem passesOn_of_recoversAt {step : Step} {error : RenderError} {state : RenderState}
    {place : Place} (hgenuine : Genuine settings step) (hat : step.RecoversAt error state place)
    (hcatches : catches settings error state.document place.ctx = false) :
    step.PassesOn settings error state := by
  obtain ⟨htask, hctx, -, hbefore⟩ := hat
  rw [← hctx] at hcatches
  cases hgenuine with
  | prepare => cases htask
  | handle => cases htask
  | recover _ path ctx s =>
      cases htask
      cases hbefore
      have houtcome : outcome (OnError.recover settings ctx error) s = _ :=
        recover_of_not_catches hcatches
      refine ⟨rfl, rfl, ?_, ?_, hcatches⟩
      · show (outcome (OnError.recover settings ctx error) s).2 = s
        rw [houtcome]
      · show failure? (outcome (OnError.recover settings ctx error) s).1 = _
        rw [houtcome]
        rfl

/-- Beyond the nearest sheltering element are those around it. -/
theorem sheltering_places_eq_cons {path : List Enclosure} {place : Place}
    (h : (sheltering (places path)).head? = some place) :
    sheltering (places path) = place :: sheltering (places place.path) := by
  induction path with
  | nil => cases h
  | cons enclosure path ih =>
      have hcons : sheltering (places (enclosure :: path)) =
          if !enclosure.stripped then
            ⟨enclosure.ctx, path, !enclosure.stripped⟩ :: sheltering (places path)
          else sheltering (places path) := List.filter_cons
      rw [hcons] at h ⊢
      split
      next hkept =>
        rw [if_pos hkept] at h
        obtain rfl := Option.some.inj h
        rfl
      next hkept =>
        rw [if_neg hkept] at h
        exact ih h

theorem sheltering_around_eq_cons {step : Step} {place : Place}
    (h : (sheltering step.around).head? = some place) :
    sheltering step.around = place :: sheltering (places place.path) := by
  obtain ⟨task, ctx, path, before, after, failure⟩ := step
  cases task with
  | recover error => exact sheltering_places_eq_cons h
  | prepare =>
      obtain rfl := Option.some.inj h
      rfl
  | handle handler =>
      obtain rfl := Option.some.inj h
      rfl

theorem Unwinds.of_append {outer : List Place} (first : List Step) {second : List Step}
    {failure : Option Stop} {final : RenderState} (hsecond : second ≠ [])
    (h : Unwinds settings outer (first ++ second) failure final) :
    Unwinds settings outer second failure final := by
  have hlast : (first ++ second).getLast? = second.getLast? :=
    List.getLast?_append_of_ne_nil _ hsecond
  refine ⟨fun step hstep => h.genuine step (List.mem_append_right _ hstep), ?_, ?_, ?_⟩
  · exact (List.isChain_append.mp h.handed).2.1
  · exact hlast ▸ h.last
  · exact hlast ▸ h.failed

/-- The error of a step reaches the nearest element that has its tag and a handler for it. -/
theorem Unwinds.reaches_receiver {step : Step} {later : List Step} {failure : Option Stop}
    {final : RenderState} {error : RenderError}
    (h : Unwinds settings [] (step :: later) failure final)
    (hfailure : step.failure = some (.failed error)) :
    Reaches settings error step.after later failure (step.receiver? settings error) := by
  induction later generalizing step with
  | nil =>
      obtain ⟨hend, haround⟩ := h.last step rfl error hfailure
      unfold Step.receiver?
      rw [haround]
      exact ⟨by simp, hend⟩
  | cons next rest ih =>
      obtain ⟨place, hplace, hat⟩ := (List.isChain_cons_cons.mp h.handed).1 error hfailure
      unfold Step.receiver?
      rw [sheltering_around_eq_cons hplace, List.find?_cons]
      split
      next => exact ⟨[], next, rest, rfl, by simp, hat⟩
      next hcatches =>
        have hpasses := passesOn_of_recoversAt (h.genuine next (by simp)) hat hcatches
        have hrest := ih (h.of_append [step] (by simp)) hpasses.failure
        have haround : next.around = places place.path := by
          unfold Step.around
          rw [hat.1, hat.2.2.1]
          rfl
        unfold Step.receiver? at hrest
        rw [haround, hpasses.after] at hrest
        revert hrest
        cases (sheltering (places place.path)).find? _ with
        | none =>
            rintro ⟨hpassed, hend⟩
            exact ⟨List.forall_mem_cons.mpr ⟨hpasses, hpassed⟩, hend⟩
        | some receiver =>
            rintro ⟨passed, last, rest, rfl, hpassed, hlast⟩
            exact ⟨next :: passed, last, rest, rfl, List.forall_mem_cons.mpr ⟨hpasses, hpassed⟩,
              hlast⟩

end Recorded

/-! ## The nearest handler -/

theorem length_path_lt_of_mem_places {path : List Enclosure} {place : Place}
    (h : place ∈ places path) : place.path.length < path.length := by
  induction path with
  | nil => cases h
  | cons enclosure path ih =>
      rcases List.mem_cons.mp h with rfl | htail
      · exact Nat.lt_succ_self _
      · exact (ih htail).trans (Nat.lt_succ_self _)

/-- The places of a path are told apart by the renderings that they lie in. -/
theorem eq_of_mem_places {path : List Enclosure} {first second : Place}
    (hfirst : first ∈ places path) (hsecond : second ∈ places path)
    (hpath : first.path = second.path) : first = second := by
  induction path with
  | nil => cases hfirst
  | cons enclosure path ih =>
      rcases List.mem_cons.mp hfirst with rfl | hfirst <;>
        rcases List.mem_cons.mp hsecond with rfl | hsecond
      · rfl
      · exact absurd (length_path_lt_of_mem_places hsecond) (by simp [← hpath])
      · exact absurd (length_path_lt_of_mem_places hfirst) (by simp [hpath])
      · exact ih hfirst hsecond

theorem Step.eq_of_mem_around {step : Step} {first second : Place} (hfirst : first ∈ step.around)
    (hsecond : second ∈ step.around) (hpath : first.path = second.path) : first = second := by
  -- What lies around a step is what would lie around the children of its element, or less.
  have hsub : ∀ place ∈ step.around,
      place ∈ places (⟨step.ctx, step.before, step.ctx, false⟩ :: step.path) := by
    intro place hplace
    unfold Step.around Task.around at hplace
    split at hplace
    · exact List.mem_cons_of_mem _ hplace
    · exact hplace
  exact eq_of_mem_places (hsub _ hfirst) (hsub _ hsecond) hpath

theorem Step.receiver?_eq (error : RenderError) (step : Step) :
    step.receiver? settings error =
      step.around.find? fun place =>
        place.kept && catches settings error step.after.document place.ctx := by
  unfold receiver? sheltering
  rw [List.find?_filter]
  simp

theorem Step.mem_receiver? {error : RenderError} {step : Step} {place : Place}
    (h : place ∈ step.receiver? settings error) :
    place ∈ step.around ∧ place.kept ∧ catches settings error step.after.document place.ctx := by
  rw [receiver?_eq] at h
  have hfound := List.find?_some h
  simp only [Bool.and_eq_true] at hfound
  exact ⟨List.mem_of_find?_eq_some h, hfound⟩

/-- When the nearest element with a handler has its tag, it is the receiver. -/
theorem Step.receiver?_eq_nearest? {error : RenderError} {step : Step}
    (hrecoverable : error.isRecoverable) (hkept : ∀ place ∈ step.nearest? settings, place.kept) :
    step.receiver? settings error = step.nearest? settings := by
  rw [Step.receiver?_eq]
  cases hnearest : step.nearest? settings with
  | none =>
      have hnone := List.find?_eq_none.mp hnearest
      refine List.find?_eq_none.mpr fun place hplace => ?_
      simp [catches, hnone place hplace]
  | some place =>
      obtain ⟨hhandler, before, after, haround, hbefore⟩ :=
        List.find?_eq_some_iff_append.mp hnearest
      have hplace := hkept place hnearest
      refine List.find?_eq_some_iff_append.mpr ⟨?_, before, after, haround, ?_⟩
      · simp [catches, hplace, hrecoverable, hhandler]
      · intro other hother
        have hno := hbefore other hother
        simp_all [catches]

/-- The step that an error reaches is the first one on an element that catches it. -/
theorem Reaches.find? {error : RenderError} {state : RenderState} {later : List Step}
    {failure : Option Stop} {place : Place}
    (h : Reaches settings error state later failure (some place))
    (hcatches : catches settings error state.document place.ctx) :
    ∃ step, later.find? (catches settings error state.document ·.ctx) = some step ∧
      step.RecoversAt error state place := by
  obtain ⟨passed, step, rest, hlater, hpassed, hstep⟩ := h
  refine ⟨step, List.find?_eq_some_iff_append.mpr ⟨?_, passed, rest, hlater, ?_⟩, hstep⟩
  · rw [hstep.2.1]
    exact hcatches
  · intro other hother
    rw [(hpassed other hother).not_catches]
    rfl

/-- An error goes to one place only. -/
theorem Reaches.path_unique {error : RenderError} {state : RenderState} {later : List Step}
    {failure : Option Stop} {first : Place} {second : Option Place}
    (hfirst : Reaches settings error state later failure (some first))
    (hsecond : Reaches settings error state later failure second)
    (hcatches : catches settings error state.document first.ctx)
    (hcatches' : ∀ place ∈ second, catches settings error state.document place.ctx) :
    ∃ place ∈ second, first.path = place.path := by
  obtain ⟨step, hfind, -, -, hpath, -⟩ := hfirst.find? hcatches
  cases second with
  | none =>
      have hcatches := List.find?_some hfind
      rw [(hsecond.1 step (List.mem_of_find?_eq_some hfind)).not_catches] at hcatches
      cases hcatches
  | some place =>
      obtain ⟨step', hfind', -, -, hpath', -⟩ := hsecond.find? (hcatches' place rfl)
      obtain rfl := Option.some.inj (hfind.symm.trans hfind')
      exact ⟨place, rfl, hpath.symm.trans hpath'⟩

section Rendering

variable (settings) (libraries : List Document) (node : NodeId) (s : RenderState)

/-- How the rendering of a node ends, when it fails. -/
def failureOf : Option Stop :=
  Recorded.failure? (outcome (Renderer.renderNode settings libraries node) s).1

/-- The rendering fails as the one that keeps a record does. -/
theorem failureOf_eq : failureOf settings libraries node s = Recorded.failure?
    (outcome (Recorded.renderNode settings libraries node) { state := s }).1 := by
  unfold failureOf
  rw [Recorded.erases_renderNode settings libraries node { state := s }]
  cases (outcome (Recorded.renderNode settings libraries node) { state := s }).1 <;> rfl

variable {pre later : List Step} {step : Step} {error : RenderError}

/-- Every error of a rendering goes to the nearest element around it that has its tag and a
handler for it, and is the end of the rendering when there is none. -/
theorem reaches_receiver
    (hsteps : Recorded.stepsOf settings libraries node s = pre ++ step :: later)
    (hfailure : step.failure = some (.failed error)) :
    Reaches settings error step.after later (failureOf settings libraries node s)
      (step.receiver? settings error) := by
  obtain ⟨steps, hrecorded, hunwinds⟩ :=
    Recorded.unwinding_renderNode settings libraries node { state := s }
  obtain rfl : steps = pre ++ step :: later := by
    rw [← hsteps]
    exact hrecorded.symm
  rw [failureOf_eq]
  exact (hunwinds.of_append pre (by simp)).reaches_receiver hfailure

/-- An error that handlers get goes to the nearest element around it that carries a handler, or
ends the rendering when there is none, unless that element has lost its tag and the error is one
of the children that took its place. In that case it does not get the error. -/
theorem reaches_nearest_iff
    (hsteps : Recorded.stepsOf settings libraries node s = pre ++ step :: later)
    (hfailure : step.failure = some (.failed error)) (hrecoverable : error.isRecoverable) :
    Reaches settings error step.after later (failureOf settings libraries node s)
      (step.nearest? settings) ↔ ∀ place ∈ step.nearest? settings, place.kept := by
  have hreceiver := reaches_receiver settings libraries node s hsteps hfailure
  refine ⟨fun hreaches place hplace => ?_, fun hkept => ?_⟩
  · rw [hplace] at hreaches
    have hcatches : catches settings error step.after.document place.ctx := by
      simpa [catches, hrecoverable] using List.find?_some hplace
    obtain ⟨receiver, hmem, hpath⟩ := hreaches.path_unique hreceiver hcatches
      fun _ hmem => (Step.mem_receiver? hmem).2.2
    obtain ⟨haround, hkept, -⟩ := Step.mem_receiver? hmem
    obtain rfl := Step.eq_of_mem_around (List.mem_of_find?_eq_some hplace) haround hpath
    exact hkept
  · rw [← Step.receiver?_eq_nearest? hrecoverable hkept]
    exact hreceiver

/-- An error that handlers get goes to the nearest element around it that carries a handler, or
ends the rendering when there is none, unless that element has lost its tag and the error is one
of the children that took its place. In that case it goes to the nearest element with a handler
that has its tag. -/
theorem nearest_handler_receives_iff_kept
    (hsteps : Recorded.stepsOf settings libraries node s = pre ++ step :: later)
    (hfailure : step.failure = some (.failed error)) (hrecoverable : error.isRecoverable) :
    (Reaches settings error step.after later (failureOf settings libraries node s)
        (step.nearest? settings) ↔ ∀ place ∈ step.nearest? settings, place.kept) ∧
      Reaches settings error step.after later (failureOf settings libraries node s)
        (step.receiver? settings error) :=
  ⟨reaches_nearest_iff settings libraries node s hsteps hfailure hrecoverable,
    reaches_receiver settings libraries node s hsteps hfailure⟩

end Rendering

section Examples

/-- The step failed with an error that handlers get. -/
def Step.failsRecoverably (step : Step) : Bool :=
  match step.failure with
  | some (.failed error) => error.isRecoverable
  | _ => false

theorem Step.exists_of_any {steps : List Step} {good : Step → Bool}
    (h : steps.any fun step => step.failsRecoverably && good step) :
    ∃ pre step later error, steps = pre ++ step :: later ∧ step.failure = some (.failed error) ∧
      error.isRecoverable ∧ good step := by
  obtain ⟨step, hmem, hstep⟩ := List.any_eq_true.mp h
  obtain ⟨hfails, hgood⟩ := Bool.and_eq_true_iff.mp hstep
  obtain ⟨pre, later, hsteps⟩ := List.append_of_mem hmem
  unfold failsRecoverably at hfails
  split at hfails
  next error herror => exact ⟨pre, step, later, error, hsteps, herror, hfails, hgood⟩
  next => cases hfails

/-- A page with a paragraph that has an error handler and further attributes. The directive of
the child of the paragraph fails. -/
def page (attributes : List Attribute) : Document where
  nodes := #[
    { kind := .root, children := [1] },
    { kind := .element (.named "r"), parent := some 0, children := [2] },
    { kind := .element {
        name := .parse "p"
        attributes := ⟨.parse "tal:on-error", "string:recovered"⟩ :: attributes },
      parent := some 1, children := [3] },
    { kind := .element { name := .parse "b", attributes := [⟨.parse "tal:content", "missing"⟩] },
      parent := some 2 }]

theorem nearest_handler_receives_of_kept_paragraph :
    let s := Renderer.start (page []) (.map []) {}
    ∃ pre step later error, Recorded.stepsOf {} [] 1 s = pre ++ step :: later ∧
      step.failure = some (.failed error) ∧ error.isRecoverable ∧
      (Reaches {} error step.after later (failureOf {} [] 1 s) (step.nearest? {}) ↔
        ∀ place ∈ step.nearest? {}, place.kept) ∧
      Reaches {} error step.after later (failureOf {} [] 1 s) (step.receiver? {} error) := by
  intro s
  have hfails : (Recorded.stepsOf {} [] 1 s).any fun step => step.failsRecoverably && true := by
    decide +kernel
  obtain ⟨pre, step, later, error, hsteps, hfailure, hrecoverable, -⟩ := Step.exists_of_any hfails
  exact ⟨pre, step, later, error, hsteps, hfailure, hrecoverable,
    nearest_handler_receives_iff_kept {} [] 1 s hsteps hfailure hrecoverable⟩

/-- The handler of the paragraph does not get the error of its child once the paragraph has lost
its tag, although it is the nearest one. -/
theorem not_nearest_handler_receives_of_omitted_paragraph :
    let s := Renderer.start (page [⟨.parse "tal:omit-tag", ""⟩]) (.map []) {}
    ∃ pre step later error, Recorded.stepsOf {} [] 1 s = pre ++ step :: later ∧
      step.failure = some (.failed error) ∧ error.isRecoverable ∧
      (∃ place, step.nearest? {} = some place ∧ place.ctx.node = 2) ∧
      ¬ Reaches {} error step.after later (failureOf {} [] 1 s) (step.nearest? {}) := by
  intro s
  have hfails : (Recorded.stepsOf {} [] 1 s).any fun step => step.failsRecoverably &&
      (step.nearest? {}).any fun place => !place.kept && place.ctx.node == 2 := by
    decide +kernel
  obtain ⟨pre, step, later, error, hsteps, hfailure, hrecoverable, hnearest⟩ :=
    Step.exists_of_any hfails
  obtain ⟨place, hplace, hlost⟩ := (Option.any_eq_true _ _).mp hnearest
  simp only [Bool.and_eq_true, Bool.not_eq_true', beq_iff_eq] at hlost
  refine ⟨pre, step, later, error, hsteps, hfailure, hrecoverable, ⟨place, hplace, hlost.2⟩, ?_⟩
  intro hreaches
  have hkept :=
    (reaches_nearest_iff {} [] 1 s hsteps hfailure hrecoverable).mp hreaches place hplace
  rw [hlost.1] at hkept
  cases hkept

end Examples

end PageTemplate.Walk
