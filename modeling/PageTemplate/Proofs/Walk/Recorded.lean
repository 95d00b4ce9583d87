import PageTemplate.Proofs.Ensures
import PageTemplate.Render.Renderer

/-! # A walk that keeps a record

Statements about every moment of a rendering need the moments. Here the walk is written down once
more, with a record of the steps it takes: each macro expansion with its visitors, each directive
and each recovery, with the element it was taken on, the renderings it lies in and the states
before and after it. The recorded walk does what the walk does and gives what it gives.
-/

namespace PageTemplate.Walk

open Markup

/-- What is done to one element at one time. -/
inductive Task where
  /-- A macro is expanded and the visitors run: the rendering of an element begins. -/
  | prepare
  | handle (handler : Handler)
  | recover (error : RenderError)

/-- The rendering of an element, as seen from what is rendered in the course of it. -/
structure Enclosure where
  /-- The element with which the rendering began. -/
  entry : Context
  /-- The state in which it began. -/
  start : RenderState
  /-- The element as its directives have left it. -/
  ctx : Context
  /-- The element has lost its tag, and its children are rendered in its place. -/
  stripped : Bool

/-- One step of a walk. -/
structure Step where
  task : Task
  ctx : Context
  /-- The renderings in the course of which the step is taken, innermost first. -/
  path : List Enclosure
  before : RenderState
  after : RenderState
  /-- How the step failed, if it did. -/
  failure : Option Stop

/-- A state together with the steps that led to it. -/
structure Recording where
  state : RenderState
  steps : List Step := []

/-- A rendering that keeps a record. -/
abbrev Recorded (α : Type) := ExceptT Stop (StateM Recording) α

namespace Recorded

variable {α : Type}

/-- Takes a step without a record of it. -/
def unrecorded (step : Rendering α) : Recorded α := fun r =>
  let (result, state) := outcome step r.state
  (result, { r with state })

theorem outcome_unrecorded (step : Rendering α) (r : Recording) :
    outcome (unrecorded step) r =
      ((outcome step r.state).1, { r with state := (outcome step r.state).2 }) := rfl

/-- How a step failed, if it did. -/
def failure? : Except Stop α → Option Stop
  | .ok _ => none
  | .error stop => some stop

/-- A step as it was taken in a state. -/
def taken (task : Task) (path : List Enclosure) (ctx : Context) (step : Rendering α)
    (s : RenderState) : Step where
  task := task
  ctx := ctx
  path := path
  before := s
  after := (outcome step s).2
  failure := failure? (outcome step s).1

/-- A step that was taken as its task says. -/
inductive Genuine (settings : Settings) : Step → Prop where
  | prepare (path : List Enclosure) (ctx : Context) (s : RenderState) :
    Genuine settings (taken .prepare path ctx (prepare settings ctx) s)
  | handle (handler : Handler) (path : List Enclosure) (ctx : Context) (s : RenderState) :
    Genuine settings (taken (.handle handler) path ctx (handler.handle settings ctx) s)
  | recover (error : RenderError) (path : List Enclosure) (ctx : Context) (s : RenderState) :
    Genuine settings (taken (.recover error) path ctx (OnError.recover settings ctx error) s)

/-- Takes a step and adds it to the record. -/
def record (task : Task) (path : List Enclosure) (ctx : Context) (step : Rendering α) :
    Recorded α := fun r =>
  let (result, after) := outcome step r.state
  (result, ⟨after, r.steps ++ [taken task path ctx step r.state]⟩)

theorem outcome_record (task : Task) (path : List Enclosure) (ctx : Context)
    (step : Rendering α) (r : Recording) :
    outcome (record task path ctx step) r = ((outcome step r.state).1,
      ⟨(outcome step r.state).2, r.steps ++ [taken task path ctx step r.state]⟩) := rfl

variable (settings : Settings)

/-- Takes steps under the protection of an element's error handler. -/
def guarded (path : List Enclosure) (ctx : Context) (steps : Recorded α) : Recorded (Option α) :=
  tryCatch (some <$> steps) fun stop =>
    match stop with
    | .failed error => do
      record (.recover error) path ctx (OnError.recover settings ctx error)
      return none
    | .exhausted => throw .exhausted

theorem outcome_guarded_ok {path : List Enclosure} {ctx : Context} {m : Recorded α} {a : α}
    {r r' : Recording} (h : outcome m r = (.ok a, r')) :
    outcome (guarded settings path ctx m) r = (.ok (some a), r') := by
  unfold guarded
  rw [outcome_tryCatch, outcome_map, h]

theorem outcome_guarded_exhausted {path : List Enclosure} {ctx : Context} {m : Recorded α}
    {r r' : Recording} (h : outcome m r = (.error .exhausted, r')) :
    outcome (guarded settings path ctx m) r = (.error .exhausted, r') := by
  unfold guarded
  rw [outcome_tryCatch, outcome_map, h]
  rfl

/-- A failure is followed by one recorded step, the attempt to recover from it. -/
theorem outcome_guarded_failed {path : List Enclosure} {ctx : Context} {m : Recorded α}
    {error : RenderError} {r r' : Recording} (h : outcome m r = (.error (.failed error), r')) :
    ∃ result : Except Stop (Option α), ∃ next : Step,
      next = taken (.recover error) path ctx (OnError.recover settings ctx error) r'.state ∧
      failure? result = next.failure ∧
      outcome (guarded settings path ctx m) r = (result, ⟨next.after, r'.steps ++ [next]⟩) := by
  let recovery := OnError.recover settings ctx error
  refine ⟨(outcome recovery r'.state).1.map fun _ => none, _, rfl, ?_, ?_⟩
  · show _ = failure? (outcome recovery r'.state).1
    cases (outcome recovery r'.state).1 <;> rfl
  · unfold guarded
    rw [outcome_tryCatch, outcome_map, h]
    simp only [bind_pure_comp]
    rw [outcome_map, outcome_record]
    show _ = ((outcome recovery r'.state).1.map _, _)
    cases (outcome recovery r'.state).1 <;> rfl

/-- The contexts that a directive hands on; each exposed one with the context that exposed it. -/
structure Handed where
  contexts : List Context := []
  exposed : List (Context × Context) := []

/-- What a directive hands on, without the contexts that exposed others. -/
def Handed.outcome (handed : Handed) : Outcome :=
  { contexts := handed.contexts, exposed := handed.exposed.map (·.2) }

/-- Carries out one directive on each context. -/
def runHandler (path : List Enclosure) (handler : Handler) (contexts : List Context) :
    Recorded Handed := do
  let outcomes ← contexts.mapM fun ctx => guarded settings path ctx <|
    (ctx, ·) <$> record (.handle handler) path ctx (handler.handle settings ctx)
  let outcomes := outcomes.filterMap id
  return {
    contexts := outcomes.flatMap (·.2.contexts)
    exposed := outcomes.flatMap fun (ctx, outcome) => outcome.exposed.map (ctx, ·) }

/-- Carries out directives in order. -/
def runHandlers (path : List Enclosure) (start : Handed) (handlers : List Handler) :
    Recorded Handed :=
  handlers.foldlM (fun handed handler => do
    let next ← runHandler settings path handler handed.contexts
    return { contexts := next.contexts, exposed := handed.exposed ++ next.exposed }) start

/-- Renders the child elements of an element, in order. -/
def renderChildren (render : Context → Recorded Unit) (ctx : Context) : Recorded Unit := do
  ((← unrecorded Rendering.document).childElements ctx.node).forM fun node => do
    render (ctx.child (← unrecorded Rendering.document) node)

/-- Renders an element in the course of other renderings, at most `fuel` levels deep. -/
def render : Nat → List Enclosure → Context → Recorded Unit
  | 0, _, _ => throw .exhausted
  | fuel + 1, path, entry => do
    let start ← get
    let enclosure := fun ctx stripped => Enclosure.mk entry start.state ctx stripped
    match ← guarded settings path entry (record .prepare path entry (prepare settings entry)) with
    | none => return ()
    | some ctx =>
      let handed ← runHandlers settings path { contexts := [ctx] } Handler.order
      handed.contexts.forM fun ctx => do
        if ctx.rendersChildren then
          let _ ← guarded settings path ctx
            (renderChildren (render fuel (enclosure ctx false :: path)) ctx)
      handed.exposed.forM fun (origin, ctx) => render fuel (enclosure origin true :: path) ctx

variable (libraries : List Document)

/-- Renders a node and everything below it. -/
def renderNode (node : NodeId) : Recorded Unit := do
  unrecorded (Renderer.publishMacros settings libraries)
  let d ← unrecorded Rendering.document
  render settings (bound settings d.size) [] (.ofNode d node {})
  if settings.cleanup then
    unrecorded <| Rendering.changeDocument
      (Cleanup.removeDirectives settings.vocabularies · Document.root)

/-- The steps of rendering a node. -/
def stepsOf (node : NodeId) (s : RenderState) : List Step :=
  (outcome (renderNode settings libraries node) { state := s }).2.steps

/-! ## The record changes nothing -/

/-- Without its record, the first rendering is the second, results translated by `f`. -/
def Erases {β : Type} (f : α → β) (recorded : Recorded α) (plain : Rendering β) : Prop :=
  ∀ r, outcome plain r.state = ((outcome recorded r).1.map f, (outcome recorded r).2.state)

section Erases

variable {β γ δ : Type} {f : α → β} {m : Recorded α} {plain : Rendering β}

theorem erases_unrecorded (step : Rendering α) : Erases id (unrecorded step) step := by
  intro r
  rw [outcome_unrecorded]
  cases hresult : (outcome step r.state).1 <;> simp [Except.map, ← hresult]

theorem erases_record (task : Task) (path : List Enclosure) (ctx : Context)
    (step : Rendering α) : Erases id (record task path ctx step) step := by
  intro r
  have hresult : (outcome (record task path ctx step) r).1 = (outcome step r.state).1 := rfl
  have hstate : (outcome (record task path ctx step) r).2.state = (outcome step r.state).2 := rfl
  rw [hresult, hstate]
  cases h : (outcome step r.state).1 <;> simp [Except.map, ← h]

theorem erases_pure (a : α) : Erases f (pure a) (pure (f a)) := fun _ => rfl

theorem erases_throw (stop : Stop) : Erases f (throw stop) (throw stop) := fun _ => rfl

theorem Erases.bind {g : γ → δ} {k : α → Recorded γ} {k' : β → Rendering δ}
    (hm : Erases f m plain) (hk : ∀ a, Erases g (k a) (k' (f a))) :
    Erases g (m >>= k) (plain >>= k') := by
  intro r
  rw [outcome_bind, outcome_bind, hm r]
  rcases outcome m r with ⟨a | stop, r'⟩
  · rfl
  · exact hk _ r'

theorem Erases.tryCatch {k : Stop → Recorded α} {k' : Stop → Rendering β}
    (hm : Erases f m plain) (hk : ∀ stop, Erases f (k stop) (k' stop)) :
    Erases f (tryCatch m k) (tryCatch plain k') := by
  intro r
  rw [outcome_tryCatch, outcome_tryCatch, hm r]
  rcases outcome m r with ⟨a | stop, r'⟩
  · exact hk _ r'
  · rfl

theorem Erases.map {g : γ → β} {h : α → γ} (hm : Erases f m plain) (hcomm : ∀ a, g (h a) = f a) :
    Erases g (h <$> m) plain := by
  intro r
  rw [outcome_map, hm r]
  rcases outcome m r with ⟨a | stop, r'⟩
  · rfl
  · simp [Except.map, hcomm]

/-- What is looked up for the record alone is not in the plain rendering. -/
theorem erases_get_bind {k : Recording → Recorded α} (hk : ∀ r, Erases f (k r) plain) :
    Erases f (get >>= k) plain := by
  intro r
  rw [outcome_bind]
  exact hk r r

theorem Erases.some (hm : Erases f m plain) :
    Erases (Option.map f) (some <$> m) (some <$> plain) := by
  intro r
  rw [outcome_map, outcome_map, hm r]
  rcases outcome m r with ⟨a | stop, r'⟩ <;> rfl

theorem erases_mapM {ι : Type} {k : ι → Recorded α} {k' : ι → Rendering β}
    (hk : ∀ i, Erases f (k i) (k' i)) (items : List ι) :
    Erases (List.map f) (items.mapM k) (items.mapM k') := by
  induction items with
  | nil => exact erases_pure _
  | cons i items ih =>
      rw [List.mapM_cons, List.mapM_cons]
      exact (hk i).bind fun a => ih.bind fun as => erases_pure (a :: as)

theorem erases_forM {ι : Type} {k : ι → Recorded Unit} {k' : ι → Rendering Unit}
    (hk : ∀ i, Erases id (k i) (k' i)) (items : List ι) :
    Erases id (items.forM k) (items.forM k') := by
  induction items with
  | nil => exact erases_pure _
  | cons i items ih => exact (hk i).bind fun _ => ih

end Erases

theorem erases_guarded {β : Type} {f : α → β} {m : Recorded α} {plain : Rendering β}
    (path : List Enclosure) (ctx : Context) (hm : Erases f m plain) :
    Erases (Option.map f) (guarded settings path ctx m) (Walk.guarded settings ctx plain) := by
  refine hm.some.tryCatch ?_
  intro stop
  cases stop with
  | failed error => exact (erases_record _ _ _ _).bind fun _ => erases_pure none
  | exhausted => exact erases_throw _

theorem erases_runHandler (path : List Enclosure) (handler : Handler) (contexts : List Context) :
    Erases Handed.outcome (runHandler settings path handler contexts)
      (Walk.runHandler settings handler contexts) := by
  have hstep : ∀ ctx, Erases Prod.snd
      ((ctx, ·) <$> record (.handle handler) path ctx (handler.handle settings ctx))
      (handler.handle settings ctx) := fun ctx =>
    (erases_record _ _ _ _).map fun _ => rfl
  refine (erases_mapM (fun ctx => erases_guarded settings path ctx (hstep ctx)) contexts).bind ?_
  intro outcomes
  have hdone : (outcomes.map (Option.map Prod.snd)).filterMap id =
      (outcomes.filterMap id).map Prod.snd := by
    rw [List.filterMap_map, List.map_filterMap]
    rfl
  rw [hdone]
  intro r
  simp [Handed.outcome, Except.map, List.flatMap_map, List.map_flatMap, Function.comp_def]

theorem erases_runHandlers (path : List Enclosure) (start : Handed) (handlers : List Handler) :
    Erases Handed.outcome (runHandlers settings path start handlers)
      (Walk.runHandlers settings start.outcome handlers) := by
  induction handlers generalizing start with
  | nil => exact erases_pure _
  | cons handler handlers ih =>
      unfold runHandlers Walk.runHandlers
      rw [List.foldlM_cons, List.foldlM_cons]
      refine Erases.bind (f := Handed.outcome) ?_ fun handed => ih handed
      refine (erases_runHandler settings path handler start.contexts).bind fun next => ?_
      intro r
      simp [Handed.outcome, Except.map]

theorem erases_renderChildren {render : Context → Recorded Unit} {plain : Context → Rendering Unit}
    (h : ∀ ctx, Erases id (render ctx) (plain ctx)) (ctx : Context) :
    Erases id (renderChildren render ctx) (Walk.renderChildren plain ctx) := by
  refine (erases_unrecorded Rendering.document).bind fun d => ?_
  refine erases_forM (fun node => ?_) _
  exact (erases_unrecorded Rendering.document).bind fun d => h (ctx.child d node)

/-- The recorded walk is the walk. -/
theorem erases_render (fuel : Nat) (path : List Enclosure) (entry : Context) :
    Erases id (render settings fuel path entry) (Walk.render settings fuel entry) := by
  induction fuel generalizing path entry with
  | zero => exact erases_throw _
  | succ fuel ih =>
      unfold render Walk.render
      refine erases_get_bind fun start => ?_
      have hprepare := erases_guarded settings path entry
        (erases_record .prepare path entry (prepare settings entry))
      refine hprepare.bind fun ctx? => ?_
      cases ctx? with
      | none => exact erases_pure _
      | some ctx =>
          have hhandlers := erases_runHandlers settings path { contexts := [ctx] } Handler.order
          refine hhandlers.bind fun handed => ?_
          refine Erases.bind (f := id) (erases_forM (fun ctx => ?_) _) fun _ => ?_
          · split
            · have hchildren := erases_guarded settings path ctx <|
                erases_renderChildren (fun child =>
                  ih (⟨entry, start.state, ctx, false⟩ :: path) child) ctx
              exact hchildren.bind fun _ => erases_pure _
            · exact erases_pure _
          · have hmap : handed.outcome.exposed.forM (Walk.render settings fuel) =
                handed.exposed.forM fun (_, ctx) => Walk.render settings fuel ctx :=
              List.forM_map
            rw [hmap]
            exact erases_forM (fun (origin, ctx) => ih _ ctx) _

/-- Rendering a node with a record gives what rendering it gives. -/
theorem erases_renderNode (libraries : List Document) (node : NodeId) :
    Erases id (renderNode settings libraries node)
      (Renderer.renderNode settings libraries node) := by
  refine (erases_unrecorded _).bind fun _ => ?_
  refine (erases_unrecorded Rendering.document).bind fun d => ?_
  refine (erases_render settings _ [] _).bind fun _ => ?_
  show Erases id (if settings.cleanup then _ else _) (if settings.cleanup then _ else _)
  split
  · exact erases_unrecorded _
  · exact erases_pure _

end Recorded

end PageTemplate.Walk
