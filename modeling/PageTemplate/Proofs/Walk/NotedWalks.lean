import PageTemplate.Proofs.Walk.Coupled
import PageTemplate.Proofs.Walk.NotedSteps

/-! # Walks with and without source comments

The walk that annotates elements takes the steps of the walk that does not: every directive finds an
element with no notes below it and does what it does without them, and what is made along the way is
paired as it is made. So the two end alike, and the comments are all that the second one has more.
-/

namespace PageTemplate

open Markup Document Stage

namespace Stage

open Walk Walk.Recorded

variable {stage : Stage} {M : NodeId → NodeId → Prop} {s s' : RenderState} {ctx ctx' : Context}
  {p : NodeId} {earlier earlier' : List Step} {step step' : Step}

/-- The stage of the rendering with source comments. -/
def annotated (stage : Stage) : Stage :=
  { stage with
    settings := stage.settings.annotated
    faithful := ⟨stage.faithful.functions, stage.faithful.modules, stage.faithful.options⟩ }

theorem Sound.of_annotated (h : stage.annotated.Sound s) : stage.Sound s := ⟨h.kept, h.globals⟩

theorem Standing.of_annotated (h : stage.annotated.Standing p s ctx) : stage.Standing p s ctx :=
  ⟨h.linked, h.rooted, h.parent_eq, h.element, h.globals, h.admits.scope, h.admits.written,
    h.admits.depth⟩

/-- The comments of the walk with source comments. -/
abbrev notesIn (stage : Stage) (steps : List Step) : List NodeId :=
  notesOf stage.annotated.settings steps

/-- Both steps find the same element, without notes below it. -/
theorem Allows.exists_facing (h : stage.Allows earlier step)
    (h' : stage.annotated.Allows earlier' step') (hvisitors : stage.settings.visitors = [])
    (hstates : step.before.Noted M (stage.notesIn earlier') step'.before)
    (hctx : step.ctx.Paired M step'.ctx) (htask : step'.task.recovers = false) :
    ∃ p p', Facing stage M (stage.notesIn earlier') p p' step.before step'.before step.ctx
      step'.ctx := by
  obtain ⟨p, hstanding⟩ := h.exists_standing hvisitors
  obtain ⟨p', hstanding'⟩ := h'.exists_standing hvisitors
  exact ⟨p, p', hstates, hctx, hstanding, hstanding'.of_annotated, fun m hm hnote =>
    (h'.finds htask).clear m hm ⟨hvisitors, hnote⟩⟩

end Stage

namespace Walk.Recorded

variable {α α' β β' ι ι' : Type} {stage : Stage} {M M₁ : NodeId → NodeId → Prop}
  {R : (NodeId → NodeId → Prop) → α → α' → Prop} {S : (NodeId → NodeId → Prop) → β → β' → Prop}
  {m : Recorded α} {m' : Recorded α'}

/-- The state of the second recording is that of the first one, with the comments of the walk. -/
def Noted (stage : Stage) (M : NodeId → NodeId → Prop) (r r' : Recording) : Prop :=
  r.state.Noted M (stage.notesIn r'.steps) r'.state

/-- The two results are related, and the recordings are the same but for the comments. Whatever was
paired still is. -/
def NotedEnd (stage : Stage) (M : NodeId → NodeId → Prop)
    (R : (NodeId → NodeId → Prop) → α → α' → Prop) (a : α) (t : Recording) (a' : α')
    (t' : Recording) : Prop :=
  ∃ M₁, M ≤ M₁ ∧ Noted stage M₁ t t' ∧ R M₁ a a'

/-- Whenever the two begin with states that are the same but for comments and take only steps that
are allowed, they end alike. -/
def Annotating (stage : Stage) (M : NodeId → NodeId → Prop)
    (R : (NodeId → NodeId → Prop) → α → α' → Prop) (m : Recorded α) (m' : Recorded α') : Prop :=
  ∀ M₁, M ≤ M₁ → ∀ r r', stage.AllAllowed (outcome m r).2.steps →
    stage.annotated.AllAllowed (outcome m' r').2.steps → Noted stage M₁ r r' →
    EndAlike (NotedEnd stage M₁ R) (SameError fun t t' => ∃ M₂, M₁ ≤ M₂ ∧ Noted stage M₂ t t')
      (outcome m r) (outcome m' r')

theorem Annotating.mono (h : Annotating stage M R m m') (hM : M ≤ M₁) :
    Annotating stage M₁ R m m' :=
  fun M₂ hM₂ => h M₂ (hM.trans hM₂)

theorem annotating_pure {a : α} {a' : α'} (h : ∀ M₁, M ≤ M₁ → R M₁ a a') :
    Annotating stage M R (pure a) (pure a') :=
  fun M₁ hM _ _ _ _ hstates => .ok ⟨M₁, le_rfl, hstates, h M₁ hM⟩

theorem annotating_throw (stop : Stop) : Annotating stage M R (throw stop) (throw stop) :=
  fun M₁ _ _ _ _ _ hstates => .error ⟨rfl, M₁, le_rfl, hstates⟩

theorem annotating_get : Annotating stage M (fun _ _ _ => True) get get :=
  fun M₁ _ _ _ _ _ hstates => .ok ⟨M₁, le_rfl, hstates, trivial⟩

theorem annotating_document :
    Annotating stage M (fun M₁ d d' => ∃ notes, d.Noted M₁ notes d')
      (unrecorded Rendering.document) (unrecorded Rendering.document) :=
  fun M₁ _ _ _ _ _ hstates => .ok ⟨M₁, le_rfl, hstates, _, hstates.documents⟩

protected theorem Annotating.bind {k : α → Recorded β} {k' : α' → Recorded β'}
    (hm : Annotating stage M R m m')
    (hk : ∀ M₁, M ≤ M₁ → ∀ a a', R M₁ a a' → Annotating stage M₁ S (k a) (k' a'))
    (hgrows : ∀ a, Grows (k a)) (hgrows' : ∀ a', Grows (k' a')) :
    Annotating stage M S (m >>= k) (m' >>= k') := by
  intro M₁ hM r r' hallowed hallowed' hstates
  obtain ⟨steps, hsteps⟩ := Grows.bind (m := m) hgrows r
  obtain ⟨steps', hsteps'⟩ := Grows.bind (m := m') hgrows' r'
  have hfirst := hm M₁ hM r r' (hsteps ▸ hallowed).of_append (hsteps' ▸ hallowed').of_append hstates
  rw [outcome_bind] at hallowed hallowed' ⊢
  rw [outcome_bind]
  generalize outcome m r = p, outcome m' r' = p' at *
  cases hfirst with
  | ok h =>
      obtain ⟨M₂, hM₂, hstates₂, ha⟩ := h
      refine (hk M₂ (hM.trans hM₂) _ _ ha M₂ le_rfl _ _ hallowed hallowed' hstates₂).mono ?_ ?_
      · exact fun b t b' t' ⟨M₃, hM₃, h⟩ => ⟨M₃, hM₂.trans hM₃, h⟩
      · exact fun stop t stop' t' ⟨hstop, M₃, hM₃, h⟩ => ⟨hstop, M₃, hM₂.trans hM₃, h⟩
  | error h => exact .error h

protected theorem Annotating.map {f : α → β} {f' : α' → β'} (hm : Annotating stage M R m m')
    (hf : ∀ M₁, M ≤ M₁ → ∀ a a', R M₁ a a' → S M₁ (f a) (f' a')) :
    Annotating stage M S (f <$> m) (f' <$> m') := by
  intro M₁ hM r r' hallowed hallowed' hstates
  rw [recording_map] at hallowed hallowed'
  refine (hm M₁ hM r r' hallowed hallowed' hstates).map fun a t a' t' h => ?_
  obtain ⟨M₂, hM₂, hstates₂, ha⟩ := h
  exact ⟨M₂, hM₂, hstates₂, hf M₂ (hM.trans hM₂) a a' ha⟩

protected theorem Annotating.tryCatch {k : Stop → Recorded α} {k' : Stop → Recorded α'}
    (hm : Annotating stage M R m m') (hk : ∀ stop, Annotating stage M R (k stop) (k' stop))
    (hgrows : ∀ stop, Grows (k stop)) (hgrows' : ∀ stop, Grows (k' stop)) :
    Annotating stage M R (tryCatch m k) (tryCatch m' k') := by
  intro M₁ hM r r' hallowed hallowed' hstates
  obtain ⟨steps, hsteps⟩ := Grows.tryCatch (m := m) hgrows r
  obtain ⟨steps', hsteps'⟩ := Grows.tryCatch (m := m') hgrows' r'
  have hfirst := hm M₁ hM r r' (hsteps ▸ hallowed).of_append (hsteps' ▸ hallowed').of_append hstates
  rw [outcome_tryCatch] at hallowed hallowed' ⊢
  rw [outcome_tryCatch]
  generalize outcome m r = p, outcome m' r' = p' at *
  cases hfirst with
  | ok h => exact .ok h
  | error h =>
      obtain ⟨rfl, M₂, hM₂, hstates₂⟩ := h
      refine (hk _ M₂ (hM.trans hM₂) _ _ hallowed hallowed' hstates₂).mono ?_ ?_
      · exact fun b t b' t' ⟨M₃, hM₃, h⟩ => ⟨M₃, hM₂.trans hM₃, h⟩
      · exact fun stop t stop' t' ⟨hstop, M₃, hM₃, h⟩ => ⟨hstop, M₃, hM₂.trans hM₃, h⟩

/-! ## Loops -/

section Loops

variable {Item : ι → ι' → Prop} {items : List ι} {items' : List ι'}
  (hitems : List.Forall₂ Item items items')

include hitems

protected theorem Annotating.forM {f : ι → Recorded Unit} {f' : ι' → Recorded Unit}
    (hf : ∀ i i', Item i i' → Annotating stage M (fun _ _ _ => True) (f i) (f' i'))
    (hgrows : ∀ items : List ι, Grows (items.forM f))
    (hgrows' : ∀ items : List ι', Grows (items.forM f')) :
    Annotating stage M (fun _ _ _ => True) (items.forM f) (items'.forM f') := by
  induction hitems with
  | nil => exact annotating_pure fun _ _ => trivial
  | cons hhead _ ih =>
      exact (hf _ _ hhead).bind (fun _ hM _ _ _ => ih.mono hM) (fun _ => hgrows _)
        fun _ => hgrows' _

/-- Results that are related at one time must still be when the later ones are there. -/
protected theorem Annotating.mapM {f : ι → Recorded α} {f' : ι' → Recorded α'}
    (hR : ∀ {M M₁ : NodeId → NodeId → Prop} {a a'}, M ≤ M₁ → R M a a' → R M₁ a a')
    (hf : ∀ i i', Item i i' → Annotating stage M R (f i) (f' i'))
    (hgrows : ∀ items : List ι, Grows (items.mapM f))
    (hgrows' : ∀ items : List ι', Grows (items.mapM f')) :
    Annotating stage M (fun M₁ => List.Forall₂ (R M₁)) (items.mapM f) (items'.mapM f') := by
  induction hitems with
  | nil => exact annotating_pure fun _ _ => .nil
  | cons hhead _ ih =>
      rw [List.mapM_cons, List.mapM_cons]
      simp only [bind_pure_comp]
      exact (hf _ _ hhead).bind
        (fun M₁ hM a a' ha => (ih.mono hM).map fun M₂ hM₂ as as' has =>
          List.Forall₂.cons (hR hM₂ ha) has)
        (fun a => (hgrows _).map) fun a => (hgrows' _).map

end Loops

/-! ## Steps -/

section Steps

variable {path path' : List Enclosure} {ctx ctx' : Context}

/-- Steps other than the first one of a rendering make no notes. -/
theorem notesIn_taken {task : Task} {step : Rendering α} {s : RenderState} {earlier : List Step}
    (htask : task ≠ .prepare) :
    stage.notesIn (earlier ++ [taken task path ctx step s]) = stage.notesIn earlier := by
  rw [notesIn, notesOf_concat, Step.notes_eq_nil htask, List.append_nil]

variable (hvisitors : stage.settings.visitors = [])

include hvisitors

/-- A step that does the same in documents that are the same but for notes, when it is allowed on
both sides. -/
theorem annotating_record {task : Task} {step : Rendering α} {step' : Rendering α'}
    (hstep : ∀ M₁, M ≤ M₁ → ∀ s s' earlier earlier',
      s.Noted M₁ (stage.notesIn earlier') s' →
      stage.Allows earlier (taken task path ctx step s) →
      stage.annotated.Allows earlier' (taken task path' ctx' step' s') →
      EndAlike
        (Noting M₁ (stage.notesIn (earlier' ++ [taken task path' ctx' step' s'])) R)
        (NotingFailure M₁ (stage.notesIn (earlier' ++ [taken task path' ctx' step' s'])))
        (outcome step s) (outcome step' s')) :
    Annotating stage M R (record task path ctx step) (record task path' ctx' step') := by
  intro M₁ hM r r' hallowed hallowed' hstates
  have hallows := hallowed r.steps _ [] rfl
  have hends := hstep M₁ hM _ _ _ _ hstates hallows (hallowed' r'.steps _ [] rfl)
  rw [outcome_record, outcome_record]
  rcases hout : outcome step r.state with ⟨stop | a, t⟩ <;>
    rcases hout' : outcome step' r'.state with ⟨stop' | a', t'⟩ <;>
    rw [hout, hout'] at hends <;> cases hends
  case ok h => exact .ok h
  case error h =>
    refine .error ⟨h.1.resolve_right ?_, h.2⟩
    rintro ⟨error, rfl, hedit⟩
    -- No edit fails on an element that stands where the stage says.
    have hfailure : (taken task path ctx step r.state).failure = some (.failed (.tree error)) := by
      show failure? (outcome step r.state).1 = _
      rw [hout]
      rfl
    exact hedit ((hallows.ends _ hfailure).expects.isExpected hvisitors)

variable (hctx : ctx.Paired M ctx')

include hctx

theorem annotating_prepare (hplain : stage.settings.sourceComments = false) :
    Annotating stage M Context.Paired
      (record .prepare path ctx (prepare stage.settings ctx))
      (record .prepare path' ctx' (prepare stage.settings.annotated ctx')) := by
  refine annotating_record hvisitors fun M₁ hM s s' earlier earlier' hstates hallows hallows' => ?_
  obtain ⟨p, p', hfacing⟩ :=
    hallows.exists_facing hallows' hvisitors hstates (hctx.mono hM) rfl
  obtain ⟨level, hpending⟩ := (hallows.finds rfl).stands
  obtain ⟨level', hpending'⟩ := (hallows'.finds rfl).stands
  rw [notesIn, notesOf_concat]
  exact hfacing.noting_prepare hvisitors hplain hallows.sound hallows'.sound.of_annotated hpending
    hpending' path'

theorem annotating_handle (handler : Handler) :
    Annotating stage M Outcome.Paired
      (record (.handle handler) path ctx (handler.handle stage.settings ctx))
      (record (.handle handler) path' ctx' (handler.handle stage.settings.annotated ctx')) := by
  rw [Handler.handle_annotated]
  refine annotating_record hvisitors fun M₁ hM s s' earlier earlier' hstates hallows hallows' => ?_
  obtain ⟨p, p', hfacing⟩ :=
    hallows.exists_facing hallows' hvisitors hstates (hctx.mono hM) rfl
  obtain ⟨level, hstands⟩ := (hallows.finds rfl).stands
  obtain ⟨level', hstands'⟩ := (hallows'.finds rfl).stands
  have htask : Task.handle handler ≠ .prepare := nofun
  rw [notesIn_taken htask]
  exact hfacing.noting_handle handler hstands hstands'

theorem annotating_recover (error : RenderError) :
    Annotating stage M (fun _ _ _ => True)
      (record (.recover error) path ctx (OnError.recover stage.settings ctx error))
      (record (.recover error) path' ctx' (OnError.recover stage.settings.annotated ctx' error)) := by
  rw [OnError.recover_annotated]
  refine annotating_record hvisitors fun M₁ hM s s' earlier earlier' hstates hallows hallows' => ?_
  have htask : Task.recover error ≠ .prepare := nofun
  rw [notesIn_taken htask]
  exact OnError.noting_recover hstates (hctx.mono hM) (hallows.grounded hvisitors)
    (hallows'.grounded hvisitors) hallows.element hallows.admits hallows.sound.globals error

theorem annotating_guarded (hm : Annotating stage M R m m') :
    Annotating stage M (fun M₁ => Option.Rel (R M₁)) (guarded stage.settings path ctx m)
      (guarded stage.settings.annotated path' ctx' m') := by
  unfold guarded
  refine Annotating.tryCatch (hm.map fun _ _ _ _ => .some) (fun stop => ?_)
    (grows_recovery _ path ctx) (grows_recovery _ path' ctx')
  cases stop with
  | failed error =>
      exact (annotating_recover hvisitors hctx error).bind
        (fun _ _ _ _ _ => annotating_pure fun _ _ => .none) (fun _ => grows_pure none)
        fun _ => grows_pure none
  | exhausted => exact annotating_throw _

end Steps

/-! ## Walks -/

/-- The same contexts of paired elements are handed on and exposed. -/
structure Handed.Paired (M : NodeId → NodeId → Prop) (handed handed' : Handed) : Prop where
  contexts : List.Forall₂ (Context.Paired M) handed.contexts handed'.contexts
  exposed : List.Forall₂ (fun entry entry' => entry.2.Paired M entry'.2) handed.exposed
    handed'.exposed

theorem Handed.Paired.mono {handed handed' : Handed} (h : handed.Paired M handed') (hM : M ≤ M₁) :
    handed.Paired M₁ handed' :=
  ⟨h.contexts.imp fun _ _ hc => hc.mono hM, h.exposed.imp fun _ _ hentry => hentry.mono hM⟩

section Walks

variable {path path' : List Enclosure} {handed handed' : Handed}
  (hvisitors : stage.settings.visitors = [])

include hvisitors

theorem annotating_runHandler (handler : Handler) {contexts contexts' : List Context}
    (h : List.Forall₂ (Context.Paired M) contexts contexts') :
    Annotating stage M Handed.Paired (runHandler stage.settings path handler contexts)
      (runHandler stage.settings.annotated path' handler contexts') := by
  have hgrows : ∀ (settings : Settings) (path : List Enclosure) (contexts : List Context),
      Grows (contexts.mapM fun ctx => guarded settings path ctx
        ((ctx, ·) <$> record (.handle handler) path ctx (handler.handle settings ctx))) :=
    fun settings path contexts => (unwinding_mapM (fun ctx =>
      unwinding_guarded settings (unwinding_record (.handle handler path ctx)).map) contexts).grows
  unfold runHandler
  refine Annotating.bind (Annotating.mapM (R := fun M => Option.Rel fun entry entry' =>
    Outcome.Paired M entry.2 entry'.2) h ?_ (fun c c' hc => ?_) (hgrows _ path) (hgrows _ path'))
    (fun M₁ _ outcomes outcomes' houtcomes => annotating_pure fun M₂ hM₂ => ?_)
    (fun _ => grows_pure _) fun _ => grows_pure _
  · rintro M M₁ _ _ hM (hentry | _)
    · exact .some (hentry.mono hM)
    · exact .none
  · exact annotating_guarded hvisitors hc
      ((annotating_handle hvisitors hc handler).map fun _ _ _ _ => id)
  · have hkept : List.Forall₂ (fun entry entry' => Outcome.Paired M₂ entry.2 entry'.2)
        (outcomes.filterMap id) (outcomes'.filterMap id) :=
      (List.rel_filterMap (fun _ _ h => h) houtcomes).imp fun _ _ hentry => hentry.mono hM₂
    refine ⟨List.rel_flatMap hkept fun _ _ h => h.contexts,
      List.rel_flatMap hkept fun entry entry' h => ?_⟩
    exact List.forall₂_map_left_iff.mpr (List.forall₂_map_right_iff.mpr h.exposed)

theorem annotating_runHandlers (handlers : List Handler) (h : handed.Paired M handed') :
    Annotating stage M Handed.Paired (runHandlers stage.settings path handed handlers)
      (runHandlers stage.settings.annotated path' handed' handlers) := by
  induction handlers generalizing M handed handed' with
  | nil => exact annotating_pure fun _ hM => h.mono hM
  | cons handler handlers ih =>
      unfold runHandlers
      rw [List.foldlM_cons, List.foldlM_cons]
      refine Annotating.bind (R := Handed.Paired) ?_ (fun _ _ _ _ => ih)
        (fun _ => (unwinding_runHandlers _ _ _ _).grows)
        fun _ => (unwinding_runHandlers _ _ _ _).grows
      refine (annotating_runHandler hvisitors handler h.contexts).bind
        (fun M₁ hM₁ next next' hnext => annotating_pure fun M₂ hM₂ => ?_)
        (fun _ => grows_pure _) fun _ => grows_pure _
      have hnext := hnext.mono hM₂
      exact ⟨hnext.contexts, List.rel_append (h.mono (hM₁.trans hM₂)).exposed hnext.exposed⟩

variable {fuel : Nat} {ctx ctx' entry entry' : Context} {start start' : RenderState}

section Within

variable (ih : ∀ {M : NodeId → NodeId → Prop} {path path' : List Enclosure} {ctx ctx' : Context},
  ctx.Paired M ctx' →
    Annotating stage M (fun _ _ _ => True) (render stage.settings fuel path ctx)
      (render stage.settings.annotated fuel path' ctx'))

include ih

omit hvisitors in
theorem annotating_renderChildren (hctx : ctx.Paired M ctx') :
    Annotating stage M (fun _ _ _ => True) (renderChildren (render stage.settings fuel path) ctx)
      (renderChildren (render stage.settings.annotated fuel path') ctx') := by
  have hgrows : ∀ (settings : Settings) (path : List Enclosure) (ctx : Context)
      (children : List NodeId),
      Grows (children.forM (renderChild (render settings fuel path) ctx)) :=
    fun settings path ctx children =>
      (unwinding_forM (unwinding_renderChild settings fuel path ctx) children).grows
  refine annotating_document.bind (fun M₁ hM₁ d d' ⟨_, hd⟩ => ?_) (fun _ => hgrows _ path ctx _)
    fun _ => hgrows _ path' ctx' _
  refine Annotating.forM (hd.childElements (hM₁ _ _ hctx.pairs)) (fun n n' hn => ?_)
    (hgrows _ path ctx) (hgrows _ path' ctx')
  exact annotating_document.bind
    (fun M₂ hM₂ d d' ⟨_, hd⟩ => ih ((hctx.mono (hM₁.trans hM₂)).child hd (hM₂ _ _ hn)))
    (fun _ => (unwinding_render _ _ _ _).grows) fun _ => (unwinding_render _ _ _ _).grows

theorem annotating_renderWithin (hctx : ctx.Paired M ctx') :
    Annotating stage M (fun _ _ _ => True)
      (renderWithin stage.settings fuel path entry start ctx)
      (renderWithin stage.settings.annotated fuel path' entry' start' ctx') := by
  have hrenders : ctx'.rendersChildren = ctx.rendersChildren := by
    obtain ⟨node, -, rfl⟩ := hctx
    rfl
  unfold renderWithin
  rw [hrenders]
  split
  · exact (annotating_guarded hvisitors hctx (annotating_renderChildren ih hctx)).bind
      (fun _ _ _ _ _ => annotating_pure fun _ _ => trivial) (fun _ => grows_pure _)
      fun _ => grows_pure _
  · exact annotating_pure fun _ _ => trivial

theorem annotating_renderHanded (h : handed.Paired M handed') :
    Annotating stage M (fun _ _ _ => True)
      (renderHanded stage.settings fuel path entry start handed)
      (renderHanded stage.settings.annotated fuel path' entry' start' handed') := by
  have hwithin : ∀ settings path entry start (contexts : List Context),
      Grows (contexts.forM (renderWithin settings fuel path entry start)) :=
    fun settings path entry start contexts =>
      (unwinding_forM (unwinding_renderWithin settings fuel path entry start) contexts).grows
  have hexposed : ∀ settings path entry start (exposed : List (Context × Context)),
      Grows (exposed.forM (renderExposed settings fuel path entry start)) :=
    fun settings path entry start exposed =>
      (unwinding_forM (unwinding_renderExposed settings fuel path entry start) exposed).grows
  refine (Annotating.forM h.contexts
    (fun c c' hc => annotating_renderWithin hvisitors ih hc) (hwithin _ _ _ _)
    (hwithin _ _ _ _)).bind (fun M₁ hM₁ _ _ _ => ?_) (fun _ => hexposed _ _ _ _ _)
    fun _ => hexposed _ _ _ _ _
  exact Annotating.forM (h.mono hM₁).exposed (fun entry entry' hentry => ih hentry)
    (hexposed _ _ _ _) (hexposed _ _ _ _)

theorem annotating_renderPrepared (hctx : ctx.Paired M ctx') :
    Annotating stage M (fun _ _ _ => True)
      (renderPrepared stage.settings fuel path entry start ctx)
      (renderPrepared stage.settings.annotated fuel path' entry' start' ctx') :=
  (annotating_runHandlers hvisitors Handler.order ⟨.cons hctx .nil, .nil⟩).bind
    (fun _ _ _ _ h => annotating_renderHanded hvisitors ih h)
    (fun _ => (unwinding_renderHanded _ _ _ _ _ _).grows)
    fun _ => (unwinding_renderHanded _ _ _ _ _ _).grows

end Within

/-- The rendering of an element is the same with and without source comments. -/
theorem annotating_render (hplain : stage.settings.sourceComments = false) (fuel : Nat)
    (hctx : ctx.Paired M ctx') :
    Annotating stage M (fun _ _ _ => True) (render stage.settings fuel path ctx)
      (render stage.settings.annotated fuel path' ctx') := by
  induction fuel generalizing M path path' ctx ctx' with
  | zero => exact annotating_throw _
  | succ fuel ih =>
      have hprepare : ∀ settings path ctx, Unwinding settings (sheltering (places path))
          (guarded settings path ctx (record .prepare path ctx (prepare settings ctx))) :=
        fun settings path ctx => unwinding_guarded _ (unwinding_record (.prepare path ctx))
      rw [render_succ, render_succ]
      refine annotating_get.bind (fun M₁ hM₁ r r' _ => ?_) (fun r => ?_) fun r => ?_
      · refine (annotating_guarded hvisitors (hctx.mono hM₁)
          (annotating_prepare hvisitors (hctx.mono hM₁) hplain)).bind
          (fun M₂ hM₂ found found' h => ?_) (fun _ => (unwinding_renderFound _ _ _ _ _ _).grows)
          fun _ => (unwinding_renderFound _ _ _ _ _ _).grows
        cases h with
        | none => exact annotating_pure fun _ _ => trivial
        | some hc => exact annotating_renderPrepared hvisitors ih hc
      · exact (Unwinding.bind (hprepare _ path ctx) fun _ =>
          unwinding_renderFound _ _ _ _ _ _).grows
      · exact (Unwinding.bind (hprepare _ path' ctx') fun _ =>
          unwinding_renderFound _ _ _ _ _ _).grows

end Walks

end Walk.Recorded

end PageTemplate
