import PageTemplate.Proofs.Walk.Course
import PageTemplate.Proofs.Walk.Phases
import PageTemplate.Proofs.Walk.PreparationTwins

/-! # Walks through twins

Two renderings of paired elements take the same steps: each step finds twins, for the steps before
it have left twins, and does the same to them. So the two end alike. What single steps rely on is
what the stage allows, so nothing is asked but that all steps of the two walks are allowed.
-/

namespace PageTemplate

open Markup Document Stage

namespace Walk.Recorded

variable {α α' β β' ι ι' : Type}

/-! ## The record only grows -/

/-- Steps are only added to the record. -/
def Grows (m : Recorded α) : Prop := ∀ r, ∃ steps, (outcome m r).2.steps = r.steps ++ steps

theorem Unwinding.grows {settings : Settings} {outer : List Place} {m : Recorded α}
    (h : Unwinding settings outer m) : Grows m :=
  fun r => (h r).imp fun _ => And.left

theorem recording_map (f : α → β) (m : Recorded α) (r : Recording) :
    (outcome (f <$> m) r).2 = (outcome m r).2 := by
  rw [outcome_map]
  rcases outcome m r with ⟨_ | _, t⟩ <;> rfl

theorem Grows.map {m : Recorded α} (h : Grows m) {f : α → β} : Grows (f <$> m) := fun r => by
  rw [recording_map]
  exact h r

theorem grows_pure (a : α) : Grows (pure a) := fun _ => ⟨[], (List.append_nil _).symm⟩

/-- What is recorded first stays recorded. -/
theorem Grows.bind {m : Recorded α} {k : α → Recorded β} (hk : ∀ a, Grows (k a)) (r : Recording) :
    ∃ steps, (outcome (m >>= k) r).2.steps = (outcome m r).2.steps ++ steps := by
  rw [outcome_bind]
  rcases outcome m r with ⟨stop | a, t⟩
  · exact ⟨[], (List.append_nil _).symm⟩
  · exact hk a t

theorem Grows.tryCatch {m : Recorded α} {k : Stop → Recorded α} (hk : ∀ stop, Grows (k stop))
    (r : Recording) :
    ∃ steps, (outcome (tryCatch m k) r).2.steps = (outcome m r).2.steps ++ steps := by
  rw [outcome_tryCatch]
  rcases outcome m r with ⟨stop | a, t⟩
  · exact hk stop t
  · exact ⟨[], (List.append_nil _).symm⟩

end Walk.Recorded

namespace Stage

open Walk

/-- Every step is one that the stage allows after the steps before it. -/
def AllAllowed (stage : Stage) (steps : List Step) : Prop :=
  ∀ earlier step later, steps = earlier ++ step :: later → stage.Allows earlier step

variable {stage : Stage}

theorem AllAllowed.of_append {steps later : List Step} (h : stage.AllAllowed (steps ++ later)) :
    stage.AllAllowed steps := by
  rintro earlier step rest rfl
  exact h earlier step (rest ++ later) (by simp)

end Stage

namespace Walk.Recorded

variable {α α' β β' ι ι' : Type} {stage : Stage} {P : Pairing} {R : α → α' → Prop}
  {S : β → β' → Prop} {Item : ι → ι' → Prop} {m : Recorded α} {m' : Recorded α'}

/-- Whenever the two begin with twins and take only steps that are allowed, they end alike. -/
def Coupled (stage : Stage) (P : Pairing) (R : α → α' → Prop) (m : Recorded α) (m' : Recorded α') :
    Prop :=
  ∀ r r', stage.AllAllowed (outcome m r).2.steps → stage.AllAllowed (outcome m' r').2.steps →
    r.state.Twins P r'.state →
    EndAlike (fun a t a' t' => R a a' ∧ t.state.Twins P t'.state)
      (SameError fun t t' => t.state.Twins P t'.state) (outcome m r) (outcome m' r')

theorem coupled_pure {a : α} {a' : α'} (h : R a a') : Coupled stage P R (pure a) (pure a') :=
  fun _ _ _ _ hstates => .ok ⟨h, hstates⟩

theorem coupled_throw (stop : Stop) : Coupled stage P R (throw stop) (throw stop) :=
  fun _ _ _ _ hstates => .error ⟨rfl, hstates⟩

theorem coupled_get : Coupled stage P (fun _ _ => True) get get :=
  fun _ _ _ _ hstates => .ok ⟨trivial, hstates⟩

theorem coupled_document :
    Coupled stage P (Twins P) (unrecorded Rendering.document) (unrecorded Rendering.document) :=
  fun _ _ _ _ hstates => .ok ⟨hstates.documents, hstates⟩

protected theorem Coupled.bind {k : α → Recorded β} {k' : α' → Recorded β'}
    (hm : Coupled stage P R m m') (hk : ∀ a a', R a a' → Coupled stage P S (k a) (k' a'))
    (hgrows : ∀ a, Grows (k a)) (hgrows' : ∀ a', Grows (k' a')) :
    Coupled stage P S (m >>= k) (m' >>= k') := by
  intro r r' hallowed hallowed' hstates
  obtain ⟨steps, hsteps⟩ := Grows.bind (m := m) hgrows r
  obtain ⟨steps', hsteps'⟩ := Grows.bind (m := m') hgrows' r'
  have hfirst := hm r r' (hsteps ▸ hallowed).of_append (hsteps' ▸ hallowed').of_append hstates
  rw [outcome_bind] at hallowed hallowed' ⊢
  rw [outcome_bind]
  generalize outcome m r = p, outcome m' r' = p' at *
  cases hfirst with
  | ok h => exact hk _ _ h.1 _ _ hallowed hallowed' h.2
  | error h => exact .error h

protected theorem Coupled.map {f : α → β} {f' : α' → β'} (hm : Coupled stage P R m m')
    (hf : ∀ a a', R a a' → S (f a) (f' a')) : Coupled stage P S (f <$> m) (f' <$> m') := by
  intro r r' hallowed hallowed' hstates
  rw [recording_map] at hallowed hallowed'
  exact (hm r r' hallowed hallowed' hstates).map fun a t a' t' h => ⟨hf a a' h.1, h.2⟩

protected theorem Coupled.tryCatch {k : Stop → Recorded α} {k' : Stop → Recorded α'}
    (hm : Coupled stage P R m m') (hk : ∀ stop, Coupled stage P R (k stop) (k' stop))
    (hgrows : ∀ stop, Grows (k stop)) (hgrows' : ∀ stop, Grows (k' stop)) :
    Coupled stage P R (tryCatch m k) (tryCatch m' k') := by
  intro r r' hallowed hallowed' hstates
  obtain ⟨steps, hsteps⟩ := Grows.tryCatch (m := m) hgrows r
  obtain ⟨steps', hsteps'⟩ := Grows.tryCatch (m := m') hgrows' r'
  have hfirst := hm r r' (hsteps ▸ hallowed).of_append (hsteps' ▸ hallowed').of_append hstates
  rw [outcome_tryCatch] at hallowed hallowed' ⊢
  rw [outcome_tryCatch]
  generalize outcome m r = p, outcome m' r' = p' at *
  cases hfirst with
  | ok h => exact .ok h
  | error h =>
      obtain ⟨rfl, h⟩ := h
      exact hk _ _ _ hallowed hallowed' h

/-! ## Loops -/

section Loops

variable {items : List ι} {items' : List ι'} (hitems : List.Forall₂ Item items items')

include hitems

protected theorem Coupled.forM {f : ι → Recorded Unit} {f' : ι' → Recorded Unit}
    (hf : ∀ i i', Item i i' → Coupled stage P (fun _ _ => True) (f i) (f' i'))
    (hgrows : ∀ items : List ι, Grows (items.forM f))
    (hgrows' : ∀ items : List ι', Grows (items.forM f')) :
    Coupled stage P (fun _ _ => True) (items.forM f) (items'.forM f') := by
  induction hitems with
  | nil => exact coupled_pure trivial
  | cons hhead _ ih =>
      exact (hf _ _ hhead).bind (fun _ _ _ => ih) (fun _ => hgrows _) fun _ => hgrows' _

protected theorem Coupled.mapM {f : ι → Recorded α} {f' : ι' → Recorded α'}
    (hf : ∀ i i', Item i i' → Coupled stage P R (f i) (f' i'))
    (hgrows : ∀ items : List ι, Grows (items.mapM f))
    (hgrows' : ∀ items : List ι', Grows (items.mapM f')) :
    Coupled stage P (List.Forall₂ R) (items.mapM f) (items'.mapM f') := by
  induction hitems with
  | nil => exact coupled_pure .nil
  | cons hhead _ ih =>
      rw [List.mapM_cons, List.mapM_cons]
      simp only [bind_pure_comp]
      exact (hf _ _ hhead).bind
        (fun a a' ha => ih.map fun as as' has => List.Forall₂.cons ha has)
        (fun a => (hgrows _).map) fun a => (hgrows' _).map

end Loops

/-! ## Steps -/

/-- What an element's error handler does when there was a failure. -/
theorem grows_recovery (settings : Settings) (path : List Enclosure) (ctx : Context)
    (stop : Stop) :
    Grows (match stop with
      | .failed error => do
        record (.recover error) path ctx (OnError.recover settings ctx error)
        return none
      | .exhausted => throw .exhausted : Recorded (Option α)) := by
  cases stop with
  | failed error =>
      exact ((unwinding_record (.recover error path ctx)).bind fun _ => unwinding_pure none).grows
  | exhausted => exact (unwinding_throw_exhausted : Unwinding settings [] _).grows

/-- A step that does the same to twins when it is allowed on both sides. -/
theorem coupled_record (hvisitors : stage.settings.visitors = []) {task : Task}
    {path path' : List Enclosure} {ctx ctx' : Context} {step : Rendering α} {step' : Rendering α'}
    (hstep : ∀ s s' earlier earlier', s.Twins P s' →
      stage.Allows earlier (taken task path ctx step s) →
      stage.Allows earlier' (taken task path' ctx' step' s') →
      EndAlike (Ending P R) (Stopping P) (outcome step s) (outcome step' s')) :
    Coupled stage P R (record task path ctx step) (record task path' ctx' step') := by
  intro r r' hallowed hallowed' hstates
  have hallows := hallowed r.steps _ [] rfl
  have hends := hstep _ _ _ _ hstates hallows (hallowed' r'.steps _ [] rfl)
  rw [outcome_record, outcome_record]
  rcases hout : outcome step r.state with ⟨stop | a, t⟩ <;>
    rcases hout' : outcome step' r'.state with ⟨stop' | a', t'⟩ <;>
    rw [hout, hout'] at hends <;> cases hends
  case ok h => exact .ok h
  case error h =>
    refine .error ⟨h.1.resolve_right ?_, h.2⟩
    rintro ⟨error, rfl, hedit⟩
    -- No edit fails on an element that stands where the stage says.
    have hfailure : (taken task path ctx step r.state).failure = some (.failed (.tree error)) := by
      show failure? (outcome step r.state).1 = _
      rw [hout]
      rfl
    exact hedit ((hallows.ends _ hfailure).expects.isExpected hvisitors)

section Elements

variable {path path' : List Enclosure} {ctx ctx' : Context}
  (hvisitors : stage.settings.visitors = []) (hctx : ctx.Twins P ctx')

include hvisitors hctx

theorem coupled_prepare (hsource : P.source' = P.source) :
    Coupled stage P (Context.Twins P)
      (record .prepare path ctx (prepare stage.settings ctx))
      (record .prepare path' ctx' (prepare stage.settings ctx')) := by
  refine coupled_record hvisitors fun s s' earlier earlier' hstates hallows hallows' => ?_
  obtain ⟨p, hstanding⟩ := hallows.exists_standing hvisitors
  obtain ⟨p', hstanding'⟩ := hallows'.exists_standing hvisitors
  obtain ⟨f, hgood⟩ := hallows.exists_throughout hvisitors rfl
  obtain ⟨f', hgood'⟩ := hallows'.exists_throughout hvisitors rfl
  exact endAlike_prepare hvisitors hstates hsource hctx hallows.sound hallows'.sound hstanding
    hstanding' hgood hgood'

theorem coupled_handle (handler : Handler) :
    Coupled stage P (Outcome.Twins P)
      (record (.handle handler) path ctx (handler.handle stage.settings ctx))
      (record (.handle handler) path' ctx' (handler.handle stage.settings ctx')) := by
  refine coupled_record hvisitors fun s s' earlier earlier' hstates hallows hallows' => ?_
  obtain ⟨p, hstanding⟩ := hallows.exists_standing hvisitors
  obtain ⟨p', hstanding'⟩ := hallows'.exists_standing hvisitors
  exact handler.endAlike_handle hstates hctx hstanding hstanding'

theorem coupled_recover (error : RenderError) :
    Coupled stage P (fun _ _ => True)
      (record (.recover error) path ctx (OnError.recover stage.settings ctx error))
      (record (.recover error) path' ctx' (OnError.recover stage.settings ctx' error)) := by
  refine coupled_record hvisitors fun s s' earlier earlier' hstates hallows hallows' => ?_
  obtain ⟨p, hstanding⟩ := hallows.exists_standing hvisitors
  obtain ⟨p', hstanding'⟩ := hallows'.exists_standing hvisitors
  exact (OnError.endAlike_recover (abreast_of_standing hstates hctx hstanding hstanding')
    error).mono (fun _ _ _ _ h => ⟨trivial, h⟩) fun _ _ _ _ => id

theorem coupled_guarded (hm : Coupled stage P R m m') :
    Coupled stage P (Option.Rel R) (guarded stage.settings path ctx m)
      (guarded stage.settings path' ctx' m') := by
  unfold guarded
  refine Coupled.tryCatch (hm.map fun _ _ => .some) (fun stop => ?_)
    (grows_recovery _ path ctx) (grows_recovery _ path' ctx')
  cases stop with
  | failed error =>
      exact (coupled_recover hvisitors hctx error).bind (fun _ _ _ => coupled_pure .none)
        (fun _ => grows_pure none) fun _ => grows_pure none
  | exhausted => exact coupled_throw _

end Elements

/-! ## Walks -/

/-- The same contexts are handed on and exposed. -/
structure Handed.Twins (P : Pairing) (handed handed' : Handed) : Prop where
  contexts : List.Forall₂ (Context.Twins P) handed.contexts handed'.contexts
  exposed : List.Forall₂ (fun entry entry' => entry.2.Twins P entry'.2) handed.exposed
    handed'.exposed

section Walks

variable {path path' : List Enclosure} {handed handed' : Handed}
  (hvisitors : stage.settings.visitors = [])

include hvisitors

theorem coupled_runHandler (handler : Handler) {contexts contexts' : List Context}
    (h : List.Forall₂ (Context.Twins P) contexts contexts') :
    Coupled stage P (Handed.Twins P) (runHandler stage.settings path handler contexts)
      (runHandler stage.settings path' handler contexts') := by
  have hgrows : ∀ (path : List Enclosure) (contexts : List Context),
      Grows (contexts.mapM fun ctx => guarded stage.settings path ctx
        ((ctx, ·) <$> record (.handle handler) path ctx (handler.handle stage.settings ctx))) :=
    fun path contexts => (unwinding_mapM (fun ctx =>
      unwinding_guarded stage.settings (unwinding_record (.handle handler path ctx)).map)
      contexts).grows
  unfold runHandler
  refine Coupled.bind (Coupled.mapM (R := Option.Rel fun entry entry' =>
    entry.2.Twins P entry'.2) h (fun c c' hc => ?_) (hgrows path) (hgrows path'))
    (fun outcomes outcomes' houtcomes => coupled_pure ?_)
    (fun _ => grows_pure _) fun _ => grows_pure _
  · exact coupled_guarded hvisitors hc ((coupled_handle hvisitors hc handler).map fun _ _ => id)
  · have hkept : List.Forall₂ (fun entry entry' => Outcome.Twins P entry.2 entry'.2)
        (outcomes.filterMap id) (outcomes'.filterMap id) :=
      List.rel_filterMap (fun _ _ h => h) houtcomes
    refine ⟨List.rel_flatMap hkept fun _ _ h => h.contexts,
      List.rel_flatMap hkept fun entry entry' h => ?_⟩
    exact List.forall₂_map_left_iff.mpr (List.forall₂_map_right_iff.mpr h.exposed)

theorem coupled_runHandlers (handlers : List Handler) (h : handed.Twins P handed') :
    Coupled stage P (Handed.Twins P) (runHandlers stage.settings path handed handlers)
      (runHandlers stage.settings path' handed' handlers) := by
  induction handlers generalizing handed handed' with
  | nil => exact coupled_pure h
  | cons handler handlers ih =>
      unfold runHandlers
      rw [List.foldlM_cons, List.foldlM_cons]
      refine Coupled.bind (R := Handed.Twins P) ?_ (fun _ _ => ih)
        (fun _ => (unwinding_runHandlers stage.settings _ _ _).grows)
        fun _ => (unwinding_runHandlers stage.settings _ _ _).grows
      refine (coupled_runHandler hvisitors handler h.contexts).bind
        (fun next next' hnext => coupled_pure ?_)
        (fun _ => grows_pure _) fun _ => grows_pure _
      exact ⟨hnext.contexts, List.rel_append h.exposed hnext.exposed⟩

variable {fuel : Nat} {ctx ctx' entry entry' : Context} {start start' : RenderState}

section Within

variable (ih : ∀ {path path' : List Enclosure} {ctx ctx' : Context}, ctx.Twins P ctx' →
  Coupled stage P (fun _ _ => True) (render stage.settings fuel path ctx)
    (render stage.settings fuel path' ctx'))

include ih

omit hvisitors in
theorem coupled_renderChildren (hctx : ctx.Twins P ctx') :
    Coupled stage P (fun _ _ => True) (renderChildren (render stage.settings fuel path) ctx)
      (renderChildren (render stage.settings fuel path') ctx') := by
  have hgrows : ∀ (path : List Enclosure) (ctx : Context) (children : List NodeId),
      Grows (children.forM (renderChild (render stage.settings fuel path) ctx)) :=
    fun path ctx children =>
      (unwinding_forM (unwinding_renderChild _ fuel path ctx) children).grows
  refine coupled_document.bind (fun d d' hd => ?_) (fun _ => hgrows path ctx _)
    fun _ => hgrows path' ctx' _
  refine Coupled.forM (hd.down.childElements hctx.pairs) (fun n n' hn => ?_) (hgrows path ctx)
    (hgrows path' ctx')
  exact coupled_document.bind (fun d d' hd => ih (hctx.child hd hn))
    (fun _ => (unwinding_render _ _ _ _).grows) fun _ => (unwinding_render _ _ _ _).grows

theorem coupled_renderWithin (hctx : ctx.Twins P ctx') :
    Coupled stage P (fun _ _ => True) (renderWithin stage.settings fuel path entry start ctx)
      (renderWithin stage.settings fuel path' entry' start' ctx') := by
  have hrenders : ctx'.rendersChildren = ctx.rendersChildren := by
    obtain ⟨node, -, rfl⟩ := hctx
    rfl
  unfold renderWithin
  rw [hrenders]
  split
  · exact (coupled_guarded hvisitors hctx (coupled_renderChildren ih hctx)).bind
      (fun _ _ _ => coupled_pure trivial) (fun _ => grows_pure _) fun _ => grows_pure _
  · exact coupled_pure trivial

theorem coupled_renderHanded (h : handed.Twins P handed') :
    Coupled stage P (fun _ _ => True) (renderHanded stage.settings fuel path entry start handed)
      (renderHanded stage.settings fuel path' entry' start' handed') := by
  have hwithin : ∀ path entry start (contexts : List Context),
      Grows (contexts.forM (renderWithin stage.settings fuel path entry start)) :=
    fun path entry start contexts =>
      (unwinding_forM (unwinding_renderWithin _ fuel path entry start) contexts).grows
  have hexposed : ∀ path entry start (exposed : List (Context × Context)),
      Grows (exposed.forM (renderExposed stage.settings fuel path entry start)) :=
    fun path entry start exposed =>
      (unwinding_forM (unwinding_renderExposed _ fuel path entry start) exposed).grows
  refine (Coupled.forM h.contexts (fun c c' hc => coupled_renderWithin hvisitors ih hc)
    (hwithin _ _ _) (hwithin _ _ _)).bind (fun _ _ _ => ?_) (fun _ => hexposed _ _ _ _)
    fun _ => hexposed _ _ _ _
  exact Coupled.forM h.exposed (fun entry entry' hentry => ih hentry) (hexposed _ _ _)
    (hexposed _ _ _)

theorem coupled_renderPrepared (hctx : ctx.Twins P ctx') :
    Coupled stage P (fun _ _ => True) (renderPrepared stage.settings fuel path entry start ctx)
      (renderPrepared stage.settings fuel path' entry' start' ctx') :=
  (coupled_runHandlers hvisitors Handler.order ⟨.cons hctx .nil, .nil⟩).bind
    (fun _ _ h => coupled_renderHanded hvisitors ih h)
    (fun _ => (unwinding_renderHanded _ _ _ _ _ _).grows)
    fun _ => (unwinding_renderHanded _ _ _ _ _ _).grows

end Within

/-- The rendering of an element does not depend on where the element stands among the nodes of the
document, nor on what else is there beside it. -/
theorem coupled_render (hsource : P.source' = P.source) (fuel : Nat) (hctx : ctx.Twins P ctx') :
    Coupled stage P (fun _ _ => True) (render stage.settings fuel path ctx)
      (render stage.settings fuel path' ctx') := by
  induction fuel generalizing path path' ctx ctx' with
  | zero => exact coupled_throw _
  | succ fuel ih =>
      have hprepare : ∀ path ctx, Unwinding stage.settings (sheltering (places path))
          (guarded stage.settings path ctx
            (record .prepare path ctx (prepare stage.settings ctx))) := fun path ctx =>
        unwinding_guarded _ (unwinding_record (.prepare path ctx))
      rw [render_succ, render_succ]
      refine coupled_get.bind (fun r r' _ => ?_) (fun r => ?_) fun r => ?_
      · refine (coupled_guarded hvisitors hctx (coupled_prepare hvisitors hctx hsource)).bind
          (fun found found' h => ?_) (fun _ => (unwinding_renderFound _ _ _ _ _ _).grows)
          fun _ => (unwinding_renderFound _ _ _ _ _ _).grows
        cases h with
        | none => exact coupled_pure trivial
        | some hc => exact coupled_renderPrepared hvisitors ih hc
      · exact (Unwinding.bind (hprepare path ctx) fun _ =>
          unwinding_renderFound _ _ _ _ _ _).grows
      · exact (Unwinding.bind (hprepare path' ctx') fun _ =>
          unwinding_renderFound _ _ _ _ _ _).grows

end Walks

end Walk.Recorded

end PageTemplate
