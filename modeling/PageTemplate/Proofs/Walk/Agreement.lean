import PageTemplate.Proofs.Render.Agreement

/-! # Walks that agree

A walk does the same whatever macros lie around the element that it begins with, as long as no
element runs into the limit. An element that does ends both walks that could be compared: no error
handler recovers from that.
-/

namespace PageTemplate

open Markup

variable {settings : Settings} {differ : Prop} {ctx ctx' : Context}

/-! ## Macros -/

namespace Expansion

theorem agree_resolve (h : ctx.Alike differ ctx') (element : NodeId) (spec : AttributeSpec)
    (expression : String) :
    Agree settings differ Eq (resolve settings ctx element spec expression)
      (resolve settings ctx' element spec expression) := by
  refine (h.agree_evaluate _).next fun result => Agree.document.next fun d => ?_
  split
  · split
    · exact .pure rfl
    split
    · exact .pure rfl
    · exact .fail _
  · split
    · exact .fail _
    · exact .fail _

theorem agree_fillCurrent (state : State) :
    Agree settings differ Eq (fillCurrent settings state) (fillCurrent settings state) :=
  (Agree.createIn _).next fun _ => .pure rfl

theorem agree_advance (state : State) (parent : MacroRef) :
    Agree settings differ Eq (advance settings state parent) (advance settings state parent) := by
  refine Agree.document.next fun d => (Agree.createIn _).next fun copy => ?_
  split
  · exact .fail _
  dsimp only
  split
  · exact .fail _
  · exact .pure rfl

theorem agree_extendTo (h : ctx.Alike differ ctx') (fuel : Nat) (state : State) :
    Agree settings differ Eq (extendTo settings ctx fuel state)
      (extendTo settings ctx' fuel state) := by
  induction fuel generalizing state with
  | zero => exact fun _ _ hstates => .error hstates
  | succ fuel ih =>
      refine Agree.document.next fun d => ?_
      split
      · exact .pure rfl
      refine (agree_resolve h _ _ _).next fun found => ?_
      split
      · exact .pure rfl
      · exact (agree_advance _ _).next fun state => (agree_fillCurrent state).next ih

theorem agree_expand (h : ctx.Alike differ ctx') (used : MacroRef) :
    Agree settings differ Eq (expand settings ctx used) (expand settings ctx' used) := by
  unfold expand
  rw [h.node_eq]
  refine Agree.document.next fun d => (Agree.createIn _).next fun copy => ?_
  refine (agree_fillCurrent _).next fun state => (agree_extendTo h _ _).next fun state => ?_
  exact .pure rfl

/-- Of two uses of a macro one may run into the limit, and then the other one does not count. -/
theorem agree_handle (h : ctx.Alike differ ctx') :
    Agree settings differ (Context.Alike differ) (handle settings ctx) (handle settings ctx') := by
  unfold handle
  refine Agree.document.next fun d => ?_
  rw [h.directive?_eq, h.node_eq]
  split
  · exact .pure h
  refine (agree_resolve h _ _ _).next fun found => ?_
  split
  · exact .pure h
  next used =>
    -- In the same macros both or neither are at the limit; otherwise each may be on its own.
    obtain ⟨macroStack, rfl, rfl | hdiffer⟩ := h
    · split
      · exact .fail _
      · refine (agree_expand (.refl ctx) used).next fun expanded => (Agree.edit _).next fun _ => ?_
        exact Agree.document.next fun d => .pure (.refl _)
    by_cases hlimit : settings.maxMacroDepth ≤ ctx.macroStack.length
    · rw [if_pos hlimit]
      exact fun _ _ _ => .limit_left hdiffer ⟨_, rfl⟩
    by_cases hlimit' : settings.maxMacroDepth ≤ macroStack.length
    · rw [if_pos (c := settings.maxMacroDepth ≤ macroStack.length) hlimit']
      exact fun _ _ _ => .limit_right hdiffer ⟨_, rfl⟩
    rw [if_neg hlimit, if_neg (c := settings.maxMacroDepth ≤ macroStack.length) hlimit']
    refine (agree_expand ⟨macroStack, rfl, .inr hdiffer⟩ used).next fun expanded => ?_
    refine (Agree.edit _).next fun _ => Agree.document.next fun d => ?_
    exact .pure ⟨macroStack ++ [used.name], rfl, .inr hdiffer⟩

end Expansion

/-! ## The walk -/

namespace Walk

/-- An error handler hands on that an element runs into the limit. -/
theorem outcome_guarded_atLimit {α : Type} {step : Rendering α} {stop : Stop} {s t : RenderState}
    (hlimit : stop.AtLimit settings) (h : outcome step s = (.error stop, t)) :
    outcome (guarded settings ctx step) s = (.error stop, t) := by
  obtain ⟨chain, rfl⟩ := hlimit
  unfold guarded Rendering.guarded
  rw [outcome_tryCatch, outcome_map, h]
  rfl

theorem agree_guarded {α β : Type} {R : α → β → Prop} {step : Rendering α} {step' : Rendering β}
    (h : ctx.Alike differ ctx') (hstep : Agree settings differ R step step') :
    Agree settings differ (Option.Rel R) (guarded settings ctx step)
      (guarded settings ctx' step') := by
  intro s t hstates
  have hagrees := hstep s t hstates
  rcases hleft : outcome step s with ⟨result, s'⟩
  rcases hright : outcome step' t with ⟨result', t'⟩
  rw [hleft, hright] at hagrees
  -- No handler recovers from the limit, so what agreed up to it still does.
  cases hagrees with
  | limit_left hdiffer hlimit =>
      rw [outcome_guarded_atLimit hlimit hleft]
      exact .limit_left hdiffer hlimit
  | limit_right hdiffer hlimit =>
      rw [outcome_guarded_atLimit hlimit hright]
      exact .limit_right hdiffer hlimit
  | ok hab hstates' =>
      unfold guarded Rendering.guarded
      rw [outcome_tryCatch, outcome_tryCatch, outcome_map, outcome_map, hleft, hright]
      exact .ok (.some hab) hstates'
  | @error stop _ _ hstates' =>
      unfold guarded Rendering.guarded
      rw [outcome_tryCatch, outcome_tryCatch, outcome_map, outcome_map, hleft, hright]
      cases stop with
      | exhausted => exact .error hstates'
      | failed error =>
          have hrecover := OnError.agree_recover settings h error
          exact hrecover.bind (fun _ _ _ => .pure .none) _ _ hstates'

theorem agree_annotate (v : Vocabularies) (base : Option String) (node : NodeId) :
    Agree settings differ Eq (SourceComment.annotate v base node)
      (SourceComment.annotate v base node) := by
  have hcomment : ∀ tag insert,
      Agree settings differ Eq (SourceComment.addComment base node tag insert)
        (SourceComment.addComment base node tag insert) := fun tag insert =>
    Agree.document.next fun d => (Agree.createIn _).next fun comment => .edit _
  refine Agree.document.next fun d => ?_
  split
  · dsimp only
    split
    · exact hcomment _ _
    split
    · exact (hcomment _ _).next fun _ => hcomment _ _
    split
    · exact hcomment _ _
    split
    · exact hcomment _ _
    · exact .pure rfl
  · exact .pure rfl

/-- Before its directives, an element that no visitor of the host sees is the same in macros of
other names. -/
theorem agree_prepare (hvisitors : settings.visitors = []) (h : ctx.Alike differ ctx') :
    Agree settings differ (Context.Alike differ) (prepare settings ctx)
      (prepare settings ctx') := by
  refine (Expansion.agree_handle h).bind fun c c' hc => ?_
  unfold visitors
  rw [hvisitors]
  split
  · refine Agree.bind (R := Context.Alike differ) ?_ fun _ _ => .pure
    show Agree settings differ _
      (do SourceComment.annotate settings.vocabularies settings.commentRoot c.node; return c)
      (do SourceComment.annotate settings.vocabularies settings.commentRoot c'.node; return c')
    rw [hc.node_eq]
    exact (agree_annotate _ _ _).next fun _ => .pure hc
  · exact .pure hc

theorem agree_runHandler (handler : Handler) {contexts contexts' : List Context}
    (h : List.Forall₂ (Context.Alike differ) contexts contexts') :
    Agree settings differ (Outcome.Alike differ) (runHandler settings handler contexts)
      (runHandler settings handler contexts') := by
  unfold runHandler
  refine .bind (.mapM (S := Option.Rel (Outcome.Alike differ)) (fun c c' hc => ?_) h)
    fun outcomes outcomes' houtcomes => .pure ?_
  · exact agree_guarded hc (handler.agree_handle settings hc)
  · have hkept : List.Forall₂ (Outcome.Alike differ) (outcomes.filterMap id)
        (outcomes'.filterMap id) :=
      List.rel_filterMap (fun _ _ h => h) houtcomes
    exact ⟨List.rel_flatMap hkept fun _ _ h => h.contexts,
      List.rel_flatMap hkept fun _ _ h => h.exposed⟩

theorem agree_runHandlers (handlers : List Handler) {start start' : Outcome}
    (h : start.Alike differ start') :
    Agree settings differ (Outcome.Alike differ) (runHandlers settings start handlers)
      (runHandlers settings start' handlers) := by
  refine .foldlM (fun outcome outcome' houtcome handler => ?_) handlers h
  refine (agree_runHandler handler houtcome.contexts).bind fun next next' hnext => .pure ?_
  exact ⟨hnext.contexts, List.rel_append houtcome.exposed hnext.exposed⟩

/-- What follows on the preparation of an element, once it agrees for both. -/
theorem agrees_of_prepared {fuel : Nat} {s t : RenderState}
    (hprepared : Agrees settings differ (Option.Rel (Context.Alike differ))
      (outcome (guarded settings ctx (prepare settings ctx)) s)
      (outcome (guarded settings ctx' (prepare settings ctx')) t))
    (hrender : ∀ c c' : Context, c.Alike differ c' →
      Agree settings differ Eq (render settings fuel c) (render settings fuel c')) :
    Agrees settings differ Eq (outcome (render settings (fuel + 1) ctx) s)
      (outcome (render settings (fuel + 1) ctx') t) := by
  unfold render
  refine hprepared.bind fun found found' hfound => ?_
  cases hfound with
  | none => exact .pure rfl
  | some h =>
      refine (agree_runHandlers _ ⟨.cons h .nil, .nil⟩).bind fun outcome outcome' houtcome => ?_
      refine .next (.forM (fun c c' hc => ?_) houtcome.contexts) fun _ =>
        .forM hrender houtcome.exposed
      rw [hc.rendersChildren_eq]
      split
      · refine (agree_guarded (R := Eq) hc ?_).bind fun _ _ _ => .pure rfl
        refine Agree.document.next fun d => ?_
        rw [hc.node_eq]
        refine .forM (R := Eq) ?_ (List.forall₂_refl _)
        rintro node _ rfl
        exact Agree.document.next fun d => hrender _ _ (hc.child d node)
      · exact .pure rfl

/-- The rendering of an element agrees with its rendering in macros of other names. -/
theorem agree_render (hvisitors : settings.visitors = []) (fuel : Nat)
    (h : ctx.Alike differ ctx') :
    Agree settings differ Eq (render settings fuel ctx) (render settings fuel ctx') := by
  induction fuel generalizing ctx ctx' with
  | zero => exact fun _ _ hstates => .error hstates
  | succ fuel ih =>
      intro s t hstates
      exact agrees_of_prepared (agree_guarded h (agree_prepare hvisitors h) s t hstates)
        fun c c' hc => ih hc

/-- Directives, macros and error handlers leave a faithful cache faithful. -/
theorem isFaithful_cache_outcome {α : Type} {step : Rendering α} {R : α → α → Prop}
    {s : RenderState} (hstep : Agree settings False R step step) (hcache : s.cache.IsFaithful) :
    (outcome step s).2.cache.IsFaithful := by
  have hagrees := hstep s s ⟨rfl, rfl, rfl, hcache, hcache⟩
  generalize outcome step s = p at hagrees ⊢
  cases hagrees with
  | ok _ hstates => exact hstates.cache_left
  | error hstates => exact hstates.cache_left
  | limit_left hdiffer => exact hdiffer.elim
  | limit_right hdiffer => exact hdiffer.elim

end Walk

end PageTemplate
