import Mathlib.Data.List.Forall2
import PageTemplate.Proofs.Expression.Caching
import PageTemplate.Render.Walk

/-! # Renderings that agree

Two renderings agree when they end with related results and leave the same document, bindings and
notes behind, or fail in the same way. What the cache holds does not matter for that, nor do the
names of the macros around an element: these only count towards the limit. `differ` says whether
the two renderings are in different macros; if so, nothing is said about one of them where the
other runs into the limit.
-/

namespace PageTemplate

open Markup

/-- Two states that show the same to all steps: they may differ in what is kept in the cache. -/
structure RenderState.Alike (s t : RenderState) : Prop where
  document : s.document = t.document
  globals : s.globals = t.globals
  journal : s.journal = t.journal
  cache_left : s.cache.IsFaithful
  cache_right : t.cache.IsFaithful

/-- The failure of an element that uses a macro inside too many others. -/
def Stop.AtLimit (settings : Settings) (stop : Stop) : Prop :=
  ∃ chain, stop = .failed
    (.macroChain chain s!"nests use-macro deeper than the limit of {settings.maxMacroDepth}")

/-- Two ends of renderings that agree; where they `differ`, either may have run into the limit. -/
inductive Agrees (settings : Settings) (differ : Prop) {α β : Type} (R : α → β → Prop) :
    Except Stop α × RenderState → Except Stop β × RenderState → Prop
  | ok {a : α} {b : β} {s t : RenderState} (h : R a b) (hstates : s.Alike t) :
    Agrees settings differ R (.ok a, s) (.ok b, t)
  | error {stop : Stop} {s t : RenderState} (hstates : s.Alike t) :
    Agrees settings differ R (.error stop, s) (.error stop, t)
  | limit_left {stop : Stop} {s : RenderState} {q : Except Stop β × RenderState}
    (hdiffer : differ) (h : stop.AtLimit settings) : Agrees settings differ R (.error stop, s) q
  | limit_right {stop : Stop} {t : RenderState} {p : Except Stop α × RenderState}
    (hdiffer : differ) (h : stop.AtLimit settings) : Agrees settings differ R p (.error stop, t)

/-- Renderings that agree in all states that show the same. -/
def Agree (settings : Settings) (differ : Prop) {α β : Type} (R : α → β → Prop) (m : Rendering α)
    (m' : Rendering β) : Prop :=
  ∀ s t : RenderState, s.Alike t → Agrees settings differ R (outcome m s) (outcome m' t)

namespace RenderState.Alike

variable {s t : RenderState} (h : s.Alike t)

include h

theorem change (change : Document → Document) :
    RenderState.Alike { s with document := change s.document }
      { t with document := change t.document } :=
  ⟨congrArg change h.document, h.globals, h.journal, h.cache_left, h.cache_right⟩

theorem bind (name : String) (value : Value) :
    RenderState.Alike { s with globals := s.globals.bind name value }
      { t with globals := t.globals.bind name value } :=
  ⟨h.document, congrArg (·.bind name value) h.globals, h.journal, h.cache_left, h.cache_right⟩

theorem cached (text : String) :
    RenderState.Alike { s with cache := (s.cache.get text).2 }
      { t with cache := (t.cache.get text).2 } :=
  ⟨h.document, h.globals, h.journal, (h.cache_left.get text).2, (h.cache_right.get text).2⟩

end RenderState.Alike

/-! ## Composed steps -/

section Rules

variable {settings : Settings} {differ : Prop} {α β γ δ ι : Type} {R : α → β → Prop}
  {S : γ → δ → Prop} {m : Rendering α} {m' : Rendering β}

theorem Agrees.bind {f : α → Rendering γ} {f' : β → Rendering δ} {s t : RenderState}
    (hm : Agrees settings differ R (outcome m s) (outcome m' t))
    (hf : ∀ a b, R a b → Agree settings differ S (f a) (f' b)) :
    Agrees settings differ S (outcome (m >>= f) s) (outcome (m' >>= f') t) := by
  rw [outcome_bind, outcome_bind]
  generalize outcome m s = p at hm ⊢
  generalize outcome m' t = q at hm ⊢
  cases hm with
  | ok h hstates => exact hf _ _ h _ _ hstates
  | error hstates => exact .error hstates
  | limit_left hdiffer h => exact .limit_left hdiffer h
  | limit_right hdiffer h => exact .limit_right hdiffer h

namespace Agree

protected theorem bind {f : α → Rendering γ} {f' : β → Rendering δ}
    (hm : Agree settings differ R m m') (hf : ∀ a b, R a b → Agree settings differ S (f a) (f' b)) :
    Agree settings differ S (m >>= f) (m' >>= f') :=
  fun s t hstates => (hm s t hstates).bind hf

/-- After a step that is the same on both sides. -/
theorem next {m' : Rendering α} {f : α → Rendering γ} {f' : α → Rendering δ}
    (hm : Agree settings differ Eq m m') (hf : ∀ a, Agree settings differ S (f a) (f' a)) :
    Agree settings differ S (m >>= f) (m' >>= f') := by
  refine hm.bind fun a b hab => ?_
  subst hab
  exact hf a

protected theorem pure {a : α} {b : β} (h : R a b) : Agree settings differ R (pure a) (pure b) :=
  fun _ _ hstates => .ok h hstates

theorem fail (error : RenderError) :
    Agree settings differ R (Rendering.fail error) (Rendering.fail error) :=
  fun _ _ hstates => .error hstates

theorem document : Agree settings differ Eq Rendering.document Rendering.document :=
  fun _ _ hstates => .ok hstates.document hstates

theorem changeDocument (change : Document → Document) :
    Agree settings differ Eq (Rendering.changeDocument change) (Rendering.changeDocument change) :=
  fun _ _ hstates => .ok rfl (hstates.change change)

theorem createIn (change : Document → Document × α) :
    Agree settings differ Eq (Rendering.createIn change) (Rendering.createIn change) :=
  fun _ _ hstates => .ok (congrArg (change · |>.2) hstates.document)
    (hstates.change (change · |>.1))

theorem edit (change : Edit α) :
    Agree settings differ Eq (Rendering.edit change) (Rendering.edit change) := by
  refine (createIn _).next fun result => ?_
  cases result with
  | ok value => exact .pure rfl
  | error error => exact fail _

theorem bindGlobal (name : String) (value : Value) :
    Agree settings differ Eq (Rendering.bindGlobal name value) (Rendering.bindGlobal name value) :=
  fun _ _ hstates => .ok rfl (hstates.bind name value)

protected theorem forM {f : α → Rendering Unit} {f' : β → Rendering Unit}
    (hf : ∀ a b, R a b → Agree settings differ Eq (f a) (f' b)) {items : List α} {items' : List β}
    (hitems : List.Forall₂ R items items') :
    Agree settings differ Eq (items.forM f) (items'.forM f') := by
  induction hitems with
  | nil => exact .pure rfl
  | cons h _ ih => exact (hf _ _ h).next fun _ => ih

protected theorem mapM {f : α → Rendering γ} {f' : β → Rendering δ}
    (hf : ∀ a b, R a b → Agree settings differ S (f a) (f' b)) {items : List α} {items' : List β}
    (hitems : List.Forall₂ R items items') :
    Agree settings differ (List.Forall₂ S) (items.mapM f) (items'.mapM f') := by
  induction hitems with
  | nil => exact .pure .nil
  | cons h _ ih =>
      rw [List.mapM_cons, List.mapM_cons]
      exact (hf _ _ h).bind fun c d hcd => ih.bind fun cs ds hcds => .pure (.cons hcd hcds)

protected theorem foldlM {f : α → ι → Rendering α} {f' : β → ι → Rendering β}
    (hf : ∀ a b, R a b → ∀ i, Agree settings differ R (f a i) (f' b i)) (items : List ι) {a : α}
    {b : β} (h : R a b) : Agree settings differ R (items.foldlM f a) (items.foldlM f' b) := by
  induction items generalizing a b with
  | nil => exact .pure h
  | cons i items ih =>
      rw [List.foldlM_cons, List.foldlM_cons]
      exact (hf a b h i).bind fun c d hcd => ih hcd

end Agree

end Rules

/-! ## Contexts in different macros -/

/-- The same element in the same scope, in macros of other names. -/
def Context.Alike (differ : Prop) (ctx ctx' : Context) : Prop :=
  ∃ macroStack, ctx' = { ctx with macroStack } ∧ (macroStack = ctx.macroStack ∨ differ)

/-- What two directives leave to do is the same up to the macros around the elements. -/
structure Outcome.Alike (differ : Prop) (result result' : Outcome) : Prop where
  contexts : List.Forall₂ (Context.Alike differ) result.contexts result'.contexts
  exposed : List.Forall₂ (Context.Alike differ) result.exposed result'.exposed

section Contexts

variable {settings : Settings} {differ : Prop} {ctx ctx' : Context} {α : Type}

theorem Context.Alike.refl (ctx : Context) : ctx.Alike differ ctx := ⟨ctx.macroStack, rfl, .inl rfl⟩

theorem Context.Alike.node_eq (h : ctx.Alike differ ctx') : ctx'.node = ctx.node := by
  obtain ⟨macroStack, rfl, hstack⟩ := h
  rfl

theorem Context.Alike.rendersChildren_eq (h : ctx.Alike differ ctx') :
    ctx'.rendersChildren = ctx.rendersChildren := by
  obtain ⟨macroStack, rfl, hstack⟩ := h
  rfl

theorem Context.Alike.directive?_eq (h : ctx.Alike differ ctx') (d : Document)
    (spec : AttributeSpec) : ctx'.directive? d spec = ctx.directive? d spec := by
  obtain ⟨macroStack, rfl, hstack⟩ := h
  rfl

theorem Context.Alike.child (h : ctx.Alike differ ctx') (d : Document) (n : NodeId) :
    (ctx.child d n).Alike differ (ctx'.child d n) := by
  obtain ⟨macroStack, rfl, hstack⟩ := h
  exact ⟨macroStack, rfl, hstack⟩

theorem Outcome.alike_keep (h : ctx.Alike differ ctx') :
    (Outcome.keep ctx).Alike differ (.keep ctx') :=
  ⟨.cons h .nil, .nil⟩

theorem Outcome.alike_removed : Outcome.removed.Alike differ .removed := ⟨.nil, .nil⟩

theorem Outcome.alike_expose (h : ctx.Alike differ ctx') (d : Document) (promoted : List NodeId) :
    Outcome.Alike differ { exposed := exposeChildren d ctx promoted }
      { exposed := exposeChildren d ctx' promoted } := by
  refine ⟨.nil, List.forall₂_map_left_iff.mpr (List.forall₂_map_right_iff.mpr ?_)⟩
  exact List.forall₂_same.mpr fun n _ => h.child d n

theorem Context.Alike.agree_evaluate (h : ctx.Alike differ ctx') (text : String) :
    Agree settings differ Eq (ctx.evaluate settings text) (ctx'.evaluate settings text) := by
  obtain ⟨macroStack, rfl, hstack⟩ := h
  intro s t hstates
  rw [ctx.outcome_evaluate settings hstates.cache_left,
    Context.outcome_evaluate _ settings hstates.cache_right, hstates.globals]
  exact .ok rfl (hstates.globals ▸ hstates.cached text)

theorem Context.Alike.agree_evaluateDirective (h : ctx.Alike differ ctx') (spec : AttributeSpec)
    (text : String) :
    Agree settings differ Eq (ctx.evaluateDirective settings spec text)
      (ctx'.evaluateDirective settings spec text) := by
  refine (h.agree_evaluate text).next fun result => ?_
  obtain ⟨macroStack, rfl, hstack⟩ := h
  cases result with
  | ok value => exact .pure rfl
  | error source => exact Agree.document.next fun d => .fail _

theorem Context.Alike.agree_readDirective (h : ctx.Alike differ ctx') (spec : AttributeSpec)
    (value : String) (read : Except String α) :
    Agree settings differ Eq (ctx.readDirective spec value read)
      (ctx'.readDirective spec value read) := by
  obtain ⟨macroStack, rfl, hstack⟩ := h
  unfold Context.readDirective
  cases read with
  | ok result => exact .pure rfl
  | error message => exact Agree.document.next fun d => .fail _

theorem agree_contentNodes (mode : Directive.ContentMode) (value : Value) :
    Agree settings differ Eq (contentNodes mode value) (contentNodes mode value) := by
  cases mode with
  | text => exact (Agree.createIn _).next fun n => .pure rfl
  | markup => exact .edit _

end Contexts

/-! ## Directives -/

section Directives

variable (settings : Settings) {differ : Prop} {ctx ctx' : Context}

theorem Define.agree_handle (h : ctx.Alike differ ctx') :
    Agree settings differ (Outcome.Alike differ) (Define.handle settings ctx)
      (Define.handle settings ctx') := by
  have hitem : ∀ c c' : Context, c.Alike differ c' → ∀ item,
      Agree settings differ (Context.Alike differ) (defineItem settings c item)
        (defineItem settings c' item) := by
    intro c c' h item
    refine (h.agree_readDirective _ _ _).next fun definition => ?_
    refine (h.agree_readDirective _ _ _).next fun target => ?_
    refine (h.agree_evaluateDirective _ _).next fun value => ?_
    obtain ⟨macroStack, rfl, hstack⟩ := h
    dsimp only
    split
    · exact .pure ⟨macroStack, rfl, hstack⟩
    split
    · exact .pure ⟨macroStack, rfl, hstack⟩
    · exact (Agree.bindGlobal _ _).next fun _ => .pure ⟨macroStack, rfl, hstack⟩
  refine Agree.document.next fun d => ?_
  rw [h.directive?_eq]
  split
  · exact .pure (Outcome.alike_keep h)
  · exact (Agree.foldlM hitem _ h).bind fun c c' hc => .pure (Outcome.alike_keep hc)

theorem Condition.agree_handle (h : ctx.Alike differ ctx') :
    Agree settings differ (Outcome.Alike differ) (Condition.handle settings ctx)
      (Condition.handle settings ctx') := by
  refine Agree.document.next fun d => ?_
  rw [h.directive?_eq, h.node_eq]
  split
  · exact .pure (Outcome.alike_keep h)
  refine (h.agree_evaluateDirective _ _).next fun value => ?_
  split
  · exact .pure (Outcome.alike_keep h)
  · exact (Agree.changeDocument _).next fun _ => .pure Outcome.alike_removed

theorem Repeat.agree_copyFor (h : ctx.Alike differ ctx') (name : String) (count : Nat)
    (item : Value) (index : Nat) :
    Agree settings differ (Context.Alike differ) (copyFor settings ctx name count item index)
      (copyFor settings ctx' name count item index) := by
  unfold copyFor
  rw [h.node_eq]
  refine (Agree.createIn _).next fun copy => (Agree.edit _).next fun _ => ?_
  refine (Agree.changeDocument _).next fun _ => Agree.document.next fun d => ?_
  obtain ⟨macroStack, rfl, hstack⟩ := h
  exact .pure ⟨macroStack, rfl, hstack⟩

theorem Repeat.agree_handle (h : ctx.Alike differ ctx') :
    Agree settings differ (Outcome.Alike differ) (Repeat.handle settings ctx)
      (Repeat.handle settings ctx') := by
  refine Agree.document.next fun d => ?_
  rw [h.directive?_eq, h.node_eq]
  split
  · exact .pure (Outcome.alike_keep h)
  refine (h.agree_readDirective _ _ _).next fun written => ?_
  refine (h.agree_evaluateDirective _ _).next fun result => ?_
  split
  · exact .pure (Outcome.alike_keep h)
  split
  · exact Agree.document.next fun d => .fail _
  refine .bind (.mapM (R := Eq) (S := Context.Alike differ) ?_ (List.forall₂_refl _))
    fun contexts contexts' hcontexts => ?_
  · rintro item _ rfl
    exact agree_copyFor settings h _ _ _ _
  · exact (Agree.changeDocument _).next fun _ => .pure ⟨hcontexts, .nil⟩

theorem Content.agree_handle (h : ctx.Alike differ ctx') :
    Agree settings differ (Outcome.Alike differ) (Content.handle settings ctx)
      (Content.handle settings ctx') := by
  refine Agree.document.next fun d => ?_
  rw [h.directive?_eq, h.directive?_eq, h.node_eq]
  split
  · exact .fail _
  · unfold handleContent
    rw [h.node_eq]
    refine (h.agree_readDirective _ _ _).next fun written => ?_
    refine (h.agree_evaluateDirective _ _).next fun result => ?_
    obtain ⟨macroStack, rfl, hstack⟩ := h
    split
    · exact .pure (Outcome.alike_keep ⟨macroStack, rfl, hstack⟩)
    split
    · exact (Agree.changeDocument _).next fun _ =>
        .pure (Outcome.alike_keep ⟨macroStack, rfl, hstack⟩)
    · exact (agree_contentNodes _ _).next fun nodes =>
        (Agree.changeDocument _).next fun _ => .pure (Outcome.alike_keep ⟨macroStack, rfl, hstack⟩)
  · unfold handleReplace
    rw [h.node_eq]
    refine (h.agree_readDirective _ _ _).next fun written => ?_
    refine (h.agree_evaluateDirective _ _).next fun result => ?_
    split
    · exact (Agree.edit _).next fun promoted => Agree.document.next fun d =>
        .pure (Outcome.alike_expose h d promoted)
    split
    · exact (Agree.changeDocument _).next fun _ => .pure Outcome.alike_removed
    · exact (agree_contentNodes _ _).next fun nodes =>
        (Agree.edit _).next fun _ => .pure Outcome.alike_removed
  · exact .pure (Outcome.alike_keep h)

theorem Attributes.agree_handle (h : ctx.Alike differ ctx') :
    Agree settings differ (Outcome.Alike differ) (Attributes.handle settings ctx)
      (Attributes.handle settings ctx') := by
  have hitem : ∀ item, Agree settings differ Eq (assignItem settings ctx item)
      (assignItem settings ctx' item) := by
    intro item
    unfold assignItem
    rw [h.node_eq]
    refine (h.agree_readDirective _ _ _).next fun written => ?_
    refine (h.agree_evaluateDirective _ _).next fun value => ?_
    split
    · exact .pure rfl
    split
    · exact .changeDocument _
    refine Agree.document.next fun d => ?_
    have hmissing : ∀ name, missingDeclaration? settings ctx' d name =
        missingDeclaration? settings ctx d name := by
      obtain ⟨macroStack, rfl, hstack⟩ := h
      exact fun _ => rfl
    rw [hmissing]
    split
    · exact (Agree.edit _).next fun _ => .edit _
    · exact .edit _
  refine Agree.document.next fun d => ?_
  rw [h.directive?_eq]
  split
  · exact .pure (Outcome.alike_keep h)
  · refine .bind (.forM (R := Eq) ?_ (List.forall₂_refl _)) fun _ _ _ =>
      .pure (Outcome.alike_keep h)
    rintro item _ rfl
    exact hitem item

theorem OmitTag.agree_handle (h : ctx.Alike differ ctx') :
    Agree settings differ (Outcome.Alike differ) (OmitTag.handle settings ctx)
      (OmitTag.handle settings ctx') := by
  have homits : ∀ expression, Agree settings differ Eq (omits settings ctx expression)
      (omits settings ctx' expression) := by
    intro expression
    unfold omits
    split
    · exact .pure rfl
    · exact (h.agree_evaluateDirective _ _).next fun value => .pure rfl
  refine Agree.document.next fun d => ?_
  rw [h.directive?_eq, h.node_eq, h.rendersChildren_eq]
  split
  · exact .pure (Outcome.alike_keep h)
  refine (homits _).next fun omitted => ?_
  split
  · refine (Agree.edit _).next fun promoted => Agree.document.next fun d => .pure ?_
    split
    · exact Outcome.alike_expose h d promoted
    · exact Outcome.alike_removed
  · exact .pure (Outcome.alike_keep h)

/-- A directive does the same in macros of other names. -/
theorem Handler.agree_handle (handler : Handler) (h : ctx.Alike differ ctx') :
    Agree settings differ (Outcome.Alike differ) (handler.handle settings ctx)
      (handler.handle settings ctx') := by
  cases handler with
  | define => exact Define.agree_handle settings h
  | condition => exact Condition.agree_handle settings h
  | repetition => exact Repeat.agree_handle settings h
  | content => exact Content.agree_handle settings h
  | attributes => exact Attributes.agree_handle settings h
  | omitTag => exact OmitTag.agree_handle settings h

theorem OnError.agree_handleWith (h : ctx.Alike differ ctx') (value : String)
    (error : RenderError) :
    Agree settings differ Eq (handleWith settings ctx value error)
      (handleWith settings ctx' value error) := by
  obtain ⟨macroStack, rfl, hstack⟩ := h
  let caught := ctx.scope.setCaught (.object (caughtError error.kind error.message))
  have hcaught : Context.Alike differ { ctx with scope := caught }
      { ctx with macroStack, scope := caught } := ⟨macroStack, rfl, hstack⟩
  refine (hcaught.agree_readDirective _ _ _).next fun written => ?_
  refine (hcaught.agree_evaluateDirective _ _).next fun result => ?_
  split
  · exact .pure rfl
  split
  · exact .changeDocument _
  · exact (agree_contentNodes _ _).next fun nodes => .changeDocument _

/-- So does an error handler. -/
theorem OnError.agree_recover (h : ctx.Alike differ ctx') (error : RenderError) :
    Agree settings differ Eq (OnError.recover settings ctx error)
      (OnError.recover settings ctx' error) := by
  unfold recover
  split
  · refine Agree.document.next fun d => ?_
    rw [h.directive?_eq]
    split
    · exact agree_handleWith settings h _ _
    · exact .fail _
  · exact .fail _

end Directives

end PageTemplate
