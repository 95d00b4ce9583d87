import PageTemplate.Proofs.Markup.FragmentTwins
import PageTemplate.Proofs.Render.ExpansionTwins
import PageTemplate.Render.Walk

/-! # Directives at twins

A directive does the same at paired elements of twins, in the same scope: it leaves twins and hands
on the same contexts of paired elements, or fails for the same reason. Only a failure to edit the
tree may differ, for it names a node.
-/

namespace PageTemplate

open Markup Document

/-- States whose documents are twins, and in which expressions have the same values. -/
structure RenderState.Twins (P : Pairing) (s s' : RenderState) : Prop where
  documents : Document.Twins P s.document s'.document
  globals : s'.globals = s.globals
  cache : s.cache.IsFaithful
  cache' : s'.cache.IsFaithful

/-- The same context of paired elements. -/
def Context.Twins (P : Pairing) (ctx ctx' : Context) : Prop :=
  ∃ node, P.Pairs ctx.node node ∧ ctx' = { ctx with node }

/-- The same contexts are handed on and exposed. -/
structure Outcome.Twins (P : Pairing) (result result' : Outcome) : Prop where
  contexts : List.Forall₂ (Context.Twins P) result.contexts result'.contexts
  exposed : List.Forall₂ (Context.Twins P) result.exposed result'.exposed

/-- The same failure, unless it is one of editing the tree. -/
def Stop.Matches (stop stop' : Stop) : Prop :=
  stop' = stop ∨ ∃ error, stop = .failed (.tree error) ∧ ¬ error.IsReading

/-- Results that are related, and states of twins. -/
def Ending {α α' : Type} (P : Pairing) (Q : α → α' → Prop) (a : α) (t : RenderState) (a' : α')
    (t' : RenderState) : Prop := Q a a' ∧ t.Twins P t'

/-- Failures that match, and states of twins. -/
def Stopping (P : Pairing) (stop : Stop) (t : RenderState) (stop' : Stop) (t' : RenderState) :
    Prop := stop.Matches stop' ∧ t.Twins P t'

/-- Paired elements of twins are worked on in the same context. -/
structure Abreast (P : Pairing) (s s' : RenderState) (ctx ctx' : Context) : Prop where
  states : s.Twins P s'
  contexts : ctx.Twins P ctx'
  ground : s.document.Grounded ctx.node
  ground' : s'.document.Grounded ctx'.node
  element : s.document.isElement ctx.node = true

/-- An element whose attributes change keeps its place. -/
theorem Markup.Document.Grounded.relabeled {d d' : Document} {n x : NodeId} (h : d.Grounded n)
    (hrelabeled : Relabeled x d d') : d'.Grounded n := by
  obtain ⟨top, htop, hbelow⟩ := h.rooted
  refine ⟨hrelabeled.confined.linked, Nat.lt_of_lt_of_le h.lt hrelabeled.confined.size_le,
    top, (hrelabeled.parent_eq top).trans htop, hbelow.congr fun m _ => ?_⟩
  rw [hrelabeled.children_eq]
  exact List.Subset.refl _

variable {P : Pairing} {s s' t t' : RenderState} {ctx ctx' : Context} {settings : Settings}
  {α α' β β' : Type} {Q : α → α' → Prop} {R : β → RenderState → β' → RenderState → Prop}

theorem Context.Twins.pairs (h : ctx.Twins P ctx') : P.Pairs ctx.node ctx'.node := by
  obtain ⟨node, hnode, rfl⟩ := h
  exact hnode

theorem Outcome.twins_keep (h : ctx.Twins P ctx') : (Outcome.keep ctx).Twins P (.keep ctx') :=
  ⟨.cons h .nil, .nil⟩

theorem Outcome.twins_removed : Outcome.removed.Twins P .removed := ⟨.nil, .nil⟩

theorem Stop.matches_refl (stop : Stop) : stop.Matches stop := .inl rfl

namespace RenderState.Twins

variable (h : s.Twins P s')

include h

theorem change {d d' : Document} (hd : Document.Twins P d d') :
    RenderState.Twins P { s with document := d } { s' with document := d' } :=
  ⟨hd, h.globals, h.cache, h.cache'⟩

theorem bindGlobal (name : String) (value : Value) :
    RenderState.Twins P { s with globals := s.globals.bind name value }
      { s' with globals := s'.globals.bind name value } :=
  ⟨h.documents, congrArg (·.bind name value) h.globals, h.cache, h.cache'⟩

theorem recached (ht : Expansion.Recached s t) (ht' : Expansion.Recached s' t') :
    t.Twins P t' := by
  obtain ⟨cache, hcache, rfl⟩ := ht
  obtain ⟨cache', hcache', rfl⟩ := ht'
  exact ⟨h.documents, h.globals, hcache, hcache'⟩

end RenderState.Twins

/-! ## Contexts of other nodes -/

section Contexts

variable {d d' : Document} {n n' : NodeId}

/-- A context that takes its attributes from the document. -/
theorem Context.twins_of_written (ctx : Context) (hd : Document.Twins P d d') (hn : P.Pairs n n') :
    Context.Twins P { ctx with node := n, written := d.attributes n }
      { ctx with node := n', written := d'.attributes n' } := by
  rw [hd.up.attributes_eq hn.shares]
  exact ⟨n', hn, rfl⟩

theorem Context.Twins.child (h : ctx.Twins P ctx') (hd : Document.Twins P d d')
    (hn : P.Pairs n n') : (ctx.child d n).Twins P (ctx'.child d' n') := by
  obtain ⟨node, -, rfl⟩ := h
  exact twins_of_written { ctx with scope := ctx.scope.child, rendersChildren := true } hd hn

theorem Context.Twins.sibling (h : ctx.Twins P ctx') (hd : Document.Twins P d d')
    (hn : P.Pairs n n') : (ctx.sibling d n).Twins P (ctx'.sibling d' n') := by
  obtain ⟨node, -, rfl⟩ := h
  exact twins_of_written { ctx with scope := ctx.scope.sibling, rendersChildren := true } hd hn

theorem Context.Twins.withScope (h : ctx.Twins P ctx') (change : Scope → Scope) :
    Context.Twins P { ctx with scope := change ctx.scope }
      { ctx' with scope := change ctx'.scope } := by
  obtain ⟨node, hnode, rfl⟩ := h
  exact ⟨node, hnode, rfl⟩

theorem Outcome.twins_expose (h : ctx.Twins P ctx') (hd : Document.Twins P d d')
    {promoted promoted' : List NodeId} (hpromoted : List.Forall₂ P.Pairs promoted promoted') :
    List.Forall₂ (Context.Twins P) (exposeChildren d ctx promoted)
      (exposeChildren d' ctx' promoted') := by
  unfold exposeChildren
  refine List.forall₂_map_left_iff.mpr (List.forall₂_map_right_iff.mpr ?_)
  have helements : List.Forall₂ P.Pairs (promoted.filter (d.isElement ·))
      (promoted'.filter (d'.isElement ·)) :=
    List.rel_filter (fun n n' hn => by simp only [hd.isElement_eq hn.shares]) hpromoted
  exact helements.imp fun n n' hn => h.child hd hn

end Contexts

/-! ## Steps on the document -/

/-- Both steps go on with the documents that they find. -/
theorem endAlike_document {E : Stop → RenderState → Stop → RenderState → Prop}
    {f : Document → Rendering β} {f' : Document → Rendering β'}
    (hnext : EndAlike R E (outcome (f s.document) s) (outcome (f' s'.document) s')) :
    EndAlike R E (outcome (Rendering.document >>= f) s)
      (outcome (Rendering.document >>= f') s') := by
  rwa [outcome_bind_ok (Rendering.outcome_document s),
    outcome_bind_ok (Rendering.outcome_document s')]

theorem endAlike_edit {change : Edit α} {change' : Edit α'}
    {S : α → Document → α' → Document → Prop} (h : s.Twins P s')
    (hchange : EndAlike S (Failing .whole P) (outcome change s.document) (outcome change' s'.document))
    (hS : ∀ a d a' d', S a d a' d' → Document.Twins P d d') :
    EndAlike (fun a t a' t' => S a t.document a' t'.document ∧ t.Twins P t') (Stopping P)
      (outcome (Rendering.edit change) s) (outcome (Rendering.edit change') s') := by
  unfold Rendering.edit
  rw [outcome_bind, outcome_bind, Rendering.outcome_createIn, Rendering.outcome_createIn]
  have hrun : change.run s.document = outcome change s.document := rfl
  have hrun' : change'.run s'.document = outcome change' s'.document := rfl
  dsimp only
  rw [hrun, hrun']
  generalize outcome change s.document = p, outcome change' s'.document = p' at hchange
  cases hchange with
  | ok hdone => exact .ok ⟨hdone, h.change (hS _ _ _ _ hdone)⟩
  | error hfails =>
      obtain ⟨rfl | hedit, hd⟩ := hfails
      · exact .error ⟨.inl rfl, h.change hd⟩
      · exact .error ⟨.inr ⟨_, rfl, hedit⟩, h.change hd⟩

theorem endAlike_contentNodes (h : s.Twins P s') (mode : Directive.ContentMode) (value : Value) :
    EndAlike (Ending P (List.Forall₂ P.Pairs)) (Stopping P) (outcome (contentNodes mode value) s)
      (outcome (contentNodes mode value) s') := by
  cases mode with
  | text =>
      exact .ok ⟨.cons h.documents.size_pairs .nil, h.change (h.documents.create rfl)⟩
  | markup =>
      have hread := h.documents.parseFragment value.text
      exact (endAlike_edit h (hread.mono (fun _ _ _ _ => id) fun _ _ _ _ hfails =>
        ⟨.inl hfails.1, hfails.2⟩) fun _ _ _ _ hdone => hdone.2).mono
          (fun _ _ _ _ hdone => ⟨hdone.1.1, hdone.2⟩) fun _ _ _ _ => id

/-! ## Reading and evaluating directives -/

namespace Abreast

variable (h : Abreast P s s' ctx ctx')

include h

theorem directive?_eq (spec : AttributeSpec) :
    ctx'.directive? s'.document spec = ctx.directive? s.document spec := by
  have hmatches := h.states.documents.up.attributeMatches_eq h.contexts.pairs.shares h.ground
    h.ground'
  obtain ⟨node, -, rfl⟩ := h.contexts
  unfold Context.directive?
  rw [hmatches]

theorem describe_eq :
    describeElement s'.document ctx'.node = describeElement s.document ctx.node :=
  describeElement_eq (h.states.documents.kind_eq h.contexts.pairs.shares) h.element

theorem recached (ht : Expansion.Recached s t) (ht' : Expansion.Recached s' t') :
    Abreast P t t' ctx ctx' := by
  have hstates := h.states.recached ht ht'
  obtain ⟨cache, hcache, rfl⟩ := ht
  obtain ⟨cache', hcache', rfl⟩ := ht'
  exact ⟨hstates, h.contexts, h.ground, h.ground', h.element⟩

theorem withScope (change : Scope → Scope) :
    Abreast P s s' { ctx with scope := change ctx.scope } { ctx' with scope := change ctx'.scope } :=
  ⟨h.states, h.contexts.withScope change, h.ground, h.ground', h.element⟩

theorem fail (error : RenderError) :
    EndAlike R (Stopping P) (outcome (Rendering.fail error) s)
      (outcome (Rendering.fail error) s') :=
  .error ⟨Stop.matches_refl _, h.states⟩

/-- Expressions have the same values. -/
theorem evaluate (text : String) :
    EndAlike (fun result t result' t' => result' = result ∧ Expansion.Recached s t ∧
        Expansion.Recached s' t') (Stopping P)
      (outcome (ctx.evaluate settings text) s) (outcome (ctx'.evaluate settings text) s') := by
  have hcache := h.states.cache
  have hcache' := h.states.cache'
  have hglobals := h.states.globals
  obtain ⟨node, -, rfl⟩ := h.contexts
  rw [ctx.outcome_evaluate settings hcache, Context.outcome_evaluate _ settings hcache']
  refine .ok ⟨?_, ⟨_, (hcache.get text).2, rfl⟩, _, (hcache'.get text).2, rfl⟩
  rw [hglobals]
  rfl

theorem evaluateDirective (spec : AttributeSpec) (text : String) {f : Value → Rendering β}
    {f' : Value → Rendering β'}
    (hnext : ∀ value t t', Expansion.Recached s t → Expansion.Recached s' t' →
      EndAlike R (Stopping P) (outcome (f value) t) (outcome (f' value) t')) :
    EndAlike R (Stopping P) (outcome (ctx.evaluateDirective settings spec text >>= f) s)
      (outcome (ctx'.evaluateDirective settings spec text >>= f') s') := by
  refine EndAlike.bind (R := fun value t value' t' => value' = value ∧ Expansion.Recached s t ∧
    Expansion.Recached s' t') ?_ ?_
  · refine (h.evaluate text).bind ?_
    rintro _ t result t' ⟨rfl, ht, ht'⟩
    have hnow := h.recached ht ht'
    cases result with
    | ok value => exact .ok ⟨rfl, ht, ht'⟩
    | error source =>
        refine endAlike_document ?_
        rw [hnow.describe_eq]
        exact hnow.fail _
  · rintro value t _ t' ⟨rfl, ht, ht'⟩
    exact hnext _ t t' ht ht'

theorem readDirective (spec : AttributeSpec) (value : String) (read : Except String α)
    {f : α → Rendering β} {f' : α → Rendering β'}
    (hnext : ∀ result, EndAlike R (Stopping P) (outcome (f result) s) (outcome (f' result) s')) :
    EndAlike R (Stopping P) (outcome (ctx.readDirective spec value read >>= f) s)
      (outcome (ctx'.readDirective spec value read >>= f') s') := by
  unfold Context.readDirective
  cases read with
  | ok result => exact hnext result
  | error message =>
      refine EndAlike.bind (R := fun _ _ _ _ => False) ?_ fun _ _ _ _ => False.elim
      refine endAlike_document ?_
      rw [h.describe_eq]
      exact h.fail _

theorem keep : EndAlike (Ending P (Outcome.Twins P)) (Stopping P)
    (outcome (pure (.keep ctx) : Rendering Outcome) s)
    (outcome (pure (.keep ctx') : Rendering Outcome) s') :=
  .ok ⟨Outcome.twins_keep h.contexts, h.states⟩

end Abreast

/-! ## Directives -/

section Directives

/-- Elements that have been worked on are still paired elements. -/
theorem Abreast.define (h : Abreast P s s' ctx ctx') (item : String) :
    EndAlike (fun c t c' t' => Abreast P t t' c c') (Stopping P)
      (outcome (Define.defineItem settings ctx item) s)
      (outcome (Define.defineItem settings ctx' item) s') := by
  unfold Define.defineItem
  refine h.readDirective _ _ _ fun definition => ?_
  refine h.readDirective _ _ _ fun target => ?_
  refine h.evaluateDirective _ _ fun value t t' ht ht' => ?_
  have hnow := h.recached ht ht'
  split
  · exact .ok hnow
  split
  · exact .ok (hnow.withScope (·.bind target.2 value))
  · refine .ok ⟨hnow.states.bindGlobal target.2 value, hnow.contexts, hnow.ground, hnow.ground',
      hnow.element⟩

theorem Define.endAlike_handle (h : Abreast P s s' ctx ctx') :
    EndAlike (Ending P (Outcome.Twins P)) (Stopping P) (outcome (handle settings ctx) s)
      (outcome (handle settings ctx') s') := by
  refine endAlike_document ?_
  rw [h.directive?_eq]
  split
  · exact h.keep
  · refine EndAlike.bind (EndAlike.foldlM (P := Eq) (R := fun c t c' t' => Abreast P t t' c c')
      (List.forall₂_refl _) h ?_) fun _ _ _ _ hc => hc.keep
    rintro item _ c t c' t' rfl hc
    exact hc.define item

theorem Condition.endAlike_handle (h : Abreast P s s' ctx ctx') :
    EndAlike (Ending P (Outcome.Twins P)) (Stopping P) (outcome (handle settings ctx) s)
      (outcome (handle settings ctx') s') := by
  refine endAlike_document ?_
  rw [h.directive?_eq]
  split
  · exact h.keep
  refine h.evaluateDirective _ _ fun value t t' ht ht' => ?_
  have hnow := h.recached ht ht'
  split
  · exact hnow.keep
  · exact .ok ⟨Outcome.twins_removed,
      hnow.states.change (hnow.states.documents.detach h.contexts.pairs)⟩

/-- Paired elements that are about to be worked on. -/
theorem abreast_of_standing {stage : Stage} {p p' : NodeId} (h : s.Twins P s')
    (hctx : ctx.Twins P ctx') (hstanding : stage.Standing p s ctx)
    (hstanding' : stage.Standing p' s' ctx') : Abreast P s s' ctx ctx' :=
  ⟨h, hctx, .of_parent hstanding.linked hstanding.rooted hstanding.parent_eq,
    .of_parent hstanding'.linked hstanding'.rooted hstanding'.parent_eq, hstanding.element⟩

theorem Stage.Standing.recached {stage : Stage} {p : NodeId} (h : stage.Standing p s ctx)
    (ht : Expansion.Recached s t) : stage.Standing p t ctx := by
  obtain ⟨cache, -, rfl⟩ := ht
  exact ⟨h.linked, h.rooted, h.parent_eq, h.element, h.globals, h.admits⟩

namespace Repeat

variable {stage : Stage} {p p' : NodeId}

theorem outcome_copyFor {d₁ d₂ : Document} {copy : NodeId} (name : String) (count : Nat)
    (item : Value) (index : Nat) (hcopied : s.document.deepCopy ctx.node = (d₁, copy))
    (hinsert : outcome (insertBefore ctx.node copy) d₁ = (.ok (), d₂)) :
    let d := (d₂.removeAttributeBySpec copy settings.vocabularies.repetition).1
    let sibling := ctx.sibling d copy
    outcome (copyFor settings ctx name count item index) s =
      (.ok { sibling with scope := sibling.scope.bindRepetition { name, index, count, item } },
        { s with document := d }) := by
  have hrun : (insertBefore ctx.node copy).run d₁ = (.ok (), d₂) := hinsert
  unfold copyFor Rendering.edit
  rw [outcome_bind_ok (Rendering.outcome_createIn _ s), hcopied]
  dsimp only
  rw [outcome_bind, outcome_bind, Rendering.outcome_createIn]
  dsimp only
  rw [hrun]
  rfl

/-- Copies for the same item are made alike, and leave the elements in their places. -/
theorem endAlike_copyFor (h : s.Twins P s') (hctx : ctx.Twins P ctx')
    (hstanding : stage.Standing p s ctx) (hstanding' : stage.Standing p' s' ctx') (name : String)
    (count : Nat) (item : Value) (index : Nat) :
    EndAlike (fun c t c' t' => c.Twins P c' ∧ t.Twins P t' ∧ stage.Standing p t ctx ∧
        stage.Standing p' t' ctx') (Stopping P)
      (outcome (copyFor stage.settings ctx name count item index) s)
      (outcome (copyFor stage.settings ctx' name count item index) s') := by
  let spec := stage.settings.vocabularies.repetition
  obtain ⟨d₁, copy, d₂, hcopied, hinsert, hput⟩ :=
    Slots.exists_put hstanding.region hstanding.parent_eq ctx.node spec
  obtain ⟨d₁', copy', d₂', hcopied', hinsert', hput'⟩ :=
    Slots.exists_put hstanding'.region hstanding'.parent_eq ctx'.node spec
  have hground := Grounded.of_parent hstanding.linked hstanding.rooted hstanding.parent_eq
  have hground' := Grounded.of_parent hstanding'.linked hstanding'.rooted hstanding'.parent_eq
  have htree := h.documents.down.tree_eq hctx.pairs hground.throughout hground'.throughout
  obtain ⟨hd, hcopy⟩ :=
    Slots.akin_put h.documents hctx.pairs htree hcopied hcopied' hinsert hinsert' hput hput'
  rw [outcome_copyFor name count item index hcopied hinsert,
    outcome_copyFor name count item index hcopied' hinsert']
  have hsibling := (hctx.sibling hd hcopy).withScope
    (·.bindRepetition { name, index, count, item })
  refine .ok ⟨hsibling, h.change hd, ?_, ?_⟩
  · exact ⟨hput.within.linked, (hstanding.region.within hput.within).rooted, hput.parent_eq,
      hput.within.elements _ hstanding.element, hstanding.globals, hstanding.admits⟩
  · exact ⟨hput'.within.linked, (hstanding'.region.within hput'.within).rooted, hput'.parent_eq,
      hput'.within.elements _ hstanding'.element, hstanding'.globals, hstanding'.admits⟩

theorem endAlike_handle (h : s.Twins P s') (hctx : ctx.Twins P ctx')
    (hstanding : stage.Standing p s ctx) (hstanding' : stage.Standing p' s' ctx') :
    EndAlike (Ending P (Outcome.Twins P)) (Stopping P) (outcome (handle stage.settings ctx) s)
      (outcome (handle stage.settings ctx') s') := by
  have habreast := abreast_of_standing h hctx hstanding hstanding'
  refine endAlike_document ?_
  rw [habreast.directive?_eq]
  split
  · exact habreast.keep
  refine habreast.readDirective _ _ _ fun read => ?_
  refine habreast.evaluateDirective _ _ fun value t t' ht ht' => ?_
  have hnow := habreast.recached ht ht'
  split
  · exact hnow.keep
  split
  · refine endAlike_document ?_
    rw [hnow.describe_eq]
    exact hnow.fail _
  next items _ =>
    refine EndAlike.bind (EndAlike.mapM (P := Eq) (Q := Context.Twins P) (I := fun t t' =>
      t.Twins P t' ∧ stage.Standing p t ctx ∧ stage.Standing p' t' ctx') (List.forall₂_refl _)
      ⟨hnow.states, hstanding.recached ht, hstanding'.recached ht'⟩ ?_) ?_
    · rintro ⟨item, index⟩ _ u u' rfl ⟨hu, hu₁, hu₁'⟩
      exact endAlike_copyFor hu hctx hu₁ hu₁' _ _ item index
    · rintro contexts u contexts' u' ⟨hcontexts, hu, -⟩
      exact .ok ⟨⟨hcontexts, .nil⟩, hu.change (hu.documents.detach hctx.pairs)⟩

end Repeat

namespace Content

/-- A context whose children are output. -/
theorem twins_finished (h : ctx.Twins P ctx') :
    Outcome.Twins P (.keep { ctx with rendersChildren := false })
      (.keep { ctx' with rendersChildren := false }) := by
  obtain ⟨node, hnode, rfl⟩ := h
  exact Outcome.twins_keep ⟨node, hnode, rfl⟩

theorem endAlike_handleContent (h : Abreast P s s' ctx ctx') (value : String) :
    EndAlike (Ending P (Outcome.Twins P)) (Stopping P)
      (outcome (handleContent settings ctx value) s)
      (outcome (handleContent settings ctx' value) s') := by
  unfold handleContent
  refine h.readDirective _ _ _ fun read => ?_
  refine h.evaluateDirective _ _ fun result t t' ht ht' => ?_
  have hnow := h.recached ht ht'
  split
  · exact hnow.keep
  have hfinished := twins_finished h.contexts
  split
  · exact .ok ⟨hfinished, hnow.states.change
      (hnow.states.documents.clearChildren h.contexts.pairs)⟩
  · refine (endAlike_contentNodes hnow.states _ _).bind ?_
    rintro nodes u nodes' u' ⟨hnodes, hu⟩
    exact .ok ⟨hfinished, hu.change (hu.documents.replaceChildren h.contexts.pairs hnodes)⟩

theorem endAlike_handleReplace (h : Abreast P s s' ctx ctx') (value : String) :
    EndAlike (Ending P (Outcome.Twins P)) (Stopping P)
      (outcome (handleReplace settings ctx value) s)
      (outcome (handleReplace settings ctx' value) s') := by
  unfold handleReplace
  refine h.readDirective _ _ _ fun read => ?_
  refine h.evaluateDirective _ _ fun result t t' ht ht' => ?_
  have hnow := h.recached ht ht'
  split
  · refine (endAlike_edit hnow.states (hnow.states.documents.omitTag h.contexts.pairs)
      fun _ _ _ _ hdone => hdone.2).bind ?_
    rintro promoted u promoted' u' ⟨⟨hpromoted, -⟩, hu⟩
    exact endAlike_document
      (.ok ⟨⟨.nil, Outcome.twins_expose h.contexts hu.documents hpromoted⟩, hu⟩)
  split
  · exact .ok ⟨Outcome.twins_removed,
      hnow.states.change (hnow.states.documents.detach h.contexts.pairs)⟩
  · refine (endAlike_contentNodes hnow.states _ _).bind ?_
    rintro nodes u nodes' u' ⟨hnodes, hu⟩
    refine (endAlike_edit hu (hu.documents.replace h.contexts.pairs hnodes)
      fun _ _ _ _ => id).bind ?_
    exact fun _ w _ w' hw => .ok ⟨Outcome.twins_removed, hw.2⟩

theorem endAlike_handle (h : Abreast P s s' ctx ctx') :
    EndAlike (Ending P (Outcome.Twins P)) (Stopping P) (outcome (handle settings ctx) s)
      (outcome (handle settings ctx') s') := by
  refine endAlike_document ?_
  rw [h.directive?_eq, h.directive?_eq]
  split
  · rw [h.describe_eq]
    exact h.fail _
  · exact endAlike_handleContent h _
  · exact endAlike_handleReplace h _
  · exact h.keep

end Content

namespace Attributes

theorem missingDeclaration?_eq (h : Abreast P s s' ctx ctx') (name : QualifiedName) :
    missingDeclaration? settings ctx' s'.document name =
      missingDeclaration? settings ctx s.document name := by
  unfold missingDeclaration?
  simp only [h.states.documents.up.scope.lookupNamespace_eq h.contexts.pairs.shares h.ground
    h.ground']

/-- The attributes of an element have been changed, and nothing else. -/
theorem abreast_relabeled (h : Abreast P s s' ctx ctx') (hstates : t.Twins P t')
    (hrelabeled : Relabeled ctx.node s.document t.document)
    (hrelabeled' : Relabeled ctx'.node s'.document t'.document) : Abreast P t t' ctx ctx' :=
  ⟨hstates, h.contexts, h.ground.relabeled hrelabeled, h.ground'.relabeled hrelabeled',
    hrelabeled.confined.elements _ h.element⟩

theorem endAlike_setAttribute (h : Abreast P s s' ctx ctx') (raw value : String) :
    EndAlike (fun _ t _ t' => Abreast P t t' ctx ctx') (Stopping P)
      (outcome (Rendering.edit (setAttribute ctx.node raw value)) s)
      (outcome (Rendering.edit (setAttribute ctx'.node raw value)) s') := by
  have hset := endAlike_edit h.states
    (h.states.documents.setAttribute h.contexts.pairs raw value) fun _ _ _ _ => id
  have helement' : s'.document.isElement ctx'.node = true :=
    (h.states.documents.isElement_eq h.contexts.pairs.shares).trans h.element
  have hrelabels : Ensures (Rendering.edit (setAttribute ctx.node raw value)) s
      (fun _ t => Relabeled ctx.node s.document t.document) fun _ _ => True :=
    Rendering.ensures_edit_ok (ensures_setAttribute h.ground.linked h.element raw value)
      fun _ _ => id
  have hrelabels' : Ensures (Rendering.edit (setAttribute ctx'.node raw value)) s'
      (fun _ t => Relabeled ctx'.node s'.document t.document) fun _ _ => True :=
    Rendering.ensures_edit_ok (ensures_setAttribute h.ground'.linked helement' raw value)
      fun _ _ => id
  refine (hset.and hrelabels hrelabels').mono ?_ fun _ _ _ _ => id
  · rintro _ t _ t' ⟨⟨-, ht⟩, hrelabeled, hrelabeled'⟩
    exact abreast_relabeled h ht hrelabeled hrelabeled'

theorem endAlike_assignItem (h : Abreast P s s' ctx ctx') (item : String) :
    EndAlike (fun _ t _ t' => Abreast P t t' ctx ctx') (Stopping P)
      (outcome (assignItem settings ctx item) s) (outcome (assignItem settings ctx' item) s') := by
  unfold assignItem
  refine h.readDirective _ _ _ fun read => ?_
  refine h.evaluateDirective _ _ fun value t t' ht ht' => ?_
  have hnow := h.recached ht ht'
  split
  · exact .ok hnow
  split
  · exact .ok (abreast_relabeled hnow
      (hnow.states.change (hnow.states.documents.removeAttribute h.contexts.pairs _))
      (relabeled_removeAttribute hnow.ground.linked _ _)
      (relabeled_removeAttribute hnow.ground'.linked _ _))
  · refine endAlike_document ?_
    rw [missingDeclaration?_eq hnow]
    split
    · exact (endAlike_setAttribute hnow _ _).bind fun _ _ _ _ hnext =>
        endAlike_setAttribute hnext _ _
    · exact endAlike_setAttribute hnow _ _

theorem endAlike_handle (h : Abreast P s s' ctx ctx') :
    EndAlike (Ending P (Outcome.Twins P)) (Stopping P) (outcome (handle settings ctx) s)
      (outcome (handle settings ctx') s') := by
  refine endAlike_document ?_
  rw [h.directive?_eq]
  split
  · exact h.keep
  · refine EndAlike.bind (EndAlike.forM (P := Eq) (I := fun t t' => Abreast P t t' ctx ctx')
      (List.forall₂_refl _) h ?_) fun _ _ _ _ hnow => hnow.keep
    rintro item _ t t' rfl hnow
    exact endAlike_assignItem hnow item

end Attributes

namespace OmitTag

theorem endAlike_handle (h : Abreast P s s' ctx ctx') :
    EndAlike (Ending P (Outcome.Twins P)) (Stopping P) (outcome (handle settings ctx) s)
      (outcome (handle settings ctx') s') := by
  have hrenders : ctx'.rendersChildren = ctx.rendersChildren := by
    obtain ⟨node, -, rfl⟩ := h.contexts
    rfl
  refine endAlike_document ?_
  rw [h.directive?_eq]
  split
  · exact h.keep
  next expression _ =>
    refine EndAlike.bind (R := fun omitted t omitted' t' => omitted' = omitted ∧
      Abreast P t t' ctx ctx') ?_ ?_
    · unfold omits
      split
      · exact .ok ⟨rfl, h⟩
      · exact h.evaluateDirective _ _ fun value t t' ht ht' => .ok ⟨rfl, h.recached ht ht'⟩
    · rintro omitted t _ t' ⟨rfl, hnow⟩
      split
      · refine (endAlike_edit hnow.states (hnow.states.documents.omitTag h.contexts.pairs)
          fun _ _ _ _ hdone => hdone.2).bind ?_
        rintro promoted u promoted' u' ⟨⟨hpromoted, -⟩, hu⟩
        refine endAlike_document ?_
        rw [hrenders]
        split
        · exact .ok ⟨⟨.nil, Outcome.twins_expose h.contexts hu.documents hpromoted⟩, hu⟩
        · exact .ok ⟨⟨.nil, .nil⟩, hu⟩
      · exact hnow.keep

end OmitTag

/-- Every directive does the same at paired elements. -/
theorem Handler.endAlike_handle {stage : Stage} {p p' : NodeId} (handler : Handler)
    (h : s.Twins P s') (hctx : ctx.Twins P ctx') (hstanding : stage.Standing p s ctx)
    (hstanding' : stage.Standing p' s' ctx') :
    EndAlike (Ending P (Outcome.Twins P)) (Stopping P)
      (outcome (handler.handle stage.settings ctx) s)
      (outcome (handler.handle stage.settings ctx') s') := by
  have habreast := abreast_of_standing h hctx hstanding hstanding'
  cases handler with
  | define => exact Define.endAlike_handle habreast
  | condition => exact Condition.endAlike_handle habreast
  | repetition => exact Repeat.endAlike_handle h hctx hstanding hstanding'
  | content => exact Content.endAlike_handle habreast
  | attributes => exact Attributes.endAlike_handle habreast
  | omitTag => exact OmitTag.endAlike_handle habreast

/-! ## Recovery -/

namespace OnError

theorem endAlike_handleWith (h : Abreast P s s' ctx ctx') (value : String) (error : RenderError) :
    EndAlike (fun _ t _ t' => t.Twins P t') (Stopping P)
      (outcome (handleWith settings ctx value error) s)
      (outcome (handleWith settings ctx' value error) s') := by
  have hhandler := h.withScope (·.setCaught (.object (caughtError error.kind error.message)))
  unfold handleWith
  refine hhandler.readDirective _ _ _ fun read => ?_
  refine hhandler.evaluateDirective _ _ fun result t t' ht ht' => ?_
  have hnow := h.recached ht ht'
  split
  · exact .ok hnow.states
  split
  · exact .ok (hnow.states.change (hnow.states.documents.clearChildren h.contexts.pairs))
  · refine (endAlike_contentNodes hnow.states _ _).bind ?_
    rintro nodes u nodes' u' ⟨hnodes, hu⟩
    exact .ok (hu.change (hu.documents.replaceChildren h.contexts.pairs hnodes))

/-- So does an error handler, for the same error. -/
theorem endAlike_recover (h : Abreast P s s' ctx ctx') (error : RenderError) :
    EndAlike (fun _ t _ t' => t.Twins P t') (Stopping P) (outcome (recover settings ctx error) s)
      (outcome (recover settings ctx' error) s') := by
  unfold recover
  split
  · refine endAlike_document ?_
    rw [h.directive?_eq]
    split
    · exact endAlike_handleWith h _ error
    · exact h.fail error
  · exact h.fail error

end OnError

end Directives

end PageTemplate
