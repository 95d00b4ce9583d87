import PageTemplate.Proofs.Render.DirectiveTwins
import PageTemplate.Proofs.Walk.Agreement

/-! # Rendering begins alike at twins

When the rendering of an element begins, the element may become the expansion of a macro, and
source comments are put beside it. At paired elements of twins both happen alike.
-/

namespace PageTemplate

open Markup Document Stage

variable {P : Pairing} {s s' t t' : RenderState} {ctx ctx' : Context} {stage : Stage}
  {p p' : NodeId} {f f' : Nat}

namespace Expansion

theorem isFaithful_cache_expand (settings : Settings) (ctx : Context) (used : MacroRef)
    (hcache : s.cache.IsFaithful) :
    Ensures (expand settings ctx used) s (fun _ t => t.cache.IsFaithful)
      fun _ t => t.cache.IsFaithful :=
  .of_state (Walk.isFaithful_cache_outcome (agree_expand (.refl ctx) used) hcache)

/-- The element of an expansion stands where the element stood that used the macro. -/
theorem Prepared.grounded {c : Context} {ok : NodeId → Prop} {level : Nat}
    (h : Prepared stage p s ctx ok level c t) (hstanding : stage.Standing p s ctx) :
    t.document.Grounded c.node :=
  .of_parent h.turn.within.linked (hstanding.region.within h.turn.within).rooted
    h.placed.parent_eq

/-- Expansions that are twins take the places of paired elements. -/
theorem endAlike_replace (h : t.Twins P t') (hctx : ctx.Twins P ctx')
    (hstanding : stage.Standing p s ctx) (hstanding' : stage.Standing p' s' ctx')
    (hglobals : t.globals = s.globals) (hglobals' : t'.globals = s'.globals)
    {copy copy' : NodeId} (hpairs : P.Pairs copy copy')
    (helement : t.document.isElement copy = true) (helement' : t'.document.isElement copy' = true)
    (hcopy : Copied (StemsOn stage.origin fun _ => True) f s.document t.document copy)
    (hcopy' : Copied (StemsOn stage.origin fun _ => True) f' s'.document t'.document copy')
    (hdepth : ctx.macroStack.length < stage.settings.maxMacroDepth) (name : String) :
    EndAlike (fun c t c' t' => Abreast P t t' c c') (Stopping P)
      (outcome (do
        Rendering.edit (Document.replace ctx.node [copy])
        return ctx.enterMacro (← Rendering.document) copy name) t)
      (outcome (do
        Rendering.edit (Document.replace ctx'.node [copy'])
        return ctx'.enterMacro (← Rendering.document) copy' name) t') := by
  have hdepth' : ctx'.macroStack.length < stage.settings.maxMacroDepth := by
    obtain ⟨node, -, rfl⟩ := hctx
    exact hdepth
  have hstands : Ensures _ t (Prepared stage p s ctx _
      (f + stage.reserve (ctx.enterMacro t.document copy name))) _ :=
    ensures_replace hstanding hglobals helement hcopy hdepth fun _ => Nat.le_refl _
  have hstands' : Ensures _ t' (Prepared stage p' s' ctx' _
      (f' + stage.reserve (ctx'.enterMacro t'.document copy' name))) _ :=
    ensures_replace hstanding' hglobals' helement' hcopy' hdepth' fun _ => Nat.le_refl _
  have hreplaced := endAlike_edit h
    (h.documents.replace hctx.pairs (.cons hpairs .nil)) fun _ _ _ _ => id
  have hentered : EndAlike (fun c t c' t' => c.Twins P c' ∧ t.Twins P t') (Stopping P)
      (outcome (do
        Rendering.edit (Document.replace ctx.node [copy])
        return ctx.enterMacro (← Rendering.document) copy name) t)
      (outcome (do
        Rendering.edit (Document.replace ctx'.node [copy'])
        return ctx'.enterMacro (← Rendering.document) copy' name) t') := by
    refine hreplaced.bind ?_
    rintro _ u _ u' ⟨-, hu⟩
    refine endAlike_document (.ok ⟨?_, hu⟩)
    have hsibling := hctx.sibling hu.documents hpairs
    obtain ⟨node, -, rfl⟩ := hctx
    obtain ⟨copy', hpairs', heq⟩ := hsibling
    refine ⟨copy', hpairs', ?_⟩
    unfold Context.enterMacro
    rw [heq]
  refine (hentered.and hstands hstands').mono ?_ fun _ _ _ _ => id
  rintro c u c' u' ⟨⟨hc, hu⟩, hprepared, hprepared'⟩
  exact ⟨hu, hc, hprepared.grounded hstanding, hprepared'.grounded hstanding',
    hprepared.placed.element⟩

/-- Paired elements become the same, and take the places of paired elements. -/
theorem endAlike_handle (h : s.Twins P s') (hctx : ctx.Twins P ctx')
    (hsound : stage.Sound s) (hsound' : stage.Sound s') (hstanding : stage.Standing p s ctx)
    (hstanding' : stage.Standing p' s' ctx')
    (hgood : Throughout (StemsOn stage.origin fun _ => True) s.document (f + 1) ctx.node)
    (hgood' : Throughout (StemsOn stage.origin fun _ => True) s'.document (f' + 1) ctx'.node) :
    EndAlike (fun c t c' t' => Abreast P t t' c c') (Stopping P)
      (outcome (handle stage.settings ctx) s) (outcome (handle stage.settings ctx') s') := by
  have habreast := abreast_of_standing h hctx hstanding hstanding'
  have hvalue (expression : String) :
      SameValue stage.settings ctx ctx' s.globals s'.globals expression := by
    obtain ⟨node, -, rfl⟩ := hctx
    exact sameValue_of_eq rfl rfl h.globals expression
  have hstack : ctx'.macroStack = ctx.macroStack := by
    obtain ⟨node, -, rfl⟩ := hctx
    rfl
  unfold handle
  refine endAlike_document ?_
  rw [habreast.directive?_eq]
  split
  · exact .ok habreast
  next expression _ =>
    have hresolve := endAlike_resolve h.cache h.cache' (hvalue expression) habreast.describe_eq
      stage.settings.vocabularies.useMacro
    refine ((hresolve.mono (fun _ _ _ _ => id) ?_).and
      (ensures_resolve_known hstanding.admits hstanding.globals _ _ _)
      (ensures_resolve_known hstanding'.admits hstanding'.globals _ _ _)).bind ?_
    · rintro stop t _ t' ⟨rfl, ht, ht'⟩
      exact ⟨.inl rfl, h.recached ht ht'⟩
    rintro _ t found t' ⟨⟨rfl, ht, ht'⟩, ⟨-, hfound⟩, -⟩
    have hnow := habreast.recached ht ht'
    cases found with
    | none => exact .ok hnow
    | some used =>
        dsimp only
        rw [hstack]
        split
        · exact hnow.fail _
        next hdepth =>
          replace hdepth := Nat.lt_of_not_le hdepth
          have hused := hfound used rfl
          have htstanding := hstanding.recached ht
          have htstanding' := hstanding'.recached ht'
          obtain ⟨cache, hcache, rfl⟩ := ht
          obtain ⟨cache', hcache', rfl⟩ := ht'
          have hground := hnow.ground
          have hground' := hnow.ground'
          have hfillers := matches_fillers stage.settings.vocabularies h.documents hctx.pairs
            hnow.ground hnow.ground'
          have hexpand := endAlike_expand (hsound.cached cache) (hsound'.cached cache')
            hstanding.admits hstanding'.admits hused (Nat.one_le_of_lt hdepth) hgood hgood' hcache
            hcache' (fun _ _ expression _ _ => hvalue expression) hfillers h.documents
          have hleft := (ensures_expand (hsound.cached cache) hstanding.admits hused
            (Nat.one_le_of_lt hdepth) hgood fun _ _ => trivial).and
              (isFaithful_cache_expand stage.settings ctx used hcache)
          have hright := (ensures_expand (hsound'.cached cache') hstanding'.admits hused
            (Nat.one_le_of_lt hdepth) hgood' fun _ _ => trivial).and
              (isFaithful_cache_expand stage.settings ctx' used hcache')
          -- However the expansions end, bindings have not changed and caches can be relied on.
          refine ((hexpand.ensured hleft hright).mono (fun _ _ _ _ => id) ?_).bind ?_
          · rintro stop u _ u' ⟨⟨rfl, hd⟩, ⟨hfails, hread⟩, hfails', hread'⟩
            exact ⟨.inl rfl, hd, hfails'.2.1.trans (h.globals.trans hfails.2.1.symm), hread, hread'⟩
          rintro copy u copy' u' ⟨⟨hd, hpairs⟩, ⟨⟨hglobals, helement, hcopy⟩, hread⟩,
            ⟨hglobals', helement', hcopy'⟩, hread'⟩
          have hu : u.Twins P u' :=
            ⟨hd, hglobals'.trans (h.globals.trans hglobals.symm), hread, hread'⟩
          exact endAlike_replace hu hctx hstanding hstanding' hglobals hglobals' hpairs helement
            helement' { hcopy with throughout := hcopy.throughout.imp fun _ _ hn => ⟨trivial, hn.2⟩ }
            { hcopy' with throughout := hcopy'.throughout.imp fun _ _ hn => ⟨trivial, hn.2⟩ } hdepth
            used.name

end Expansion

/-! ## Source comments -/

namespace SourceComment

variable {n n' : NodeId} {base : Option String} {v : Vocabularies}

/-- Comments beside paired elements say the same when the documents have the same source. -/
theorem content_eq {d d' : Document} (h : Document.Twins P d d') (hsource : P.source' = P.source)
    (hn : P.Pairs n n') (tag : Tag) : content base d' n' tag = content base d n tag := by
  unfold content describe element?
  rw [h.kind_eq hn.shares, h.source, h.source', hsource]

theorem endAlike_addComment (h : s.Twins P s') (hsource : P.source' = P.source)
    (hn : P.Pairs n n') (tag : Tag) {insert : NodeId → NodeId → Edit Unit}
    (hinsert : ∀ {d d' : Document} {m m'}, Document.Twins P d d' → P.Pairs m m' →
      EndAlike (fun _ t _ t' => Document.Twins P t t') (Failing .whole P) (outcome (insert n m) d)
        (outcome (insert n' m') d')) :
    EndAlike (fun _ t _ t' => t.Twins P t') (Stopping P) (outcome (addComment base n tag insert) s)
      (outcome (addComment base n' tag insert) s') := by
  unfold addComment
  refine endAlike_document ?_
  rw [content_eq h.documents hsource hn, outcome_bind_ok (Rendering.outcome_createIn _ s),
    outcome_bind_ok (Rendering.outcome_createIn _ s')]
  have hkind : View.whole.kind (.comment (content base s.document n tag)) = _ := rfl
  have hmade := h.change (h.documents.create hkind)
  exact (endAlike_edit hmade (hinsert hmade.documents h.documents.size_pairs) fun _ _ _ _ => id).mono
    (fun _ _ _ _ => And.right) fun _ _ _ _ => id

/-- Paired elements are given the same comments. -/
theorem endAlike_annotate (h : Abreast P s s' ctx ctx') (hsource : P.source' = P.source) :
    EndAlike (fun _ t _ t' => t.Twins P t') (Stopping P) (outcome (annotate v base ctx.node) s)
      (outcome (annotate v base ctx'.node) s') := by
  have hpairs := h.contexts.pairs
  have hd := h.states.documents
  have hbefore : ∀ tag, EndAlike (fun _ t _ t' => t.Twins P t') (Stopping P)
      (outcome (addComment base ctx.node tag insertBefore) s)
      (outcome (addComment base ctx'.node tag insertBefore) s') := fun tag =>
    endAlike_addComment h.states hsource hpairs tag fun hd hm => hd.insertBefore hpairs hm
  have hafter : ∀ tag t t', RenderState.Twins P t t' →
      EndAlike (fun _ t _ t' => t.Twins P t') (Stopping P)
        (outcome (addComment base ctx.node tag insertAfter) t)
        (outcome (addComment base ctx'.node tag insertAfter) t') := fun tag t t' ht =>
    endAlike_addComment ht hsource hpairs tag fun hd hm => hd.insertAfter hpairs hm
  have hparents := hd.parents hpairs.shares
  have htop : (s'.document.parentElement? ctx'.node).isNone =
      (s.document.parentElement? ctx.node).isNone := by
    unfold parentElement?
    generalize s.document.parent ctx.node = parent, s'.document.parent ctx'.node = parent'
      at hparents
    cases hparents with
    | none => rfl
    | some hq =>
        simp only [Option.filter_some, hd.isElement_eq hq]
        split <;> rfl
  unfold annotate
  refine endAlike_document ?_
  have helement : s'.document.element? ctx'.node = s.document.element? ctx.node :=
    congrArg NodeKind.element? (hd.kind_eq hpairs.shares)
  rw [helement, htop,
    hd.up.hasAttribute_eq hpairs.shares h.ground h.ground',
    hd.up.hasAttribute_eq hpairs.shares h.ground h.ground']
  generalize s.document.parent ctx.node = parent, s'.document.parent ctx'.node = parent' at hparents
  cases hparents with
  | none => exact .ok h.states
  | some hq =>
      cases s.document.element? ctx.node with
      | none => exact .ok h.states
      | some element =>
          dsimp only
          split
          · exact hbefore _
          split
          · exact (hbefore _).bind fun _ t _ t' => hafter _ t t'
          split
          · exact hbefore _
          split
          · exact hafter _ s s' h.states
          · exact .ok h.states

end SourceComment

namespace Walk

/-- Rendering begins alike at paired elements. -/
theorem endAlike_prepare (hvisitors : stage.settings.visitors = []) (h : s.Twins P s')
    (hsource : P.source' = P.source)
    (hctx : ctx.Twins P ctx') (hsound : stage.Sound s) (hsound' : stage.Sound s')
    (hstanding : stage.Standing p s ctx) (hstanding' : stage.Standing p' s' ctx')
    (hgood : Throughout (StemsOn stage.origin fun _ => True) s.document (f + 1) ctx.node)
    (hgood' : Throughout (StemsOn stage.origin fun _ => True) s'.document (f' + 1) ctx'.node) :
    EndAlike (Ending P (Context.Twins P)) (Stopping P) (outcome (prepare stage.settings ctx) s)
      (outcome (prepare stage.settings ctx') s') := by
  unfold prepare
  refine (Expansion.endAlike_handle h hctx hsound hsound' hstanding hstanding' hgood hgood').bind ?_
  intro c t c' t' hc
  unfold visitors
  rw [hvisitors]
  split
  · rw [List.foldlM_cons, List.foldlM_cons]
    refine EndAlike.bind (R := Ending P (Context.Twins P)) ?_ fun _ _ _ _ => .ok
    exact (SourceComment.endAlike_annotate hc hsource).bind fun _ _ _ _ hu => .ok ⟨hc.contexts, hu⟩
  · exact .ok ⟨hc.contexts, hc.states⟩

end Walk

end PageTemplate
