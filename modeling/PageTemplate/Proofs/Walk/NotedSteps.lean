import PageTemplate.Proofs.Markup.NotedTwins
import PageTemplate.Proofs.Render.CleanOutput
import PageTemplate.Proofs.Render.Remarks
import PageTemplate.Proofs.Walk.PreparationTwins
import PageTemplate.Proofs.Walk.Recovering
import PageTemplate.Proofs.Walk.Running

/-! # Single steps in documents with notes

A directive does the same in two documents that are the same but for notes, at elements with no
notes below them; so does the expansion of a macro, and what an element is annotated with are
further notes. An error handler does the same whatever notes there are, and so does the removal of
directives.
-/

namespace PageTemplate

open Markup Document Stage Walk Walk.Recorded

variable {M M' : NodeId → NodeId → Prop} {notes : List NodeId} {stage : Stage}
  {s s' t t' : RenderState} {ctx ctx' : Context} {p p' x x' : NodeId}
  {l r l' r' : List NodeId} {level level' : Nat} {α α' : Type}

/-- The second state is the first one, with notes in the document. -/
structure RenderState.Noted (M : NodeId → NodeId → Prop) (notes : List NodeId)
    (s s' : RenderState) : Prop where
  documents : s.document.Noted M notes s'.document
  globals : s'.globals = s.globals
  cache : s.cache.IsFaithful
  cache' : s'.cache.IsFaithful

/-- The same context of paired elements. -/
def Context.Paired (M : NodeId → NodeId → Prop) (ctx ctx' : Context) : Prop :=
  ∃ node, M ctx.node node ∧ ctx' = { ctx with node }

/-- The same contexts of paired elements are handed on and exposed. -/
structure Outcome.Paired (M : NodeId → NodeId → Prop) (result result' : Outcome) : Prop where
  contexts : List.Forall₂ (Context.Paired M) result.contexts result'.contexts
  exposed : List.Forall₂ (Context.Paired M) result.exposed result'.exposed

theorem Context.Paired.pairs (h : ctx.Paired M ctx') : M ctx.node ctx'.node := by
  obtain ⟨node, hnode, rfl⟩ := h
  exact hnode

theorem Context.Paired.mono (h : ctx.Paired M ctx') (hM : M ≤ M') : ctx.Paired M' ctx' :=
  h.imp fun _ => And.imp_left (hM _ _)

/-- Paired children are looked at alike. -/
theorem Context.Paired.child {d d' : Document} {n n' : NodeId} (h : ctx.Paired M ctx')
    (hd : d.Noted M notes d') (hn : M n n') : (ctx.child d n).Paired M (ctx'.child d' n') := by
  obtain ⟨node, -, rfl⟩ := h
  refine ⟨n', hn, ?_⟩
  unfold Context.child Context.ofNode
  rw [hd.up.attributes_eq hn]

theorem Outcome.Paired.mono {result result' : Outcome} (h : result.Paired M result')
    (hM : M ≤ M') : result.Paired M' result' :=
  ⟨h.contexts.imp fun _ _ hc => hc.mono hM, h.exposed.imp fun _ _ hc => hc.mono hM⟩

/-- Results that are related, and states that are the same but for notes. Whatever was paired still
is. -/
def Noting (M : NodeId → NodeId → Prop) (notes : List NodeId)
    (Q : (NodeId → NodeId → Prop) → α → α' → Prop) (a : α) (t : RenderState) (a' : α')
    (t' : RenderState) : Prop :=
  ∃ M', M ≤ M' ∧ t.Noted M' notes t' ∧ Q M' a a'

/-- Failures that match, and states that are the same but for notes. -/
def NotingFailure (M : NodeId → NodeId → Prop) (notes : List NodeId) (stop : Stop)
    (t : RenderState) (stop' : Stop) (t' : RenderState) : Prop :=
  stop.Matches stop' ∧ ∃ M', M ≤ M' ∧ t.Noted M' notes t'

/-! ## Elements with no notes below -/

namespace Markup.Document.Clear

variable (h : Clear M notes s.document s'.document p x l r p' x' l' r')

include h

theorem states (hstates : s.Noted M notes s') : s.Twins h.pairing s' :=
  ⟨h.twins, hstates.globals, hstates.cache, hstates.cache'⟩

/-- When the same has been done to the elements, the states are the same but for notes. -/
theorem noted_turns (htwins : t.Twins h.pairing t') (hturn : stage.Turn (s.document.own x) p s t)
    (hturn' : stage.Turn (s'.document.own x') p' s' t') :
    M ≤ h.grown t.document ∧ t.Noted (h.grown t.document) notes t' :=
  ⟨fun _ _ => h.grown_old hturn.within.size_le,
    h.noted_grown hturn.within hturn'.within htwins.documents, htwins.globals, htwins.cache,
    htwins.cache'⟩

theorem paired {c c' : Context} (hc : c.Twins h.pairing c')
    (helement : t.document.isElement c.node = true) : c.Paired (h.grown t.document) c' :=
  hc.imp fun _ => And.imp_left fun hpairs => h.grown_of_pairs hpairs (lt_size_of_isElement helement)

end Markup.Document.Clear

/-- Paired elements in their places, with no notes below the second one. -/
structure Facing (stage : Stage) (M : NodeId → NodeId → Prop) (notes : List NodeId)
    (p p' : NodeId) (s s' : RenderState) (ctx ctx' : Context) : Prop where
  states : s.Noted M notes s'
  contexts : ctx.Paired M ctx'
  standing : stage.Standing p s ctx
  standing' : stage.Standing p' s' ctx'
  clear : ∀ m, s'.document.Below ctx'.node m → m ∉ notes

namespace Facing

variable (h : Facing stage M notes p p' s s' ctx ctx')

include h

theorem exists_clear : ∃ l r l' r',
    Clear M notes s.document s'.document p ctx.node l r p' ctx'.node l' r' :=
  h.states.documents.exists_clear h.contexts.pairs h.standing.linked h.standing'.linked
    h.standing.rooted h.standing'.rooted h.standing.parent_eq h.standing'.parent_eq h.clear

theorem twins (hclear : Clear M notes s.document s'.document p ctx.node l r p' ctx'.node l' r') :
    ctx.Twins hclear.pairing ctx' := by
  have hpairs := hclear.self_pairs
  obtain ⟨node, -, rfl⟩ := h.contexts
  exact ⟨node, hpairs, rfl⟩

/-- Every directive does the same at the elements. -/
theorem noting_handle (handler : Handler)
    (hstands : stage.Stands handler.takes (fun _ => True) level s.document ctx)
    (hstands' : stage.Stands handler.takes (fun _ => True) level' s'.document ctx') :
    EndAlike (Noting M notes Outcome.Paired) (NotingFailure M notes)
      (outcome (handler.handle stage.settings ctx) s)
      (outcome (handler.handle stage.settings ctx') s') := by
  obtain ⟨l, r, l', r', hclear⟩ := h.exists_clear
  have hends := (handler.endAlike_handle (hclear.states h.states) (h.twins hclear) h.standing
    h.standing').ensured
      (handler.carries_handle h.standing hstands fun _ _ _ => trivial)
      (handler.carries_handle h.standing' hstands' fun _ _ _ => trivial)
  refine hends.mono ?_ ?_
  · rintro o t o' t' ⟨⟨ho, ht⟩, ⟨hturn, hhands⟩, hturn', -⟩
    obtain ⟨hold, hnoted⟩ := hclear.noted_turns ht hturn hturn'
    refine ⟨_, hold, hnoted, ?_, ?_⟩
    · exact forall₂_imp_of_mem ho.contexts fun c hc _ _ hpair =>
        hclear.paired hpair (hhands.contexts c hc).1.element
    · exact forall₂_imp_of_mem ho.exposed fun c hc _ _ hpair =>
        hclear.paired hpair (hhands.exposed c hc).1.element
  · rintro stop t stop' t' ⟨⟨hstop, ht⟩, hfails, hfails'⟩
    obtain ⟨hold, hnoted⟩ := hclear.noted_turns ht hfails.turn hfails'.turn
    exact ⟨hstop, _, hold, hnoted⟩

/-- The same macro is expanded in the places of the elements. -/
theorem noting_expansion (hsound : stage.Sound s) (hsound' : stage.Sound s')
    (hpending : stage.Pending (fun _ => True) level s.document ctx)
    (hpending' : stage.Pending (fun _ => True) level' s'.document ctx') :
    EndAlike (fun c t c' t' => Noting M notes Context.Paired c t c' t' ∧
        Expansion.Prepared stage p' s' ctx' (fun _ => True) level' c' t')
      (NotingFailure M notes)
      (outcome (Expansion.handle stage.settings ctx) s)
      (outcome (Expansion.handle stage.settings ctx') s') := by
  obtain ⟨l, r, l', r', hclear⟩ := h.exists_clear
  have hgood : ∀ {level : Nat} {d : Document} {c : Context},
      stage.Pending (fun _ => True) level d c →
        ∃ f, Throughout (StemsOn stage.origin fun _ => True) d (f + 1) c.node := by
    rintro level d c ⟨-, -, k, hgood, -⟩
    cases k with
    | zero => exact hgood.elim
    | succ f => exact ⟨f, hgood⟩
  obtain ⟨f, hgood₁⟩ := hgood hpending
  obtain ⟨f', hgood₁'⟩ := hgood hpending'
  have hends := (Expansion.endAlike_handle (hclear.states h.states) (h.twins hclear) hsound hsound'
    h.standing h.standing' hgood₁ hgood₁').ensured
      (Expansion.ensures_handle hsound h.standing hpending fun _ _ => trivial)
      (Expansion.ensures_handle hsound' h.standing' hpending' fun _ _ => trivial)
  refine hends.mono ?_ ?_
  · rintro c t c' t' ⟨habreast, hprepared, hprepared'⟩
    obtain ⟨hold, hnoted⟩ :=
      hclear.noted_turns habreast.states hprepared.turn hprepared'.turn
    exact ⟨⟨_, hold, hnoted, hclear.paired habreast.contexts habreast.element⟩, hprepared'⟩
  · rintro stop t stop' t' ⟨⟨hstop, ht⟩, hfails, hfails'⟩
    obtain ⟨hold, hnoted⟩ := hclear.noted_turns ht hfails.turn hfails'.turn
    exact ⟨hstop, _, hold, hnoted⟩

end Facing

/-! ## Annotations -/

/-- The settings with source comments. -/
def Settings.annotated (settings : Settings) : Settings := { settings with sourceComments := true }

theorem Expansion.extendTo_annotated (settings : Settings) (ctx : Context) (fuel : Nat)
    (state : Expansion.State) :
    extendTo settings.annotated ctx fuel state = extendTo settings ctx fuel state := by
  induction fuel generalizing state with
  | zero => rfl
  | succ fuel ih =>
      unfold extendTo
      refine bind_congr fun d => ?_
      have hspec : settings.annotated.vocabularies = settings.vocabularies := rfl
      rw [hspec]
      cases d.findAttribute? state.current settings.vocabularies.extendMacro with
      | none => rfl
      | some attr =>
          refine bind_congr fun found => ?_
          cases found with
          | none => rfl
          | some parent => exact bind_congr fun next => bind_congr fun filled => ih filled

theorem Expansion.handle_annotated (settings : Settings) (ctx : Context) :
    handle settings.annotated ctx = handle settings ctx := by
  have hexpand : ∀ used, expand settings.annotated ctx used = expand settings ctx used := fun used =>
    bind_congr fun d => bind_congr fun copy => bind_congr fun state => by
      show (do return (← extendTo settings.annotated ctx _ state).current) = _
      rw [extendTo_annotated]
      rfl
  unfold handle
  refine bind_congr fun d => ?_
  have hspec : settings.annotated.vocabularies = settings.vocabularies := rfl
  rw [hspec]
  cases ctx.directive? d settings.vocabularies.useMacro with
  | none => rfl
  | some expression =>
      refine bind_congr fun found => ?_
      cases found with
      | none => rfl
      | some used =>
          dsimp only
          rw [hexpand]
          rfl

theorem Handler.handle_annotated (handler : Handler) (settings : Settings) (ctx : Context) :
    handler.handle settings.annotated ctx = handler.handle settings ctx := by
  cases handler <;> rfl

theorem OnError.recover_annotated (settings : Settings) (ctx : Context) (error : RenderError) :
    recover settings.annotated ctx error = recover settings ctx error := rfl

/-- The second element is annotated, and the comments are further notes. -/
theorem Facing.noting_prepare (h : Facing stage M notes p p' s s' ctx ctx')
    (hvisitors : stage.settings.visitors = []) (hplain : stage.settings.sourceComments = false)
    (hsound : stage.Sound s) (hsound' : stage.Sound s')
    (hpending : stage.Pending (fun _ => True) level s.document ctx)
    (hpending' : stage.Pending (fun _ => True) level' s'.document ctx') (path : List Enclosure) :
    let step := taken .prepare path ctx' (prepare stage.settings.annotated ctx') s'
    EndAlike (Noting M (notes ++ step.notes stage.settings.annotated) Context.Paired)
      (NotingFailure M (notes ++ step.notes stage.settings.annotated))
      (outcome (prepare stage.settings ctx) s)
      (outcome (prepare stage.settings.annotated ctx') s') := by
  intro step
  have hleft : prepare stage.settings ctx =
      Expansion.handle stage.settings ctx >>= fun c => return c := by
    rw [prepare_eq_annotated _ _ hvisitors]
    simp only [hplain]
    rfl
  have hright : prepare stage.settings.annotated ctx' =
      Expansion.handle stage.settings ctx' >>= fun c => do
        SourceComment.annotate stage.settings.vocabularies stage.settings.commentRoot c.node
        return c := by
    rw [prepare_eq_annotated stage.settings.annotated ctx' hvisitors,
      Expansion.handle_annotated]
    rfl
  have hexpansion := h.noting_expansion hsound hsound' hpending hpending'
  have hnotes : ∀ {c u}, outcome (Expansion.handle stage.settings ctx') s' = (.ok c, u) →
      step.notes stage.settings.annotated =
        List.range' u.document.size (step.after.document.size - u.document.size) := by
    intro c u hexpanded
    rw [← Expansion.handle_annotated] at hexpanded
    unfold Step.notes
    dsimp only [step, taken]
    rw [hexpanded]
  have hnone : ∀ {stop u}, outcome (Expansion.handle stage.settings ctx') s' = (.error stop, u) →
      step.notes stage.settings.annotated = [] := by
    intro stop u hfails
    rw [← Expansion.handle_annotated] at hfails
    unfold Step.notes
    dsimp only [step, taken]
    rw [hfails]
  rcases hout : outcome (Expansion.handle stage.settings ctx) s with ⟨stop | c, t⟩ <;>
    rcases hout' : outcome (Expansion.handle stage.settings ctx') s' with ⟨stop' | c', u'⟩ <;>
    rw [hout, hout'] at hexpansion <;> cases hexpansion
  case error hfails =>
    rw [hnone hout', List.append_nil, hleft, hright, outcome_bind, outcome_bind, hout, hout']
    exact .error hfails
  case ok hdone =>
    obtain ⟨⟨M', hM, hnoted, hc⟩, hprepared⟩ := hdone
    obtain ⟨d, hannotated, hremarks⟩ := SourceComment.annotates_annotate
      stage.settings.vocabularies stage.settings.commentRoot
      hprepared.turn.within.linked hprepared.placed.parent_eq
    obtain ⟨q, -, hq⟩ := hnoted.documents.exists_parent' hc.pairs hprepared.placed.parent_eq
    have hafter : outcome (prepare stage.settings.annotated ctx') s' =
        (.ok c', { u' with document := d }) := by
      rw [hright, outcome_bind_ok hout', outcome_bind_ok hannotated]
      rfl
    have hdocument : step.after.document = d := congrArg (·.2.document) hafter
    rw [hnotes hout', hdocument, hafter, hleft, outcome_bind_ok hout]
    exact .ok ⟨M', hM, ⟨hremarks.noted hnoted.documents hprepared.turn.within.linked hq,
      hnoted.globals, hnoted.cache, hnoted.cache'⟩, hc⟩

/-! ## Recovery -/

namespace OnError

variable (settings : Settings)

/-- An expression has the same value in the same context of another element. -/
theorem endAlike_evaluateDirective (ctx : Context)
    (hstates : s.Twins (.fresh s.document s'.document) s')
    {node : NodeId}
    (hdescribe : describeElement s'.document node = describeElement s.document ctx.node)
    (spec : AttributeSpec) (text : String) :
    EndAlike (fun value t value' t' => value' = value ∧ Expansion.Recached s t ∧
        Expansion.Recached s' t')
      (Stopping (.fresh s.document s'.document))
      (outcome (ctx.evaluateDirective settings spec text) s)
      (outcome (({ ctx with node } : Context).evaluateDirective settings spec text) s') := by
  have hread : Expansion.Recached s { s with cache := (s.cache.get text).2 } :=
    ⟨_, (hstates.cache.get text).2, rfl⟩
  have hread' : Expansion.Recached s' { s' with cache := (s'.cache.get text).2 } :=
    ⟨_, (hstates.cache'.get text).2, rfl⟩
  have henvironment : ({ ctx with node } : Context).environment settings s'.globals =
      ctx.environment settings s.globals := by
    rw [hstates.globals]
    rfl
  unfold Context.evaluateDirective
  rw [outcome_bind_ok (ctx.outcome_evaluate settings hstates.cache text),
    outcome_bind_ok (Context.outcome_evaluate _ settings hstates.cache' text), henvironment]
  cases Expression.parse text >>= (ctx.environment settings s.globals).evaluate with
  | ok value => exact .ok ⟨rfl, hread, hread'⟩
  | error source =>
      refine endAlike_document (.error ⟨.inl ?_, hstates.recached hread hread'⟩)
      rw [hdescribe]

/-- An error handler makes the same new nodes wherever it is. -/
theorem endAlike_produce (hstates : s.Twins (.fresh s.document s'.document) s') {node : NodeId}
    (hdescribe : describeElement s'.document node = describeElement s.document ctx.node)
    (value : String) (error : RenderError) :
    EndAlike (fun made t made' t' =>
        Option.Rel (List.Forall₂ (Pairing.fresh s.document s'.document).Pairs) made made' ∧
          t.Twins (.fresh s.document s'.document) t')
      (Stopping (.fresh s.document s'.document))
      (outcome (produce settings ctx value error) s)
      (outcome (produce settings { ctx with node } value error) s') := by
  unfold produce Context.readDirective
  cases Directive.readContent value with
  | error message =>
      refine .error ⟨.inl ?_, hstates⟩
      rw [hdescribe]
  | ok read =>
      refine EndAlike.bind (R := fun result t result' t' => read = result ∧ read = result' ∧
        s = t ∧ s' = t') (.ok ⟨rfl, rfl, rfl, rfl⟩) ?_
      rintro _ _ _ _ ⟨rfl, rfl, rfl, rfl⟩
      have hevaluates := endAlike_evaluateDirective settings { ctx with
        scope := ctx.scope.setCaught (.object (caughtError error.kind error.message)) } hstates
        hdescribe settings.vocabularies.onError read.2
      refine hevaluates.bind ?_
      rintro result t _ t' ⟨rfl, ht, ht'⟩
      have hnow := hstates.recached ht ht'
      split
      · exact .ok ⟨.none, hnow⟩
      split
      · exact .ok ⟨.some .nil, hnow⟩
      · exact (endAlike_contentNodes hnow _ _).map fun _ _ _ _ hmade => ⟨.some hmade.1, hmade.2⟩

/-- So it shows the same at paired elements, whatever notes were below them. -/
theorem noting_recover (h : s.Noted M notes s') (hctx : ctx.Paired M ctx')
    (hground : s.document.Grounded ctx.node) (hground' : s'.document.Grounded ctx'.node)
    (helement : s.document.isElement ctx.node = true) (hadmits : stage.Admits ctx)
    (hglobals : s.globals.AllMacros stage.Known) (error : RenderError) :
    EndAlike (Noting M notes fun _ _ _ => True) (NotingFailure M notes)
      (outcome (recover stage.settings ctx error) s)
      (outcome (recover stage.settings ctx' error) s') := by
  have hpairs := hctx.pairs
  have hdirective : ctx'.directive? s'.document stage.settings.vocabularies.onError =
      ctx.directive? s.document stage.settings.vocabularies.onError := by
    have hmatches := h.documents.up.attributeMatches_eq hpairs hground hground'
    obtain ⟨node, -, rfl⟩ := hctx
    unfold Context.directive?
    rw [hmatches]
  have hfails : EndAlike (Noting M notes fun _ (_ _ : Unit) => True) (NotingFailure M notes)
      (outcome (Rendering.fail error) s) (outcome (Rendering.fail error) s') :=
    .error ⟨.inl rfl, M, le_rfl, h⟩
  unfold recover
  split
  · refine endAlike_document ?_
    rw [hdirective]
    split
    next value _ =>
      have hdescribe := describeElement_eq (h.documents.kind_eq hpairs) helement
      obtain ⟨node, hnode, rfl⟩ := hctx
      have hadmits' : stage.Admits { ctx with node } :=
        ⟨hadmits.scope, hadmits.written, hadmits.depth⟩
      have hglobals' : s'.globals.AllMacros stage.Known := h.globals ▸ hglobals
      have hstates : s.Twins (.fresh s.document s'.document) s' :=
        ⟨akin_fresh .whole _ _, h.globals, h.cache, h.cache'⟩
      have hjoined : ∀ t t' : RenderState, t.Twins (.fresh s.document s'.document) t' →
          Extends s.document t.document → Extends s'.document t'.document →
            t.Noted (joined M s.document s'.document t.document) notes t' :=
        fun t t' ht hgrown hgrown' =>
          ⟨h.documents.joined hgrown hgrown' ht.documents, ht.globals, ht.cache, ht.cache'⟩
      have hproduced := (endAlike_produce stage.settings hstates hdescribe value
        error).ensured (ensures_produce hground.linked hadmits hglobals value error)
          (ensures_produce hground'.linked hadmits' hglobals' value error)
      rw [handleWith_eq, handleWith_eq]
      refine (hproduced.mono (fun _ _ _ _ => id) ?_).bind ?_
      · rintro stop t stop' t' ⟨⟨hstop, ht⟩, hgrown, hgrown'⟩
        exact ⟨hstop, _, le_joined, hjoined t t' ht hgrown hgrown'⟩
      · rintro made t made' t' ⟨⟨hmade, ht⟩, ⟨hgrown, hnew⟩, hgrown', -⟩
        have hnow := hjoined t t' ht hgrown hgrown'
        cases hmade with
        | none => exact .ok ⟨_, le_joined, hnow, trivial⟩
        | @some nodes nodes' hnodes =>
            have hpaired : List.Forall₂ (joined M s.document s'.document t.document) nodes nodes' :=
              forall₂_imp_of_mem hnodes fun n hn _ _ hpair =>
                .inr ⟨hpair, ((hnew nodes rfl).2 n hn).2⟩
            refine .ok ⟨joined M s.document s'.document t.document, le_joined, ?_, trivial⟩
            exact ⟨hnow.documents.replaceChildren (.inl hnode) hpaired, hnow.globals, hnow.cache,
              hnow.cache'⟩
    next => exact hfails
  · exact hfails

end OnError

/-! ## The removal of directives -/

namespace Cleanup

variable {d d' : Document} {v : Vocabularies}

theorem noted_removeNames (h : d.Noted M notes d') (hx : M x x') (names : List String) :
    (removeNames d x names).Noted M notes (removeNames d' x' names) := by
  unfold removeNames
  induction names generalizing d d' with
  | nil => exact h
  | cons name names ih => exact ih (h.removeAttribute hx name)

/-- Paired elements belong to the vocabularies alike, and so do their attributes. -/
theorem directives_eq (h : d.Noted M notes d') (hx : M x x') (hground : d.Grounded x)
    (hground' : d'.Grounded x') :
    directiveNames v d' x' = directiveNames v d x ∧
      isDirectiveElement v d' x' = isDirectiveElement v d x := by
  have hscope := h.up.scope
  unfold directiveNames isDirective isDirectiveElement
  rw [h.up.attributes_eq hx, hscope.attributeInNamespace_eq hx hground hground',
    hscope.inNamespace_eq hx hground hground']
  exact ⟨rfl, rfl⟩

/-- The tags of paired elements of the trees are taken away alike. -/
theorem noted_unwrap {e e' : Document} (h : e.Noted M notes e') (hx : M x x')
    (hunwrapping : Unwrapping d e) (hunwrapping' : Unwrapping d' e') (hbelow : d.Below root x)
    (hbelow' : d'.Below root x') :
    (unwrap e x).Noted M notes (unwrap e' x') := by
  have hrooted : ∀ {d e : Document} {x : NodeId}, Unwrapping d e → d.Below root x →
      (e.parent x).isSome → e.Rooted x := by
    intro d e x hunwrapping hbelow hsome
    have hlinked := hunwrapping.confined.linked
    refine ⟨root, hlinked.parent_root, (hunwrapping.below x hbelow).resolve_left fun hnone => ?_⟩
    rw [hnone] at hsome
    cases hsome
  have hsome := h.parent_isSome hx
  unfold unwrap
  rw [hsome]
  split
  next hparent =>
    obtain ⟨p, hp⟩ := Option.isSome_iff_exists.mp hparent
    exact h.omitTag hx hp hunwrapping.confined.linked hunwrapping'.confined.linked
      (hrooted hunwrapping hbelow hparent) (hrooted hunwrapping' hbelow' (hsome.trans hparent))
  next => exact h

section Removal

variable {l l' : List NodeId} {e e' : Document} (hlinked : d.WellLinked) (hlinked' : d'.WellLinked)
  (hpairs : List.Forall₂ (fun n n' => M n n' ∧ d.Below root n ∧ d'.Below root n') l l')

include hlinked hlinked' hpairs

theorem noted_strip (h : d.Noted M notes d') (hsize : root < d.size) (hsize' : root < d'.size) :
    (strip v d l).Noted M notes (strip v d' l') := by
  have hground : ∀ {d : Document}, d.WellLinked → root < d.size → ∀ n, d.Below root n →
      d.Grounded n := fun hlinked hsize n hn =>
    Grounded.below ⟨hlinked, hsize, root, hlinked.parent_root, .refl⟩ hn
  have hsame : List.Forall₂ (fun n n' => M n n' ∧ directiveNames v d' n' = directiveNames v d n)
      l l' :=
    hpairs.imp fun n n' hpair => ⟨hpair.1, (directives_eq h hpair.1
      (hground hlinked hsize n hpair.2.1) (hground hlinked' hsize' n' hpair.2.2)).1⟩
  unfold strip
  have hnames : ∀ {e e' : Document}, e.Noted M notes e' →
      (l.foldl (fun t node => removeNames t node (directiveNames v d node)) e).Noted M notes
        (l'.foldl (fun t node => removeNames t node (directiveNames v d' node)) e') := by
    clear hpairs
    induction hsame with
    | nil => exact id
    | cons hpair _ ih =>
        intro e e' he
        rw [List.foldl_cons, List.foldl_cons, hpair.2]
        exact ih (noted_removeNames he hpair.1 _)
  exact hnames h

theorem noted_unwrapAll (h : e.Noted M notes e') (hunwrapping : Unwrapping d e)
    (hunwrapping' : Unwrapping d' e') :
    (l.foldl unwrap e).Noted M notes (l'.foldl unwrap e') := by
  induction hpairs generalizing e e' with
  | nil => exact h
  | cons hpair _ ih =>
      obtain ⟨hn, hbelow, hbelow'⟩ := hpair
      exact ih (noted_unwrap h hn hunwrapping hunwrapping' hbelow hbelow')
        (unwrapping_unwrap hlinked hunwrapping hbelow)
        (unwrapping_unwrap hlinked' hunwrapping' hbelow')

end Removal

/-- Directives are removed alike from documents that are the same but for notes. -/
theorem noted_removeDirectives (h : d.Noted M notes d') (hroot : M root root)
    (hlinked : d.WellLinked) (hlinked' : d'.WellLinked) :
    (removeDirectives v d root).Noted M notes (removeDirectives v d' root) := by
  have hsize := h.lt hroot
  have hground : ∀ {d : Document}, d.WellLinked → root < d.size → d.Grounded root :=
    fun hlinked hsize => ⟨hlinked, hsize, root, hlinked.parent_root, .refl⟩
  have hpairs : List.Forall₂ (fun n n' => M n n' ∧ d.Below root n ∧ d'.Below root n')
      (elements d) (elements d') :=
    forall₂_imp_of_mem (h.elements_subtree hroot (hground hlinked hsize.1)
      (hground hlinked' hsize.2)) fun n hn n' hn' hpair =>
        ⟨hpair, ((mem_elements_iff hlinked).mp hn).1, ((mem_elements_iff hlinked').mp hn').1⟩
  have homitted : List.Forall₂ (fun n n' => M n n' ∧ d.Below root n ∧ d'.Below root n')
      ((elements d).filter (isDirectiveElement v d))
      ((elements d').filter (isDirectiveElement v d')) := by
    refine (List.rel_filter (R := fun n n' => (M n n' ∧ d.Below root n ∧ d'.Below root n') ∧
      isDirectiveElement v d' n' = isDirectiveElement v d n) (fun _ _ hpair => ?_)
      (hpairs.imp fun n n' hpair => ⟨hpair, ?_⟩)).imp fun _ _ => And.left
    · exact Bool.eq_iff_iff.mp hpair.2.symm
    · exact (directives_eq h hpair.1 ((hground hlinked hsize.1).below hpair.2.1)
        ((hground hlinked' hsize.2).below hpair.2.2)).2
  rw [removeDirectives_eq, removeDirectives_eq]
  exact noted_unwrapAll hlinked hlinked' homitted
    (noted_strip hlinked hlinked' hpairs h hsize.1 hsize.2) (unwrapping_strip hlinked)
    (unwrapping_strip hlinked')

end Cleanup

end PageTemplate
