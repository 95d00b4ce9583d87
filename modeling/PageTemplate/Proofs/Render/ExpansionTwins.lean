import PageTemplate.Proofs.Render.Expanding
import PageTemplate.Proofs.Render.ExtensionChain
import PageTemplate.Proofs.Render.SlotTwins
import PageTemplate.Proofs.SideBySide

/-! # Expanding one macro twice

Published macros stay what they are, so at any two moments of a walk the copies of a macro are
twins. When the fillers from the places of use have the same names and trees, and the expressions
that say what the macros of the chain extend have the same values at both places, the copies are
filled alike, go on to the same further macros and become the same tree; or both expansions fail in
the same way. Fillers that are the same but for where they come from give trees that are the same
but for that.
-/

namespace PageTemplate

open Markup Document Stage

variable {stage : Stage} {s s' t t' : RenderState} {view : View} {P : Pairing}

/-! ## Copies of one macro -/

namespace Stage

/-- What belongs to a tree of its own is the same at any two moments of a walk. -/
theorem corresponds_kept {d d' : Document} (hkept : Confined (stage.base.own root) stage.base d)
    (hkept' : Confined (stage.base.own root) stage.base d') {top : NodeId}
    (hapart : Apart stage.origin stage.base top) :
    Downward .whole (fun n n' => n = n' ∧ stage.base.Below top n) d d' ∧
      Upward (fun n n' => n = n' ∧ stage.base.Below top n) d d' := by
  have hnode : ∀ n, stage.base.Below top n →
      d.node n = stage.base.node n ∧ d'.node n = stage.base.node n := fun n hn =>
    ⟨(kept_apart hkept hapart).2 n hn, (kept_apart hkept' hapart).2 n hn⟩
  have hkind : ∀ {n n'}, n = n' ∧ stage.base.Below top n → d'.kind n' = d.kind n := by
    rintro n _ ⟨rfl, hn⟩
    unfold kind
    rw [(hnode n hn).1, (hnode n hn).2]
  refine ⟨⟨hkind, ?_⟩, fun hn => congrArg NodeKind.bare (hkind hn), ?_⟩
  · rintro n _ ⟨rfl, hn⟩
    unfold children
    rw [(hnode n hn).1, (hnode n hn).2]
    exact List.forall₂_same.mpr fun c hc => ⟨rfl, hn.child hc⟩
  · rintro n _ ⟨rfl, hn⟩
    unfold parent
    rw [(hnode n hn).1, (hnode n hn).2]
    cases hparent : (stage.base.node n).parent with
    | none => exact .none
    | some p => exact .some ⟨rfl, stage.linked.below_parent hapart.parent_eq hn hparent⟩

theorem grounded_published {d : Document} (hkept : Confined (stage.base.own root) stage.base d)
    {reference : MacroRef} (h : Published stage.origin stage.base reference) :
    d.Grounded reference.element := by
  obtain ⟨top, hapart, hbelow⟩ := h
  have hapart' := apart_of_kept hkept hapart
  have hbelow' := ((kept_apart hkept hapart).1 _).mpr hbelow
  exact ⟨hkept.linked, hkept.linked.below_lt hbelow' hapart'.lt, top, hapart'.parent_eq, hbelow'⟩

end Stage

/-- Copies of a published macro are paired. -/
theorem MacroTable.akin_copyElement {d d' : Document} (v : Vocabularies)
    (hakin : Akin view P d d')
    (hkept : Confined (stage.base.own root) stage.base d)
    (hkept' : Confined (stage.base.own root) stage.base d') {reference : MacroRef}
    (h : Published stage.origin stage.base reference) :
    Akin view P (copyElement v d reference.element).1 (copyElement v d' reference.element).1 ∧
      P.Pairs (copyElement v d reference.element).2
        (copyElement v d' reference.element).2 := by
  have hground := grounded_published hkept h
  have hground' := grounded_published hkept' h
  obtain ⟨top, hapart, hbelow⟩ := h
  obtain ⟨hdown, hup⟩ := corresponds_kept hkept hkept' hapart
  have htree : d'.tree reference.element = d.tree reference.element :=
    hdown.tree_eq ⟨rfl, hbelow⟩ hground.throughout hground'.throughout
  obtain ⟨hgrafted, hcopy⟩ := hakin.graft (congrArg view.tree htree)
  unfold copyElement deepCopy
  rw [hup.declarations_eq ⟨rfl, hbelow⟩ hground hground' v]
  exact ⟨hgrafted.declareMissing hcopy _, hcopy⟩

/-- An element is described by its own name and place. -/
theorem describeElement_eq {d d' : Document} {n n' : NodeId} (hkind : d'.kind n' = d.kind n)
    (helement : d.isElement n = true) : describeElement d' n' = describeElement d n := by
  unfold isElement at helement
  unfold describeElement element?
  rw [hkind]
  cases hnode : d.kind n with
  | element element => rfl
  | _ =>
      rw [hnode] at helement
      cases helement

theorem isElement_of_findAttribute? {d : Document} {n : NodeId} {spec : AttributeSpec}
    {attr : Attribute} (h : d.findAttribute? n spec = some attr) : d.isElement n = true := by
  unfold findAttribute? attributes element? at h
  unfold isElement
  cases hkind : d.kind n with
  | element element => rfl
  | _ => simp [hkind, NodeKind.element?] at h

namespace Expansion

/-! ## The macro that is extended -/

/-- An expression has the same value at two places. -/
def SameValue (settings : Settings) (ctx ctx' : Context) (globals globals' : Globals)
    (expression : String) : Prop :=
  (Expression.parse expression >>= (ctx.environment settings globals).evaluate) =
    Expression.parse expression >>= (ctx'.environment settings globals').evaluate

/-- Values depend on the scope, on the global bindings and on the attributes of the element. -/
theorem sameValue_of_eq {settings : Settings} {ctx ctx' : Context} {globals globals' : Globals}
    (hscope : ctx'.scope = ctx.scope) (hattributes : ctx'.attributeValues = ctx.attributeValues)
    (hglobals : globals' = globals) (expression : String) :
    SameValue settings ctx ctx' globals globals' expression := by
  unfold SameValue Context.environment
  rw [hscope, hattributes, hglobals]

/-- The expressions by which the macros of a chain extend one another have the same values at two
places. Nothing is said of other expressions. -/
def SameValues (settings : Settings) (used : MacroRef) (ctx ctx' : Context) (s s' : RenderState) :
    Prop :=
  ∀ k found expression, link settings ctx s used k = some found →
    extension? settings s found = some expression →
    SameValue settings ctx ctx' s.globals s'.globals expression

variable {settings : Settings} {ctx ctx' : Context}

theorem SameValues.cached {used : MacroRef} (h : SameValues settings used ctx ctx' s s')
    (cache cache' : ExpressionCache) :
    SameValues settings used ctx ctx' { s with cache } { s' with cache := cache' } := by
  intro k found expression hlink hfound
  rw [link_cached] at hlink
  exact h k found expression hlink hfound

/-- A macro that extends none has no such expressions. -/
theorem sameValues_of_none {used : MacroRef} (h : extension? settings s used = none) :
    SameValues settings used ctx ctx' s s' := by
  intro k found expression hlink hfound
  cases k with
  | zero =>
      cases hlink
      cases h.symm.trans hfound
  | succ k =>
      obtain ⟨next, hnext⟩ := exists_link_of_le hlink (Nat.le_add_left 1 k)
      rw [link_succ rfl, parent?, h] at hnext
      cases hnext

/-- Only the cache of expressions has changed. -/
def Recached (t u : RenderState) : Prop :=
  ∃ cache : ExpressionCache, cache.IsFaithful ∧ u = { t with cache }

theorem endAlike_resolve (hcache : t.cache.IsFaithful) (hcache' : t'.cache.IsFaithful)
    {expression : String} (hvalue : SameValue settings ctx ctx' t.globals t'.globals expression)
    {element element' : NodeId}
    (hdescribe : describeElement t'.document element' = describeElement t.document element)
    (spec : AttributeSpec) :
    EndAlike (fun found u found' u' => found' = found ∧ Recached t u ∧ Recached t' u')
      (SameError fun u u' => Recached t u ∧ Recached t' u')
      (outcome (resolve settings ctx element spec expression) t)
      (outcome (resolve settings ctx' element' spec expression) t') := by
  have hread : Recached t { t with cache := (t.cache.get expression).2 } :=
    ⟨_, (hcache.get expression).2, rfl⟩
  have hread' : Recached t' { t' with cache := (t'.cache.get expression).2 } :=
    ⟨_, (hcache'.get expression).2, rfl⟩
  unfold resolve
  rw [outcome_bind, ctx.outcome_evaluate settings hcache, outcome_bind,
    ctx'.outcome_evaluate settings hcache', ← hvalue]
  generalize Expression.parse expression >>= _ = result
  dsimp only
  rw [outcome_bind, outcome_bind, Rendering.outcome_document, Rendering.outcome_document]
  dsimp only
  rw [hdescribe]
  cases result with
  | ok value =>
      dsimp only
      split
      · exact .ok ⟨rfl, hread, hread'⟩
      cases value.asMacro? with
      | none => exact .error ⟨rfl, hread, hread'⟩
      | some found => exact .ok ⟨rfl, hread, hread'⟩
  | error source =>
      dsimp only
      split
      · exact .error ⟨rfl, hread, hread'⟩
      · exact .error ⟨rfl, hread, hread'⟩

/-! ## Two expansions on their way -/

/-- Two expansions have got equally far: their current macros are paired, and fillers have the same
names and trees. The elements of the current macros are the same wherever fillers come from. -/
structure Alike (view : View) (P : Pairing) (d d' : Document) (state state' : State) : Prop where
  documents : Akin view P d d'
  chain : state'.chain = state.chain
  current : P.Pairs state.current state'.current
  kind_eq : d'.kind state'.current = d.kind state.current
  fillers : Keyed.Matches (SameTree view d d') state.fillers state'.fillers

variable {state state' : State} {ok ok' : NodeId → Prop} {f f' k k' : Nat}

/-- The next macro is copied and filled alike. -/
theorem alike_next (v : Vocabularies) {d d' : Document} {fillers fillers' : Slots.Fillers}
    {reference : MacroRef} (hakin : Akin view P d d')
    (hkept : Confined (stage.base.own root) stage.base d)
    (hkept' : Confined (stage.base.own root) stage.base d')
    (hreference : stage.Known reference)
    (hfillers : ∀ entry ∈ fillers, d.isElement entry.2 = true ∧
      Throughout (StemsOn stage.origin ok) d k entry.2)
    (hfillers' : ∀ entry ∈ fillers', d'.isElement entry.2 = true ∧
      Throughout (StemsOn stage.origin ok') d' k' entry.2)
    (hmatch : Keyed.Matches (SameTree view d d') fillers fillers') (chain : List String) :
    let filled := fillCopy v d fillers reference
    let filled' := fillCopy v d' fillers' reference
    Alike view P filled.document filled'.document
      { current := filled.copy, fillers := filled.fillers, chain }
      { current := filled'.copy, fillers := filled'.fillers, chain } := by
  intro filled filled'
  let made := MacroTable.copyElement v d reference.element
  let made' := MacroTable.copyElement v d' reference.element
  have hcopy := copied_copyElement (v := v) hkept hreference
  have hcopy' := copied_copyElement (v := v) hkept' hreference
  obtain ⟨hmade, hpaired⟩ := MacroTable.akin_copyElement v hakin hkept hkept' hreference.1
  -- Making the copies leaves the fillers alone: they are older than the copies.
  have hstart : Slots.FilledAlike view P { document := made.1, fillers }
      { document := made'.1, fillers := fillers' } := by
    refine ⟨hmade, hmatch.imp fun entry hentry entry' hentry' hsame => ?_⟩
    exact hsame.confined hcopy.grown hcopy'.grown
      (fun m hm => Nat.not_le_of_lt (hkept.linked.below_lt hm
        (lt_size_of_isElement (hfillers entry hentry).1)))
      fun m hm => Nat.not_le_of_lt (hkept'.linked.below_lt hm
        (lt_size_of_isElement (hfillers' entry' hentry').1))
  have hfilled : Slots.FilledAlike view P (Slots.fill v made.1 made.2 fillers)
      (Slots.fill v made'.1 made'.2 fillers') :=
    Slots.filledAlike_fillTo hstart hpaired
      (fillable_copyElement (v := v) hkept hreference hfillers)
      (fillable_copyElement (v := v) hkept' hreference hfillers')
      (Nat.le_trans hkept.size_le hcopy.grown.size_le)
      (Nat.le_trans hkept'.size_le hcopy'.grown.size_le)
  refine ⟨hfilled.documents, rfl, hpaired, ?_, hfilled.fillers⟩
  -- The copies themselves are the same in every view, and fillers go below them.
  obtain ⟨hwhole, hwhole'⟩ :=
    MacroTable.akin_copyElement v (akin_fresh .whole d d') hkept hkept' hreference.1
  rw [kind_fillCopy v (grounded_published hkept hreference.1) fillers,
    kind_fillCopy v (grounded_published hkept' hreference.1) fillers']
  exact Twins.kind_eq hwhole hwhole'.shares

/-- The expression by which the element of a macro's copy extends another macro. -/
def extensionAt? (settings : Settings) (d : Document) (copy : NodeId) : Option String :=
  (d.findAttribute? copy settings.vocabularies.extendMacro).map (·.value)

/-- The copy is one of a macro of the chain, and extends what the macro does. -/
def OnChain (settings : Settings) (ctx : Context) (s : RenderState) (used : MacroRef)
    (d : Document) (copy : NodeId) : Prop :=
  ∃ k found, link settings ctx s used k = some found ∧
    extensionAt? settings d copy = extension? settings s found

theorem OnChain.sameValue {used : MacroRef} {expression : String} {d : Document} {copy : NodeId}
    (h : OnChain settings ctx s used d copy) (hvalues : SameValues settings used ctx ctx' s s')
    (hstated : extensionAt? settings d copy = some expression) :
    SameValue settings ctx ctx' s.globals s'.globals expression := by
  obtain ⟨k, found, hlink, hfound⟩ := h
  exact hvalues k found expression hlink (hfound.symm.trans hstated)

theorem OnChain.next {used parent : MacroRef} {expression : String} {d d' : Document}
    {copy copy' : NodeId} (h : OnChain settings ctx s used d copy)
    (hstated : extensionAt? settings d copy = some expression)
    (hnamed : named? settings ctx s expression = some (some parent))
    (hnext : extensionAt? settings d' copy' = extension? settings s parent) :
    OnChain settings ctx s used d' copy' := by
  obtain ⟨k, found, hlink, hfound⟩ := h
  refine ⟨k + 1, parent, ?_, hnext⟩
  rw [link_succ hlink, parent?, ← hfound, hstated]
  exact congrArg Option.join hnamed

/-- The current macro stands outside the tree of the document. -/
theorem Underway.grounded (h : Underway stage ok f s state t) :
    t.document.Grounded state.current :=
  ⟨h.grown.linked, h.current_lt, .of_parent h.parent_eq⟩

/-- Below paired nodes the same fillers are found. -/
theorem matches_fillers (v : Vocabularies) {d d' : Document} {n n' : NodeId}
    (hakin : Akin view P d d') (hn : P.Pairs n n') (hground : d.Grounded n)
    (hground' : d'.Grounded n') :
    Keyed.Matches (SameTree view d d') (Slots.collect v d n) (Slots.collect v d' n') := by
  have hcollected := Slots.matches_collect (v := v) hakin.down hakin.up (fun _ _ => .inl) hn
    hground hground'
  refine hcollected.imp fun entry hentry entry' hentry' hentries => ?_
  obtain ⟨c, hc, hbelow⟩ := Slots.exists_below_of_mem_collect hentry
  obtain ⟨c', hc', hbelow'⟩ := Slots.exists_below_of_mem_collect hentry'
  exact hakin.down.sameTree hentries (hground.below (.of_child hc hbelow))
    (hground'.below (.of_child hc' hbelow'))

/-- Fillers for the next macro are found alike. -/
theorem Alike.merged (halike : Alike view P t.document t'.document state state')
    (h : Underway stage ok f s state t) (h' : Underway stage ok' f' s' state' t')
    (v : Vocabularies) :
    Keyed.Matches (SameTree view t.document t'.document)
      (Keyed.merge state.fillers (Slots.collect v t.document state.current))
      (Keyed.merge state'.fillers (Slots.collect v t'.document state'.current)) :=
  halike.fillers.merge (matches_fillers v halike.documents halike.current h.grounded h'.grounded)

section

variable (hsound : stage.Sound s) (hsound' : stage.Sound s')

include hsound hsound'

/-- Both expansions go on to the next macro, or both stop for the same reason. -/
theorem endAlike_advance (h : Underway stage ok f s state t)
    (h' : Underway stage ok' f' s' state' t')
    (hfresh : ∀ n, s.document.size ≤ n → ok n) (hfresh' : ∀ n, s'.document.size ≤ n → ok' n)
    (halike : Alike view P t.document t'.document state state') {parent : MacroRef}
    (hparent : stage.Known parent) :
    EndAlike (fun next u next' u' => (Alike view P u.document u'.document next next' ∧
        extensionAt? stage.settings u.document next.current = extension? stage.settings s parent) ∧
        u.cache = t.cache ∧ u'.cache = t'.cache)
      (SameError fun u u' => Akin view P u.document u'.document)
      (outcome (do fillCurrent stage.settings (← advance stage.settings state parent)) t)
      (outcome (do fillCurrent stage.settings (← advance stage.settings state' parent)) t') := by
  have hkept := (h.sound hsound).kept
  have hkept' := (h'.sound hsound').kept
  have hnext := alike_next stage.settings.vocabularies halike.documents hkept hkept' hparent
    (h.good_fillers hfresh _) (h'.good_fillers hfresh' _)
    (halike.merged h h' stage.settings.vocabularies) (state.chain ++ [parent.name])
  have hmade := (MacroTable.akin_copyElement stage.settings.vocabularies halike.documents hkept
    hkept' hparent.1).1
  let fillers := Keyed.merge state.fillers
    (Slots.collect stage.settings.vocabularies t.document state.current)
  let fillers' := Keyed.merge state'.fillers
    (Slots.collect stage.settings.vocabularies t'.document state'.current)
  let made := MacroTable.copyElement stage.settings.vocabularies t.document parent.element
  let made' := MacroTable.copyElement stage.settings.vocabularies t'.document parent.element
  have hadvance : EndAlike
      (fun next u next' u' =>
        (next = ⟨made.2, fillers, state.chain ++ [parent.name]⟩ ∧
          u = { t with document := made.1 }) ∧
        next' = ⟨made'.2, fillers', state.chain ++ [parent.name]⟩ ∧
          u' = { t' with document := made'.1 })
      (SameError fun u u' => Akin view P u.document u'.document)
      (outcome (advance stage.settings state parent) t)
      (outcome (advance stage.settings state' parent) t') := by
    unfold advance
    rw [halike.chain]
    show EndAlike _ _ (outcome (if state.chain.contains parent.name then _ else _)
        { t with document := made.1 })
      (outcome (if state.chain.contains parent.name then _ else _) { t' with document := made'.1 })
    split
    · exact .error ⟨rfl, hmade⟩
    split
    · exact .error ⟨rfl, hmade⟩
    · exact .ok ⟨⟨rfl, rfl⟩, rfl, rfl⟩
  refine hadvance.bind ?_
  rintro _ _ _ _ ⟨⟨rfl, rfl⟩, rfl, rfl⟩
  have hground := grounded_published hsound.kept hparent.1
  obtain ⟨-, -, hstated⟩ :=
    fillCopy_spec stage.settings hsound.kept.linked hground h.grown fillers
  exact .ok ⟨⟨hnext, hstated⟩, rfl, rfl⟩

/-- Both chains of macros come to an end, with twins or for the same reason. -/
theorem endAlike_extendTo (hctx : stage.Admits ctx) (hctx' : stage.Admits ctx')
    (h : Underway stage ok f s state t) (h' : Underway stage ok' f' s' state' t')
    (hfresh : ∀ n, s.document.size ≤ n → ok n) (hfresh' : ∀ n, s'.document.size ≤ n → ok' n)
    (halike : Alike view P t.document t'.document state state')
    (hon : OnChain stage.settings ctx s used t.document state.current)
    (hcache : t.cache.IsFaithful) (hcache' : t'.cache.IsFaithful)
    (hvalues : SameValues stage.settings used ctx ctx' s s') (fuel : Nat) :
    EndAlike (fun last u last' u' => Akin view P u.document u'.document ∧
        P.Pairs last.current last'.current)
      (SameError fun u u' => Akin view P u.document u'.document)
      (outcome (extendTo stage.settings ctx fuel state) t)
      (outcome (extendTo stage.settings ctx' fuel state') t') := by
  -- Both runs have the same fuel, so they also run out of it together.
  induction fuel generalizing state state' t t' with
  | zero => exact .error ⟨rfl, halike.documents⟩
  | succ fuel ih =>
      have hdone := And.intro halike.documents halike.current
      unfold extendTo
      rw [outcome_bind, outcome_bind, Rendering.outcome_document, Rendering.outcome_document]
      dsimp only
      rw [halike.documents.up.findAttribute?_eq halike.current.shares h.grounded h'.grounded]
      cases hattr :
        t.document.findAttribute? state.current stage.settings.vocabularies.extendMacro with
      | none => exact .ok hdone
      | some attr =>
          have hstated : extensionAt? stage.settings t.document state.current = some attr.value :=
            congrArg (Option.map Attribute.value) hattr
          have hvalue : SameValue stage.settings ctx ctx' t.globals t'.globals attr.value := by
            rw [h.globals, h'.globals]
            exact hon.sameValue hvalues hstated
          have hresolve := endAlike_resolve hcache hcache' hvalue
            (describeElement_eq halike.kind_eq (isElement_of_findAttribute? hattr))
            stage.settings.vocabularies.extendMacro
          have hfailed : ∀ e u (e' : Stop) u', SameError (fun u u' => Recached t u ∧ Recached t' u')
              e u e' u' → SameError (fun u u' => Akin view P u.document u'.document) e u e' u' := by
            rintro _ _ _ _ ⟨rfl, ⟨_, -, rfl⟩, _, -, rfl⟩
            exact ⟨rfl, halike.documents⟩
          refine ((hresolve.mono (fun _ _ _ _ => id) hfailed).and
            ((ensures_resolve_known hctx (h.sound hsound).globals _ _ _).and
              (ensures_resolve_named? hcache h.globals _ _ _))
            (ensures_resolve_known hctx' (h'.sound hsound').globals _ _ _)).bind ?_
          rintro _ _ found _
            ⟨⟨rfl, ⟨cache, hread, rfl⟩, ⟨cache', hread', rfl⟩⟩, ⟨hfound, hnamed⟩, -⟩
          cases found with
          | none => exact .ok hdone
          | some parent =>
              have hparent := hfound.2 parent rfl
              have hnext := endAlike_advance hsound hsound' (h.cached cache) (h'.cached cache')
                hfresh hfresh' halike hparent
              dsimp only
              rw [← bind_assoc, ← bind_assoc]
              refine (hnext.and (ensures_advance hsound (h.cached cache) hfresh hparent)
                (ensures_advance hsound' (h'.cached cache') hfresh' hparent)).bind ?_
              rintro next u next' u'
                ⟨⟨⟨halike', hstated'⟩, hkept, hkept'⟩, ⟨hunder, -⟩, hunder', -⟩
              exact ih hunder hunder' halike' (hon.next hstated hnamed hstated') (hkept ▸ hread)
                (hkept' ▸ hread')

section

variable (hctx : stage.Admits ctx) (hctx' : stage.Admits ctx') {used : MacroRef}
  (hused : stage.Known used) (hdepth : 1 ≤ stage.settings.maxMacroDepth)
  (hgood : Throughout (StemsOn stage.origin fun _ => True) s.document (f + 1) ctx.node)
  (hgood' : Throughout (StemsOn stage.origin fun _ => True) s'.document (f' + 1) ctx'.node)
  (hcache : s.cache.IsFaithful) (hcache' : s'.cache.IsFaithful)
  (hvalues : SameValues stage.settings used ctx ctx' s s')
  (hfillers : Keyed.Matches (SameTree view s.document s'.document)
    (Slots.collect stage.settings.vocabularies s.document ctx.node)
    (Slots.collect stage.settings.vocabularies s'.document ctx'.node))

include hctx hctx' hused hdepth hgood hgood' hcache hcache' hvalues hfillers

/-- Two expansions of one macro grow alike when they are given the same fillers and the expressions
of the chain have the same values. -/
theorem endAlike_expand (hakin : Akin view P s.document s'.document) :
    EndAlike (fun made u made' u' => Akin view P u.document u'.document ∧ P.Pairs made made')
      (SameError fun u u' => Akin view P u.document u'.document)
      (outcome (expand stage.settings ctx used) s)
      (outcome (expand stage.settings ctx' used) s') := by
  have hnext := alike_next stage.settings.vocabularies hakin hsound.kept hsound'.kept hused
    (good_of_mem_collect hgood) (good_of_mem_collect hgood') hfillers [used.name]
  obtain ⟨-, -, hstated⟩ := fillCopy_spec stage.settings hsound.kept.linked
    (grounded_published hsound.kept hused.1) (.refl hsound.kept.linked)
    (Slots.collect stage.settings.vocabularies s.document ctx.node)
  have hbegin : EndAlike (fun first u first' u' =>
        (Alike view P u.document u'.document first first' ∧
          extensionAt? stage.settings u.document first.current = extension? stage.settings s used) ∧
        u.cache = s.cache ∧ u'.cache = s'.cache)
      (SameError fun u u' => Akin view P u.document u'.document)
      (outcome (begin stage.settings ctx used) s) (outcome (begin stage.settings ctx' used) s') :=
    .ok ⟨⟨hnext, hstated⟩, rfl, rfl⟩
  rw [expand_eq, expand_eq]
  refine (hbegin.and (ensures_begin hsound hused hdepth hgood)
    (ensures_begin hsound' hused hdepth hgood')).bind ?_
  rintro first u first' u' ⟨⟨⟨halike, hfirst⟩, hkept, hkept'⟩, ⟨hunder, -⟩, hunder', -⟩
  refine (endAlike_extendTo hsound hsound' hctx hctx' hunder hunder' (fun _ _ => trivial)
    (fun _ _ => trivial) halike ⟨0, used, rfl, hfirst⟩ (hkept ▸ hcache) (hkept' ▸ hcache') hvalues
    _).bind ?_
  exact fun _ _ _ _ hmade => .ok hmade

/-- The tree that an expansion gives, or the reason why it gives none. -/
def expanded (settings : Settings) (ctx : Context) (used : MacroRef) (s : RenderState) :
    Except Stop Tree :=
  let (made, t) := outcome (expand settings ctx used) s
  made.map t.document.tree

/-- So they give the same tree. -/
theorem expanded_eq :
    (expanded stage.settings ctx used s).map view.tree =
      (expanded stage.settings ctx' used s').map view.tree := by
  have hexpand := (endAlike_expand hsound hsound' hctx hctx' hused hdepth hgood hgood' hcache
    hcache' hvalues hfillers (akin_fresh view _ _)).ensured
    (ensures_expand hsound hctx hused hdepth hgood fun _ _ => trivial)
    (ensures_expand hsound' hctx' hused hdepth hgood' fun _ _ => trivial)
  unfold expanded
  generalize outcome (expand stage.settings ctx used) s = p,
    outcome (expand stage.settings ctx' used) s' = p' at hexpand
  cases hexpand with
  | ok h =>
      obtain ⟨⟨hakin, hmade⟩, ⟨-, -, hcopy⟩, -, -, hcopy'⟩ := h
      refine congrArg Except.ok (Eq.symm ?_)
      exact hakin.down.tree_eq hmade
        (Grounded.throughout ⟨hcopy.grown.linked, hcopy.lt, .of_parent hcopy.parent_eq⟩)
        (Grounded.throughout ⟨hcopy'.grown.linked, hcopy'.lt, .of_parent hcopy'.parent_eq⟩)
  | error h =>
      obtain ⟨⟨rfl, -⟩, -⟩ := h
      rfl

end

end

end Expansion

end PageTemplate
