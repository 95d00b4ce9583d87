import PageTemplate.Proofs.Expression.Caching
import PageTemplate.Proofs.Render.SlotFilling
import PageTemplate.Proofs.Render.Steps
import PageTemplate.Render.Walk

/-! # Expanding macros

An expansion is made of new nodes that stem from the origins. Each macro of the chain adds at most
its own height to what the place of use brings along, and the chain is never longer than the
greatest depth: so an expansion ends, and is no higher than the macros of the chain and the place
of use together.
-/

namespace PageTemplate

open Markup Document Stage

variable {stage : Stage} {p : NodeId} {s t : RenderState} {ctx : Context} {ok : NodeId → Prop}
  {level f : Nat}

namespace Expansion

/-- The step that finds out which macro is used changes nothing but the cache. -/
theorem outcome_resolve {settings : Settings} (hcache : s.cache.IsFaithful) (element : NodeId)
    (spec : AttributeSpec) (expression : String) :
    (outcome (resolve settings ctx element spec expression) s).2 =
      { s with cache := (s.cache.get expression).2 } := by
  unfold resolve
  rw [outcome_bind, ctx.outcome_evaluate settings hcache]
  cases Expression.parse expression >>= (ctx.environment settings s.globals).evaluate with
  | ok value =>
      show (outcome (if value.cancels = true then _ else _) _).2 = _
      split
      · rfl
      · cases value.asMacro? <;> rfl
  | error source =>
      show (outcome (if source.isMalformed = true then _ else _) _).2 = _
      split <;> rfl

/-- Resolving the expression of a macro directive changes the cache alone, and a macro that is
found is a published one. -/
theorem ensures_resolve (hadmits : stage.Admits ctx)
    (hglobals : t.globals.AllMacros stage.Known) (element : NodeId)
    (spec : AttributeSpec) (expression : String)
    {good : Option MacroRef → RenderState → Prop} {bad : Stop → RenderState → Prop}
    (hgood : ∀ found cache, (∀ reference, found = some reference → stage.Known reference) →
      good found { t with cache })
    (hbad : ∀ (error : RenderError) cache, ¬ error.IsTree →
      bad (.failed error) { t with cache }) :
    Ensures (resolve stage.settings ctx element spec expression) t good bad := by
  unfold resolve
  refine Ensures.bind (ctx.ensures_evaluate hadmits hglobals _ fun result cache hresult => ?_)
  refine Ensures.bind (Rendering.ensures_document ?_)
  dsimp only
  split
  next value =>
    split
    · exact Ensures.pure (hgood none cache nofun)
    split
    next found hfound =>
      refine Ensures.pure (hgood (some found) cache ?_)
      rintro _ ⟨⟩
      exact (hresult value rfl).asMacro hfound
    next => exact Rendering.ensures_fail (hbad _ cache id)
  next source =>
    split
    · exact Rendering.ensures_fail (hbad _ cache id)
    · exact Rendering.ensures_fail (hbad _ cache id)

theorem ensures_resolve_known (hadmits : stage.Admits ctx)
    (hglobals : t.globals.AllMacros stage.Known) (element : NodeId)
    (spec : AttributeSpec) (expression : String) :
    Ensures (resolve stage.settings ctx element spec expression) t
      (fun found u => (∃ cache, u = { t with cache }) ∧
        ∀ reference, found = some reference → stage.Known reference)
      fun _ _ => True :=
  ensures_resolve hadmits hglobals element spec expression (fun _ cache h => ⟨⟨cache, rfl⟩, h⟩)
    fun _ _ _ => trivial

/-- An expansion on its way, seen from the state `s` in which it began: everything in it is new
markup that stems from the origins, and fillers come from there or from the place of use. -/
structure Underway (stage : Stage) (ok : NodeId → Prop) (f : Nat) (s : RenderState)
    (state : State) (t : RenderState) : Prop where
  grown : Extends s.document t.document
  globals : t.globals = s.globals
  current_new : s.document.size ≤ state.current
  current_element : t.document.isElement state.current = true
  parent_eq : t.document.parent state.current = none
  throughout : Throughout (StemsOn stage.origin (s.document.size ≤ ·)) t.document
    (state.chain.length * stage.base.size + f) state.current
  fillers : ∀ entry ∈ state.fillers, t.document.isElement entry.2 = true ∧
    Throughout (StemsOn stage.origin ok) t.document
      (state.chain.length * stage.base.size + f) entry.2
  chain_le : state.chain.length ≤ stage.settings.maxMacroDepth

theorem Underway.current_lt {state : State} (h : Underway stage ok f s state t) :
    state.current < t.document.size := lt_size_of_isElement h.current_element

/-- A failed expansion leaves new nodes behind. The tree is not what it fails at. -/
def Fails (s : RenderState) (stop : Stop) (t : RenderState) : Prop :=
  stop.SparesTree ∧ t.globals = s.globals ∧ Extends s.document t.document

section

variable {d : Document} {v : Vocabularies} {fillers : Slots.Fillers} {reference : MacroRef}
  {k : Nat}
  (hkept : Confined (stage.base.own root) stage.base d)
  (hreference : stage.Known reference)

include hkept hreference

theorem copied_copyElement :
    Copied (StemsOn stage.origin (d.size ≤ ·)) stage.base.size d
      (MacroTable.copyElement v d reference.element).1
      (MacroTable.copyElement v d reference.element).2 := by
  obtain ⟨hgood, habove⟩ :=
    throughout_published hkept hreference.1 (fun n (_ : n < _) => trivial)
  exact MacroTable.copied_copyElement v hkept.linked hgood habove

theorem isElement_copyElement :
    (MacroTable.copyElement v d reference.element).1.isElement
      (MacroTable.copyElement v d reference.element).2 = true :=
  (MacroTable.isElement_copyElement v _ _).trans (hkept.elements _ hreference.2)

variable (hfillers : ∀ entry ∈ fillers, d.isElement entry.2 = true ∧
  Throughout (StemsOn stage.origin ok) d k entry.2)

include hfillers

/-- Slots can be filled in the copy of a published macro. -/
theorem fillable_copyElement :
    let made := MacroTable.copyElement v d reference.element
    Slots.Fillable stage.origin d.size stage.base.size k made.2
      { document := made.1, fillers } := by
  have hcopy := copied_copyElement (v := v) hkept hreference
  refine ⟨hcopy.grown.linked, .of_parent hcopy.parent_eq, hcopy.lt, hcopy.throughout,
    fun entry hentry => ?_⟩
  obtain ⟨helement, hthroughout⟩ := hfillers entry hentry
  have hlt := lt_size_of_isElement helement
  refine (hcopy.grown.throughout_old hkept.linked hlt hthroughout).imp fun m hm hm' => ⟨?_, hm'.2⟩
  exact hkept.linked.below_lt ((hcopy.grown.below_old hkept.linked hlt).mp hm) hlt

/-- The copy of a published macro with its slots filled. -/
theorem copied_fill :
    let made := MacroTable.copyElement v d reference.element
    let filling := Slots.fill v made.1 made.2 fillers
    Copied (StemsOn stage.origin (d.size ≤ ·)) (stage.base.size + k) d filling.document made.2 ∧
      filling.document.isElement made.2 = true ∧ filling.fillers ⊆ fillers := by
  have hcopy := copied_copyElement (v := v) hkept hreference
  intro made filling
  have hfilled := Slots.filled_fillTo (v := v) made.1.size _ made.2
    (fillable_copyElement (v := v) hkept hreference hfillers)
  refine ⟨⟨?_, hcopy.new, ?_, hfilled.parent_eq.trans hcopy.parent_eq, hfilled.throughout⟩,
    hfilled.confined.elements _ (isElement_copyElement hkept hreference), hfilled.fillers_subset⟩
  · refine Confined.trans hcopy.grown (hfilled.confined.mono ?_)
    rintro n (hn | hn)
    · exact hcopy.grown.below_new hkept.linked hcopy.new hn
    · exact Nat.le_trans hcopy.grown.size_le hn
  · exact Nat.lt_of_lt_of_le hcopy.lt hfilled.confined.size_le

end

/-- Markup of the template gives good fillers. -/
theorem good_of_mem_collect {d : Document} {v : Vocabularies} {n : NodeId} {k : Nat}
    (hgood : Throughout (StemsOn stage.origin ok) d (k + 1) n) :
    ∀ entry ∈ Slots.collect v d n, d.isElement entry.2 = true ∧
      Throughout (StemsOn stage.origin ok) d k entry.2 := fun _ hentry =>
  ⟨Slots.isElement_of_mem_collect hentry, Slots.throughout_of_mem_collect hgood hentry⟩

section

variable {state : State} {fillers : Slots.Fillers} {reference : MacroRef} {chain : List String}
  {k : Nat}

/-- The next macro of a chain is copied and filled. -/
theorem underway_next (hsound : stage.Sound s) (hgrown : Extends s.document t.document)
    (hglobals : t.globals = s.globals) (hreference : stage.Known reference)
    (hfillers : ∀ entry ∈ fillers, t.document.isElement entry.2 = true ∧
      Throughout (StemsOn stage.origin ok) t.document k entry.2)
    (hchain : chain.length ≤ stage.settings.maxMacroDepth)
    (hk : stage.base.size + k ≤ chain.length * stage.base.size + f)
    {v : Vocabularies} :
    let made := MacroTable.copyElement v t.document reference.element
    let filling := Slots.fill v made.1 made.2 fillers
    Underway stage ok f s { current := made.2, fillers := filling.fillers, chain }
      { t with document := filling.document } := by
  have hkept := hsound.extended hgrown
  intro made filling
  obtain ⟨hcopy, helement, hsubset⟩ := copied_fill (v := v) hkept hreference hfillers
  refine ⟨hgrown.trans hcopy.grown, hglobals, Nat.le_trans hgrown.size_le hcopy.new, helement,
    hcopy.parent_eq, ?_, fun entry hentry => ?_, hchain⟩
  · refine (hcopy.throughout.mono hk).imp fun m _ hm => ⟨?_, hm.2⟩
    exact Nat.le_trans hgrown.size_le hm.1
  · obtain ⟨hfiller, hthroughout⟩ := hfillers entry (hsubset hentry)
    refine ⟨hcopy.grown.elements _ hfiller, ?_⟩
    have hlt := lt_size_of_isElement hfiller
    exact (hcopy.grown.throughout_old hkept.linked hlt hthroughout).mono
      (Nat.le_trans (Nat.le_add_left k _) hk)

end

/-- The first macro of an expansion, copied and filled. -/
def begin (settings : Settings) (ctx : Context) (used : MacroRef) : Rendering State := do
  let fillers := Slots.collect settings.vocabularies (← Rendering.document) ctx.node
  let copy ← Rendering.createIn (MacroTable.copyElement settings.vocabularies · used.element)
  fillCurrent settings { current := copy, fillers, chain := [used.name] }

theorem expand_eq (settings : Settings) (ctx : Context) (used : MacroRef) :
    expand settings ctx used = (do
      let state ← begin settings ctx used
      return (← extendTo settings ctx (settings.maxMacroDepth + 1) state).current) := by
  simp only [expand, begin, bind_assoc]

theorem ensures_begin (hsound : stage.Sound s) {used : MacroRef}
    (hused : stage.Known used) (hdepth : 1 ≤ stage.settings.maxMacroDepth)
    (hgood : Throughout (StemsOn stage.origin ok) s.document (f + 1) ctx.node) :
    Ensures (begin stage.settings ctx used) s
      (fun state t => Underway stage ok f s state t ∧ state.chain = [used.name]) (Fails s) := by
  unfold begin fillCurrent
  refine Ensures.bind (Rendering.ensures_document ?_)
  refine Ensures.bind (Rendering.ensures_createIn (Ensures.bind (Rendering.ensures_createIn
    (Ensures.pure ⟨?_, rfl⟩))))
  exact underway_next hsound (.refl hsound.kept.linked) rfl hused (k := f)
    (good_of_mem_collect hgood) (by simpa using hdepth) (by simp)

/-- The fillers for the next macro come from the current one or were there before. -/
theorem Underway.good_fillers {state : State} (h : Underway stage ok f s state t)
    (hfresh : ∀ n, s.document.size ≤ n → ok n) (v : Vocabularies) :
    ∀ entry ∈ Keyed.merge state.fillers (Slots.collect v t.document state.current),
      t.document.isElement entry.2 = true ∧ Throughout (StemsOn stage.origin ok) t.document
        (state.chain.length * stage.base.size + f) entry.2 := by
  intro entry hentry
  rcases Keyed.mem_merge hentry with hentry | hentry
  · exact h.fillers entry hentry
  · obtain ⟨c, hc, hbelow⟩ := Slots.exists_below_of_mem_collect hentry
    refine ⟨Slots.isElement_of_mem_collect hentry, ?_⟩
    exact (h.throughout.below (.of_child hc hbelow)).imp fun m _ hm => ⟨hfresh m hm.1, hm.2⟩

/-- The published macros are still there. -/
theorem Underway.sound {state : State} (h : Underway stage ok f s state t)
    (hsound : stage.Sound s) : stage.Sound t := by
  refine ⟨hsound.extended h.grown, ?_⟩
  rw [h.globals]
  exact hsound.globals

/-- Going on to the macro that the current one extends. -/
theorem ensures_advance {state : State} (hsound : stage.Sound s)
    (h : Underway stage ok f s state t) (hfresh : ∀ n, s.document.size ≤ n → ok n)
    {parent : MacroRef} (hparent : stage.Known parent) :
    Ensures (do fillCurrent stage.settings (← advance stage.settings state parent)) t
      (fun next u => Underway stage ok f s next u ∧
        next.chain.length = state.chain.length + 1) (Fails s) := by
  have hfails : ∀ (error : RenderError) made, ¬ error.IsTree → Extends t.document made →
      Fails s (.failed error) { t with document := made } := fun error made herror hgrown =>
    ⟨herror, h.globals, h.grown.trans hgrown⟩
  have hcopy := copied_copyElement (v := stage.settings.vocabularies) (h.sound hsound).kept hparent
  unfold advance fillCurrent
  refine Ensures.bind (Ensures.bind (Rendering.ensures_document ?_))
  refine Ensures.bind (Rendering.ensures_createIn ?_)
  dsimp only
  split
  · exact Rendering.ensures_fail (hfails _ _ id hcopy.grown)
  split
  · exact Rendering.ensures_fail (hfails _ _ id hcopy.grown)
  next hdepth =>
    refine Ensures.pure (Ensures.bind (Rendering.ensures_createIn (Ensures.pure ⟨?_, ?_⟩)))
    · refine underway_next hsound h.grown h.globals hparent
        (k := state.chain.length * stage.base.size + f) (h.good_fillers hfresh _)
        (Nat.le_of_not_lt hdepth) ?_
      rw [List.length_append, List.length_singleton, Nat.add_mul]
      omega
    · exact List.length_append

theorem Underway.cached {state : State} (h : Underway stage ok f s state t)
    (cache : ExpressionCache) : Underway stage ok f s state { t with cache } :=
  { h with }

/-- The chain of macros comes to an end before the steps do. -/
theorem ensures_extendTo {state : State} (hsound : stage.Sound s) (hadmits : stage.Admits ctx)
    (h : Underway stage ok f s state t) (hfresh : ∀ n, s.document.size ≤ n → ok n) {fuel : Nat}
    (hfuel : stage.settings.maxMacroDepth + 1 ≤ fuel + state.chain.length) :
    Ensures (extendTo stage.settings ctx fuel state) t (Underway stage ok f s) (Fails s) := by
  -- Every step makes the chain longer, and `chain_le` bounds its length.
  induction fuel generalizing state t with
  | zero => exact absurd h.chain_le (by omega)
  | succ fuel ih =>
      have hglobals := (h.sound hsound).globals
      unfold extendTo
      refine Ensures.bind (Rendering.ensures_document ?_)
      split
      · exact Ensures.pure h
      refine Ensures.bind (ensures_resolve hadmits hglobals _ _ _ (fun found cache hfound => ?_)
        fun error cache herror => ⟨herror, h.globals, h.grown⟩)
      cases found with
      | none => exact Ensures.pure (h.cached cache)
      | some parent =>
          have hnext := ensures_advance hsound (h.cached cache) hfresh (hfound parent rfl)
          dsimp only
          rw [← bind_assoc]
          refine Ensures.bind (hnext.mono (fun next u hu => ?_) fun _ _ => id)
          exact ih hu.1 (by omega)

/-- An expansion that is tried ends, with a new element or a failure. -/
theorem ensures_expand (hsound : stage.Sound s) (hadmits : stage.Admits ctx) {used : MacroRef}
    (hused : stage.Known used) (hdepth : 1 ≤ stage.settings.maxMacroDepth)
    (hgood : Throughout (StemsOn stage.origin ok) s.document (f + 1) ctx.node)
    (hfresh : ∀ n, s.document.size ≤ n → ok n) :
    Ensures (expand stage.settings ctx used) s
      (fun copy t => t.globals = s.globals ∧ t.document.isElement copy = true ∧
        Copied (StemsOn stage.origin (s.document.size ≤ ·))
          (stage.settings.maxMacroDepth * stage.base.size + f) s.document t.document copy)
      (Fails s) := by
  rw [expand_eq]
  refine Ensures.bind ((ensures_begin hsound hused hdepth hgood).mono ?_ fun _ _ => id)
  rintro state t ⟨hstate, hchain⟩
  refine Ensures.bind ((ensures_extendTo hsound hadmits hstate hfresh ?_).mono ?_ fun _ _ => id)
  · rw [hchain]
    exact Nat.le_add_right _ _
  · intro final u hfinal
    refine Ensures.pure ⟨hfinal.globals, hfinal.current_element, hfinal.grown, hfinal.current_new,
      hfinal.current_lt, hfinal.parent_eq, hfinal.throughout.mono ?_⟩
    exact Nat.add_le_add_right (Nat.mul_le_mul_right _ hfinal.chain_le) _

/-! ## The element goes on as its expansion -/

/-- Either the element is still what it was, or an expansion has taken its place. -/
def TakesPlace (s : RenderState) (ctx c : Context) (t : RenderState) : Prop :=
  c.node = ctx.node ∧ t.document.parent ctx.node = s.document.parent ctx.node ∨
    c.node ≠ ctx.node ∧ t.document.parent ctx.node = none

/-- What a context has become when its rendering begins. -/
structure Prepared (stage : Stage) (p : NodeId) (s : RenderState) (ctx : Context)
    (ok : NodeId → Prop) (level : Nat) (c : Context) (t : RenderState) : Prop where
  turn : stage.Turn (s.document.own ctx.node) p s t
  placed : stage.Placed (s.document.own ctx.node) p t.document c
  pending : stage.Pending ok level t.document c
  place : TakesPlace s ctx c t

theorem Prepared.of_eq {c : Context} {u : RenderState} (h : Prepared stage p s ctx ok level c t)
    (hdocument : u.document = t.document) (hglobals : u.globals = t.globals) :
    Prepared stage p s ctx ok level c u := by
  obtain ⟨⟨hwithin, hmacros⟩, hplaced, hpending, hplace⟩ := h
  rw [← hdocument] at hwithin hplaced hpending
  rw [← hglobals] at hmacros
  refine ⟨⟨hwithin, hmacros⟩, hplaced, hpending, ?_⟩
  unfold TakesPlace at hplace ⊢
  rwa [hdocument]

/-- Entering a macro takes from the reserve what the chain of macros may add. -/
theorem reserve_enterMacro (d : Document) (node : NodeId) (name : String)
    (hdepth : ctx.macroStack.length < stage.settings.maxMacroDepth) (f : Nat) :
    stage.settings.maxMacroDepth * stage.base.size + f +
      stage.reserve (ctx.enterMacro d node name) ≤ f + 1 + stage.reserve ctx := by
  have hstack : (ctx.enterMacro d node name).macroStack.length = ctx.macroStack.length + 1 :=
    List.length_append
  unfold reserve
  rw [hstack]
  obtain ⟨k, hk⟩ : ∃ k, stage.settings.maxMacroDepth - ctx.macroStack.length = k + 1 :=
    ⟨_, (Nat.succ_pred_eq_of_pos (by omega)).symm⟩
  have hk' : stage.settings.maxMacroDepth - (ctx.macroStack.length + 1) = k := by omega
  rw [hk, hk', Nat.succ_mul]
  omega

/-- The expansion takes the place of the element. -/
theorem ensures_replace {copy : NodeId} {name : String} (hstanding : stage.Standing p s ctx)
    (hglobals : t.globals = s.globals) (helement : t.document.isElement copy = true)
    (hcopy : Copied (StemsOn stage.origin ok) f s.document t.document copy)
    (hdepth : ctx.macroStack.length < stage.settings.maxMacroDepth)
    (hlevel : ∀ d, f + stage.reserve (ctx.enterMacro d copy name) ≤ level) :
    Ensures (do
      Rendering.edit (Document.replace ctx.node [copy])
      return ctx.enterMacro (← Rendering.document) copy name) t
      (Prepared stage p s ctx ok level) (stage.Fails (s.document.own ctx.node) p ctx s) := by
  have hregion := hstanding.region
  have hwithin := hregion.extends_within hcopy.grown
  have hregion' := hregion.within hwithin
  have hlt := hstanding.node_lt
  have hparent : t.document.parent ctx.node = some p := by
    rw [hcopy.grown.parent_eq (Nat.not_le_of_lt hlt)]
    exact hstanding.parent_eq
  have hne : copy ≠ ctx.node := Nat.ne_of_gt (Nat.lt_of_lt_of_le hlt hcopy.new)
  have hR : s.document.own ctx.node copy := .inr hcopy.new
  -- The copy is new, so it lies in the region of any element, and it is not the element itself.
  have hnodes : ∀ n ∈ [copy], s.document.own ctx.node n ∧ n < t.document.size ∧
      n ≠ ctx.node := by
    intro n hn
    obtain rfl := List.mem_singleton.mp hn
    exact ⟨hR, hcopy.lt, hne⟩
  have hreplaced := hregion'.replaced (own_self _ _) hparent hnodes
  refine Ensures.bind (Rendering.ensures_edit_ok hreplaced fun _ d h => ?_)
  refine Ensures.bind (Rendering.ensures_document (Ensures.pure ?_))
  have hgood := h.toGathered.throughout (fun hback => hregion'.not_above hback hR)
    hcopy.throughout
  refine ⟨⟨hwithin.trans h.toWithin, ?_⟩, ⟨⟨hstanding.admits.scope.sibling,
    hgood.self.2.attributes, ?_⟩, hR, ?_, h.elements _ helement⟩,
    ⟨rfl, rfl, f, hgood, hlevel d⟩, .inr ⟨hne, ?_⟩⟩
  · show t.globals.AllMacros _
    rw [hglobals]
    exact hstanding.globals
  · show (ctx.macroStack ++ [name]).length ≤ _
    rw [List.length_append, List.length_singleton]
    exact hdepth
  · show d.parent copy = some p
    rw [h.parents, if_neg hne, if_pos (List.mem_singleton_self _)]
  · show d.parent ctx.node = none
    rw [h.parents, if_pos rfl]

theorem ensures_handle (hsound : stage.Sound s) (hstanding : stage.Standing p s ctx)
    (hpending : stage.Pending ok level s.document ctx)
    (hfresh : ∀ n, s.document.size ≤ n → ok n) :
    Ensures (handle stage.settings ctx) s (Prepared stage p s ctx ok level)
      (stage.Fails (s.document.own ctx.node) p ctx s) := by
  have hsame : ∀ cache, Prepared stage p s ctx ok level ctx { s with cache } := fun cache =>
    ⟨hstanding.turn.cached cache, hstanding.placed, hpending, .inl ⟨rfl, rfl⟩⟩
  unfold handle
  refine Ensures.bind (Rendering.ensures_document ?_)
  split
  · exact Ensures.pure (hsame s.cache)
  refine Ensures.bind (ensures_resolve hstanding.admits hstanding.globals _ _ _
    (fun found cache hfound => ?_) hstanding.fails)
  cases found with
  | none => exact Ensures.pure (hsame cache)
  | some used =>
      dsimp only
      split
      · exact Rendering.ensures_fail (hstanding.fails _ cache id)
      next hdepth =>
        replace hdepth := Nat.lt_of_not_le hdepth
        obtain ⟨-, -, k, hgood, hlevel⟩ := hpending
        cases k with
        | zero => exact hgood.elim
        | succ f =>
            have hexpand := ensures_expand (hsound.cached cache)
              hstanding.admits (hfound used rfl) (Nat.one_le_of_lt hdepth) hgood hfresh
            refine Ensures.bind (hexpand.mono ?_ ?_)
            · rintro copy t ⟨hglobals, helement, hcopy⟩
              refine ensures_replace hstanding hglobals helement
                { hcopy with
                  throughout := hcopy.throughout.imp fun n _ hn => ⟨hfresh n hn.1, hn.2⟩ }
                hdepth fun d => ?_
              exact Nat.le_trans (reserve_enterMacro d copy used.name hdepth f) hlevel
            -- The copies that a failed expansion leaves behind are in no tree of the document.
            · rintro stop t ⟨hstop, hglobals, hgrown⟩
              refine ⟨hstop.arisesAt, ⟨hstanding.region.extends_within hgrown, ?_⟩,
                hgrown.parent_eq (Nat.not_le_of_lt hstanding.node_lt)⟩
              rw [hglobals]
              exact hstanding.globals

end Expansion

/-! ## Source comments -/

namespace SourceComment

/-- A comment beside an element leaves the element in its place and as it is. -/
theorem ensures_addComment {c : Context} {base : Option String} {tag : Tag}
    {insert : NodeId → NodeId → Edit Unit} (hstanding : stage.Standing p s ctx)
    (h : Expansion.Prepared stage p s ctx ok level c t)
    (hinsert : ∀ (d : Document) (new : NodeId), Region (s.document.own ctx.node) p d →
      d.parent c.node = some p → s.document.own ctx.node new → new < d.size → new ≠ c.node →
      Ensures (insert c.node new) d (fun _ => Brought (s.document.own ctx.node) p new d)
        fun _ _ => False) :
    Ensures (addComment base c.node tag insert) t
      (fun _ => Expansion.Prepared stage p s ctx ok level c) fun _ _ => False := by
  obtain ⟨hturn, hplaced, ⟨hrenders, hwritten, k, hgood, hlevel⟩, hplace⟩ := h
  have hregion := hstanding.region.within hturn.within
  have hlt := (hregion.linked.lt_of_parent hplaced.parent_eq).2
  unfold addComment
  refine Ensures.bind (Rendering.ensures_document ?_)
  refine Ensures.bind (Rendering.ensures_createIn ?_)
  generalize NodeKind.comment _ = kind
  have hgrown := extends_create hregion.linked kind
  have hwithin := hregion.extends_within hgrown
  have hregion' := hregion.within hwithin
  have hparent : (t.document.create kind).1.parent c.node = some p := by
    rw [hgrown.parent_eq (Nat.not_le_of_lt hlt), hplaced.parent_eq]
  have hnew : t.document.size < (t.document.create kind).1.size := by simp
  refine Rendering.ensures_edit_ok (hinsert _ _ hregion' hparent
    (hregion.fresh _ (Nat.le_refl _)) hnew (Nat.ne_of_gt hlt)) fun _ d hbrought => ?_
  refine ⟨hturn.change (hwithin.trans hbrought.toWithin), ⟨hplaced.admits, hplaced.mem, ?_,
    hbrought.elements _ (hgrown.elements _ hplaced.element)⟩, ⟨hrenders, ?_, k, ?_, hlevel⟩, ?_⟩
  · exact (hbrought.parents _).trans ((if_neg (Nat.ne_of_lt hlt)).trans hparent)
  · rw [hwritten, attributes_congr (hbrought.toGathered.kind_eq _),
      attributes_congr (hgrown.kind_eq (Nat.not_le_of_lt hlt))]
  · exact hbrought.toGathered.throughout (fun hback => hregion'.not_above hback hplaced.mem)
      (hgrown.throughout_old hregion.linked hlt hgood)
  · have hsize : ctx.node < t.document.size :=
      Nat.lt_of_lt_of_le hstanding.node_lt hturn.within.size_le
    have hsame : d.parent ctx.node = t.document.parent ctx.node :=
      (hbrought.parents _).trans ((if_neg (Nat.ne_of_lt hsize)).trans
        (hgrown.parent_eq (Nat.not_le_of_lt hsize)))
    exact hplace.imp (And.imp_right hsame.trans) (And.imp_right hsame.trans)

theorem ensures_annotate {c : Context} (hstanding : stage.Standing p s ctx)
    (h : Expansion.Prepared stage p s ctx ok level c t) (v : Vocabularies)
    (base : Option String) :
    Ensures (annotate v base c.node) t (fun _ => Expansion.Prepared stage p s ctx ok level c)
      fun _ _ => False := by
  have hbefore : ∀ tag u, Expansion.Prepared stage p s ctx ok level c u →
      Ensures (addComment base c.node tag insertBefore) u
        (fun _ => Expansion.Prepared stage p s ctx ok level c) (fun _ _ => False) := fun tag u hu =>
    ensures_addComment hstanding hu fun d new hregion hparent hR hlt hne =>
      (hregion.brought_beside hparent hR hlt hne).1
  have hafter : ∀ tag u, Expansion.Prepared stage p s ctx ok level c u →
      Ensures (addComment base c.node tag insertAfter) u
        (fun _ => Expansion.Prepared stage p s ctx ok level c) (fun _ _ => False) := fun tag u hu =>
    ensures_addComment hstanding hu fun d new hregion hparent hR hlt hne =>
      (hregion.brought_beside hparent hR hlt hne).2
  unfold annotate
  refine Ensures.bind (Rendering.ensures_document ?_)
  split
  · dsimp only
    split
    · exact hbefore _ _ h
    split
    · exact Ensures.bind ((hbefore _ _ h).mono (fun _ u hu => hafter _ u hu) fun _ _ => id)
    split
    · exact hbefore _ _ h
    split
    · exact hafter _ _ h
    · exact Ensures.pure h
  · exact Ensures.pure h

end SourceComment

/-- What happens to the context is up to the visitors of the settings, source comments apart. -/
theorem Walk.mem_visitors {settings : Settings} {visitor : Visitor}
    (h : visitor ∈ visitors settings) :
    visitor = SourceComment.visitor settings.vocabularies settings.commentRoot ∨
      visitor ∈ settings.visitors := by
  unfold visitors at h
  split at h
  · exact List.mem_cons.mp h
  · exact .inr h

/-- A visitor fails at an element, after the macro that the element uses was expanded. -/
structure Stage.Rejects (stage : Stage) (p : NodeId) (ctx : Context) (s : RenderState)
    (stop : Stop) (t : RenderState) : Prop where
  objects : stage.Objects stop
  turn : stage.Turn (s.document.own ctx.node) p s t
  expanded : ∃ c u, outcome (Expansion.handle stage.settings ctx) s = (.ok c, u) ∧
    Expansion.TakesPlace s ctx c t

/-- When the rendering of an element begins, the element may become the expansion of a macro;
whatever it is then is good markup of the template and takes no more levels. -/
theorem Walk.ensures_prepare (hsound : stage.Sound s) (hstanding : stage.Standing p s ctx)
    (hpending : stage.Pending ok level s.document ctx)
    (hfresh : ∀ n, s.document.size ≤ n → ok n) :
    Ensures (prepare stage.settings ctx) s
      (fun c t => Expansion.Prepared stage p s ctx ok level c t ∧
        ∃ u, outcome (Expansion.handle stage.settings ctx) s = (.ok c, u))
      (fun stop t => (outcome (Expansion.handle stage.settings ctx) s).1 = .error stop ∧
        stage.Fails (s.document.own ctx.node) p ctx s stop t ∨ stage.Rejects p ctx s stop t) := by
  have hexpansion := Expansion.ensures_handle hsound hstanding hpending hfresh
  unfold prepare
  rcases houtcome : outcome (Expansion.handle stage.settings ctx) s with ⟨stop | c, u⟩
  · refine .of_eq (.error stop, u) ?_ (.inl ⟨rfl, hexpansion.bad_of_outcome houtcome⟩)
    rw [outcome_bind, houtcome]
  refine Ensures.bind (.of_eq (.ok c, u) houtcome ?_)
  have hprepared := hexpansion.ok_of_outcome houtcome
  refine (Ensures.foldlM (fun rest c' t => (∀ visitor ∈ rest, visitor ∈ visitors stage.settings) ∧
    c' = c ∧ Expansion.Prepared stage p s ctx ok level c t) ⟨fun _ => id, rfl, hprepared⟩ ?_).mono
      (fun c' t h => ?_) fun _ _ => id
  · rintro visitor rest c' t ⟨hvisitors, rfl, h⟩
    obtain ⟨hvisitor, hrest⟩ := List.forall_mem_cons.mp hvisitors
    rcases mem_visitors hvisitor with rfl | hvisitor
    · refine Ensures.bind ((SourceComment.ensures_annotate hstanding h _ _).mono ?_
        fun _ _ => False.elim)
      exact fun _ t' h' => Ensures.pure ⟨hrest, rfl, h'⟩
    · refine (stage.tame visitor hvisitor c' t).mono ?_ ?_
      · rintro _ t' ⟨rfl, hdocument, hglobals⟩
        exact ⟨hrest, rfl, h.of_eq hdocument hglobals⟩
      · rintro stop t' ⟨hstop, hdocument, hglobals⟩
        have h' := h.of_eq hdocument hglobals
        exact .inr ⟨⟨List.ne_nil_of_mem hvisitor, hstop⟩, h'.turn, c', u, houtcome, h'.place⟩
  · obtain ⟨-, rfl, h⟩ := h
    exact ⟨h, u, rfl⟩

/-- However the beginning of an element's rendering ends, the expansion of the macro that the
element uses has taken the place of the element. -/
theorem Walk.takesPlace_prepare {c : Context} (hsound : stage.Sound s)
    (hstanding : stage.Standing p s ctx) (hpending : stage.Pending ok level s.document ctx)
    (hfresh : ∀ n, s.document.size ≤ n → ok n)
    (hexpanded : outcome (Expansion.handle stage.settings ctx) s = (.ok c, u)) :
    Expansion.TakesPlace s ctx c (outcome (prepare stage.settings ctx) s).2 := by
  have hprepare := ensures_prepare hsound hstanding hpending hfresh
  rcases houtcome : outcome (prepare stage.settings ctx) s with ⟨stop | c', t⟩
  · rcases hprepare.bad_of_outcome houtcome with ⟨hfailed, -⟩ | hrejects
    · rw [hexpanded] at hfailed
      cases hfailed
    · obtain ⟨c', t', hexpanded', hplace⟩ := hrejects.expanded
      cases hexpanded.symm.trans hexpanded'
      exact hplace
  · obtain ⟨hprepared, t', hexpanded'⟩ := hprepare.ok_of_outcome houtcome
    cases hexpanded.symm.trans hexpanded'
    exact hprepared.place

end PageTemplate
