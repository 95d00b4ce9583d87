import PageTemplate.Proofs.Render.CheckedEdits
import PageTemplate.Proofs.Render.Expanding

/-! # Expansions with their failures

An expansion copies macros and fills their slots. Macros of the walk are elements, and so are the
fillers; slots stand in the copy of a macro. So the copies and fillings whose failures are raised
do what those do that keep silent.
-/

namespace PageTemplate

open Markup Document

namespace Checked

section

variable (settings : Settings)

/-- Fills the slots of the current macro. -/
def fillCurrent (state : Expansion.State) : Rendering Expansion.State := do
  let fillers ← Rendering.edit (fill settings.vocabularies state.current state.fillers)
  return { state with fillers }

/-- Goes on to the macro that the current one extends. -/
def advance (state : Expansion.State) (parent : MacroRef) : Rendering Expansion.State := do
  let d ← Rendering.document
  let fillers := Keyed.merge state.fillers (Slots.collect settings.vocabularies d state.current)
  let copy ← Rendering.edit (copyElement settings.vocabularies parent.element)
  let chain := state.chain ++ [parent.name]
  if state.chain.contains parent.name then
    Rendering.fail (.macroChain chain "extends itself")
  else if settings.maxMacroDepth < chain.length then
    Rendering.fail (.macroChain chain s!"is deeper than the limit of {settings.maxMacroDepth}")
  else return { current := copy, fillers, chain }

variable (ctx : Context)

/-- Follows the macros that extend one another, at most `fuel` of them. -/
def extendTo : Nat → Expansion.State → Rendering Expansion.State
  | 0, _ => throw .exhausted
  | fuel + 1, state => do
    let spec := settings.vocabularies.extendMacro
    match (← Rendering.document).findAttribute? state.current spec with
    | none => return state
    | some attr =>
      match ← Expansion.resolve settings ctx state.current spec attr.value with
      | none => return state
      | some parent => do
        extendTo fuel (← fillCurrent settings (← advance settings state parent))

/-- The first macro of an expansion, copied and filled. -/
def begin (used : MacroRef) : Rendering Expansion.State := do
  let fillers := Slots.collect settings.vocabularies (← Rendering.document) ctx.node
  let copy ← Rendering.edit (copyElement settings.vocabularies used.element)
  fillCurrent settings { current := copy, fillers, chain := [used.name] }

/-- Expands a macro for the element. -/
def expand (used : MacroRef) : Rendering NodeId := do
  let state ← begin settings ctx used
  return (← extendTo settings ctx (settings.maxMacroDepth + 1) state).current

/-- Replaces an element that uses a macro by the expansion. -/
def handle : Rendering Context := do
  let spec := settings.vocabularies.useMacro
  match ctx.directive? (← Rendering.document) spec with
  | none => return ctx
  | some expression =>
    match ← Expansion.resolve settings ctx ctx.node spec expression with
    | none => return ctx
    | some used =>
      if settings.maxMacroDepth ≤ ctx.macroStack.length then
        Rendering.fail (.macroChain (ctx.macroStack ++ [used.name])
          s!"nests use-macro deeper than the limit of {settings.maxMacroDepth}")
      else do
        let expanded ← expand settings ctx used
        Rendering.edit (Document.replace ctx.node [expanded])
        return ctx.enterMacro (← Rendering.document) expanded used.name

/-- Expands a macro and runs the visitors. -/
def prepare : Rendering Context := do
  let ctx ← handle settings ctx
  (Walk.visitors settings).foldlM (fun ctx visitor => visitor.visit ctx) ctx

end

section

variable {stage : Stage} {s t : RenderState} {ctx : Context} {ok : NodeId → Prop} {f k : Nat}
  {state : Expansion.State} {used parent : MacroRef}

theorem outcome_copyKnown (hsound : stage.Sound t) (hused : stage.Known used) :
    outcome (Rendering.edit (copyElement stage.settings.vocabularies used.element)) t =
      outcome (Rendering.createIn
        (MacroTable.copyElement stage.settings.vocabularies · used.element)) t :=
  Rendering.outcome_edit_eq_createIn
    (outcome_copyElement _ (hsound.kept.elements _ hused.2))

/-- A copied macro can be filled without a failure. -/
structure Awaits (stage : Stage) (k : Nat) (state : Expansion.State) (t : RenderState) : Prop where
  fillable : ∃ bound, Slots.Fillable stage.origin bound stage.base.size k state.current
    { document := t.document, fillers := state.fillers }
  fillers : ∀ entry ∈ state.fillers, t.document.isElement entry.2 = true

theorem outcome_fillCurrent (h : Awaits stage k state t) :
    outcome (fillCurrent stage.settings state) t =
      outcome (Expansion.fillCurrent stage.settings state) t := by
  obtain ⟨bound, hfillable⟩ := h.fillable
  unfold fillCurrent Expansion.fillCurrent
  refine outcome_bind_congr (Rendering.outcome_edit_eq_createIn ?_) fun _ _ _ => rfl
  unfold fill
  rw [outcome_bind_ok (outcome_get _)]
  exact outcome_fillTo _ _ _ _ hfillable h.fillers

/-- The copy of a macro with good fillers. -/
theorem awaits_copy (hsound : stage.Sound t) (hused : stage.Known used) {fillers : Slots.Fillers}
    (hfillers : ∀ entry ∈ fillers, t.document.isElement entry.2 = true ∧
      Throughout (StemsOn stage.origin ok) t.document k entry.2) (chain : List String)
    {v : Vocabularies} :
    let made := MacroTable.copyElement v t.document used.element
    Awaits stage k { current := made.2, fillers, chain } { t with document := made.1 } := by
  have hcopy := Expansion.copied_copyElement (v := v) hsound.kept hused
  exact ⟨⟨_, Expansion.fillable_copyElement hsound.kept hused hfillers⟩, fun entry hentry =>
    hcopy.grown.elements _ (hfillers entry hentry).1⟩

theorem outcome_begin (hsound : stage.Sound s) (hused : stage.Known used)
    (hgood : Throughout (StemsOn stage.origin ok) s.document (f + 1) ctx.node) :
    outcome (begin stage.settings ctx used) s =
      outcome (Expansion.begin stage.settings ctx used) s := by
  unfold begin Expansion.begin
  refine Rendering.outcome_document_congr
    (outcome_bind_congr (outcome_copyKnown hsound hused) fun copy t hcopy => ?_)
  rw [Rendering.outcome_createIn] at hcopy
  obtain ⟨⟨⟩, rfl⟩ := Prod.mk.inj hcopy
  exact outcome_fillCurrent
    (awaits_copy hsound hused (Expansion.good_of_mem_collect hgood) [used.name])

theorem ensures_advance_awaits (hsound : stage.Sound s)
    (h : Expansion.Underway stage ok f s state t) (hfresh : ∀ n, s.document.size ≤ n → ok n)
    (hparent : stage.Known parent) :
    Ensures (Expansion.advance stage.settings state parent) t
      (fun next u => ∃ k, Awaits stage k next u) (fun _ _ => True) := by
  unfold Expansion.advance
  refine Ensures.bind (Rendering.ensures_document (Ensures.bind (Rendering.ensures_createIn ?_)))
  dsimp only
  split
  · exact Rendering.ensures_fail trivial
  split
  · exact Rendering.ensures_fail trivial
  · exact Ensures.pure ⟨_, awaits_copy (h.sound hsound) hparent (h.good_fillers hfresh _) _⟩

theorem outcome_advance (hsound : stage.Sound t) (hparent : stage.Known parent) :
    outcome (advance stage.settings state parent) t =
      outcome (Expansion.advance stage.settings state parent) t := by
  unfold advance Expansion.advance
  exact Rendering.outcome_document_congr
    (outcome_bind_congr (outcome_copyKnown hsound hparent) fun _ _ _ => rfl)

theorem outcome_extendTo (hsound : stage.Sound s) (hadmits : stage.Admits ctx)
    (h : Expansion.Underway stage ok f s state t) (hfresh : ∀ n, s.document.size ≤ n → ok n)
    (fuel : Nat) :
    outcome (extendTo stage.settings ctx fuel state) t =
      outcome (Expansion.extendTo stage.settings ctx fuel state) t := by
  induction fuel generalizing state t with
  | zero => rfl
  | succ fuel ih =>
      have hglobals := (h.sound hsound).globals
      unfold extendTo Expansion.extendTo
      refine Rendering.outcome_document_congr ?_
      cases t.document.findAttribute? state.current stage.settings.vocabularies.extendMacro with
      | none => rfl
      | some attr =>
          refine outcome_bind_congr rfl fun found u hfound => ?_
          obtain ⟨⟨cache, rfl⟩, hknown⟩ := (Expansion.ensures_resolve_known hadmits hglobals
            state.current stage.settings.vocabularies.extendMacro attr.value).ok_of_outcome hfound
          have hu := h.cached cache
          cases found with
          | none => rfl
          | some parent =>
              replace hknown := hknown parent rfl
              refine outcome_bind_congr (outcome_advance (hu.sound hsound) hknown)
                fun next u' hnext => ?_
              obtain ⟨k, hawaits⟩ :=
                (ensures_advance_awaits hsound hu hfresh hknown).ok_of_outcome hnext
              refine outcome_bind_congr (outcome_fillCurrent hawaits) fun filled w hfilled => ?_
              refine ih (((Expansion.ensures_advance hsound hu hfresh hknown).ok_of_outcome ?_).1)
              rw [outcome_bind_ok hnext, hfilled]

theorem outcome_expand (hsound : stage.Sound s) (hadmits : stage.Admits ctx)
    (hused : stage.Known used) (hdepth : 1 ≤ stage.settings.maxMacroDepth)
    (hgood : Throughout (StemsOn stage.origin ok) s.document (f + 1) ctx.node)
    (hfresh : ∀ n, s.document.size ≤ n → ok n) :
    outcome (expand stage.settings ctx used) s =
      outcome (Expansion.expand stage.settings ctx used) s := by
  rw [Expansion.expand_eq]
  unfold expand
  refine outcome_bind_congr (outcome_begin hsound hused hgood) fun state t hstate => ?_
  have hunder := ((Expansion.ensures_begin hsound hused hdepth hgood).ok_of_outcome hstate).1
  exact outcome_bind_congr (outcome_extendTo hsound hadmits hunder hfresh _) fun _ _ _ => rfl

theorem outcome_handle (hsound : stage.Sound s) (hadmits : stage.Admits ctx)
    (hgood : Throughout (StemsOn stage.origin fun _ => True) s.document (f + 1) ctx.node) :
    outcome (handle stage.settings ctx) s =
      outcome (Expansion.handle stage.settings ctx) s := by
  unfold handle Expansion.handle
  refine Rendering.outcome_document_congr ?_
  cases ctx.directive? s.document stage.settings.vocabularies.useMacro with
  | none => rfl
  | some expression =>
      refine outcome_bind_congr rfl fun found t hfound => ?_
      obtain ⟨⟨cache, rfl⟩, hknown⟩ := (Expansion.ensures_resolve_known hadmits hsound.globals
        ctx.node stage.settings.vocabularies.useMacro expression).ok_of_outcome hfound
      cases found with
      | none => rfl
      | some used =>
          dsimp only
          split
          · rfl
          next hdepth =>
            have hexpand := outcome_expand (hsound.cached cache) hadmits (hknown used rfl)
              (by omega) hgood fun _ _ => trivial
            exact outcome_bind_congr hexpand fun _ _ _ => rfl

/-- The preparation of an element whose rendering begins meets no failure that it is silent about.
-/
theorem outcome_prepare (hsound : stage.Sound s) (hadmits : stage.Admits ctx)
    (hgood : Throughout (StemsOn stage.origin fun _ => True) s.document (f + 1) ctx.node) :
    outcome (prepare stage.settings ctx) s = outcome (Walk.prepare stage.settings ctx) s :=
  outcome_bind_congr (outcome_handle hsound hadmits hgood) fun _ _ _ => rfl

end

end Checked

end PageTemplate
