import PageTemplate.Proofs.Render.Expanding
import PageTemplate.Proofs.Walk.Agreement
import PageTemplate.Markup.Writer
import PageTemplate.Render.Renderer

/-! # Using a plain macro

A macro is plain when it extends no other macro and has no slots. An element that uses a plain macro
is rendered as a copy of the macro would be that stands in its place, except for one thing: the copy
is not asked which macro it uses itself. So the two renderings agree when the copy uses none, and
need not agree when it does.
-/

namespace PageTemplate

open Markup Document

variable {settings : Settings} {ctx : Context} {s : RenderState} {used : MacroRef} {p : NodeId}

theorem Markup.Document.hasAttribute_eq_false_of_forall {d : Document} {spec : AttributeSpec}
    (h : ∀ n < d.size, d.hasAttribute n spec = false) (n : NodeId) :
    d.hasAttribute n spec = false := by
  by_cases hn : n < d.size
  · exact h n hn
  · have hkind : d.kind n = .root := by
      unfold Document.kind
      rw [node_of_size_le d (Nat.le_of_not_lt hn)]
    simp [hasAttribute, findAttribute?, Document.attributes, element?, hkind, NodeKind.element?]

/-! ## The copy of a plain macro -/

/-- An element with its subtree extends no macro and has no slots. -/
structure Plain (v : Vocabularies) (d : Document) (n : NodeId) : Prop where
  extendMacro : d.hasAttribute n v.extendMacro = false
  defineSlot : ∀ m, d.Below n m → d.hasAttribute m v.defineSlot = false

namespace Slots

variable {v : Vocabularies} {d : Document} {n : NodeId}

/-- Where there are no slots, nothing is filled. -/
theorem fillTo_eq_self (fuel : Nat) (filling : Filling)
    (hslots : ∀ m, filling.document.Below n m →
      filling.document.hasAttribute m v.defineSlot = false) :
    fillTo v fuel filling n = filling := by
  induction fuel generalizing n with
  | zero => rfl
  | succ fuel ih =>
      have hchild : ∀ c ∈ filling.document.childElements n,
          fillChild v (fillTo v fuel) filling c = filling := by
        intro c hc
        replace hc := (List.mem_filter.mp hc).1
        have hname : slotName? v filling.document c = none := by
          have hnone := hslots c (.child .refl hc)
          unfold hasAttribute at hnone
          unfold slotName?
          rw [Option.map_eq_none_iff]
          simpa using hnone
        unfold fillChild
        rw [hname]
        exact ih fun m hm => hslots m (.of_child hc hm)
      exact List.foldlRecOn (motive := (· = filling)) _ _ rfl fun _ hsame c hc =>
        hsame ▸ hchild c hc

end Slots

namespace Expansion

/-- The element uses no macro, or its use is cancelled. -/
def UsesNone (settings : Settings) (ctx : Context) (s : RenderState) : Prop :=
  ∀ expression, ctx.directive? s.document settings.vocabularies.useMacro = some expression →
    (outcome (resolve settings ctx ctx.node settings.vocabularies.useMacro expression) s).1 =
      .ok none

theorem UsesNone.of_directive?
    (h : ctx.directive? s.document settings.vocabularies.useMacro = none) :
    UsesNone settings ctx s := by
  intro expression hexpression
  rw [h] at hexpression
  cases hexpression

/-- Nothing happens to an element that uses no macro. -/
theorem UsesNone.outcome_handle (h : UsesNone settings ctx s) (hcache : s.cache.IsFaithful) :
    ∃ cache : ExpressionCache, cache.IsFaithful ∧
      outcome (handle settings ctx) s = (.ok ctx, { s with cache }) := by
  unfold handle
  rw [outcome_bind, Rendering.outcome_document]
  dsimp only
  cases hdirective : ctx.directive? s.document settings.vocabularies.useMacro with
  | none => exact ⟨s.cache, hcache, rfl⟩
  | some expression =>
      refine ⟨(s.cache.get expression).2, (hcache.get expression).2, ?_⟩
      have hresolve : outcome (resolve settings ctx ctx.node settings.vocabularies.useMacro
          expression) s = (.ok none, { s with cache := (s.cache.get expression).2 }) :=
        Prod.ext (h expression hdirective) (outcome_resolve hcache _ _ _)
      dsimp only
      rw [outcome_bind, hresolve]
      rfl

/-- The document in which a copy of the macro stands in the place of the element, and the copy. -/
def inlined (v : Vocabularies) (d : Document) (node element : NodeId) : Document × NodeId :=
  let (d, copy) := MacroTable.copyElement v d element
  ((outcome (Document.replace node [copy]) d).2, copy)

/-- An element of the tree uses a plain macro. -/
structure UsesPlain (settings : Settings) (ctx : Context) (s : RenderState) (used : MacroRef) :
    Prop where
  linked : s.document.WellLinked
  attached : s.document.isAttached ctx.node = true
  ne_root : ctx.node ≠ root
  cache : s.cache.IsFaithful
  resolved : ∃ expression,
    ctx.directive? s.document settings.vocabularies.useMacro = some expression ∧
    (outcome (resolve settings ctx ctx.node settings.vocabularies.useMacro expression) s).1 =
      .ok (some used)
  plain : Plain settings.vocabularies
    (MacroTable.copyElement settings.vocabularies s.document used.element).1
    (MacroTable.copyElement settings.vocabularies s.document used.element).2

namespace UsesPlain

variable {d made : Document} {copy : NodeId} (h : UsesPlain settings ctx s used)

include h

/-- The expansion of a plain macro is the copy. -/
theorem ensures_expand
    (hcopy : MacroTable.copyElement settings.vocabularies s.document used.element = (made, copy))
    {t : RenderState} (hdocument : t.document = s.document) :
    Ensures (expand settings ctx used) t
      (fun expanded t' => expanded = copy ∧ t' = { t with document := made }) fun _ _ => False := by
  have hplain := h.plain
  rw [hcopy] at hplain
  have hextends : made.findAttribute? copy settings.vocabularies.extendMacro = none := by
    simpa [hasAttribute] using hplain.extendMacro
  unfold expand
  refine Ensures.bind (Rendering.ensures_document (Ensures.bind (Rendering.ensures_createIn ?_)))
  rw [hdocument, hcopy]
  unfold fillCurrent
  refine Ensures.bind (Ensures.bind (Rendering.ensures_createIn (Ensures.pure ?_)))
  dsimp only
  unfold Slots.fill
  rw [Slots.fillTo_eq_self made.size { document := made, fillers := _ } hplain.defineSlot]
  unfold extendTo
  refine Ensures.bind (Ensures.bind (Rendering.ensures_document ?_))
  dsimp only
  rw [hextends]
  exact Ensures.pure (Ensures.pure ⟨rfl, rfl⟩)

/-- The copy takes the place of the element. -/
theorem ensures_replace
    (hcopy : MacroTable.copyElement settings.vocabularies s.document used.element = (made, copy)) :
    Ensures (Document.replace ctx.node [copy]) made
      (fun _ d => inlined settings.vocabularies s.document ctx.node used.element = (d, copy))
      fun _ _ => False := by
  have hbelow : s.document.Below root ctx.node :=
    below_of_mem_lineage h.linked (List.contains_iff_mem.mp h.attached)
  obtain ⟨p, hparent⟩ : ∃ p, s.document.parent ctx.node = some p := by
    rcases h.linked.below_cases hbelow with heq | ⟨p, hparent, -⟩
    · exact absurd heq h.ne_root
    · exact ⟨p, hparent⟩
  have hp := h.linked.below_parent h.linked.parent_root hbelow hparent
  have hregion := region_own h.linked ⟨root, h.linked.parent_root, hp⟩ hparent
  have hlt := (h.linked.lt_of_parent hparent).2
  have hcopied :=
    MacroTable.copied_copyElement_any settings.vocabularies h.linked used.element
  rw [hcopy] at hcopied
  have hparent' : made.parent ctx.node = some p := by
    rw [hcopied.grown.parent_eq (Nat.not_le_of_lt hlt)]
    exact hparent
  have hnodes : ∀ n ∈ [copy], s.document.own ctx.node n ∧ n < made.size ∧ n ≠ ctx.node := by
    intro n hn
    obtain rfl := List.mem_singleton.mp hn
    exact ⟨.inr hcopied.new, hcopied.lt, Nat.ne_of_gt (Nat.lt_of_lt_of_le hlt hcopied.new)⟩
  -- The element has a parent, so putting the copy in its place cannot fail.
  obtain ⟨_, d, houtcome, -⟩ := ((hregion.within (hregion.extends_within hcopied.grown)).replaced
    (own_self _ _) hparent' hnodes).exists_ok
  refine .of_eq _ houtcome ?_
  unfold inlined
  rw [hcopy]
  dsimp only
  rw [houtcome]

/-- The copy is put in the place of the element, unless the element runs into the limit. -/
theorem ensures_handle
    (hinlined : inlined settings.vocabularies s.document ctx.node used.element = (d, copy)) :
    Ensures (handle settings ctx) s
      (fun next t => next = ctx.enterMacro d copy used.name ∧
        t.Alike { s with document := d })
      fun stop _ => stop.AtLimit settings := by
  obtain ⟨expression, hdirective, hresolved⟩ := h.resolved
  have hresolve :
      outcome (resolve settings ctx ctx.node settings.vocabularies.useMacro expression) s =
      (.ok (some used), { s with cache := (s.cache.get expression).2 }) :=
    Prod.ext hresolved (outcome_resolve h.cache _ _ _)
  rcases hcopy : MacroTable.copyElement settings.vocabularies s.document used.element with
    ⟨made, copy'⟩
  unfold handle
  refine Ensures.bind (Rendering.ensures_document ?_)
  rw [hdirective]
  refine Ensures.bind (.of_eq _ hresolve ?_)
  dsimp only
  split
  · exact Rendering.ensures_fail ⟨_, rfl⟩
  have hexpanded := h.ensures_expand (t := { s with cache := (s.cache.get expression).2 }) hcopy rfl
  refine Ensures.bind (hexpanded.mono ?_ fun _ _ => False.elim)
  rintro _ _ ⟨rfl, rfl⟩
  refine Ensures.bind (Rendering.ensures_edit_ok (h.ensures_replace hcopy) fun _ d' heq => ?_)
  obtain ⟨rfl, rfl⟩ := Prod.mk.inj (heq.symm.trans hinlined)
  refine Ensures.bind (Rendering.ensures_document (Ensures.pure ⟨rfl, ?_⟩))
  exact ⟨rfl, rfl, rfl, (h.cache.get expression).2, h.cache⟩

end UsesPlain

end Expansion

namespace Walk

variable {d : Document} {copy : NodeId}

theorem outcome_guarded_ok {α : Type} {step : Rendering α} {a : α} {t : RenderState}
    (h : outcome step s = (.ok a, t)) :
    outcome (guarded settings ctx step) s = (.ok (some a), t) := by
  unfold guarded Rendering.guarded
  rw [outcome_tryCatch, outcome_map, h]

/-- Without visitors nothing happens to an element before its directives but the expansion of a
macro. -/
theorem prepare_eq (hvisitors : settings.visitors = [])
    (hcomments : settings.sourceComments = false) (ctx : Context) :
    prepare settings ctx = Expansion.handle settings ctx := by
  unfold prepare visitors
  rw [hvisitors, hcomments]
  exact bind_pure _

/-- An element that uses a plain macro is rendered as a copy of the macro in its place is, unless
the macro uses another one itself. -/
theorem agrees_render_inlined (hvisitors : settings.visitors = [])
    (hcomments : settings.sourceComments = false) (h : Expansion.UsesPlain settings ctx s used)
    (hinlined :
      Expansion.inlined settings.vocabularies s.document ctx.node used.element = (d, copy))
    (hnone : Expansion.UsesNone settings (ctx.sibling d copy) { s with document := d })
    (fuel : Nat) :
    Agrees settings True Eq (outcome (render settings (fuel + 1) ctx) s)
      (outcome (render settings (fuel + 1) (ctx.sibling d copy)) { s with document := d }) := by
  obtain ⟨cache, hcache, hkept⟩ := hnone.outcome_handle h.cache
  refine agrees_of_prepared ?_ fun c c' hc => agree_render hvisitors fuel hc
  rw [prepare_eq hvisitors hcomments, prepare_eq hvisitors hcomments]
  rcases houtcome : outcome (Expansion.handle settings ctx) s with ⟨stop | next, t⟩
  · have hlimit := (h.ensures_handle hinlined).bad_of_outcome houtcome
    rw [outcome_guarded_atLimit hlimit houtcome]
    exact .limit_left trivial hlimit
  · obtain ⟨rfl, hstates⟩ := (h.ensures_handle hinlined).ok_of_outcome houtcome
    rw [outcome_guarded_ok houtcome, outcome_guarded_ok hkept]
    exact .ok (.some ⟨ctx.macroStack, rfl, .inr trivial⟩) { hstates with cache_right := hcache }

section Examples

/-- A page with two macros, the second of which has further attributes, and an element that uses the
second one. -/
def usingPage (further : List Attribute) : Document where
  nodes := #[
    { kind := .root, children := [1] },
    { kind := .element (.named "r"), parent := some 0, children := [2, 4, 6] },
    { kind := .element {
        name := .parse "i", attributes := [⟨.parse "metal:define-macro", "inner"⟩] },
      parent := some 1, children := [3] },
    { kind := .text "in", parent := some 2 },
    { kind := .element {
        name := .parse "div", attributes := ⟨.parse "metal:define-macro", "m"⟩ :: further },
      parent := some 1, children := [5] },
    { kind := .text "out", parent := some 4 },
    { kind := .element {
        name := .parse "u", attributes := [⟨.parse "metal:use-macro", "macros/m"⟩] },
      parent := some 1 }]

/-- The state in which the page is walked through. -/
def usingState (further : List Attribute) : RenderState :=
  (outcome (Renderer.publishMacros {} []) (Renderer.start (usingPage further) (.map []) {})).2

/-- The element that uses the second macro. -/
def usingSite (further : List Attribute) : Context := .ofNode (usingState further).document 6 {}

/-- The second macro with a content. -/
def showing : List Attribute := [⟨.parse "tal:content", "string:shown"⟩]

/-- The second macro with a use of the first one. -/
def nesting : List Attribute := [⟨.parse "metal:use-macro", "macros/inner"⟩]

theorem usesPlain_usingSite {further : List Attribute} (h : further ∈ [showing, nesting]) :
    Expansion.UsesPlain {} (usingSite further) (usingState further) ⟨"m", 9⟩ := by
  have hbounded : further = showing ∨ further = nesting := by simpa using h
  refine ⟨?_, ?_, ?_, ?_, ⟨"macros/m", ?_, eq_ok_of_toOption ?_⟩, ?_, fun n _ => ?_⟩
  · rcases hbounded with rfl | rfl <;> decide +kernel
  · rcases hbounded with rfl | rfl <;> decide +kernel
  · rcases hbounded with rfl | rfl <;> decide +kernel
  · rcases hbounded with rfl | rfl <;> exact ExpressionCache.isFaithful_empty
  · rcases hbounded with rfl | rfl <;> decide +kernel
  · rcases hbounded with rfl | rfl <;> decide +kernel
  · rcases hbounded with rfl | rfl <;> decide +kernel
  · refine hasAttribute_eq_false_of_forall ?_ n
    rcases hbounded with rfl | rfl <;> decide +kernel

/-- The macro that uses none itself is rendered as its copy in place is. -/
theorem agrees_render_inlined_showing :
    let s := usingState showing
    let ctx := usingSite showing
    let inlined := Expansion.inlined {} s.document ctx.node 9
    Expansion.UsesPlain {} ctx s ⟨"m", 9⟩ ∧
      Expansion.UsesNone {} (ctx.sibling inlined.1 inlined.2) { s with document := inlined.1 } ∧
      Agrees {} True Eq (outcome (render {} 5 ctx) s)
        (outcome (render {} 5 (ctx.sibling inlined.1 inlined.2))
          { s with document := inlined.1 }) := by
  intro s ctx inlined
  have hplain : Expansion.UsesPlain {} ctx s ⟨"m", 9⟩ := usesPlain_usingSite (by simp)
  have hnone : Expansion.UsesNone {} (ctx.sibling inlined.1 inlined.2)
      { s with document := inlined.1 } := .of_directive? (by decide +kernel)
  have hinlined : Expansion.inlined {} s.document ctx.node 9 = (inlined.1, inlined.2) :=
    (Prod.eta _).symm
  refine ⟨hplain, hnone, ?_⟩
  exact agrees_render_inlined rfl rfl hplain hinlined hnone 4

/-- The macro that uses another one is not: in place of the element its own content comes to stand,
in place of the copy the content of the other macro. -/
theorem not_agrees_render_inlined_nesting :
    let s := usingState nesting
    let ctx := usingSite nesting
    let inlined := Expansion.inlined {} s.document ctx.node 9
    let used := outcome (render {} 5 ctx) s
    let inPlace := outcome (render {} 5 (ctx.sibling inlined.1 inlined.2))
      { s with document := inlined.1 }
    Expansion.UsesPlain {} ctx s ⟨"m", 9⟩ ∧ used.1.toOption = some () ∧
      inPlace.1.toOption = some () ∧
      used.2.document.textContent root = "inoutout" ∧
      inPlace.2.document.textContent root = "inoutin" ∧ ¬ Agrees {} True Eq used inPlace := by
  intro s ctx inlined used inPlace
  have hplain : Expansion.UsesPlain {} ctx s ⟨"m", 9⟩ := usesPlain_usingSite (by simp)
  have hused : used.1.toOption = some () := by decide +kernel
  have hinPlace : inPlace.1.toOption = some () := by decide +kernel
  have htext : used.2.document.textContent root = "inoutout" := by decide +kernel
  have htext' : inPlace.2.document.textContent root = "inoutin" := by decide +kernel
  refine ⟨hplain, hused, hinPlace, htext, htext', fun hagrees => ?_⟩
  generalize used = p at hused htext hagrees
  generalize inPlace = q at hinPlace htext' hagrees
  cases hagrees with
  | ok _ hstates =>
      rw [hstates.document, htext'] at htext
      exact absurd htext (by decide)
  | error => cases hused
  | limit_left => cases hused
  | limit_right => cases hinPlace

end Examples

end Walk

end PageTemplate
