import PageTemplate.Proofs.Markup.Additions
import PageTemplate.Proofs.Render.Expanding
import PageTemplate.Proofs.Render.Holding

/-! # Macro expansion is all or nothing

The expansion of a macro is made aside: every copy is new, slots are filled in new copies with
copies of their fillers, and only a finished expansion takes the place of the element. So whatever
an expansion fails at, the nodes that were there are as they were, whether or not they form a tree.
-/

namespace PageTemplate

open Markup Document

variable {settings : Settings} {ctx : Context} {v : Vocabularies} {d d' : Document}
  {s t : RenderState} {stop : Stop} {slot node : NodeId}

/-- The copy of a macro is an addition. -/
theorem MacroTable.extends_copyElement (h : Extends d d') (v : Vocabularies) (element : NodeId) :
    Extends d (copyElement v d' element).1 ∧ d.size ≤ (copyElement v d' element).2 := by
  have hcopy := copied_copyElement_any v h.linked element
  exact ⟨Extends.trans h hcopy.grown, Nat.le_trans h.size_le hcopy.new⟩

section

variable (hlinked : d.WellLinked) (hroot : root < d.size)

include hlinked hroot

/-! ## Filling slots of copies -/

namespace Slots

omit hlinked hroot in
/-- A slot that stands nowhere is not filled. -/
theorem fillOne_eq_of_error {filler : NodeId} {fault : MarkupError} {t : Document}
    (hinsert : outcome (insertBefore slot (d.deepCopy filler).2) (d.deepCopy filler).1 =
      (.error fault, t)) : fillOne v d slot filler = t := by
  unfold fillOne
  show (match outcome (insertBefore slot (d.deepCopy filler).2) (d.deepCopy filler).1 with
    | (.error _, d) => d
    | (.ok (), d) => _) = t
  rw [hinsert]

/-- A new slot is filled by editing new nodes. -/
theorem extends_fillOne (h : Extends d d') (hslot : d.size ≤ slot) (filler : NodeId) :
    Extends d (fillOne v d' slot filler) := by
  have hcopy := copied_graft_any h.linked (d'.tree filler)
  have hnew := Nat.le_trans h.size_le hcopy.new
  have hinsert := (Extends.trans h hcopy.grown).insertBefore hlinked slot hroot hnew
  rcases houtcome : outcome (insertBefore slot (d'.deepCopy filler).2) (d'.deepCopy filler).1 with
    ⟨_ | _, t⟩
  · rw [fillOne_eq_of_error houtcome]
    exact hinsert.bad_of_outcome houtcome
  · rw [fillOne_eq rfl houtcome]
    have hinserted := hinsert.ok_of_outcome houtcome hslot hcopy.lt
    have hremoved : Retouched (fun _ => True) _ _ _ :=
      retouched_removeAttributeBySpec hinserted.linked (d'.deepCopy filler).2 v.fillSlot
    have hhanded : Retouched (fun _ => True) _ _ _ :=
      retouched_handOn (v := v) hremoved.confined.linked slot (d'.deepCopy filler).2
        (stems_of_origin trivial)
    have hretouched := hinserted.relabeled hnew (hremoved.trans hhanded).toRelabeled
    exact hretouched.detach hlinked hslot

/-- Filling below a new node is an edit of new nodes. -/
theorem extends_fillTo (fuel : Nat) (filling : Filling) (hnode : d.size ≤ node)
    (h : Extends d filling.document) : Extends d (fillTo v fuel filling node).document := by
  induction fuel generalizing filling node with
  | zero => exact h
  | succ fuel ih =>
      rw [fillTo_succ]
      refine List.foldlRecOn (motive := fun filling : Filling => Extends d filling.document) _ _
        h ?_
      intro filling' hfilling' child hchild
      -- The children are those from before the first slot was filled.
      have hnew := h.child_new hlinked hnode (List.mem_filter.mp hchild).1
      unfold fillChild
      dsimp only
      split
      · exact extends_fillOne hlinked hroot hfilling' hnew _
      · exact ih filling' hnew hfilling'

end Slots

/-! ## Steps of an expansion -/

namespace Expansion

/-- An expansion on its way: the copy that is being filled is an addition. -/
structure Aside (d : Document) (state : State) (t : RenderState) : Prop where
  grown : Extends d t.document
  new : d.size ≤ state.current

theorem ensures_fillCurrent_aside {state : State} (h : Aside d state s) :
    Ensures (fillCurrent settings state) s (Aside d) fun _ t => Extends d t.document :=
  Ensures.bind (Rendering.ensures_createIn (Ensures.pure
    ⟨Slots.extends_fillTo hlinked hroot _ _ h.new h.grown, h.new⟩))

omit hlinked hroot in
variable (settings) in
theorem ensures_advance_aside {state : State} (h : Aside d state s) (parent : MacroRef) :
    Ensures (advance settings state parent) s (Aside d) fun _ t => Extends d t.document := by
  obtain ⟨hgrown, hnew⟩ :=
    MacroTable.extends_copyElement h.grown settings.vocabularies parent.element
  refine Ensures.bind (Rendering.ensures_document (Ensures.bind (Rendering.ensures_createIn ?_)))
  dsimp only
  split
  · exact Rendering.ensures_fail hgrown
  split
  · exact Rendering.ensures_fail hgrown
  · exact Ensures.pure ⟨hgrown, hnew⟩

/-- A macro that is extended is copied and filled as an addition, however long the chain. -/
theorem ensures_extendTo_aside (fuel : Nat) {state : State} (h : Aside d state s) :
    Ensures (extendTo settings ctx fuel state) s (Aside d) fun _ t => Extends d t.document := by
  induction fuel generalizing state s with
  | zero => exact Ensures.throw h.grown
  | succ fuel ih =>
      unfold extendTo
      refine Ensures.bind (Rendering.ensures_document ?_)
      split
      · exact Ensures.pure h
      next attr _ =>
        have hresolve : Holds (fun t : RenderState => Extends d t.document) _ :=
          holds_resolve settings ctx state.current settings.vocabularies.extendMacro attr.value
        refine Ensures.bind ((hresolve s h.grown).mono (fun found t ht => ?_) fun _ _ => id)
        cases found with
        | none => exact Ensures.pure ⟨ht, h.new⟩
        | some parent =>
            have hadvance := ensures_advance_aside settings ⟨ht, h.new⟩ parent
            refine Ensures.bind (hadvance.mono (fun next u hnext => ?_) fun _ _ => id)
            refine Ensures.bind ((ensures_fillCurrent_aside hlinked hroot hnext).mono ?_
              fun _ _ => id)
            exact fun filled w hfilled => ih hfilled

theorem ensures_expand_aside (h : Extends d s.document) (used : MacroRef) :
    Ensures (expand settings ctx used) s (fun copy t => Extends d t.document ∧ d.size ≤ copy)
      fun _ t => Extends d t.document := by
  obtain ⟨hgrown, hnew⟩ := MacroTable.extends_copyElement h settings.vocabularies used.element
  rw [expand_eq]
  unfold begin
  refine Ensures.bind (Ensures.bind (Rendering.ensures_document (Ensures.bind
    (Rendering.ensures_createIn ?_))))
  refine (ensures_fillCurrent_aside hlinked hroot ⟨hgrown, hnew⟩).mono ?_ fun _ _ => id
  intro state t hstate
  refine Ensures.bind ((ensures_extendTo_aside hlinked hroot _ hstate).mono ?_ fun _ _ => id)
  exact fun final u hfinal => Ensures.pure ⟨hfinal.grown, hfinal.new⟩

/-- Until the expansion takes the place of the element, only additions are made. -/
theorem ensures_handle_aside (h : Extends d s.document) :
    Ensures (handle settings ctx) s (fun _ _ => True) fun _ t => Extends d t.document := by
  unfold handle
  refine Ensures.bind (Rendering.ensures_document ?_)
  split
  · exact Ensures.pure trivial
  next expression _ =>
    have hresolve : Holds (fun t : RenderState => Extends d t.document) _ :=
      holds_resolve settings ctx ctx.node settings.vocabularies.useMacro expression
    refine Ensures.bind ((hresolve s h).mono (fun found t ht => ?_) fun _ _ => id)
    cases found with
    | none => exact Ensures.pure trivial
    | some used =>
        dsimp only
        split
        · exact Rendering.ensures_fail ht
        refine Ensures.bind ((ensures_expand_aside hlinked hroot ht used).mono ?_ fun _ _ => id)
        rintro copy u ⟨hgrown, hnew⟩
        refine Ensures.bind (Rendering.ensures_edit ?_)
        refine (hgrown.replace hlinked hroot hnew).mono (fun _ d' _ => ?_) fun _ _ => id
        exact Ensures.bind (Rendering.ensures_document (Ensures.pure trivial))

end Expansion

end

namespace Expansion

/-- A use of a macro that fails changes no node that was there, whatever the document and the macros
are and wherever on the chain of macros it fails. All it adds lies outside the tree. -/
theorem failed_use_unchanged (hlinked : s.document.WellLinked)
    (hnode : ctx.node < s.document.size)
    (hfails : outcome (handle settings ctx) s = (.error stop, t)) :
    s.document.size ≤ t.document.size ∧
      (∀ n < s.document.size, t.document.kind n = s.document.kind n ∧
        t.document.parent n = s.document.parent n ∧
        t.document.children n = s.document.children n) ∧
      ∀ n, s.document.size ≤ n → t.document.isAttached n = false ∧
        ∀ p, t.document.parent n = some p → s.document.size ≤ p := by
  have hroot : root < s.document.size := Nat.lt_of_le_of_lt (Nat.zero_le _) hnode
  have hgrown := (ensures_handle_aside hlinked hroot (.refl hlinked)).bad_of_outcome hfails
  refine ⟨hgrown.size_le, fun n hn => ?_, fun n hn => ⟨?_, fun p hp => ?_⟩⟩
  · have hold := Nat.not_le_of_lt hn
    exact ⟨hgrown.kind_eq hold, hgrown.parent_eq hold, hgrown.children_eq hold⟩
  · exact hgrown.not_isAttached hlinked hroot hn
  · exact hgrown.parent_new hlinked hn hp

section Examples

/-- A page that uses a macro that extends itself. -/
def circularPage : Document where
  nodes := #[
    { kind := .root, children := [1] },
    { kind := .element { name := .parse "r" }, parent := some 0, children := [2, 3] },
    { kind := .element {
        name := .parse "m", attributes := [⟨.parse "metal:extend-macro", "options/m"⟩] },
      parent := some 1 },
    { kind := .element {
        name := .parse "p", attributes := [⟨.parse "metal:use-macro", "options/m"⟩] },
      parent := some 1 }]

/-- The chain of macros fails at its second link, when two copies were made of the first. -/
theorem failed_use_unchanged_of_circle :
    let settings : Settings := { options := [("m", .macroRef { name := "m", element := 2 })] }
    let ctx := Context.ofNode circularPage 3 {}
    let s : RenderState := { document := circularPage, globals := { root := .null } }
    ∃ stop t, circularPage.WellLinked ∧ ctx.node < circularPage.size ∧
      outcome (handle settings ctx) s = (.error stop, t) ∧
      t.document.size = circularPage.size + 2 ∧
      circularPage.size ≤ t.document.size ∧
      (∀ n < circularPage.size, t.document.kind n = circularPage.kind n ∧
        t.document.parent n = circularPage.parent n ∧
        t.document.children n = circularPage.children n) ∧
      ∀ n, circularPage.size ≤ n → t.document.isAttached n = false ∧
        ∀ p, t.document.parent n = some p → circularPage.size ≤ p := by
  intro settings ctx s
  have hlinked : circularPage.WellLinked := by decide +kernel
  have hnode : ctx.node < circularPage.size := by decide +kernel
  obtain ⟨stop, hstop⟩ := exists_error_of_toOption
    (by decide +kernel : (outcome (handle settings ctx) s).1.toOption.isNone = true)
  have hfails : outcome (handle settings ctx) s =
      (.error stop, (outcome (handle settings ctx) s).2) := Prod.ext hstop rfl
  have hsize : (outcome (handle settings ctx) s).2.document.size = circularPage.size + 2 := by
    decide +kernel
  exact ⟨stop, _, hlinked, hnode, hfails, hsize, failed_use_unchanged hlinked hnode hfails⟩

end Examples

end Expansion

end PageTemplate
