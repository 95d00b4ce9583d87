import PageTemplate.Proofs.Render.FailedExpansion
import PageTemplate.Proofs.Render.MacroScope
import PageTemplate.Proofs.Render.SlotExchange

/-! # The top of a macro's copy

A copy of a macro has no parent, so that what its attributes are depends on its top element alone.
This element is the macro's own with the declarations in force there. It is the same whenever the
copy is made, and filling the slots below it leaves it alone.
-/

namespace PageTemplate

open Markup Document

variable {v : Vocabularies} {d d' t : Document} {e n x x' slot filler : NodeId}

namespace Markup.Document

/-! ## Elements without a parent -/

/-- A qualifier stands at a node without a parent for what the node declares it to be. -/
theorem WellLinked.lookupNamespace_top (hlinked : d.WellLinked) (htop : d.parent x = none)
    (hx : x < d.size) (qualifier : Option String) :
    d.lookupNamespace x qualifier = d.declared? x qualifier := by
  rw [hlinked.lookupNamespace_eq htop hx .refl, htop]
  exact Option.or_none

/-- The attributes of equal elements without parents are the same directives. -/
theorem WellLinked.findAttribute?_top (hlinked : d.WellLinked) (htop : d.parent x = none)
    (hx : x < d.size) (hlinked' : t.WellLinked) (htop' : t.parent x' = none) (hx' : x' < t.size)
    (helement : t.element? x' = d.element? x) (spec : AttributeSpec) :
    t.findAttribute? x' spec = d.findAttribute? x spec := by
  have hlook : t.lookupNamespace x' = d.lookupNamespace x := by
    funext qualifier
    rw [hlinked.lookupNamespace_top htop hx, hlinked'.lookupNamespace_top htop' hx']
    exact congrFun (declared?_congr helement) qualifier
  unfold findAttribute? attributeMatches inNamespace elementNamespace? namespaceOf attributes
  rw [helement, hlook]

/-! ## What an addition leaves in force -/

theorem Extends.element?_old (h : Extends d d') (hn : n < d.size) :
    d'.element? n = d.element? n :=
  congrArg NodeKind.element? (h.kind_eq (Nat.not_le_of_lt hn))

theorem Extends.ancestry_old (h : Extends d d') (hground : d.Grounded n) :
    d'.ancestry n = d.ancestry n := by
  obtain ⟨top, htop, hlt, hbelow⟩ := hground.exists_top
  have hlinked := hground.linked
  have htop' : d'.parent top = none := (h.parent_eq (Nat.not_le_of_lt hlt)).trans htop
  have hlt' := Nat.lt_of_lt_of_le hlt h.size_le
  clear hground
  induction hbelow with
  | refl =>
      rw [h.linked.ancestry_eq htop' hlt' .refl, hlinked.ancestry_eq htop hlt .refl, htop, htop']
      rfl
  | @child p c hp hc ih =>
      have hc' : d'.Below top c := by
        rw [h.below_old hlinked hlt]
        exact hp.child hc
      have hparent := hlinked.parent_eq hc
      have hparent' : d'.parent c = some p :=
        (h.parent_eq (Nat.not_le_of_lt (hlinked.child_lt _ _ hc).2)).trans hparent
      rw [h.linked.ancestry_eq htop' hlt' hc', hlinked.ancestry_eq htop hlt (hp.child hc), hparent,
        hparent']
      exact congrArg (c :: ·) ih

theorem Extends.namespacesInScope_old (h : Extends d d') (hground : d.Grounded n) :
    d'.namespacesInScope n = d.namespacesInScope n := by
  have hdeclared : ∀ m ∈ d.ancestry n, d'.declarations m = d.declarations m := by
    intro m hm
    have hlt := hground.linked.above_lt (below_of_mem_lineage hground.linked hm) hground.lt
    unfold declarations attributes
    rw [h.element?_old hlt]
  unfold namespacesInScope
  rw [h.ancestry_old hground, List.flatMap_congr hdeclared]

theorem Extends.findAttribute?_old (h : Extends d d') (hground : d.Grounded n)
    (spec : AttributeSpec) : d'.findAttribute? n spec = d.findAttribute? n spec := by
  have hlook : d'.lookupNamespace n = d.lookupNamespace n := by
    funext qualifier
    rw [← lookup_namespacesInScope, h.namespacesInScope_old hground, lookup_namespacesInScope]
  unfold findAttribute? attributeMatches inNamespace elementNamespace? namespaceOf attributes
  rw [h.element?_old hground.lt, hlook]

end Markup.Document

theorem Vocabularies.declarations_old (v : Vocabularies) (h : Extends d d')
    (hground : d.Grounded e) : v.declarations d' e = v.declarations d e := by
  unfold declarations
  rw [h.namespacesInScope_old hground]

namespace MacroTable

/-! ## Copies of a macro -/

/-- The top of a copy is the macro's element with the declarations in force there. -/
theorem element?_copyElement (v : Vocabularies) (d : Document) (e : NodeId) :
    (copyElement v d e).1.element? (copyElement v d e).2 =
      (d.element? e).map (·.declareAll (v.declarations d e)) := by
  have hkind := (kind_graft d (d.tree e)).trans (kind_tree d e)
  have hcopied : (d.deepCopy e).1.element? (d.deepCopy e).2 = d.element? e :=
    congrArg NodeKind.element? hkind
  unfold copyElement
  dsimp only
  rw [element?_declareMissing, if_pos rfl, hcopied]

/-- A copy that is made later has the same attributes and directives at its top. -/
theorem findAttribute?_copyElement_old (h : Extends d d') (hground : d.Grounded e)
    (spec : AttributeSpec) :
    (copyElement v d' e).1.findAttribute? (copyElement v d' e).2 spec =
      (copyElement v d e).1.findAttribute? (copyElement v d e).2 spec := by
  have hfirst := copied_copyElement_any v hground.linked e
  have hlater := copied_copyElement_any v h.linked e
  apply hfirst.grown.linked.findAttribute?_top hfirst.parent_eq hfirst.lt hlater.grown.linked
    hlater.parent_eq hlater.lt
  rw [element?_copyElement, element?_copyElement, h.element?_old hground.lt,
    v.declarations_old h hground]

end MacroTable

/-! ## Filling leaves tops alone -/

namespace Slots

/-- The nodes that were there are what they were, and those without a parent have none. -/
structure Kept (d d' : Document) : Prop where
  size_le : d.size ≤ d'.size
  kind_eq : ∀ n < d.size, d'.kind n = d.kind n
  top : ∀ n < d.size, d.parent n = none → d'.parent n = none

namespace Kept

protected theorem refl (d : Document) : Kept d d := ⟨Nat.le_refl _, fun _ _ => rfl, fun _ _ => id⟩

protected theorem trans (h : Kept d d') (h' : Kept d' t) : Kept d t :=
  ⟨Nat.le_trans h.size_le h'.size_le,
    fun n hn => (h'.kind_eq n (Nat.lt_of_lt_of_le hn h.size_le)).trans (h.kind_eq n hn),
    fun n hn htop => h'.top n (Nat.lt_of_lt_of_le hn h.size_le) (h.top n hn htop)⟩

theorem of_extends (h : Extends d d') : Kept d d' :=
  ⟨h.size_le, fun _ hn => h.kind_eq (Nat.not_le_of_lt hn),
    fun _ hn htop => (h.parent_eq (Nat.not_le_of_lt hn)).trans htop⟩

/-- Taking a node out of the tree gives none of the others a parent. -/
theorem detach (h : Kept d d') (x : NodeId) : Kept d (d'.detach x) := by
  refine h.trans ⟨Nat.le_of_eq (size_detach d').symm, fun n _ => kind_detach d' x n, ?_⟩
  intro n _ htop
  unfold Document.detach
  split
  · exact htop
  · rw [parent_update_children]
    unfold parent at htop ⊢
    rw [node_update]
    split
    · rfl
    · exact htop

/-- A node that was not there is placed somewhere. -/
theorem place (h : Kept d d') (hx : d.size ≤ x) (hlt : x < d'.size) (p index : NodeId) :
    Kept d (d'.place p index x) := by
  refine ⟨(size_place d' index).symm ▸ h.size_le, fun n hn => ?_, fun n hn htop => ?_⟩
  · rw [kind_place, h.kind_eq n hn]
  · rw [parent_place hlt, if_neg (Nat.ne_of_lt (Nat.lt_of_lt_of_le hn hx)), h.top n hn htop]

theorem updateElement (h : Kept d d') (hx : d.size ≤ x) (change : Element → Element) :
    Kept d (d'.updateElement x change) := by
  refine ⟨(size_updateElement d' change).symm ▸ h.size_le, fun n hn => ?_, fun n hn htop => ?_⟩
  · have hne : n ≠ x := Nat.ne_of_lt (Nat.lt_of_lt_of_le hn hx)
    rw [← h.kind_eq n hn]
    unfold Document.kind Document.updateElement
    rw [node_update, if_neg fun hnx => hne hnx.1]
  · rw [parent_updateElement, h.top n hn htop]

end Kept

/-- The slot is taken out, and the rest happens to the copy of its filler. -/
theorem kept_fillOne (hlinked : d.WellLinked) (slot filler : NodeId) :
    Kept d (fillOne v d slot filler) := by
  have hcopy : Copied (fun _ _ => True) _ d (d.deepCopy filler).1 (d.deepCopy filler).2 :=
    copied_graft_any hlinked _
  have hcopied := Kept.of_extends hcopy.grown
  have hdetached := hcopied.detach (d.deepCopy filler).2
  rcases hinserted : outcome (insertBefore slot (d.deepCopy filler).2) (d.deepCopy filler).1 with
    ⟨_ | _, t⟩
  · rw [fillOne_eq_of_error hinserted]
    have hfailed := (ensures_insertBefore _ slot (d.deepCopy filler).2).bad_of_outcome hinserted
    rwa [hfailed]
  · rw [fillOne_eq rfl hinserted]
    obtain ⟨p, index, hposition, rfl⟩ :=
      (ensures_insertBefore _ slot (d.deepCopy filler).2).ok_of_outcome hinserted
    have hlt : (d.deepCopy filler).2 <
        ((d.deepCopy filler).1.detach (d.deepCopy filler).2).size := by
      rw [size_detach]
      exact hcopy.lt
    have hplaced := hdetached.place hcopy.new hlt p index
    refine Kept.detach ?_ slot
    generalize Document.place _ p index _ = placed at hplaced ⊢
    have hremoved : Kept d (placed.removeAttributeBySpec (d.deepCopy filler).2 v.fillSlot).1 := by
      unfold removeAttributeBySpec
      split
      · exact hplaced.updateElement hcopy.new _
      · exact hplaced
    unfold handOn
    split
    · exact hremoved.updateElement hcopy.new _
    · exact hremoved

/-- Filling the slots of a new copy leaves the top of the copy as it is. -/
theorem kept_fillTo (hlinked : d.WellLinked) (hroot : root < d.size) (fuel : Nat)
    (filling : Filling) (hnode : d.size ≤ n) (h : Extends d filling.document) :
    Kept filling.document (fillTo v fuel filling n).document := by
  induction fuel generalizing filling n with
  | zero => exact .refl _
  | succ fuel ih =>
      rw [fillTo_succ]
      have hfold : Extends d (((filling.document.childElements n).foldl
          (fillChild v (fillTo v fuel)) filling).document) ∧
          Kept filling.document ((filling.document.childElements n).foldl
            (fillChild v (fillTo v fuel)) filling).document := by
        refine List.foldlRecOn (motive := fun filling' : Filling => Extends d filling'.document ∧
          Kept filling.document filling'.document) _ _ ⟨h, .refl _⟩ ?_
        rintro filling' ⟨hextends, hkept⟩ child hchild
        have hnew := h.child_new hlinked hnode (List.mem_filter.mp hchild).1
        unfold fillChild
        dsimp only
        split
        · exact ⟨extends_fillOne hlinked hroot hextends hnew _,
            hkept.trans (kept_fillOne hextends.linked child _)⟩
        · exact ⟨extends_fillTo hlinked hroot fuel filling' hnew hextends,
            hkept.trans (ih filling' hnew hextends)⟩
      exact hfold.2

end Slots

end PageTemplate
