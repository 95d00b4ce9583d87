import PageTemplate.Proofs.Markup.AttributeEdits
import PageTemplate.Proofs.Markup.Exchange
import PageTemplate.Proofs.Render.SlotFilling

/-! # Filling one slot, attribute by attribute

The copy of a filler takes the place of the slot. It has the name and the attributes of the filler,
without the first one that says at its new place which slot the filler fills, and with the one that
says so of the slot.
-/

namespace PageTemplate.Slots

open Markup Document

variable {v : Vocabularies} {d d' t : Document} {slot filler p n copy : NodeId}

/-- What becomes of an element that fills a slot: the first attribute that `picks` finds goes, and
the slot's own attribute comes. -/
def handedOn (own : Option Attribute) (picks : Attribute → Bool) (element : Element) : Element :=
  let kept := { element with attributes := element.attributes.eraseP picks }
  match own with
  | some attr => kept.set (QualifiedName.parse attr.name.text) attr.value
  | none => kept

/-- The slot, a child of `p`, was exchanged for a copy of the filler. -/
structure FilledOne (v : Vocabularies) (p slot filler copy : NodeId) (d t : Document) : Prop
    extends Exchanged slot copy d t where
  mirrors : Mirrors d t filler copy
  element?_eq : t.element? copy = (d.element? filler).map
    (handedOn (d.findAttribute? slot v.fillSlot) (d.attributeMatchesBelow p filler · v.fillSlot))

theorem element?_handOn (d : Document) (slot copy : NodeId) :
    (handOn v d slot copy).element? copy = (d.element? copy).map fun element =>
      match d.findAttribute? slot v.fillSlot with
      | some attr => element.set (QualifiedName.parse attr.name.text) attr.value
      | none => element := by
  unfold handOn
  cases d.findAttribute? slot v.fillSlot with
  | some attr =>
      dsimp only
      rw [element?_updateElement, if_pos rfl]
  | none => exact Option.map_id'.symm

/-- Filling a slot of a document whose links agree exchanges the slot for a copy of the filler. -/
theorem filledOne_fillOne (hground : d.Grounded slot) (hslot : d.parent slot = some p)
    (hfiller : d.Grounded filler) :
    ∃ copy, FilledOne v p slot filler copy d (fillOne v d slot filler) := by
  have hlinked := hground.linked
  have hp : d.Rooted p := by
    obtain ⟨top, htop, hbelow⟩ := hground.rooted
    exact ⟨top, htop, hlinked.below_parent htop hbelow hslot⟩
  have hregion := region_own hlinked hp hslot
  rcases hcopied : d.deepCopy filler with ⟨d₁, copy⟩
  have hgraft : d.graft (d.tree filler) = (d₁, copy) := hcopied
  have hcopy : Copied (fun _ _ => True) (d.tree filler).height d d₁ copy := by
    have hcopy := copied_graft_any hlinked (d.tree filler)
    rwa [hgraft] at hcopy
  obtain ⟨d₂, hinsert, hbrought, -⟩ := exists_inserted hregion hslot hcopy
  -- Before the copy is retouched it reads its attributes as the filler would at its place.
  have hinserted := Inserted.of_steps hlinked hslot hcopy hinsert (.refl hbrought.linked)
  have helement : d₂.element? copy = d.element? filler := by
    have hkind := (kind_graft d (d.tree filler)).trans (kind_tree d filler)
    rw [hgraft] at hkind
    exact congrArg NodeKind.element? ((hbrought.kind_eq copy).trans hkind)
  have hpicks : d₂.attributeMatches copy = d.attributeMatchesBelow p filler :=
    hinserted.attributeMatches_new ⟨hlinked, (hlinked.lt_of_parent hslot).1, hp⟩
      hinserted.parent_copy (name?_congr helement) (declared?_congr helement)
  have hremoved : Retouched (fun _ => True) copy d₂ _ :=
    retouched_removeAttributeBySpec hbrought.linked copy v.fillSlot
  have hown : (d₂.removeAttributeBySpec copy v.fillSlot).1.findAttribute? slot v.fillSlot =
      d.findAttribute? slot v.fillSlot := by
    have hinserted := Inserted.of_steps hlinked hslot hcopy hinsert hremoved.toRelabeled
    exact (hground.of_above_same hinserted.linked hinserted.size_le fun n hn =>
      hinserted.old_eq (hlinked.above_lt hn hground.lt)).2.2 _
  have hhanded : Retouched (fun _ => True) copy (d₂.removeAttributeBySpec copy v.fillSlot).1
      (handOn v (d₂.removeAttributeBySpec copy v.fillSlot).1 slot copy) :=
    retouched_handOn hremoved.confined.linked slot copy (stems_of_origin trivial)
  have hrelabeled := (hremoved.trans hhanded).toRelabeled
  have hplaced := Inserted.of_steps hlinked hslot hcopy hinsert hrelabeled
  refine ⟨copy, ?_⟩
  rw [fillOne_eq hcopied hinsert]
  refine ⟨hplaced.exchanged hlinked, ?_, ?_⟩
  · have halike := hfiller.alike_graft hlinked
    rw [hgraft] at halike
    exact hplaced.mirrors_detach hlinked hp
      (hcopy.mirrors_inserted hlinked hslot hinsert hrelabeled (.of_alike halike))
  · have hkind : ((handOn v (d₂.removeAttributeBySpec copy v.fillSlot).1 slot copy).detach
        slot).element? copy =
          (handOn v (d₂.removeAttributeBySpec copy v.fillSlot).1 slot copy).element? copy :=
      congrArg NodeKind.element? (kind_detach ..)
    rw [hkind, element?_handOn, hown, element?_removeAttributeBySpec, if_pos rfl, hpicks,
      helement, Option.map_map]
    rfl

/-! ## Filling several slots -/

/-- A slot that was filled: its name, the element that was its filler, and the copy of the filler
that has taken its place. -/
structure Replacement where
  name : String
  slot : NodeId
  filler : NodeId
  copy : NodeId

/-- What stands where `n` stood. -/
def standIn (replaced : List Replacement) (n : NodeId) : NodeId :=
  (replaced.find? (·.slot = n)).elim n (·.copy)

variable {t' : Document} {root m : NodeId} {replaced : List Replacement} {r : Replacement}

/-- The copy of a filler at the place of the slot that it fills. It mirrors the filler, its top with
the slot's own word on what it fills. -/
structure CopyPlaced (v : Vocabularies) (d t : Document) (r : Replacement) : Prop where
  new : d.size ≤ r.copy
  lt : r.copy < t.size
  parent_eq : t.parent r.copy = d.parent r.slot
  below_new : ∀ m, t.Below r.copy m → d.size ≤ m
  mirrors : Mirrors d t r.filler r.copy
  element?_eq : ∀ p, d.parent r.slot = some p → t.element? r.copy = (d.element? r.filler).map
    (handedOn (d.findAttribute? r.slot v.fillSlot) (d.attributeMatchesBelow p r.filler · v.fillSlot))

/-- Slots of the document were exchanged for copies of their fillers, and that is all that became of
the nodes of the document. -/
structure Refilled (v : Vocabularies) (d : Document) (replaced : List Replacement) (t : Document) :
    Prop where
  linked : t.WellLinked
  size_le : d.size ≤ t.size
  kind_eq : ∀ n < d.size, t.kind n = d.kind n
  parent_eq : ∀ n < d.size, t.parent n = if n ∈ replaced.map (·.slot) then none else d.parent n
  children_eq : ∀ n < d.size, t.children n = (d.children n).map (standIn replaced)
  copies : ∀ r ∈ replaced, CopyPlaced v d t r
  grounded : ∀ r ∈ replaced, d.Grounded r.slot ∧ (d.parent r.slot).isSome
  apart : ∀ r ∈ replaced, ∀ r' ∈ replaced, d.Below r.slot r'.slot → r.slot = r'.slot

theorem standIn_of_not_mem (h : n ∉ replaced.map (·.slot)) : standIn replaced n = n := by
  have hnone : replaced.find? (·.slot = n) = none := by
    apply List.find?_eq_none.mpr
    intro r hr heq
    exact h (List.mem_map.mpr ⟨r, hr, by simpa using heq⟩)
  rw [standIn, hnone, Option.elim_none]

theorem map_standIn_of_not_mem {children : List NodeId}
    (h : ∀ r ∈ replaced, r.slot ∉ children) : children.map (standIn replaced) = children := by
  refine (List.map_congr_left fun c hc => ?_).trans (List.map_id children)
  apply standIn_of_not_mem
  intro hmem
  obtain ⟨r, hr, rfl⟩ := List.mem_map.mp hmem
  exact h r hr hc

/-- Exchanging one more node comes behind the exchanges so far. -/
theorem inPlace_standIn (hnew : ∀ r' ∈ replaced, r'.copy ≠ r.slot) :
    inPlace r.slot r.copy (standIn replaced n) = standIn (replaced ++ [r]) n := by
  unfold standIn
  rw [List.find?_append]
  cases hfound : replaced.find? (·.slot = n) with
  | some r' =>
      rw [Option.some_or, Option.elim_some, inPlace,
        if_neg (hnew r' (List.mem_of_find?_eq_some hfound))]
  | none =>
      rw [Option.none_or, Option.elim_none, inPlace]
      by_cases hn : n = r.slot
      · simp [hn]
      · simp [hn, Ne.symm hn]

namespace Refilled

protected theorem refl (hlinked : d.WellLinked) : Refilled v d [] d := by
  refine ⟨hlinked, Nat.le_refl _, fun _ _ => rfl, fun _ _ => by simp, fun n _ => ?_, ?_, ?_, ?_⟩
  · exact (map_standIn_of_not_mem (by simp)).symm
  all_goals simp

/-- What no filled slot is above of is where it was, and reads its names as it did. -/
theorem of_not_below (h : Refilled v d replaced t) (hground : d.Grounded n)
    (hout : ∀ r ∈ replaced, ¬ d.Below r.slot n) :
    t.Grounded n ∧ (∀ qualifier, t.lookupNamespace n qualifier = d.lookupNamespace n qualifier) ∧
      ∀ spec, t.findAttribute? n spec = d.findAttribute? n spec := by
  apply hground.of_above_same h.linked h.size_le
  intro m hm
  have hlt := hground.linked.above_lt hm hground.lt
  refine ⟨h.kind_eq m hlt, ?_⟩
  rw [h.parent_eq m hlt, if_neg]
  intro hmem
  obtain ⟨r, hr, rfl⟩ := List.mem_map.mp hmem
  exact hout r hr hm

/-- Around a filled slot nothing was exchanged. -/
theorem not_below_parent (h : Refilled v d replaced t) (hr : r ∈ replaced)
    (hp : d.parent r.slot = some p) : ∀ r' ∈ replaced, ¬ d.Below r'.slot p := by
  intro r' hr' hbelow
  have hground := (h.grounded r hr).1
  have hchild := hground.linked.mem_children hp
  have heq := h.apart r' hr' r hr (hbelow.child hchild)
  obtain ⟨top, htop, habove⟩ := hground.rooted
  exact hground.linked.not_below_parent htop habove hp (heq ▸ hbelow)

/-- The parent of a filled slot is where it was, and so is the copy that stands below it now. -/
theorem grounded_parent (h : Refilled v d replaced t) (hr : r ∈ replaced)
    (hp : d.parent r.slot = some p) : t.Grounded p ∧ t.Grounded r.copy ∧
      ∀ qualifier, t.lookupNamespace p qualifier = d.lookupNamespace p qualifier := by
  have hground := (h.grounded r hr).1
  obtain ⟨top, htop, habove⟩ := hground.rooted
  have hpground : d.Grounded p := ⟨hground.linked, (hground.linked.lt_of_parent hp).1, top, htop,
    hground.linked.below_parent htop habove hp⟩
  obtain ⟨hp', hlook, -⟩ := h.of_not_below hpground (h.not_below_parent hr hp)
  refine ⟨hp', .of_parent h.linked hp'.rooted ?_, hlook⟩
  rw [(h.copies r hr).parent_eq, hp]

/-- What is outside of `root` stays as it is when the slots are below `root`. -/
theorem node_eq (h : Refilled v d replaced t) (hlinked : d.WellLinked)
    (hslots : ∀ r ∈ replaced, d.Below root r.slot ∧ r.slot ≠ root) (hn : n < d.size)
    (hout : ¬ d.Below root n) : t.node n = d.node n := by
  apply node_eq_of (h.kind_eq n hn)
  · rw [h.parent_eq n hn, if_neg]
    intro hmem
    obtain ⟨r, hr, rfl⟩ := List.mem_map.mp hmem
    exact hout (hslots r hr).1
  · rw [h.children_eq n hn, map_standIn_of_not_mem]
    intro r hr hmem
    obtain ⟨hbelow, hne⟩ := hslots r hr
    rcases hlinked.below_cases hbelow with heq | ⟨q, hq, hbelow⟩
    · exact hne heq
    · obtain rfl := Option.some.inj ((hlinked.parent_eq hmem).symm.trans hq)
      exact hout hbelow

/-- A copy stays where it is when a node of the document is exchanged. -/
theorem copyPlaced_step (h : Refilled v d replaced t) (hr : r ∈ replaced) {x copy : NodeId}
    (hx : d.parent x = some p) (hx' : t.parent x = some p) (hexchanged : Exchanged x copy t t') :
    CopyPlaced v d t' r := by
  have hcopy := h.copies r hr
  have hlinked := (h.grounded r hr).1.linked
  obtain ⟨hp, hxlt⟩ := hlinked.lt_of_parent hx
  obtain ⟨q, hq⟩ := Option.isSome_iff_exists.mp (h.grounded r hr).2
  have hlt : ∀ m, t.Below r.copy m → m < t.size := fun m hm => h.linked.below_lt hm hcopy.lt
  have hchildren : ∀ m, t.Below r.copy m → t'.children m = t.children m := by
    intro m hm
    rw [hexchanged.children_eq m (hlt m hm), map_inPlace_of_not_mem]
    intro hmem
    -- The node that is exchanged is a child of a node of the document.
    obtain rfl := Option.some.inj ((h.linked.parent_eq hmem).symm.trans hx')
    exact Nat.not_le_of_lt hp (hcopy.below_new m hm)
  have hkind := fun m hm => hexchanged.kind_eq m (hlt m hm)
  refine ⟨hcopy.new, Nat.lt_of_lt_of_le hcopy.lt hexchanged.size_le, ?_, fun m hm => ?_, ?_,
    fun p hp => ?_⟩
  · rw [hexchanged.parent_eq _ hcopy.lt, if_neg, hcopy.parent_eq]
    rintro rfl
    exact Nat.not_le_of_lt hxlt hcopy.new
  · apply hcopy.below_new
    apply hm.of_congr
    intro m hm
    rw [hchildren m hm]
    exact List.Subset.refl _
  · exact hcopy.mirrors.congr_right h.linked (h.grounded_parent hr hq).2.1.rooted hchildren
      fun m hm _ => hkind m hm
  · rw [← hcopy.element?_eq p hp]
    exact congrArg NodeKind.element? (hkind _ .refl)

/-- One more slot is filled, beside the ones that were filled before. -/
theorem step (h : Refilled v d replaced t) (hslot : d.Grounded r.slot)
    (hp : d.parent r.slot = some p)
    (hout : ∀ r' ∈ replaced, ¬ d.Below r'.slot r.slot ∧ ¬ d.Below r.slot r'.slot)
    (hkept : ∀ m, d.Below r.filler m → t.kind m = d.kind m ∧ t.children m = d.children m)
    (hfilled : FilledOne v p r.slot r.filler r.copy t t') :
    Refilled v d (replaced ++ [r]) t' := by
  have hlinked := hslot.linked
  obtain ⟨hplt, hxlt⟩ := hlinked.lt_of_parent hp
  have hsize : ∀ n < d.size, n < t.size := fun n hn => Nat.lt_of_lt_of_le hn h.size_le
  have hsep : ∀ r' ∈ replaced, r'.slot ≠ r.slot := by
    intro r' hr' heq
    exact (hout r' hr').1 (heq ▸ .refl)
  have hparent : t.parent r.slot = some p := by
    rw [h.parent_eq _ hxlt, if_neg, hp]
    intro hmem
    obtain ⟨r', hr', heq⟩ := List.mem_map.mp hmem
    exact hsep r' hr' heq
  have hnew : ∀ r' ∈ replaced, r'.copy ≠ r.slot := by
    intro r' hr' heq
    exact Nat.not_le_of_lt hxlt (heq ▸ (h.copies r' hr').new)
  refine ⟨hfilled.linked, Nat.le_trans h.size_le hfilled.size_le, fun n hn => ?_, fun n hn => ?_,
    fun n hn => ?_, ?_, ?_, ?_⟩
  · rw [hfilled.kind_eq n (hsize n hn), h.kind_eq n hn]
  · rw [hfilled.parent_eq n (hsize n hn), h.parent_eq n hn]
    by_cases hn : n = r.slot <;> simp [hn]
  · rw [hfilled.children_eq n (hsize n hn), h.children_eq n hn, List.map_map]
    exact List.map_congr_left fun c _ => inPlace_standIn hnew
  · intro r' hr'
    rcases List.mem_append.mp hr' with hr' | hr'
    · exact h.copyPlaced_step hr' hp hparent hfilled.toExchanged
    · rw [List.mem_singleton.mp hr']
      refine ⟨Nat.le_trans h.size_le hfilled.new, hfilled.lt, ?_, ?_, ?_, ?_⟩
      · rw [hfilled.parent_copy, hparent, hp]
      · exact fun m hm => Nat.le_trans h.size_le (hfilled.below_copy m hm)
      · apply hfilled.mirrors.congr_left
        intro m hm
        have hback : d.Below r.filler m := hm.of_congr fun m hm => by
          rw [(hkept m hm).2]
          exact List.Subset.refl _
        exact ⟨(hkept m hback).1.symm, (hkept m hback).2.symm⟩
      · intro q hq
        obtain rfl := Option.some.inj (hp.symm.trans hq)
        have hpground : d.Grounded p := by
          obtain ⟨top, htop, hbelow⟩ := hslot.rooted
          exact ⟨hlinked, hplt, top, htop, hlinked.below_parent htop hbelow hp⟩
        have haround := (h.of_not_below hpground fun r' hr' hbelow =>
          (hout r' hr').1 (hbelow.child (hlinked.mem_children hp))).2.1
        have hfiller : t.element? r.filler = d.element? r.filler :=
          congrArg NodeKind.element? (hkept _ .refl).1
        rw [hfilled.element?_eq, hfiller, attributeMatchesBelow_congr hfiller haround,
          (h.of_not_below hslot fun r' hr' => (hout r' hr').1).2.2]
  · intro r' hr'
    rcases List.mem_append.mp hr' with hr' | hr'
    · exact h.grounded r' hr'
    · obtain rfl := List.mem_singleton.mp hr'
      exact ⟨hslot, by simp [hp]⟩
  · intro r₁ hr₁ r₂ hr₂ hbelow
    rcases List.mem_append.mp hr₁ with hold₁ | hlast₁ <;>
      rcases List.mem_append.mp hr₂ with hold₂ | hlast₂
    · exact h.apart r₁ hold₁ r₂ hold₂ hbelow
    · rw [List.mem_singleton.mp hlast₂] at hbelow
      exact absurd hbelow (hout r₁ hold₁).1
    · rw [List.mem_singleton.mp hlast₁] at hbelow
      exact absurd hbelow (hout r₂ hold₂).2
    · rw [List.mem_singleton.mp hlast₁, List.mem_singleton.mp hlast₂]

end Refilled

end PageTemplate.Slots
