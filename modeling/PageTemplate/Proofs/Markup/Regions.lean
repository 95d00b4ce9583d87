import PageTemplate.Proofs.Markup.Relinking
import PageTemplate.Proofs.Markup.Throughout

/-! # Changes that keep to a part of a document

What is done to an element changes what lies below the element, nodes that are made in the course
of it, and the child list of the element's parent. Such a part of a document is a region: links
lead into it from one node outside, and out of it nowhere.
-/

namespace PageTemplate.Markup.Document

variable {d d' d'' : Document} {R R' : NodeId → Prop} {x y z n m p q : NodeId}

theorem isElement_congr (h : d'.kind n = d.kind n) : d'.isElement n = d.isElement n :=
  congrArg NodeKind.isElement h

theorem attributes_congr (h : d'.kind n = d.kind n) : d'.attributes n = d.attributes n := by
  unfold attributes element?
  rw [h]

/-- A number without a node is no element. -/
theorem lt_size_of_isElement (h : d.isElement n = true) : n < d.size := by
  by_contra hge
  unfold isElement kind at h
  rw [node_of_size_le d (Nat.le_of_not_lt hge)] at h
  cases h

/-- A change that leaves every node outside a set of nodes as it is, and lets elements be
elements. -/
structure Confined (R : NodeId → Prop) (d d' : Document) : Prop where
  linked : d'.WellLinked
  size_le : d.size ≤ d'.size
  same : ∀ n, ¬ R n → d'.node n = d.node n
  elements : ∀ n, d.isElement n = true → d'.isElement n = true

namespace Confined

protected theorem refl (hlinked : d.WellLinked) : Confined R d d :=
  ⟨hlinked, Nat.le_refl _, fun _ _ => rfl, fun _ => id⟩

protected theorem trans (h : Confined R d d') (h' : Confined R d' d'') : Confined R d d'' :=
  ⟨h'.linked, Nat.le_trans h.size_le h'.size_le, fun n hn => (h'.same n hn).trans (h.same n hn),
    fun n hn => h'.elements n (h.elements n hn)⟩

theorem mono (h : Confined R d d') (himp : ∀ n, R n → R' n) : Confined R' d d' :=
  ⟨h.linked, h.size_le, fun n hn => h.same n fun hR => hn (himp n hR), h.elements⟩

/-- A change that leaves the kinds of nodes alone. -/
theorem of_kind (hlinked : d'.WellLinked) (hsize : d.size ≤ d'.size)
    (hkind : ∀ n, d'.kind n = d.kind n) (hsame : ∀ n, ¬ R n → d'.node n = d.node n) :
    Confined R d d' :=
  ⟨hlinked, hsize, hsame, fun n hn => (isElement_congr (hkind n)).trans hn⟩

theorem kind_eq (h : Confined R d d') (hn : ¬ R n) : d'.kind n = d.kind n :=
  congrArg Node.kind (h.same n hn)

theorem parent_eq (h : Confined R d d') (hn : ¬ R n) : d'.parent n = d.parent n :=
  congrArg Node.parent (h.same n hn)

theorem children_eq (h : Confined R d d') (hn : ¬ R n) : d'.children n = d.children n :=
  congrArg Node.children (h.same n hn)

/-- A subtree outside the set stays as it is. -/
theorem below_iff (h : Confined R d d') (hout : ∀ m, d.Below z m → ¬ R m) :
    d'.Below z n ↔ d.Below z n := by
  refine ⟨fun hn => hn.of_congr fun m hm => ?_, fun hn => hn.congr fun m hm => ?_⟩
  · rw [h.children_eq (hout m hm)]
    exact List.Subset.refl _
  · rw [h.children_eq (hout m hm)]
    exact List.Subset.refl _

theorem throughout {good : NodeId → NodeKind → Prop} {k : Nat} (h : Confined R d d')
    (hout : ∀ m, d.Below z m → ¬ R m) (hz : Throughout good d k z) : Throughout good d' k z := by
  refine hz.congr (fun m hm => ?_) fun m hm hgood => ?_
  · rw [h.children_eq (hout m hm)]
    exact List.Subset.refl _
  · rwa [h.kind_eq (hout m hm)]

end Confined

/-- A change that only adds nodes outside the tree. -/
abbrev Extends (d d' : Document) : Prop := Confined (d.size ≤ ·) d d'

namespace Extends

protected theorem trans (h : Extends d d') (h' : Extends d' d'') : Extends d d'' :=
  Confined.trans h (h'.mono fun _ hn => Nat.le_trans h.size_le hn)

/-- New nodes have no children but new ones. -/
theorem child_new (h : Extends d d') (hlinked : d.WellLinked) (hn : d.size ≤ n)
    (hc : m ∈ d'.children n) : d.size ≤ m := by
  by_contra hm
  have hparent : d.parent m = some n := by
    rw [← h.parent_eq hm]
    exact h.linked.parent_eq hc
  exact absurd (hlinked.lt_of_parent hparent).1 (Nat.not_lt_of_le hn)

theorem below_new (h : Extends d d') (hlinked : d.WellLinked) (hn : d.size ≤ n)
    (hm : d'.Below n m) : d.size ≤ m := by
  induction hm with
  | refl => exact hn
  | child _ hchild ih => exact h.child_new hlinked ih hchild

/-- What lies below a node that was there before is unchanged. -/
theorem below_old (h : Extends d d') (hlinked : d.WellLinked) (hn : n < d.size) :
    d'.Below n m ↔ d.Below n m :=
  h.below_iff fun _ hm => Nat.not_le_of_lt (hlinked.below_lt hm hn)

theorem throughout_old {good : NodeId → NodeKind → Prop} {k : Nat} (h : Extends d d')
    (hlinked : d.WellLinked) (hn : n < d.size) (hgood : Throughout good d k n) :
    Throughout good d' k n :=
  h.throughout (fun _ hm => Nat.not_le_of_lt (hlinked.below_lt hm hn)) hgood

end Extends

/-- The node lies below one without a parent, so that no way down from it comes back. -/
def Rooted (d : Document) (n : NodeId) : Prop := ∃ top, d.parent top = none ∧ d.Below top n

theorem Rooted.of_parent (h : d.parent n = none) : d.Rooted n := ⟨n, h, .refl⟩

theorem Rooted.below (h : d.Rooted n) (hm : d.Below n m) : d.Rooted m :=
  h.imp fun _ htop => ⟨htop.1, htop.2.trans hm⟩

/-- A node of a document whose links agree, below a node without a parent. -/
structure Grounded (d : Document) (n : NodeId) : Prop where
  linked : d.WellLinked
  lt : n < d.size
  rooted : d.Rooted n

theorem Grounded.of_parent (hlinked : d.WellLinked) (hp : d.Rooted p) (hn : d.parent n = some p) :
    d.Grounded n :=
  ⟨hlinked, (hlinked.lt_of_parent hn).2, hp.below (.child .refl (hlinked.mem_children hn))⟩

theorem Grounded.of_isAttached (hlinked : d.WellLinked) (hlt : n < d.size)
    (h : d.isAttached n = true) : d.Grounded n :=
  ⟨hlinked, hlt, root, hlinked.parent_root, (isAttached_iff hlinked hlt).mp h⟩

theorem Grounded.below (h : d.Grounded n) (hm : d.Below n m) : d.Grounded m :=
  ⟨h.linked, h.linked.below_lt hm h.lt, h.rooted.below hm⟩

/-- A part of a document: it has room for new nodes, child lists do not lead out of it, and lead
into it only from `p`, which stands outside. -/
structure Region (R : NodeId → Prop) (p : NodeId) (d : Document) : Prop where
  linked : d.WellLinked
  fresh : ∀ n, d.size ≤ n → R n
  closed : ∀ n c, R n → c ∈ d.children n → R c
  entered : ∀ n c, R c → c ∈ d.children n → R n ∨ n = p
  outer : ¬ R p
  not_root : ¬ R root
  rooted : d.Rooted p

/-- A change within a region. Of the node that the region lies below, only the child list may
change. -/
structure Within (R : NodeId → Prop) (p : NodeId) (d d' : Document) : Prop extends
    Confined (fun n => R n ∨ n = p) d d' where
  outer_kind : d'.kind p = d.kind p
  outer_parent : d'.parent p = d.parent p

namespace Within

protected theorem refl (hlinked : d.WellLinked) : Within R p d d :=
  ⟨.refl hlinked, rfl, rfl⟩

protected theorem trans (h : Within R p d d') (h' : Within R p d' d'') : Within R p d d'' :=
  ⟨h.toConfined.trans h'.toConfined, h'.outer_kind.trans h.outer_kind,
    h'.outer_parent.trans h.outer_parent⟩

theorem mono (h : Within R p d d') (himp : ∀ n, R n → R' n) : Within R' p d d' :=
  ⟨h.toConfined.mono fun n hn => hn.imp_left (himp n), h.outer_kind, h.outer_parent⟩

/-- Changes of nodes in the region alone are changes within it. -/
theorem of_confined (h : Confined R d d') (hp : ¬ R p) : Within R p d d' :=
  ⟨h.mono fun _ hn => .inl hn, h.kind_eq hp, h.parent_eq hp⟩

theorem parent_eq_of_not (h : Within R p d d') (hn : ¬ R n) : d'.parent n = d.parent n := by
  by_cases hnp : n = p
  · rw [hnp, h.outer_parent]
  · exact h.parent_eq (by simp [hn, hnp])

end Within

namespace Region

theorem below (hregion : Region R p d) (hn : R n) (h : d.Below n m) : R m := by
  induction h with
  | refl => exact hn
  | child _ hchild ih => exact hregion.closed _ _ ih hchild

theorem not_above (hregion : Region R p d) (h : d.Below n p) : ¬ R n :=
  fun hn => hregion.outer (hregion.below hn h)

theorem lt (hregion : Region R p d) : p < d.size := by
  by_contra hge
  exact hregion.outer (hregion.fresh p (Nat.le_of_not_lt hge))

theorem parent_cases (hregion : Region R p d) (hn : R n) (hq : d.parent n = some q) :
    R q ∨ q = p :=
  hregion.entered q n hn (hregion.linked.mem_children hq)

/-- The node that a region lies below stays where it is. -/
theorem below_outer (hregion : Region R p d) (h : Within R p d d') (hn : d.Below n p) :
    d'.Below n p := by
  have hway : ∀ m, d.Below n m → d.Below m p → d'.Below n m := by
    intro m hm
    induction hm with
    | refl => exact fun _ => .refl
    | @child q m _ hchild ih =>
        intro hmp
        have hparent := hregion.linked.parent_eq hchild
        refine (ih (.of_child hchild hmp)).child (h.linked.mem_children ?_)
        rw [h.parent_eq_of_not (hregion.not_above hmp), hparent]
  exact hway p hn .refl

/-- A region stays one when something is done within it. -/
theorem within (hregion : Region R p d) (h : Within R p d d') : Region R p d' := by
  refine ⟨h.linked, fun n hn => hregion.fresh n (Nat.le_trans h.size_le hn), ?_, ?_,
    hregion.outer, hregion.not_root, ?_⟩
  · intro n c hn hc
    by_contra hout
    have hparent := h.parent_eq_of_not hout
    rw [h.linked.parent_eq hc] at hparent
    exact hout (hregion.closed n c hn (hregion.linked.mem_children hparent.symm))
  · intro n c hR hc
    by_contra hout
    rw [h.children_eq hout] at hc
    exact hout (hregion.entered n c hR hc)
  · obtain ⟨top, htop, hp⟩ := hregion.rooted
    refine ⟨top, ?_, hregion.below_outer h hp⟩
    rw [h.parent_eq_of_not (hregion.not_above hp), htop]

theorem extends_within (hregion : Region R p d) (h : Extends d d') : Within R p d d' :=
  .of_confined (h.mono hregion.fresh) hregion.outer

end Region

/-- The part of a document that what is done to `x` keeps to. -/
def own (d : Document) (x n : NodeId) : Prop := d.Below x n ∨ d.size ≤ n

theorem own_self (d : Document) (x : NodeId) : d.own x x := .inl .refl

theorem WellLinked.own_child (hlinked : d.WellLinked) (hn : d.own x n)
    (hc : m ∈ d.children n) : d.own x m := by
  rcases hn with hn | hn
  · exact .inl (hn.child hc)
  · exact absurd (hlinked.child_lt n m hc).1 (Nat.not_lt_of_le hn)

theorem region_own (hlinked : d.WellLinked) (hrooted : d.Rooted p) (hx : d.parent x = some p) :
    Region (d.own x) p d := by
  obtain ⟨top, htop, hp⟩ := hrooted
  have hlt := hlinked.lt_of_parent hx
  have htopx : d.Below top x := hp.child (hlinked.mem_children hx)
  refine ⟨hlinked, fun n hn => .inr hn, fun n c => hlinked.own_child, ?_, ?_, ?_, top, htop, hp⟩
  · intro n c hc hchild
    rcases hc with hc | hc
    · rcases hlinked.below_cases hc with rfl | ⟨q, hq, hbelow⟩
      · exact .inr (Option.some.inj ((hlinked.parent_eq hchild).symm.trans hx))
      · obtain rfl := Option.some.inj ((hlinked.parent_eq hchild).symm.trans hq)
        exact .inl (.inl hbelow)
    · exact absurd (hlinked.child_lt n c hchild).2 (Nat.not_lt_of_le hc)
  · rintro (hback | hsize)
    · exact hlinked.not_below_parent htop htopx hx hback
    · exact absurd hlt.1 (Nat.not_lt_of_le hsize)
  · rintro (hback | hsize)
    · rcases hlinked.below_cases hback with rfl | ⟨q, hq, -⟩
      · rw [hlinked.parent_root] at hx
        cases hx
      · rw [hlinked.parent_root] at hq
        cases hq
    · exact absurd (Nat.lt_of_le_of_lt (Nat.zero_le p) hlt.1) (Nat.not_lt_of_le hsize)

theorem Region.own_subset (hregion : Region R p d) (hx : R x) (h : d.own x n) : R n := by
  rcases h with h | h
  · exact hregion.below hx h
  · exact hregion.fresh n h

/-- What is done to one of two siblings leaves the other alone. -/
theorem Region.not_own_sibling (hregion : Region R p d) (hx : d.parent x = some p)
    (hz : d.parent z = some p) (hne : x ≠ z) (h : d.Below z m) : ¬ (d.own x m ∨ m = p) := by
  have hlinked := hregion.linked
  obtain ⟨top, htop, hp⟩ := hregion.rooted
  have htopx : d.Below top x := hp.child (hlinked.mem_children hx)
  have htopz : d.Below top z := hp.child (hlinked.mem_children hz)
  rintro ((hm | hm) | rfl)
  · exact hlinked.not_below_sibling htop htopx htopz hx hz hne hm h
  · exact absurd (hlinked.below_lt h (hlinked.lt_of_parent hz).2) (Nat.not_lt_of_le hm)
  · exact hlinked.not_below_parent htop htopz hz h

/-- What is done in a region leaves a region beside it as it is, without the nodes that are new. -/
theorem Region.beside (hregion : Region R p d) (hother : Region R' p d) (h : Within R' p d d')
    (hapart : ∀ n, n < d.size → R n → ¬ R' n) :
    Region (fun n => n < d.size ∧ R n ∨ d'.size ≤ n) p d' := by
  have hnext := hother.within h
  have hsame : ∀ n, n < d.size → R n → d'.node n = d.node n := fun n hlt hn =>
    h.same n fun hor => hor.elim (hapart n hlt hn) fun heq => hregion.outer (heq ▸ hn)
  refine ⟨h.linked, fun n hn => .inr hn, ?_, ?_, ?_, ?_, hnext.rooted⟩
  · rintro n c (⟨hlt, hn⟩ | hn) hc
    · unfold children at hc
      rw [hsame n hlt hn] at hc
      exact .inl ⟨(hregion.linked.child_lt n c hc).2, hregion.closed n c hn hc⟩
    · exact absurd (h.linked.child_lt n c hc).1 (Nat.not_lt_of_le hn)
  · rintro n c (⟨hlt, hc⟩ | hc) hchild
    · have hparent := h.linked.parent_eq hchild
      unfold parent at hparent
      rw [hsame c hlt hc] at hparent
      have hold := hregion.linked.mem_children hparent
      exact (hregion.entered n c hc hold).imp_left fun hn =>
        .inl ⟨(hregion.linked.child_lt n c hold).1, hn⟩
    · exact absurd (h.linked.child_lt n c hchild).2 (Nat.not_lt_of_le hc)
  · rintro (⟨-, hp⟩ | hp)
    · exact hregion.outer hp
    · exact hnext.outer (hnext.fresh p hp)
  · rintro (⟨-, hroot⟩ | hroot)
    · exact hregion.not_root hroot
    · exact hnext.not_root (hnext.fresh root hroot)

/-! ## What never leaves a part -/

/-- Changes of what lies below a node do not let other nodes get there, new ones apart. -/
theorem Confined.own_child (h : Confined (d.own x) d d') (hlinked : d.WellLinked)
    (hn : d.own x n) (hc : m ∈ d'.children n) : d.own x m := by
  by_contra hm
  have hparent := h.parent_eq hm
  rw [h.linked.parent_eq hc] at hparent
  exact hm (hlinked.own_child hn (hlinked.mem_children hparent.symm))

theorem Confined.own_below (h : Confined (d.own x) d d') (hlinked : d.WellLinked)
    (hn : d.own x n) (hm : d'.Below n m) : d.own x m := by
  induction hm with
  | refl => exact hn
  | child _ hchild ih => exact h.own_child hlinked ih hchild

/-- A change that keeps to a part of a part keeps to the part. -/
theorem Confined.within (h : Confined (d.own x) d d') (hlinked : d.WellLinked)
    (hn : d.own x n) (hp : d.own x p) (h' : Within (d'.own n) p d' d'') :
    Confined (d.own x) d d'' := by
  refine h.trans (h'.toConfined.mono ?_)
  rintro m ((hm | hm) | rfl)
  · exact h.own_below hlinked hn hm
  · exact .inr (Nat.le_trans h.size_le hm)
  · exact hp

theorem Confined.rooted (h : Confined (d.own x) d d') (hlinked : d.WellLinked)
    (hrooted : d.Rooted x) (hparent : d'.parent x = d.parent x) : d'.Rooted x := by
  obtain ⟨top, htop, hx⟩ := hrooted
  cases hp : d.parent x with
  | none => exact .of_parent (hparent.trans hp)
  | some p =>
      rcases hlinked.below_cases hx with rfl | ⟨q, hq, hbelow⟩
      · rw [htop] at hp
        cases hp
      · obtain rfl := Option.some.inj (hp.symm.trans hq)
        have hregion := region_own hlinked ⟨top, htop, hbelow⟩ hp
        have hregion' := hregion.within (.of_confined h hregion.outer)
        refine hregion'.rooted.below (.child .refl (h.linked.mem_children ?_))
        rw [hparent, hp]

end PageTemplate.Markup.Document
