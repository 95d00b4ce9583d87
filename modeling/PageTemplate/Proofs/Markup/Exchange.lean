import PageTemplate.Proofs.Markup.Grafting
import PageTemplate.Proofs.Markup.Rearranging

/-! # A node in the place of another

A new node comes to stand where another one stood, and the other one leaves the tree. All other
links stay. What the qualifiers of the new node stand for is what it declares itself, and what they
stand for around the place.
-/

namespace PageTemplate.Markup.Document

variable {d d' t : Document} {P : NodeId → NodeId → Prop} {x n n' m p copy : NodeId}

/-! ## Names at another place -/

/-- The namespace that a qualifier of element `e` refers to when `e` stands below `p`. -/
def namespaceBelow (d : Document) (p e : NodeId) (qualifier : Option String) : Namespace :=
  ⟨qualifier, (d.declared? e qualifier).or (d.lookupNamespace p qualifier)⟩

/-- The attribute is the one that `spec` names when element `e` carries it and stands below `p`. -/
def attributeMatchesBelow (d : Document) (p e : NodeId) (attr : Attribute) (spec : AttributeSpec) :
    Bool :=
  if attr.name.localName ≠ spec.name || attr.name.isDeclaration then false
  else match attr.name.qualifier with
    | some qualifier => (d.namespaceBelow p e (some qualifier)).agrees spec.vocabulary
    | none => (d.name? e).any fun name =>
        (d.namespaceBelow p e name.qualifier).agrees spec.vocabulary

theorem attributeMatchesBelow_congr {e : NodeId} (helement : t.element? e = d.element? e)
    (haround : ∀ qualifier, t.lookupNamespace p qualifier = d.lookupNamespace p qualifier) :
    t.attributeMatchesBelow p e = d.attributeMatchesBelow p e := by
  funext attr spec
  unfold attributeMatchesBelow namespaceBelow declared? name?
  simp only [helement, haround]

theorem name?_congr {e : NodeId} (h : t.element? n = d.element? e) : t.name? n = d.name? e := by
  unfold name?
  rw [h]

theorem declared?_congr {e : NodeId} (h : t.element? n = d.element? e) :
    t.declared? n = d.declared? e := by
  funext qualifier
  unfold declared?
  rw [h]

/-- A node with the name and the declarations of `e` reads its attributes as `e` would at its
place. -/
theorem Grounded.attributeMatches_eq_below {e : NodeId} (hground : t.Grounded n)
    (hparent : t.parent n = some x)
    (hname : t.name? n = d.name? e) (hdeclared : t.declared? n = d.declared? e)
    (haround : ∀ qualifier, t.lookupNamespace x qualifier = d.lookupNamespace p qualifier) :
    t.attributeMatches n = d.attributeMatchesBelow p e := by
  obtain ⟨top, htop, hlt, hbelow⟩ := hground.exists_top
  have hlook : ∀ qualifier, t.namespaceOf n qualifier = d.namespaceBelow p e qualifier := by
    intro qualifier
    unfold namespaceOf namespaceBelow
    rw [hground.linked.lookupNamespace_eq htop hlt hbelow, hparent, Option.bind_some, haround,
      hdeclared]
  have hspace : ∀ vocabulary, t.inNamespace n vocabulary = (d.name? e).any fun name =>
      (d.namespaceBelow p e name.qualifier).agrees vocabulary := by
    intro vocabulary
    rw [← hname]
    unfold inNamespace elementNamespace? name?
    cases t.element? n with
    | none => rfl
    | some element =>
        simp only [Option.map_some, Option.any_some]
        rw [hlook]
  funext attr spec
  unfold attributeMatches attributeMatchesBelow
  cases attr.name.qualifier <;> simp only [hspace, hlook]

/-- A node that corresponds to one below a node without a parent is below one, too. -/
theorem Scoped.rooted (hsame : Scoped P d d') (hlinked : d.WellLinked) (hlinked' : d'.WellLinked)
    (hn : P n n') (hrooted : d.Rooted n) : d'.Rooted n' := by
  obtain ⟨top, htop, hbelow⟩ := hrooted
  induction hbelow generalizing n' with
  | refl =>
      have hparents := hsame.parents hn
      rw [htop] at hparents
      generalize hp' : d'.parent n' = parent' at hparents
      cases hparents
      exact .of_parent hp'
  | child _ hchild ih =>
      have hparents := hsame.parents hn
      rw [hlinked.parent_eq hchild] at hparents
      generalize hp' : d'.parent n' = parent' at hparents
      cases hparents with
      | some hq => exact (ih hq).below (.child .refl (hlinked'.mem_children hp'))

/-- A node reads its qualifiers and attributes as before when what is above it stays as it is. -/
theorem Grounded.of_above_same (hground : d.Grounded x) (hlinked : t.WellLinked)
    (hsize : d.size ≤ t.size)
    (hsame : ∀ n, d.Below n x → t.kind n = d.kind n ∧ t.parent n = d.parent n) :
    t.Grounded x ∧ (∀ qualifier, t.lookupNamespace x qualifier = d.lookupNamespace x qualifier) ∧
      ∀ spec, t.findAttribute? x spec = d.findAttribute? x spec := by
  have hupward : Upward (fun n n' => n' = n ∧ d.Below n x) d t := by
    constructor
    · rintro n _ ⟨rfl, hn⟩
      exact congrArg NodeKind.bare (hsame _ hn).1
    · rintro n n' ⟨heq, hn⟩
      rw [heq, (hsame n hn).2]
      cases hq : d.parent n with
      | none => exact .none
      | some q => exact .some ⟨rfl, .of_child (hground.linked.mem_children hq) hn⟩
  have hx : x = x ∧ d.Below x x := ⟨rfl, .refl⟩
  have hground' : t.Grounded x := ⟨hlinked, Nat.lt_of_lt_of_le hground.lt hsize,
    hupward.scope.rooted hground.linked hlinked hx hground.rooted⟩
  exact ⟨hground', hupward.scope.lookupNamespace_eq hx hground hground',
    hupward.findAttribute?_eq hx hground hground'⟩

/-! ## Insertion, link by link -/

/-- A node without a parent is put right before another one. -/
theorem WellLinked.exists_insertBefore (hlinked : d.WellLinked) (hx : d.parent x = some p)
    (hcopy : d.parent copy = none) :
    ∃ front back, d.children p = front ++ x :: back ∧
      outcome (insertBefore x copy) d = (.ok (), d.place p front.length copy) := by
  obtain ⟨front, back, hchildren⟩ := List.append_of_mem (hlinked.mem_children hx)
  refine ⟨front, back, hchildren, ?_⟩
  rw [outcome_insertBefore, detach_of_parent_eq_none d hcopy,
    hlinked.toLinked.positionOf?_eq hchildren]

/-! ## New nodes below a node -/

namespace Within

variable (h : Within (d.size ≤ ·) p d t)

include h

/-- What a node of the document is and where it stands are the same. -/
theorem old_eq (hn : n < d.size) : t.kind n = d.kind n ∧ t.parent n = d.parent n := by
  by_cases hnp : n = p
  · rw [hnp]
    exact ⟨h.outer_kind, h.outer_parent⟩
  · have hout : ¬ (d.size ≤ n ∨ n = p) := not_or.mpr ⟨Nat.not_le_of_lt hn, hnp⟩
    exact ⟨h.kind_eq hout, h.parent_eq hout⟩

theorem grounded_old (hground : d.Grounded n) : t.Grounded n :=
  (hground.of_above_same h.linked h.size_le fun _ hm =>
    h.old_eq (hground.linked.above_lt hm hground.lt)).1

theorem lookupNamespace_old (hground : d.Grounded n) (qualifier : Option String) :
    t.lookupNamespace n qualifier = d.lookupNamespace n qualifier :=
  (hground.of_above_same h.linked h.size_le fun _ hm =>
    h.old_eq (hground.linked.above_lt hm hground.lt)).2.1 qualifier

/-- A new node below `p` reads its attributes as a node with its name and its declarations would. -/
theorem attributeMatches_new (hp : d.Grounded p) (hcopy : t.parent copy = some p) {e : NodeId}
    (hname : t.name? copy = d.name? e) (hdeclared : t.declared? copy = d.declared? e) :
    t.attributeMatches copy = d.attributeMatchesBelow p e :=
  (Grounded.of_parent h.linked (h.grounded_old hp).rooted hcopy).attributeMatches_eq_below hcopy
    hname hdeclared (h.lookupNamespace_old hp)

end Within

/-! ## A node before another -/

/-- The new node `copy` stands before `x` among the children of `p`. Nothing else has changed but
that there are new nodes. -/
structure Inserted (p x copy : NodeId) (d t : Document) : Prop
    extends Within (d.size ≤ ·) p d t where
  new : d.size ≤ copy
  lt : copy < t.size
  parent_copy : t.parent copy = some p
  children_outer : ∃ front back, d.children p = front ++ x :: back ∧
    t.children p = front ++ copy :: x :: back
  below_copy : ∀ m, t.Below copy m → d.size ≤ m

namespace Inserted

variable (h : Inserted p x copy d t)

include h

theorem mem_children : x ∈ d.children p := by
  obtain ⟨front, back, hchildren, -⟩ := h.children_outer
  rw [hchildren]
  exact List.mem_append_right front List.mem_cons_self

variable (hlinked : d.WellLinked)

include hlinked

theorem lt_size : p < d.size ∧ x < d.size := hlinked.child_lt p x h.mem_children

theorem parent_old : t.parent x = some p := by
  rw [(h.old_eq (h.lt_size hlinked).2).2]
  exact hlinked.parent_eq h.mem_children

end Inserted

section Steps

variable {good : NodeId → NodeKind → Prop} {h : Nat} {d₁ d₂ d₃ : Document}
  (hlinked : d.WellLinked) (hx : d.parent x = some p) (hcopy : Copied good h d d₁ copy)
  (hinsert : outcome (insertBefore x copy) d₁ = (.ok (), d₂)) (hrelabeled : Relabeled copy d₂ d₃)

include hlinked hx hcopy hinsert

/-- A copy that was made is put before a node. -/
theorem Copied.exists_place : ∃ front back, d.children p = front ++ x :: back ∧
    d₁.children p = d.children p ∧ d₂ = d₁.place p front.length copy := by
  have hlt := hlinked.lt_of_parent hx
  have hx₁ : d₁.parent x = some p := by rw [hcopy.grown.parent_eq (Nat.not_le_of_lt hlt.2), hx]
  have hkept := hcopy.grown.children_eq (Nat.not_le_of_lt hlt.1)
  obtain ⟨front, back, hchildren, hplaced⟩ :=
    hcopy.grown.linked.exists_insertBefore hx₁ hcopy.parent_eq
  rw [hinsert] at hplaced
  exact ⟨front, back, hkept ▸ hchildren, hkept, (Prod.mk.inj hplaced).2⟩

include hrelabeled

/-- The copy is retouched at its place. -/
theorem Copied.children_inserted : ∃ front back, d.children p = front ++ x :: back ∧
    ∀ n, d₃.children n = if n = p then front ++ copy :: x :: back else d₁.children n := by
  have hp₁ := Nat.lt_of_lt_of_le (hlinked.lt_of_parent hx).1 hcopy.grown.size_le
  obtain ⟨front, back, hchildren, hkept, rfl⟩ := hcopy.exists_place hlinked hx hinsert
  refine ⟨front, back, hchildren, fun n => ?_⟩
  rw [hrelabeled.children_eq, children_place hp₁, hkept, hchildren, insertIdx_length_append]

/-- Of what was there when the copy was made, only the copy and the node that it is put below are
changed. -/
theorem Copied.confined_inserted : Confined (fun n => n = copy ∨ n = p) d₁ d₃ := by
  have hlt := hlinked.lt_of_parent hx
  have hp₁ := Nat.lt_of_lt_of_le hlt.1 hcopy.grown.size_le
  obtain ⟨front, back, hchildren, hkept, rfl⟩ := hcopy.exists_place hlinked hx hinsert
  have hroot : copy ≠ root := by
    rintro rfl
    exact Nat.not_le_of_lt (Nat.lt_of_le_of_lt (Nat.zero_le x) hlt.2) hcopy.new
  have hindex : front.length ≤ (d₁.children p).length := by
    rw [hkept, hchildren, List.length_append]
    exact Nat.le_add_right ..
  refine Confined.trans (.of_kind ?_ (Nat.le_of_eq (size_place d₁ _).symm) (kind_place d₁ p _ copy)
    fun n hn => ?_) (hrelabeled.confined.mono fun n hn => .inl hn)
  · exact hcopy.grown.linked.place hcopy.parent_eq hroot hp₁ hcopy.lt hindex
  · rw [not_or] at hn
    exact node_place_of_ne hn.1 hn.2

theorem Inserted.of_steps : Inserted p x copy d d₃ := by
  have hlt := hlinked.lt_of_parent hx
  have hconfined := hcopy.confined_inserted hlinked hx hinsert hrelabeled
  obtain ⟨front, back, hchildren, hall⟩ := hcopy.children_inserted hlinked hx hinsert hrelabeled
  obtain ⟨_, _, -, -, rfl⟩ := hcopy.exists_place hlinked hx hinsert
  have hp : p ≠ copy := Nat.ne_of_lt (Nat.lt_of_lt_of_le hlt.1 hcopy.new)
  have hold := Nat.not_le_of_lt hlt.1
  have hboth : Confined (fun n => d.size ≤ n ∨ n = p) d d₃ := by
    apply (hcopy.grown.mono fun n hn => .inl hn).trans (hconfined.mono _)
    rintro n (rfl | hn)
    · exact .inl hcopy.new
    · exact .inr hn
  refine ⟨⟨hboth, ?_, ?_⟩, hcopy.new, Nat.lt_of_lt_of_le hcopy.lt hconfined.size_le, ?_,
    ⟨front, back, hchildren, by rw [hall, if_pos rfl]⟩, fun m hm => ?_⟩
  · rw [hrelabeled.confined.kind_eq hp, kind_place, hcopy.grown.kind_eq hold]
  · rw [hrelabeled.parent_eq, parent_place hcopy.lt, if_neg hp, hcopy.grown.parent_eq hold]
  · rw [hrelabeled.parent_eq, parent_place hcopy.lt, if_pos rfl]
  · -- Below the copy are the nodes that were made for it.
    induction hm with
    | refl => exact hcopy.new
    | @child q c _ hchild ih =>
        rw [hall, if_neg] at hchild
        · exact hcopy.grown.child_new hlinked ih hchild
        · rintro rfl
          exact hold ih

/-- What the copy stood for when it was made, it stands for at its place. -/
theorem Copied.mirrors_inserted {y : NodeId} (hmirrors : Mirrors d d₁ y copy) :
    Mirrors d d₃ y copy := by
  have hconfined := hcopy.confined_inserted hlinked hx hinsert hrelabeled
  obtain ⟨front, back, -, hall⟩ := hcopy.children_inserted hlinked hx hinsert hrelabeled
  have hnew : ∀ m, d₁.Below copy m → m ≠ p := by
    rintro _ hm rfl
    have hsize := hcopy.grown.below_new hlinked hcopy.new hm
    exact Nat.not_le_of_lt (hlinked.lt_of_parent hx).1 hsize
  apply hmirrors.congr_right hcopy.grown.linked (.of_parent hcopy.parent_eq)
  · intro m hm
    rw [hall, if_neg (hnew m hm)]
  · intro m hm hne
    exact hconfined.kind_eq (not_or.mpr ⟨hne, hnew m hm⟩)

end Steps

/-! ## One node in the place of another -/

/-- The number that stands where `c` stood when `copy` has taken the place of `x`. -/
def inPlace (x copy c : NodeId) : NodeId := if c = x then copy else c

/-- The new node `copy` stands where `x` stood, and `x` has no parent any more. Nothing else has
changed but that there are new nodes. -/
structure Exchanged (x copy : NodeId) (d t : Document) : Prop where
  linked : t.WellLinked
  size_le : d.size ≤ t.size
  new : d.size ≤ copy
  lt : copy < t.size
  kind_eq : ∀ n < d.size, t.kind n = d.kind n
  parent_eq : ∀ n < d.size, t.parent n = if n = x then none else d.parent n
  children_eq : ∀ n < d.size, t.children n = (d.children n).map (inPlace x copy)
  parent_copy : t.parent copy = d.parent x
  below_copy : ∀ m, t.Below copy m → d.size ≤ m

theorem map_inPlace_of_not_mem {children : List NodeId} (hx : x ∉ children) :
    children.map (inPlace x copy) = children := by
  refine (List.map_congr_left fun c hc => ?_).trans (List.map_id children)
  rw [inPlace, if_neg, id]
  rintro rfl
  exact hx hc

/-- Putting a node before another and taking that out exchanges the two. -/
theorem filter_exchange {front back : List NodeId} (hnodup : (front ++ x :: back).Nodup)
    (hne : copy ≠ x) : (front ++ copy :: x :: back).filter (· ≠ x) =
      (front ++ x :: back).map (inPlace x copy) := by
  obtain ⟨-, hback, hapart⟩ := List.nodup_append.mp hnodup
  have hxfront : x ∉ front := fun hmem => hapart x hmem x List.mem_cons_self rfl
  have hxback : x ∉ back := (List.nodup_cons.mp hback).1
  rw [List.filter_append, filter_of_not_mem hxfront, List.filter_cons_of_pos (by simpa using hne),
    List.filter_cons_of_neg (by simp), filter_of_not_mem hxback, List.map_append, List.map_cons,
    map_inPlace_of_not_mem hxfront, map_inPlace_of_not_mem hxback, inPlace, if_pos rfl]

/-- Where the other node is taken out, the new one stands in its place. -/
theorem Inserted.exchanged (h : Inserted p x copy d t) (hlinked : d.WellLinked) :
    Exchanged x copy d (t.detach x) := by
  have hlt := h.lt_size hlinked
  have hne : copy ≠ x := Nat.ne_of_gt (Nat.lt_of_lt_of_le hlt.2 h.new)
  have hx := hlinked.parent_eq h.mem_children
  refine ⟨h.linked.detach x, size_detach t ▸ h.size_le, h.new, size_detach t ▸ h.lt,
    fun n hn => ?_, fun n hn => ?_, fun n hn => ?_, ?_, fun m hm => ?_⟩
  · rw [kind_detach, (h.old_eq hn).1]
  · rw [h.linked.parent_detach, (h.old_eq hn).2]
  · rw [h.linked.children_detach]
    by_cases hnp : n = p
    · obtain ⟨front, back, hchildren, hchildren'⟩ := h.children_outer
      have hnodup := hlinked.nodup_children p
      rw [hchildren] at hnodup
      rw [hnp, hchildren', hchildren, filter_exchange hnodup hne]
    · have hnot : x ∉ d.children n := by
        intro hmem
        exact hnp (Option.some.inj ((hlinked.parent_eq hmem).symm.trans hx))
      rw [h.children_eq (not_or.mpr ⟨Nat.not_le_of_lt hn, hnp⟩), filter_of_not_mem hnot,
        map_inPlace_of_not_mem hnot]
  · rw [h.linked.parent_detach, if_neg hne, h.parent_copy, hx]
  · apply h.below_copy
    apply hm.of_congr
    intro m hm c hc
    rw [h.linked.children_detach] at hc
    exact (List.mem_filter.mp hc).1

/-- Taking out the other node does not concern the new one. -/
theorem Inserted.mirrors_detach (h : Inserted p x copy d t) (hlinked : d.WellLinked)
    {d' : Document} {y : NodeId} (hrooted : d.Rooted p) (hmirrors : Mirrors d' t y copy) :
    Mirrors d' (t.detach x) y copy := by
  have hlt := h.lt_size hlinked
  have hground := h.grounded_old ⟨hlinked, hlt.1, hrooted⟩
  have hcopy := Grounded.of_parent h.linked hground.rooted h.parent_copy
  apply hmirrors.congr_right h.linked hcopy.rooted
  · intro m hm
    rw [h.linked.children_detach, filter_of_not_mem]
    intro hmem
    -- The node that is taken out is a child of a node of the document.
    obtain rfl := Option.some.inj ((h.linked.parent_eq hmem).symm.trans (h.parent_old hlinked))
    exact Nat.not_le_of_lt hlt.1 (h.below_copy _ hm)
  · intro m _ _
    exact kind_detach t x m

end PageTemplate.Markup.Document
