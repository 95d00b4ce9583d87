import PageTemplate.Proofs.Ensures
import PageTemplate.Proofs.Markup.Below
import PageTemplate.Proofs.Markup.NodeTable

/-! # Links after an edit

Every edit keeps the links of a document in agreement. It changes the parents of the nodes it
moves and the child lists that these leave or enter, and nothing else.
-/

namespace PageTemplate.Markup.Document

variable {d d' : Document} {x n p new child : NodeId}

/-! ## Fields of an updated node -/

section Update

variable {value : Option NodeId} {f : List NodeId → List NodeId}

@[simp] theorem kind_update_parent :
    (d.update x fun node => { node with parent := value }).kind n = d.kind n := by
  unfold kind
  rw [node_update]
  split <;> rfl

@[simp] theorem kind_update_children :
    (d.update x fun node => { node with children := f node.children }).kind n = d.kind n := by
  unfold kind
  rw [node_update]
  split <;> rfl

@[simp] theorem parent_update_children :
    (d.update x fun node => { node with children := f node.children }).parent n =
      d.parent n := by
  unfold parent
  rw [node_update]
  split <;> rfl

@[simp] theorem children_update_parent :
    (d.update x fun node => { node with parent := value }).children n = d.children n := by
  unfold children
  rw [node_update]
  split <;> rfl

theorem parent_update_parent (hx : x < d.size) :
    (d.update x fun node => { node with parent := value }).parent n =
      if n = x then value else d.parent n := by
  unfold parent
  rw [node_update]
  by_cases hn : n = x <;> simp [hn, hx]

theorem children_update_children (hx : x < d.size) :
    (d.update x fun node => { node with children := f node.children }).children n =
      if n = x then f (d.children x) else d.children n := by
  unfold children
  rw [node_update]
  by_cases hn : n = x <;> simp [hn, hx]

theorem parent_update_kind (change : NodeKind → NodeKind) :
    (d.update x fun node => { node with kind := change node.kind }).parent n = d.parent n := by
  unfold parent
  rw [node_update]
  split <;> rfl

theorem children_update_kind (change : NodeKind → NodeKind) :
    (d.update x fun node => { node with kind := change node.kind }).children n =
      d.children n := by
  unfold children
  rw [node_update]
  split <;> rfl

@[simp] theorem parent_updateElement (change : Element → Element) :
    (d.updateElement x change).parent n = d.parent n :=
  parent_update_kind (·.mapElement change)

@[simp] theorem children_updateElement (change : Element → Element) :
    (d.updateElement x change).children n = d.children n :=
  children_update_kind (·.mapElement change)

@[simp] theorem parent_setKind (kind : NodeKind) : (d.setKind x kind).parent n = d.parent n :=
  parent_update_kind fun _ => kind

@[simp] theorem children_setKind (kind : NodeKind) :
    (d.setKind x kind).children n = d.children n :=
  children_update_kind fun _ => kind

end Update

/-- The links of a document agree, wherever the document node stands. -/
structure Linked (d : Document) : Prop where
  mem_children_iff : ∀ parent child, child ∈ d.children parent ↔ d.parent child = some parent
  nodup_children : ∀ parent, (d.children parent).Nodup
  child_lt : ∀ parent child, child ∈ d.children parent → parent < d.size ∧ child < d.size

theorem WellLinked.toLinked (hlinked : d.WellLinked) : d.Linked :=
  ⟨hlinked.mem_children_iff, hlinked.nodup_children, hlinked.child_lt⟩

theorem Linked.wellLinked (hlinked : d.Linked) (hroot : d.parent root = none) : d.WellLinked :=
  ⟨hlinked.mem_children_iff, hlinked.nodup_children, hlinked.child_lt, hroot⟩

namespace Linked

variable (hlinked : d.Linked)

include hlinked

theorem parent_eq (h : n ∈ d.children p) : d.parent n = some p :=
  (hlinked.mem_children_iff p n).mp h

theorem lt_of_parent (h : d.parent n = some p) : p < d.size ∧ n < d.size :=
  hlinked.child_lt p n ((hlinked.mem_children_iff p n).mpr h)

/-- Links that stay the same stay in agreement. -/
theorem of_links (hsize : d.size ≤ d'.size)
    (hparent : ∀ n, d'.parent n = d.parent n) (hchildren : ∀ n, d'.children n = d.children n) :
    d'.Linked := by
  refine ⟨fun p c => ?_, fun p => ?_, fun p c hc => ?_⟩
  · rw [hchildren, hparent]
    exact hlinked.mem_children_iff p c
  · rw [hchildren]
    exact hlinked.nodup_children p
  · rw [hchildren] at hc
    obtain ⟨hp, hc⟩ := hlinked.child_lt p c hc
    exact ⟨Nat.lt_of_lt_of_le hp hsize, Nat.lt_of_lt_of_le hc hsize⟩

end Linked

theorem WellLinked.of_links (hlinked : d.WellLinked) (hsize : d.size ≤ d'.size)
    (hparent : ∀ n, d'.parent n = d.parent n) (hchildren : ∀ n, d'.children n = d.children n) :
    d'.WellLinked :=
  (hlinked.toLinked.of_links hsize hparent hchildren).wellLinked
    ((hparent root).trans hlinked.parent_root)

/-- A new node has no links, and the others have the links they had. -/
theorem links_create (d : Document) (kind : NodeKind) (n : NodeId) :
    (d.create kind).1.parent n = d.parent n ∧ (d.create kind).1.children n = d.children n := by
  unfold parent children
  rw [node_create]
  split
  next hn =>
    rw [hn, node_of_size_le d (Nat.le_refl _)]
    exact ⟨rfl, rfl⟩
  next => exact ⟨rfl, rfl⟩

theorem Linked.create (hlinked : d.Linked) (kind : NodeKind) : (d.create kind).1.Linked := by
  refine hlinked.of_links ?_ (fun n => (links_create d kind n).1) fun n => (links_create d kind n).2
  rw [size_create]
  exact Nat.le_succ _

theorem WellLinked.create (hlinked : d.WellLinked) (kind : NodeKind) :
    (d.create kind).1.WellLinked :=
  (hlinked.toLinked.create kind).wellLinked ((links_create d kind root).1.trans hlinked.parent_root)

theorem WellLinked.updateElement (hlinked : d.WellLinked) (x : NodeId)
    (change : Element → Element) : (d.updateElement x change).WellLinked := by
  have hsize : (d.updateElement x change).size = d.size := size_updateElement d change
  exact hlinked.of_links (Nat.le_of_eq hsize.symm) (fun _ => parent_updateElement change)
    fun _ => children_updateElement change

/-! ## Taking a node out -/

theorem kind_detach (d : Document) (x n : NodeId) : (d.detach x).kind n = d.kind n := by
  unfold detach
  split
  · rfl
  · simp only [kind_update_children, kind_update_parent]

section Detach

variable (hlinked : d.Linked) (x n : NodeId)

include hlinked

theorem Linked.parent_detach : (d.detach x).parent n = if n = x then none else d.parent n := by
  unfold detach
  split
  next hnone =>
    split
    next hn => rw [hn, hnone]
    next => rfl
  next p hp => rw [parent_update_children, parent_update_parent (hlinked.lt_of_parent hp).2]

theorem Linked.children_detach :
    (d.detach x).children n = (d.children n).filter (· ≠ x) := by
  have hother : d.parent x ≠ some n → (d.children n).filter (· ≠ x) = d.children n := by
    intro hne
    refine List.filter_eq_self.mpr fun c hc => ?_
    have hcx : c ≠ x := fun heq => hne (heq ▸ hlinked.parent_eq hc)
    simpa using hcx
  unfold detach
  split
  next hnone => exact (hother (by simp [hnone])).symm
  next p hp =>
    have hlt := (hlinked.lt_of_parent hp).1
    rw [children_update_children (by rwa [size_update])]
    simp only [children_update_parent]
    split
    next hn => rw [hn]
    next hn => exact (hother (by simpa [hp] using fun heq => hn heq.symm)).symm

omit n in
theorem Linked.detach : (d.detach x).Linked := by
  refine ⟨fun p c => ?_, fun p => ?_, fun p c hc => ?_⟩
  · rw [hlinked.children_detach, hlinked.parent_detach, List.mem_filter,
      hlinked.mem_children_iff p c]
    by_cases hc : c = x <;> simp [hc]
  · rw [hlinked.children_detach]
    exact (hlinked.nodup_children p).filter _
  · rw [hlinked.children_detach] at hc
    rw [size_detach]
    exact hlinked.child_lt p c (List.mem_filter.mp hc).1

end Detach

theorem WellLinked.parent_detach (hlinked : d.WellLinked) (x n : NodeId) :
    (d.detach x).parent n = if n = x then none else d.parent n :=
  hlinked.toLinked.parent_detach x n

theorem WellLinked.children_detach (hlinked : d.WellLinked) (x n : NodeId) :
    (d.detach x).children n = (d.children n).filter (· ≠ x) :=
  hlinked.toLinked.children_detach x n

theorem WellLinked.detach (hlinked : d.WellLinked) (x : NodeId) : (d.detach x).WellLinked := by
  refine (hlinked.toLinked.detach x).wellLinked ?_
  rw [hlinked.parent_detach, hlinked.parent_root]
  split <;> rfl

/-! ## Giving a node a place -/

section Place

variable {index : Nat}

theorem kind_place (d : Document) (p index child n : NodeId) :
    (d.place p index child).kind n = d.kind n := by
  unfold place
  rw [kind_update_children (f := (·.insertIdx index child)), kind_update_parent]

theorem parent_place (hchild : child < d.size) :
    (d.place p index child).parent n = if n = child then some p else d.parent n := by
  unfold place
  rw [parent_update_children (f := (·.insertIdx index child)), parent_update_parent hchild]

theorem children_place (hp : p < d.size) :
    (d.place p index child).children n =
      if n = p then (d.children p).insertIdx index child else d.children n := by
  unfold place
  rw [children_update_children (f := (·.insertIdx index child)) (by rwa [size_update])]
  simp only [children_update_parent]

/-- A node is moved behind the last child. -/
theorem Linked.children_append (hlinked : d.Linked) (hp : p < d.size) :
    (d.append p child).children n =
      if n = p then (d.children p).filter (· ≠ child) ++ [child]
      else (d.children n).filter (· ≠ child) := by
  unfold append
  rw [children_place (by rwa [size_detach]), hlinked.children_detach, hlinked.children_detach,
    List.insertIdx_length_self]

theorem Linked.place (hlinked : d.Linked) (hnone : d.parent child = none) (hp : p < d.size)
    (hchild : child < d.size) (hindex : index ≤ (d.children p).length) :
    (d.place p index child).Linked := by
  have hnew : ∀ q, child ∉ d.children q := by
    intro q hmem
    rw [hlinked.parent_eq hmem] at hnone
    cases hnone
  refine ⟨fun q c => ?_, fun q => ?_, fun q c hc => ?_⟩
  · rw [children_place hp, parent_place hchild]
    have hlinks := hlinked.mem_children_iff q c
    by_cases hq : q = p
    · rw [if_pos hq, List.mem_insertIdx hindex]
      by_cases hc : c = child
      · simp [hc, hq]
      · rw [if_neg hc, ← hlinks, hq]
        simp [hc]
    · rw [if_neg hq, hlinks]
      by_cases hc : c = child
      · rw [if_pos hc, hc, hnone]
        simpa using fun heq => hq heq.symm
      · rw [if_neg hc]
  · rw [children_place hp]
    split
    · have hperm := List.perm_insertIdx child (d.children p) hindex
      exact hperm.nodup_iff.mpr (List.nodup_cons.mpr ⟨hnew p, hlinked.nodup_children p⟩)
    · exact hlinked.nodup_children q
  · rw [children_place hp] at hc
    rw [size_place]
    split at hc
    next hq =>
      rcases (List.mem_insertIdx hindex).mp hc with rfl | hc
      · exact ⟨hq ▸ hp, hchild⟩
      · exact ⟨hq ▸ hp, (hlinked.child_lt p c hc).2⟩
    next => exact hlinked.child_lt q c hc

theorem WellLinked.place (hlinked : d.WellLinked) (hnone : d.parent child = none)
    (hroot : child ≠ root) (hp : p < d.size) (hchild : child < d.size)
    (hindex : index ≤ (d.children p).length) : (d.place p index child).WellLinked := by
  refine (hlinked.toLinked.place hnone hp hchild hindex).wellLinked ?_
  rw [parent_place hchild, if_neg (Ne.symm hroot)]
  exact hlinked.parent_root

end Place

end PageTemplate.Markup.Document
