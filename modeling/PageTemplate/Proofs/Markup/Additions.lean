import PageTemplate.Proofs.Markup.Acyclicity
import PageTemplate.Proofs.Markup.Grafting

/-! # Edits of added nodes

Nodes that were added to a document, and that none of the others leads to, can be edited without
a change of the nodes that were there before. Unlike what keeps to the part of an element, this
asks nothing of the older nodes: they may lie in the tree or not, and their child lists may even
lead in circles.
-/

namespace PageTemplate.Markup.Document

variable {d d' d'' : Document} {x n p new reference : NodeId} {index : Nat}

/-- An insertion puts the new node before the node that it is given, or takes the new node out of
the tree and fails. -/
theorem ensures_insertBefore (d : Document) (reference new : NodeId) :
    Ensures (insertBefore reference new) d
      (fun _ d' => ∃ p index, (d.detach new).positionOf? reference = some (p, index) ∧
        d' = (d.detach new).place p index new)
      (fun _ d' => d' = d.detach new) := by
  have houtcome := outcome_insertBefore d reference new
  cases hposition : (d.detach new).positionOf? reference with
  | none =>
      rw [hposition] at houtcome
      exact .of_eq _ houtcome rfl
  | some found =>
      rw [hposition] at houtcome
      exact .of_eq _ houtcome ⟨_, _, rfl, rfl⟩

namespace Extends

variable (h : Extends d d') (hlinked : d.WellLinked)

include h

theorem relabeled (hx : d.size ≤ x) (hrelabeled : Relabeled x d' d'') : Extends d d'' := by
  refine Confined.trans h (hrelabeled.confined.mono ?_)
  rintro _ rfl
  exact hx

/-- A new node is placed among the children of a new node. -/
theorem place (hroot : root < d.size) (hp : d.size ≤ p) (hplt : p < d'.size) (hnew : d.size ≤ new)
    (hlt : new < d'.size) (hnone : d'.parent new = none)
    (hindex : index ≤ (d'.children p).length) : Extends d (d'.place p index new) := by
  have hne : new ≠ root := Nat.ne_of_gt (Nat.lt_of_lt_of_le hroot hnew)
  refine Confined.trans h (.of_kind (h.linked.place hnone hne hplt hlt hindex)
    (Nat.le_of_eq (size_place d' index).symm) (kind_place d' p index new) fun n hn => ?_)
  refine node_place_of_ne ?_ ?_
  · rintro rfl
    exact hn hnew
  · rintro rfl
    exact hn hp

include hlinked

/-- New nodes have no parents but new ones. -/
theorem parent_new (hn : d.size ≤ n) (hp : d'.parent n = some p) : d.size ≤ p := by
  by_contra hold
  have hchild := h.linked.mem_children hp
  rw [h.children_eq hold] at hchild
  exact absurd (hlinked.child_lt p n hchild).2 (Nat.not_lt_of_le hn)

theorem detach (hx : d.size ≤ x) : Extends d (d'.detach x) := by
  refine Confined.trans h (.of_kind (h.linked.detach x) (Nat.le_of_eq (size_detach d').symm)
    (kind_detach d' x) fun n hn => ?_)
  refine node_detach_of_ne ?_ ?_
  · rintro rfl
    exact hn hx
  · intro hparent
    exact hn (h.parent_new hlinked hx hparent)

/-- Inserting a new node before a new one is an edit of new nodes, and so is the failure to insert
a new node anywhere. -/
theorem insertBefore (reference : NodeId) (hroot : root < d.size) (hnew : d.size ≤ new) :
    Ensures (insertBefore reference new) d'
      (fun _ t => d.size ≤ reference → new < d'.size → Extends d t) (fun _ => Extends d) := by
  have hdetached := h.detach hlinked hnew
  refine (ensures_insertBefore d' reference new).mono ?_ ?_
  · rintro _ _ ⟨p, index, hposition, rfl⟩ hreference hlt
    obtain ⟨hparent, hindex⟩ := Coherent.positionOf?_eq_some hposition
    have hp := hdetached.parent_new hlinked hreference hparent
    refine hdetached.place hroot hp (hdetached.linked.lt_of_parent hparent).1 hnew ?_ ?_
      (Nat.le_of_lt hindex)
    · rwa [size_detach]
    · rw [h.linked.parent_detach, if_pos rfl]
  · rintro _ _ rfl
    exact hdetached

/-- A replacement by a new node fails before anything old is changed. -/
theorem replace (hroot : root < d.size) (hnew : d.size ≤ new) :
    Ensures (replace x [new]) d' (fun _ _ => True) (fun _ => Extends d) := by
  unfold Document.replace
  have hinsert := h.insertBefore hlinked x hroot hnew
  show Ensures ((Document.insertBefore x new >>= fun _ => [].forM (Document.insertBefore x)) >>=
    fun _ => modify (·.detach x)) d' _ _
  refine Ensures.bind (Ensures.bind (hinsert.mono (fun _ t _ => ?_) fun _ _ => id))
  exact Ensures.pure (Ensures.modify trivial)

/-- What was added is in no tree of the document. -/
theorem not_isAttached (hroot : root < d.size) (hn : d.size ≤ n) : d'.isAttached n = false := by
  rw [Bool.eq_false_iff]
  intro hattached
  have hbelow : d'.Below root n :=
    below_of_mem_lineage h.linked (List.contains_iff_mem.mp hattached)
  rw [h.below_old hlinked hroot] at hbelow
  exact absurd (hlinked.below_lt hbelow hroot) (Nat.not_lt_of_le hn)

end Extends

end PageTemplate.Markup.Document
