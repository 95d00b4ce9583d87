import PageTemplate.Proofs.Markup.Exchange

/-! # Nodes that are moved beside others

A node that is moved right before another one leaves the list it stood in and stands there. When an
element loses its tag, its children stand in its place, and no other list changes.
-/

namespace PageTemplate.Markup.Document

variable {d t u : Document} {x p c n m top : NodeId} {l nodes front back : List NodeId}

/-! ## One node -/

/-- Nodes can be moved before `x`: they are others, and the document node is not among them. -/
def Movable (d : Document) (x : NodeId) (nodes : List NodeId) : Prop :=
  ∀ c ∈ nodes, c ≠ x ∧ c ≠ root ∧ c < d.size

theorem movable_children (hlinked : d.WellLinked) (hrooted : d.Rooted x) :
    Movable d x (d.children x) := by
  intro c hc
  obtain ⟨top, htop, hx⟩ := hrooted
  refine ⟨?_, ?_, (hlinked.child_lt x c hc).2⟩
  · rintro rfl
    exact hlinked.not_below_parent htop hx (hlinked.parent_eq hc) .refl
  · rintro rfl
    exact absurd (hlinked.parent_eq hc) (by simp [hlinked.parent_root])

theorem Movable.tail (h : Movable d x (c :: l)) (hsize : t.size = d.size) : Movable t x l := by
  intro n hn
  rw [hsize]
  exact h n (List.mem_cons_of_mem c hn)

/-- A node is moved right before another one, which keeps its place. -/
structure Moved (x p c : NodeId) (d t : Document) : Prop where
  linked : t.WellLinked
  parent_eq : t.parent x = some p
  size_eq : t.size = d.size
  exists_place : ∃ front back, (d.detach c).children p = front ++ x :: back ∧
    t = (d.detach c).place p front.length c

theorem WellLinked.exists_moved (hlinked : d.WellLinked) (hx : d.parent x = some p) (hne : c ≠ x)
    (hroot : c ≠ root) (hlt : c < d.size) :
    ∃ t, outcome (insertBefore x c) d = (.ok (), t) ∧ Moved x p c d t := by
  have hfreed := hlinked.detach c
  have hx' : (d.detach c).parent x = some p := by
    rw [hlinked.parent_detach, if_neg hne.symm, hx]
  have hc : (d.detach c).parent c = none := by rw [hlinked.parent_detach, if_pos rfl]
  obtain ⟨front, back, hchildren⟩ := List.append_of_mem (hfreed.mem_children hx')
  have hlt' : c < (d.detach c).size := by rwa [size_detach]
  refine ⟨(d.detach c).place p front.length c, ?_,
    hfreed.place hc hroot (hfreed.lt_of_parent hx').1 hlt' ?_, ?_, ?_, front, back, hchildren, rfl⟩
  · rw [outcome_insertBefore, hfreed.toLinked.positionOf?_eq hchildren]
  · rw [hchildren, List.length_append]
    exact Nat.le_add_right _ _
  · rw [parent_place hlt', if_neg hne.symm, hx']
  · rw [size_place, size_detach]

/-! ## An element without its tag -/

/-- What stands for a node in a list of children after `x` has lost its tag. -/
def untagged (d : Document) (x n : NodeId) : List NodeId := if n = x then d.children x else [n]

theorem flatMap_untagged_of_not_mem (hx : x ∉ l) : l.flatMap (d.untagged x) = l := by
  have hsame : ∀ n ∈ l, d.untagged x n = [n] := by
    intro n hn
    apply if_neg
    rintro rfl
    exact hx hn
  rw [List.flatMap_congr hsame, List.flatMap_singleton']

/-- An element has lost its tag: it stands aside without children, and they stand in its place. -/
structure Untagged (x : NodeId) (d t : Document) : Prop where
  linked : t.WellLinked
  size_eq : t.size = d.size
  kind_eq : ∀ n, t.kind n = d.kind n
  parent_self : t.parent x = none
  children_self : t.children x = []
  children_eq : ∀ n, n ≠ x → t.children n = (d.children n).flatMap (d.untagged x)

theorem WellLinked.exists_untagged (hlinked : d.WellLinked) (hrooted : d.Rooted x)
    (hx : d.parent x = some p) :
    ∃ t, outcome (omitTag x) d = (.ok (d.children x), t) ∧ Untagged x d t := by
  have hself : d.parent x ≠ some x := by
    obtain ⟨top, htop, hbelow⟩ := hrooted
    exact fun hself => hlinked.not_below_parent htop hbelow hself .refl
  have hpx : x ≠ p := by
    rintro rfl
    exact hself hx
  obtain ⟨front, back, hchildren⟩ := List.append_of_mem (hlinked.mem_children hx)
  obtain ⟨t, homit, ht, hnone, hmoved⟩ := hlinked.toLinked.exists_omitTag hself hchildren
  have hnot : x ∉ d.children x := fun hmem => hself (hlinked.parent_eq hmem)
  have hroot : t.parent root = none := by
    have hchild : root ∉ d.children x := fun hmem => by
      have hparent := hlinked.parent_eq hmem
      rw [hlinked.parent_root] at hparent
      cases hparent
    rw [hmoved.parent_eq, if_neg hchild, hlinked.parent_root, ite_self]
  refine ⟨t, homit, ht.wellLinked hroot, hmoved.size_eq, hmoved.kind_eq, ?_, hnone, fun n hn => ?_⟩
  · rw [hmoved.parent_eq, if_neg hnot, if_pos (List.mem_singleton_self x)]
  · rw [hmoved.children_eq]
    by_cases hnp : n = p
    · have hnodup := hlinked.nodup_children p
      rw [hchildren, List.nodup_middle, List.nodup_cons, List.mem_append, not_or] at hnodup
      rw [if_pos hnp, hnp, hchildren, List.flatMap_append, List.flatMap_cons,
        flatMap_untagged_of_not_mem hnodup.1.1, flatMap_untagged_of_not_mem hnodup.1.2, untagged,
        if_pos rfl, List.append_assoc]
    · have hother : x ∉ d.children n := fun hmem =>
        hnp (Option.some.inj ((hlinked.parent_eq hmem).symm.trans hx))
      have hkept : ∀ c ∈ d.children n, c ∉ d.children x := fun c hc hcx =>
        hn (Option.some.inj ((hlinked.parent_eq hc).symm.trans (hlinked.parent_eq hcx)))
      rw [if_neg hnp, flatMap_untagged_of_not_mem hother]
      apply List.filter_eq_self.mpr
      simpa using hkept

/-- What is still below a node was below it before. -/
theorem Untagged.below_of (h : Untagged x d t) (hm : t.Below top m) : d.Below top m := by
  induction hm with
  | refl => exact .refl
  | @child n c _ hchild ih =>
      by_cases hn : n = x
      · rw [hn, h.children_self] at hchild
        cases hchild
      · rw [h.children_eq n hn, List.mem_flatMap] at hchild
        obtain ⟨q, hq, hc⟩ := hchild
        unfold untagged at hc
        split at hc
        next heq => exact (ih.child (heq ▸ hq)).child hc
        next =>
          rw [List.mem_singleton.mp hc]
          exact ih.child hq

end PageTemplate.Markup.Document
