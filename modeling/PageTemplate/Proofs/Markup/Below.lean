import Mathlib.Data.List.Perm.Subperm
import PageTemplate.Markup.Document

/-! # What lies below a node

Child lists lead from a node to the nodes below it. When the links of a document agree and a node
lies below one without a parent, no way down comes back, and no way is longer than the table of
nodes.
-/

namespace PageTemplate.Markup.Document

/-- The node is `top`, or child lists lead from `top` to it. -/
inductive Below (d : Document) (top : NodeId) : NodeId → Prop where
  | refl : Below d top top
  | child {parent child : NodeId} (hparent : Below d top parent)
    (hchild : child ∈ d.children parent) : Below d top child

variable {d d' : Document} {top x y n m p : NodeId}

theorem Below.trans (h : d.Below x y) (h' : d.Below y n) : d.Below x n := by
  induction h' with
  | refl => exact h
  | child _ hchild ih => exact ih.child hchild

theorem Below.of_child (hchild : y ∈ d.children x) (h : d.Below y n) : d.Below x n :=
  (Below.refl.child hchild).trans h

/-- What lies below a node still does when no child there is lost. -/
theorem Below.congr (hsame : ∀ m, d.Below x m → d.children m ⊆ d'.children m)
    (h : d.Below x n) : d'.Below x n := by
  induction h with
  | refl => exact .refl
  | child hparent hchild ih => exact ih.child (hsame _ hparent hchild)

/-- Nothing else lies below a node when no child is added there. -/
theorem Below.of_congr (hsame : ∀ m, d.Below x m → d'.children m ⊆ d.children m)
    (h : d'.Below x n) : d.Below x n := by
  induction h with
  | refl => exact .refl
  | child _ hchild ih => exact ih.child (hsame _ ih hchild)

theorem children_of_size_le (h : d.size ≤ n) : d.children n = [] := by
  unfold children node
  rw [Array.getD_eq_getD_getElem?, Array.getElem?_eq_none h]
  rfl

/-! ## One parent for every node -/

section WellLinked

variable (hlinked : d.WellLinked)

include hlinked

theorem WellLinked.parent_eq (h : n ∈ d.children p) : d.parent n = some p :=
  (hlinked.mem_children_iff p n).mp h

theorem WellLinked.mem_children (h : d.parent n = some p) : n ∈ d.children p :=
  (hlinked.mem_children_iff p n).mpr h

theorem WellLinked.lt_of_parent (h : d.parent n = some p) : p < d.size ∧ n < d.size :=
  hlinked.child_lt p n (hlinked.mem_children h)

theorem WellLinked.below_cases (h : d.Below top n) :
    n = top ∨ ∃ p, d.parent n = some p ∧ d.Below top p := by
  cases h with
  | refl => exact .inl rfl
  | child hparent hchild => exact .inr ⟨_, hlinked.parent_eq hchild, hparent⟩

/-- Below a node without a parent lies the parent of every other node there. -/
theorem WellLinked.below_parent (htop : d.parent top = none) (h : d.Below top n)
    (hp : d.parent n = some p) : d.Below top p := by
  rcases hlinked.below_cases h with rfl | ⟨q, hq, hbelow⟩
  · rw [htop] at hp
    cases hp
  · obtain rfl := Option.some.inj (hp.symm.trans hq)
    exact hbelow

theorem WellLinked.below_lt (h : d.Below top n) (htop : top < d.size) : n < d.size := by
  cases h with
  | refl => exact htop
  | child _ hchild => exact (hlinked.child_lt _ _ hchild).2

theorem WellLinked.above_lt (h : d.Below top n) (hn : n < d.size) : top < d.size := by
  induction h with
  | refl => exact hn
  | child _ hchild ih => exact ih (hlinked.child_lt _ _ hchild).1

/-- Of two nodes above a third one lies above the other. -/
theorem WellLinked.below_total (hx : d.Below x n) (hy : d.Below y n) :
    d.Below x y ∨ d.Below y x := by
  induction hx with
  | refl => exact .inr hy
  | child hparent hchild ih =>
      rcases hlinked.below_cases hy with rfl | ⟨q, hq, hyq⟩
      · exact .inl (hparent.child hchild)
      · obtain rfl := Option.some.inj ((hlinked.parent_eq hchild).symm.trans hq)
        exact ih hyq

/-! ## No way comes back -/

/-- Below a node without a parent, a parent is not below its child. -/
theorem WellLinked.not_below_parent (htop : d.parent top = none) (h : d.Below top n)
    (hp : d.parent n = some p) : ¬ d.Below n p := by
  induction h generalizing p with
  | refl =>
      rw [htop] at hp
      cases hp
  | child hparent hchild ih =>
      obtain rfl := Option.some.inj ((hlinked.parent_eq hchild).symm.trans hp)
      intro hback
      rcases hlinked.below_cases hback with rfl | ⟨r, hr, hbelow⟩
      · exact ih hp .refl
      · exact ih hr (.of_child hchild hbelow)

/-- What lies below one of two siblings does not lie below the other. -/
theorem WellLinked.not_below_sibling (htop : d.parent top = none) (htopx : d.Below top x)
    (htopy : d.Below top y) (hx : d.parent x = some p) (hy : d.parent y = some p) (hne : x ≠ y)
    (h : d.Below x n) : ¬ d.Below y n := by
  intro hyn
  rcases hlinked.below_total h hyn with hbelow | hbelow
  · rcases hlinked.below_cases hbelow with rfl | ⟨q, hq, hxq⟩
    · exact hne rfl
    · obtain rfl := Option.some.inj (hy.symm.trans hq)
      exact hlinked.not_below_parent htop htopx hx hxq
  · rcases hlinked.below_cases hbelow with rfl | ⟨q, hq, hyq⟩
    · exact hne rfl
    · obtain rfl := Option.some.inj (hx.symm.trans hq)
      exact hlinked.not_below_parent htop htopy hy hyq

/-- Different nodes without parents have nothing below them in common. -/
theorem WellLinked.eq_of_below (hx : d.parent x = none) (hy : d.parent y = none)
    (hxn : d.Below x n) (hyn : d.Below y n) : x = y := by
  rcases hlinked.below_total hxn hyn with h | h
  · rcases hlinked.below_cases h with rfl | ⟨q, hq, -⟩
    · rfl
    · rw [hy] at hq
      cases hq
  · rcases hlinked.below_cases h with rfl | ⟨q, hq, -⟩
    · rfl
    · rw [hx] at hq
      cases hq

end WellLinked

/-- Different numbers below a bound are no more than the bound. -/
theorem length_le_of_nodup {l : List NodeId} {bound : Nat} (hnodup : l.Nodup)
    (hlt : ∀ n ∈ l, n < bound) : l.length ≤ bound := by
  have hsubset : l ⊆ List.range bound := fun n hn => List.mem_range.mpr (hlt n hn)
  simpa using (List.subperm_of_subset hnodup hsubset).length_le

/-! ## Attached nodes -/

theorem mem_lineage_of_below (hlinked : d.WellLinked) (h : d.Below root n) {fuel : Nat}
    {l : List NodeId} (hnodup : (n :: l).Nodup) (hlt : ∀ m ∈ n :: l, m < d.size)
    (hbelow : ∀ m ∈ l, d.Below n m) (hfuel : d.size ≤ fuel + l.length) :
    root ∈ d.lineage fuel n := by
  -- `l` holds the nodes that were passed. They are different, so the fuel lasts.
  induction fuel generalizing n l with
  | zero =>
      have hlength := length_le_of_nodup hnodup hlt
      simp only [List.length_cons] at hlength
      omega
  | succ fuel ih =>
      unfold lineage
      rcases hlinked.below_cases h with rfl | ⟨p, hp, hroot⟩
      · exact List.mem_cons_self
      · refine List.mem_cons_of_mem _ ?_
        rw [hp]
        have hback := hlinked.not_below_parent hlinked.parent_root h hp
        have hmem : p ∉ n :: l := by
          intro hmem
          rcases List.mem_cons.mp hmem with rfl | hmem
          · exact hback .refl
          · exact hback (hbelow p hmem)
        refine ih hroot (List.nodup_cons.mpr ⟨hmem, hnodup⟩) ?_ ?_ ?_
        · intro m hm
          rcases List.mem_cons.mp hm with rfl | hm
          · exact (hlinked.lt_of_parent hp).1
          · exact hlt m hm
        · intro m hm
          have hchild := hlinked.mem_children hp
          rcases List.mem_cons.mp hm with rfl | hm
          · exact .of_child hchild .refl
          · exact .of_child hchild (hbelow m hm)
        · simp only [List.length_cons]
          omega

/-- Where parents list their children, the way up from a node leads through nodes above it. -/
theorem below_of_mem_lineage_of_children
    (hchild : ∀ {n p}, d.parent n = some p → n ∈ d.children p) {fuel : Nat}
    (h : m ∈ d.lineage fuel n) : d.Below m n := by
  induction fuel generalizing n with
  | zero => cases h
  | succ fuel ih =>
      unfold lineage at h
      rcases List.mem_cons.mp h with rfl | h
      · exact .refl
      · cases hp : d.parent n with
        | none =>
            rw [hp] at h
            cases h
        | some p =>
            rw [hp] at h
            exact (ih h).child (hchild hp)

theorem below_of_mem_lineage (hlinked : d.WellLinked) {fuel : Nat} (h : m ∈ d.lineage fuel n) :
    d.Below m n :=
  below_of_mem_lineage_of_children hlinked.mem_children h

/-- A node is attached when it lies below the document node. -/
theorem isAttached_iff (hlinked : d.WellLinked) (hn : n < d.size) :
    d.isAttached n ↔ d.Below root n := by
  unfold isAttached ancestry
  rw [List.contains_iff_mem]
  refine ⟨below_of_mem_lineage hlinked, fun h => ?_⟩
  refine mem_lineage_of_below hlinked h (l := []) (by simp) ?_ (by simp) (by simp)
  intro m hm
  obtain rfl : m = n := by simpa using hm
  exact hn

/-- A node that is visited lies below one of those from which the visit starts. -/
theorem exists_below_of_mem_visit {fuel : Nat} {stack : List NodeId}
    (h : n ∈ d.visit fuel stack) : ∃ m ∈ stack, d.Below m n := by
  induction fuel generalizing stack with
  | zero => cases h
  | succ fuel ih =>
      cases stack with
      | nil => cases h
      | cons next stack =>
          unfold visit at h
          rcases List.mem_cons.mp h with rfl | h
          · exact ⟨n, List.mem_cons_self, .refl⟩
          · obtain ⟨m, hm, hbelow⟩ := ih h
            rcases List.mem_append.mp hm with hm | hm
            · exact ⟨next, List.mem_cons_self, .of_child hm hbelow⟩
            · exact ⟨m, List.mem_cons_of_mem _ hm, hbelow⟩

theorem below_of_mem_subtree (h : n ∈ d.subtree top) : d.Below top n := by
  rcases List.mem_cons.mp h with rfl | h
  · exact .refl
  · obtain ⟨m, hm, hbelow⟩ := exists_below_of_mem_visit h
    exact .of_child hm hbelow

end PageTemplate.Markup.Document
