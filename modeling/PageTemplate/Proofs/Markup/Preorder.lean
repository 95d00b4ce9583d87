import Mathlib.Data.List.Flatten
import PageTemplate.Proofs.Markup.Correspondence

/-! # Document order

The descendants of a node are collected with a stack. Below a node of a document whose links agree
the stack lists what recursion on the child lists lists: everything below the node, each node once,
and each before what lies below it.
-/

namespace PageTemplate.Markup.Document

variable {d : Document} {n m top : NodeId} {h : Nat}

/-- What lies below a node is the node itself, or lies below one of its children. -/
theorem Below.eq_or_child (hm : d.Below n m) : m = n ∨ ∃ c ∈ d.children n, d.Below c m := by
  induction hm with
  | refl => exact .inl rfl
  | @child p m _ hchild ih =>
      rcases ih with rfl | ⟨c, hc, hbelow⟩
      · exact .inr ⟨m, hchild, .refl⟩
      · exact .inr ⟨c, hc, hbelow.child hchild⟩

/-- The list is complete as soon as there are as many steps as levels. -/
theorem Throughout.preorder_eq {good : NodeId → NodeKind → Prop} (hgood : Throughout good d h n)
    {fuel : Nat} (hfuel : h ≤ fuel) : d.preorder fuel n = d.preorder h n := by
  induction h generalizing n fuel with
  | zero => exact hgood.elim
  | succ h ih =>
      obtain ⟨fuel, rfl⟩ := Nat.exists_eq_add_of_le' (Nat.le_trans (Nat.le_add_left 1 h) hfuel)
      simp only [preorder, List.cons.injEq, true_and]
      apply List.flatMap_congr
      intro c hc
      exact ih (hgood.2 c hc) (by omega)

theorem Throughout.mem_preorder_iff {good : NodeId → NodeKind → Prop}
    (hgood : Throughout good d h n) : m ∈ d.preorder h n ↔ d.Below n m := by
  constructor
  · intro hm
    clear hgood
    induction h generalizing n with
    | zero => cases hm
    | succ h ih =>
        simp only [preorder, List.mem_cons, List.mem_flatMap] at hm
        rcases hm with rfl | ⟨c, hc, hm⟩
        · exact .refl
        · exact .of_child hc (ih hm)
  · intro hm
    induction h generalizing n with
    | zero => exact hgood.elim
    | succ h ih =>
        simp only [preorder, List.mem_cons, List.mem_flatMap]
        rcases hm.eq_or_child with rfl | ⟨c, hc, hbelow⟩
        · exact .inl rfl
        · exact .inr ⟨c, hc, ih (hgood.2 c hc) hbelow⟩

/-- A node is listed once: it does not lie below its children, nor anything below two of them. -/
theorem Throughout.nodup_preorder {good : NodeId → NodeKind → Prop} (hbranch : d.Branching n)
    (hgood : Throughout good d h n) : (d.preorder h n).Nodup := by
  induction h generalizing n with
  | zero => exact List.nodup_nil
  | succ h ih =>
      simp only [preorder]
      apply List.nodup_cons.mpr
      constructor
      · intro hmem
        obtain ⟨c, hc, hback⟩ := List.mem_flatMap.mp hmem
        exact hbranch.not_back n .refl c hc ((hgood.2 c hc).mem_preorder_iff.mp hback)
      · apply List.nodup_flatMap.mpr
        refine ⟨fun c hc => ih (hbranch.below (.child .refl hc)) (hgood.2 c hc), ?_⟩
        apply List.Nodup.pairwise_of_forall_ne (hbranch.nodup_children n .refl)
        intro c hc c' hc' hne m hm hm'
        have hm := (hgood.2 c hc).mem_preorder_iff.mp hm
        have hm' := (hgood.2 c' hc').mem_preorder_iff.mp hm'
        exact hbranch.apart n .refl c hc c' hc' hne m hm hm'

/-- The nodes on a stack are visited one after the other, each with all that lies below it. -/
theorem visit_eq {good : NodeId → NodeKind → Prop} {fuel : Nat} {stack : List NodeId}
    (hstack : ∀ n ∈ stack, Throughout good d h n)
    (hfuel : (stack.flatMap (d.preorder h)).length ≤ fuel) :
    d.visit fuel stack = stack.flatMap (d.preorder h) := by
  induction fuel generalizing stack with
  | zero =>
      simp only [visit]
      exact (List.eq_nil_of_length_eq_zero (Nat.le_zero.mp hfuel)).symm
  | succ fuel ih =>
      cases stack with
      | nil => rfl
      | cons n stack =>
          obtain ⟨hn, hstack⟩ := List.forall_mem_cons.mp hstack
          -- The children of `n` reach less far down, but are listed the same with more steps.
          have hlisted : (n :: stack).flatMap (d.preorder h) =
              n :: (d.children n ++ stack).flatMap (d.preorder h) := by
            cases h with
            | zero => exact hn.elim
            | succ h =>
                simp only [List.flatMap_cons, List.flatMap_append, preorder, List.cons_append]
                congr 2
                apply List.flatMap_congr
                intro c hc
                exact ((hn.2 c hc).preorder_eq (Nat.le_succ h)).symm
          rw [hlisted] at hfuel ⊢
          simp only [visit, List.cons.injEq, true_and]
          apply ih
          · intro m hm
            rcases List.mem_append.mp hm with hm | hm
            · cases h with
              | zero => exact hn.elim
              | succ h => exact (hn.2 m hm).mono (Nat.le_succ h)
            · exact hstack m hm
          · simpa using hfuel

namespace Branching

variable (hn : d.Branching n)

include hn

/-- The table of nodes leaves room for the tree. -/
theorem fits : Throughout (fun _ _ => True) d d.size n := hn.throughout fun _ _ => trivial

theorem mem_preorder_iff : m ∈ d.preorder d.size n ↔ d.Below n m := hn.fits.mem_preorder_iff

theorem nodup_preorder : (d.preorder d.size n).Nodup := hn.fits.nodup_preorder hn

/-- What is collected with a stack is what lies below the node, in document order. -/
theorem subtree_eq : d.subtree n = d.preorder d.size n := by
  have hlisted : d.preorder (d.size + 1) n = d.preorder d.size n :=
    hn.fits.preorder_eq (Nat.le_succ _)
  have hlength : (d.preorder d.size n).length ≤ d.size := by
    apply length_le_of_nodup hn.nodup_preorder
    intro m hm
    exact hn.lt m (hn.mem_preorder_iff.mp hm)
  rw [← hlisted] at hlength ⊢
  simp only [preorder, List.length_cons] at hlength
  simp only [subtree, descendants, preorder, List.cons.injEq, true_and]
  exact visit_eq (fun c hc => (hn.below (.child .refl hc)).fits) (by omega)

theorem mem_subtree_iff : m ∈ d.subtree n ↔ d.Below n m := by
  rw [hn.subtree_eq, hn.mem_preorder_iff]

theorem nodup_subtree : (d.subtree n).Nodup := by
  rw [hn.subtree_eq]
  exact hn.nodup_preorder

theorem descendants_eq : d.descendants n = (d.children n).flatMap (d.preorder d.size) := by
  have hsubtree := hn.subtree_eq
  rw [← hn.fits.preorder_eq (Nat.le_succ _)] at hsubtree
  simpa only [subtree, preorder, List.cons.injEq, true_and] using hsubtree

end Branching

namespace Grounded

variable (hn : d.Grounded n)

include hn

theorem branching : d.Branching n := by
  obtain ⟨top, htop, hbelow⟩ := hn.rooted
  exact hn.linked.branching htop hbelow hn.lt

theorem subtree_eq : d.subtree n = d.preorder d.size n := hn.branching.subtree_eq

theorem mem_subtree_iff : m ∈ d.subtree n ↔ d.Below n m := hn.branching.mem_subtree_iff

theorem descendants_eq : d.descendants n = (d.children n).flatMap (d.preorder d.size) :=
  hn.branching.descendants_eq

end Grounded

end PageTemplate.Markup.Document
