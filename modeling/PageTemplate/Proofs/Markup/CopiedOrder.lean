import PageTemplate.Proofs.Markup.Grafting
import PageTemplate.Proofs.Markup.Preorder

/-! # Document order in copies

What lies below a node is listed as before when a document is added to, and what lies below a copy
is listed in the order of the originals. To list what lies below each node of such a list in turn
brings up nothing earlier than the list itself does.
-/

namespace PageTemplate.Markup.Document

variable {d d' t : Document} {n n' m x x' : NodeId} {fuel h : Nat}

/-- The list depends on child lists alone. -/
theorem preorder_congr (hsame : ∀ m, d.Below n m → d'.children m = d.children m) :
    d'.preorder fuel n = d.preorder fuel n := by
  induction fuel generalizing n with
  | zero => rfl
  | succ fuel ih =>
      simp only [preorder, List.cons.injEq, true_and, hsame n .refl]
      apply List.flatMap_congr
      intro c hc
      exact ih fun m hm => hsame m (.of_child hc hm)

/-! ## Additions -/

theorem Extends.grounded (hext : Extends d d') (hn : d.Grounded n) : d'.Grounded n := by
  obtain ⟨top, htop, hlt, hbelow⟩ := hn.exists_top
  refine ⟨hext.linked, Nat.lt_of_lt_of_le hn.lt hext.size_le, top, ?_, ?_⟩
  · rw [hext.parent_eq (Nat.not_le_of_lt hlt), htop]
  · exact (hext.below_old hn.linked hlt).mpr hbelow

theorem Extends.subtree_eq (hext : Extends d d') (hn : d.Grounded n) :
    d'.subtree n = d.subtree n := by
  rw [(hext.grounded hn).subtree_eq, hn.subtree_eq, ← hn.throughout.preorder_eq hext.size_le]
  apply preorder_congr
  intro m hm
  exact hext.children_eq (Nat.not_le_of_lt (hn.linked.below_lt hm hn.lt))

/-! ## Copies -/

theorem Mirrors.forall₂_preorder (hmirrors : Mirrors d t x x')
    (hplace : Counterpart d t x x' n n') :
    List.Forall₂ (Counterpart d t x x') (d.preorder fuel n) (t.preorder fuel n') := by
  induction fuel generalizing n n' with
  | zero => exact .nil
  | succ fuel ih =>
      apply List.Forall₂.cons hplace
      have hchildren : List.Forall₂ (Counterpart d t x x') (d.children n) (t.children n') := by
        apply List.forall₂_iff_get.mpr
        refine ⟨(hmirrors.length_eq hplace).symm, fun i hi hi' => ?_⟩
        exact hplace.child (List.getElem?_eq_getElem hi) (List.getElem?_eq_getElem hi')
      exact List.rel_flatMap hchildren fun _ _ hchild => ih hchild

/-- The nodes below the mirror are listed in the order of those that they stand for. -/
theorem Mirrors.forall₂_subtree (hmirrors : Mirrors d t x x') (hx : d.Grounded x)
    (hx' : t.Grounded x') :
    List.Forall₂ (Counterpart d t x x') (d.subtree x) (t.subtree x') := by
  rw [hx.subtree_eq, hx'.subtree_eq, ← hx.throughout.preorder_eq (Nat.le_max_left d.size t.size),
    ← hx'.throughout.preorder_eq (Nat.le_max_right d.size t.size)]
  exact hmirrors.forall₂_preorder .top

/-! ## Lists of lists -/

theorem find?_flatMap_congr {α β : Type} {property : β → Bool} {items : List α} {f g : α → List β}
    (hsame : ∀ a ∈ items, (f a).find? property = (g a).find? property) :
    (items.flatMap f).find? property = (items.flatMap g).find? property := by
  induction items with
  | nil => rfl
  | cons a items ih =>
      obtain ⟨ha, hitems⟩ := List.forall_mem_cons.mp hsame
      rw [List.flatMap_cons, List.flatMap_cons, List.find?_append, List.find?_append, ha, ih hitems]

theorem Grounded.subtree_cons (hn : d.Grounded n) :
    d.subtree n = n :: (d.children n).flatMap d.subtree := by
  rw [subtree, hn.descendants_eq, List.cons.injEq]
  refine ⟨rfl, List.flatMap_congr fun c hc => ?_⟩
  exact ((hn.below (.child .refl hc)).subtree_eq).symm

/-- The first node with a property among some nodes below `n` is also the first one when all those
below each of these nodes are listed in turn. -/
theorem Grounded.find?_flatMap_subtree (hn : d.Grounded n) (among property : NodeId → Bool) :
    (((d.subtree n).filter among).flatMap fun m => (d.subtree m).filter among).find? property =
      ((d.subtree n).filter among).find? property := by
  have hreach := hn.throughout
  generalize d.size = h at hreach
  induction h generalizing n with
  | zero => exact hreach.elim
  | succ h ih =>
      cases hamong : among n with
      | true =>
          -- What is listed for the nodes further down is listed for `n` already.
          have hsplit : (d.subtree n).filter among =
              n :: ((d.children n).flatMap d.subtree).filter among := by
            rw [hn.subtree_cons, List.filter_cons_of_pos hamong]
          conv_lhs => rw [hsplit]
          rw [List.flatMap_cons, List.find?_append]
          cases hfound : ((d.subtree n).filter among).find? property with
          | some m => rfl
          | none =>
              rw [Option.none_or]
              apply List.find?_eq_none.mpr
              intro m hm
              obtain ⟨c, hc, hm⟩ := List.mem_flatMap.mp hm
              obtain ⟨hm, hmamong⟩ := List.mem_filter.mp hm
              have hc : c ∈ (d.subtree n).filter among := hsplit ▸ List.mem_cons_of_mem _ hc
              have hbelow := hn.mem_subtree_iff.mp (List.mem_filter.mp hc).1
              apply List.find?_eq_none.mp hfound
              apply List.mem_filter.mpr ⟨hn.mem_subtree_iff.mpr ?_, hmamong⟩
              exact hbelow.trans (below_of_mem_subtree hm)
      | false =>
          rw [hn.subtree_cons, List.filter_cons_of_neg (by simp [hamong]), List.filter_flatMap,
            List.flatMap_assoc]
          apply find?_flatMap_congr
          intro c hc
          exact ih (hn.below (.child .refl hc)) (hreach.2 c hc)

end PageTemplate.Markup.Document
