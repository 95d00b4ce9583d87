import PageTemplate.Proofs.Markup.Moves

/-! # What an omitted tag leaves in the tree

When a tag is omitted the children of the element take its place, and the element is left without
a parent. Everything else below a node without a parent is still below it, on the same way with
the element left out.
-/

namespace PageTemplate.Markup.Document

variable {d d' : Document} {R : NodeId → Prop} {x p n m top : NodeId}

namespace Replaced

variable (h : Replaced R p x (d.children x) d d') (hlinked : d.WellLinked)
  (hx : d.parent x = some p)

include h hlinked

/-- The children of the element have its parent; every other node has the parent it had. -/
theorem parent_eq_of_ne (hn : n ≠ x) :
    d'.parent n = if d.parent n = some x then some p else d.parent n := by
  rw [h.parents n, if_neg hn]
  by_cases hchild : d.parent n = some x
  · rw [if_pos hchild, if_pos (hlinked.mem_children hchild)]
  · rw [if_neg hchild, if_neg fun hmem => hchild (hlinked.parent_eq hmem)]

include hx

/-- Below a node without a parent nothing is lost but the element itself. -/
theorem below_top (htop : d.parent top = none) (hn : d.Below top n) (hne : n ≠ x) :
    d'.Below top n := by
  have htopx : top ≠ x := by
    rintro rfl
    rw [htop] at hx
    cases hx
  -- The element is passed over on the way, so the claim for it is about its parent.
  have hway : (n ≠ x → d'.Below top n) ∧ (n = x → d'.Below top p) := by
    clear hne
    induction hn with
    | refl => exact ⟨fun _ => .refl, fun heq => absurd heq htopx⟩
    | @child q n hq hchild ih =>
        have hparent := hlinked.parent_eq hchild
        refine ⟨fun hn => ?_, ?_⟩
        · have hparent' := h.parent_eq_of_ne hlinked hn
          rw [hparent] at hparent'
          by_cases hqx : q = x
          · rw [if_pos (congrArg some hqx)] at hparent'
            exact (ih.2 hqx).child (h.linked.mem_children hparent')
          · rw [if_neg fun heq => hqx (Option.some.inj heq)] at hparent'
            exact (ih.1 hqx).child (h.linked.mem_children hparent')
        · rintro rfl
          obtain rfl : q = p := Option.some.inj (hparent.symm.trans hx)
          refine ih.1 ?_
          rintro rfl
          exact hlinked.not_below_parent htop hq hx .refl
  exact hway.1 hne

end Replaced

end PageTemplate.Markup.Document
