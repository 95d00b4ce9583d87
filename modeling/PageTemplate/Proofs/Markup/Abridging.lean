import PageTemplate.Proofs.Markup.Splicing

/-! # Trees without some of their nodes

A tree is abridged when some of its nodes make way for their children and the others are given other
kinds. Nodes that make way may lose their tags in any order: with each of them that does, the tree
that is left to abridge comes to the same.
-/

namespace PageTemplate.Markup.Document

variable {d t : Document} {label : NodeId → Option NodeKind} {fuel fuel' h : Nat} {n x : NodeId}

/-- The trees that a node comes to when each node is given another kind, followed `fuel` levels
deep. A node that is given none makes way for its children. -/
def abridgedTo (d : Document) (label : NodeId → Option NodeKind) : Nat → NodeId → List Tree
  | 0, _ => []
  | fuel + 1, n =>
    match label n with
    | some kind => [.node kind ((d.children n).flatMap (abridgedTo d label fuel))]
    | none => (d.children n).flatMap (abridgedTo d label fuel)

/-- The trees that a node comes to; there are not more levels than nodes. -/
def abridged (d : Document) (label : NodeId → Option NodeKind) (n : NodeId) : List Tree :=
  d.abridgedTo label (d.size + 1) n

theorem abridgedTo_succ_congr (hbelow : (t.children n).flatMap (t.abridgedTo label fuel) =
    (d.children n).flatMap (d.abridgedTo label fuel')) :
    t.abridgedTo label (fuel + 1) n = d.abridgedTo label (fuel' + 1) n := by
  unfold abridgedTo
  rw [hbelow]

theorem Throughout.abridgedTo_eq (hheight : Throughout (fun _ _ => True) d h n) (hfuel : h ≤ fuel)
    (hfuel' : h ≤ fuel') : d.abridgedTo label fuel n = d.abridgedTo label fuel' n := by
  induction h generalizing n fuel fuel' with
  | zero => exact hheight.elim
  | succ h ih =>
      obtain ⟨fuel, rfl⟩ := Nat.exists_eq_add_of_le' (Nat.le_trans (Nat.le_add_left 1 h) hfuel)
      obtain ⟨fuel', rfl⟩ := Nat.exists_eq_add_of_le' (Nat.le_trans (Nat.le_add_left 1 h) hfuel')
      apply abridgedTo_succ_congr
      exact List.flatMap_congr fun c hc => ih (hheight.2 c hc) (by omega) (by omega)

theorem abridgedTo_congr (hchildren : ∀ m, t.children m = d.children m) (fuel : Nat) (n : NodeId) :
    t.abridgedTo label fuel n = d.abridgedTo label fuel n := by
  induction fuel generalizing n with
  | zero => rfl
  | succ fuel ih =>
      apply abridgedTo_succ_congr
      rw [hchildren]
      exact List.flatMap_congr fun c _ => ih c

/-- Where every node keeps its kind the tree is what it is. -/
theorem Throughout.abridgedTo_eq_treeTo (hheight : Throughout (fun _ _ => True) d h n)
    (hlabel : ∀ m, d.Below n m → label m = some (d.kind m)) :
    d.abridgedTo label h n = [d.treeTo h n] := by
  induction h generalizing n with
  | zero => exact hheight.elim
  | succ h ih =>
      have hbelow : (d.children n).flatMap (d.abridgedTo label h) =
          (d.children n).map (d.treeTo h) := by
        rw [← List.flatMap_pure_eq_map]
        exact List.flatMap_congr fun c hc =>
          ih (hheight.2 c hc) fun m hm => hlabel m (.of_child hc hm)
      unfold abridgedTo treeTo
      rw [hlabel n .refl, hbelow]

/-- A node that makes way for its children loses its tag. -/
theorem Untagged.abridgedTo_eq (h : Untagged x d t) (hlabel : label x = none)
    (hself : x ∉ d.children x) (hheight : Throughout (fun _ _ => True) d fuel n) (hne : n ≠ x) :
    t.abridgedTo label fuel n = d.abridgedTo label fuel n := by
  induction fuel generalizing n with
  | zero => rfl
  | succ fuel ih =>
      apply abridgedTo_succ_congr
      rw [h.children_eq n hne, List.flatMap_assoc]
      apply List.flatMap_congr
      intro c hc
      unfold untagged
      split
      next heq =>
        -- The children of `x` have moved up by one level.
        subst heq
        have hbelow := hheight.2 c hc
        obtain ⟨fuel, rfl⟩ : ∃ k, fuel = k + 1 := by
          cases fuel with
          | zero => exact hbelow.elim
          | succ fuel => exact ⟨fuel, rfl⟩
        rw [abridgedTo, hlabel]
        apply List.flatMap_congr
        intro m hm
        have hchild := hbelow.2 m hm
        rw [ih (hchild.mono (Nat.le_succ fuel)) fun heq => hself (heq ▸ hm)]
        exact hchild.abridgedTo_eq (Nat.le_succ fuel) (Nat.le_refl fuel)
      next hcx => rw [List.flatMap_singleton, ih (hheight.2 c hc) hcx]

/-! ## The whole tree -/

theorem WellLinked.throughout_root (hlinked : d.WellLinked) :
    Throughout (fun _ _ => True) d (d.size + 1) root := by
  by_cases hpos : root < d.size
  · have hground : d.Grounded root := ⟨hlinked, hpos, .of_parent hlinked.parent_root⟩
    exact hground.throughout.mono (Nat.le_succ d.size)
  · refine ⟨trivial, fun c hc => ?_⟩
    exact absurd (hlinked.child_lt root c hc).1 hpos

theorem WellLinked.treeTo_root (hlinked : d.WellLinked) :
    d.treeTo (d.size + 1) root = d.tree root := by
  by_cases hpos : root < d.size
  · have hground : d.Grounded root := ⟨hlinked, hpos, .of_parent hlinked.parent_root⟩
    exact hground.throughout.treeTo_eq (Nat.le_succ d.size) (Nat.le_refl d.size)
  · have hsize : d.size = 0 := Nat.eq_zero_of_not_pos hpos
    have hnone : d.children root = [] := List.eq_nil_iff_forall_not_mem.mpr fun c hc =>
      hpos (hlinked.child_lt root c hc).1
    unfold tree
    rw [hsize, treeTo, treeTo, hnone]
    rfl

/-- The trees that a node in the tree comes to are those of its children, below the node unless it
makes way for them. -/
theorem WellLinked.abridged_eq (hlinked : d.WellLinked) (label : NodeId → Option NodeKind)
    (hn : d.Below root n) :
    d.abridged label n = match label n with
      | some kind => [.node kind ((d.children n).flatMap (d.abridged label))]
      | none => (d.children n).flatMap (d.abridged label) := by
  have hheight := hlinked.throughout_root.below hn
  have hbelow : (d.children n).flatMap (d.abridgedTo label d.size) =
      (d.children n).flatMap (d.abridged label) :=
    List.flatMap_congr fun c hc =>
      (hheight.2 c hc).abridgedTo_eq (Nat.le_refl d.size) (Nat.le_succ d.size)
  rw [abridged, abridgedTo, hbelow]

end PageTemplate.Markup.Document
