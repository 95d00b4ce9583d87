import PageTemplate.Proofs.Markup.Copying
import PageTemplate.Proofs.Markup.Correspondence

/-! # What a copy is made of

The tree that is grafted onto a document is the tree that can be read there afterwards. So the
nodes of a copy stand for nodes of the original one by one: the top for the top, and the children
of a node for the children of the node it stands for, in order.
-/

namespace PageTemplate.Markup.Document

variable {d d' t t' : Document} {n n' m x x' copy : NodeId}

/-- Trees are read off kinds and child lists. -/
theorem treeTo_congr_below {fuel : Nat}
    (hsame : ∀ m, d.Below n m → d'.kind m = d.kind m ∧ d'.children m = d.children m) :
    d'.treeTo fuel n = d.treeTo fuel n := by
  induction fuel generalizing n with
  | zero => simp only [treeTo, (hsame n .refl).1]
  | succ fuel ih =>
      obtain ⟨hkind, hchildren⟩ := hsame n .refl
      simp only [treeTo, hkind, hchildren, Tree.node.injEq, true_and]
      apply List.map_congr_left
      intro c hc
      exact ih fun m hm => hsame m (.of_child hc hm)

/-- What was put behind the children of a node is what stands there, behind what stood there. -/
theorem Copied.children_placed {top : NodeId} {good : NodeId → NodeKind → Prop} {h : Nat}
    (hregion : Region (d.size ≤ ·) top d) (hcopy : Copied good h d d' copy) :
    (d'.place top (d'.children top).length copy).children top = d.children top ++ [copy] := by
  have hregion' := hregion.within (hregion.extends_within hcopy.grown)
  rw [children_place hregion'.lt, if_pos rfl, hcopy.grown.children_eq hregion.outer,
    List.insertIdx_length_self]

/-- A tree can be grafted whatever its nodes are. -/
theorem copied_graft_any (hlinked : d.WellLinked) (tree : Tree) :
    Copied (fun _ _ => True) tree.height d (d.graft tree).1 (d.graft tree).2 :=
  copied_graft hlinked tree fun _ _ _ _ => trivial

mutual
/-- What is grafted can be read below the top of the copy. -/
theorem treeTo_graft {d : Document} {fuel : Nat} (hlinked : d.WellLinked) (tree : Tree)
    (hfuel : tree.height ≤ fuel + 1) :
    (d.graft tree).1.treeTo fuel (d.graft tree).2 = tree := by
  match tree with
  | .node kind children =>
      have hkind := kind_graft d (.node kind children)
      rw [Tree.height] at hfuel
      cases fuel with
      | zero =>
          obtain rfl : children = [] := Tree.eq_nil_of_heightAll_eq_zero (by omega)
          simp only [treeTo, hkind, Tree.kind]
      | succ fuel =>
          have hlt : d.size < (d.create kind).1.size := by simp
          have hheight : Tree.heightAll children ≤ fuel + 1 := by omega
          have hbelow := map_treeTo_graftBelow (hlinked.create kind)
            (.of_parent (parent_create d kind)) hlt children hheight
          rw [children_create, List.map_nil, List.nil_append] at hbelow
          rw [treeTo, hkind]
          exact congrArg (Tree.node kind) hbelow
/-- The children of a node have the trees that they had, and behind them are those grafted. -/
theorem map_treeTo_graftBelow {d : Document} {fuel : Nat} {top : NodeId}
    (hlinked : d.WellLinked) (hrooted : d.Rooted top) (htop : top < d.size) (trees : List Tree)
    (hfuel : Tree.heightAll trees ≤ fuel + 1) :
    ((d.graftBelow top trees).children top).map ((d.graftBelow top trees).treeTo fuel) =
      (d.children top).map (d.treeTo fuel) ++ trees := by
  match trees with
  | [] => exact (List.append_nil _).symm
  | tree :: trees =>
      obtain ⟨hheight, hrest⟩ := List.forall_mem_cons.mp (Tree.heightAll_le_iff.mp hfuel)
      have hregion := region_new hlinked hrooted htop
      have hcopy := copied_graft_any hlinked tree
      have hgrafted := treeTo_graft hlinked tree hheight
      have hregion' := hregion.within (hregion.extends_within hcopy.grown)
      obtain ⟨hplaced, -, -⟩ := hcopy.place hregion
      have hchildren := hcopy.children_placed hregion
      -- Neither the copy nor what was there before has anything else below it than it had.
      have hnew : ((d.graft tree).1.place top ((d.graft tree).1.children top).length
          (d.graft tree).2).treeTo fuel (d.graft tree).2 = tree := by
        rw [treeTo_congr_below, hgrafted]
        intro m hm
        have hmtop : m ≠ top := by
          rintro rfl
          exact hregion'.not_above hm hcopy.new
        exact ⟨kind_place .., by rw [children_place hregion'.lt, if_neg hmtop]⟩
      have hold : ∀ c ∈ d.children top, ((d.graft tree).1.place top
          ((d.graft tree).1.children top).length (d.graft tree).2).treeTo fuel c =
            d.treeTo fuel c := by
        intro c hc
        apply treeTo_congr_below
        intro m hm
        obtain ⟨start, hstart, htop'⟩ := hrooted
        have hout : ¬ (d.size ≤ m ∨ m = top) := by
          rintro (hsize | rfl)
          · have hlt := hlinked.below_lt hm (hlinked.child_lt _ _ hc).2
            exact absurd hsize (Nat.not_le_of_lt hlt)
          · exact hlinked.not_below_parent hstart (htop'.child hc) (hlinked.parent_eq hc) hm
        exact ⟨hplaced.kind_eq hout, hplaced.children_eq hout⟩
      have hregion₂ := hregion.within hplaced
      have hnext := map_treeTo_graftBelow hregion₂.linked hregion₂.rooted hregion₂.lt trees
        (Tree.heightAll_le_iff.mpr hrest)
      rw [graftBelow]
      refine hnext.trans ?_
      rw [hchildren, List.map_append, List.map_congr_left hold, List.map_singleton, hnew,
        List.append_assoc, List.singleton_append]
end

/-! ## Nodes with the same tree -/

/-- The trees of the nodes reach down equally far and are the same. -/
def Alike (d d' : Document) (n n' : NodeId) : Prop :=
  ∃ h, Throughout (fun _ _ => True) d h n ∧ Throughout (fun _ _ => True) d' h n' ∧
    d'.treeTo h n' = d.treeTo h n

/-- Nodes with the same tree are of the same kind, and their children have the same trees. -/
theorem downward_alike (d d' : Document) : Downward .whole (Alike d d') d d' := by
  constructor
  · rintro n n' ⟨h, -, -, htree⟩
    cases h <;> exact congrArg Tree.kind htree
  · rintro n n' ⟨h, hn, hn', htree⟩
    cases h with
    | zero => exact hn.elim
    | succ h =>
        have htrees : (d'.children n').map (d'.treeTo h) = (d.children n).map (d.treeTo h) :=
          congrArg Tree.children htree
        have hlength : (d.children n).length = (d'.children n').length := by
          simpa using (congrArg List.length htrees).symm
        apply List.forall₂_iff_get.mpr
        refine ⟨hlength, fun i hi hi' => ⟨h, hn.2 _ (List.getElem_mem hi),
          hn'.2 _ (List.getElem_mem hi'), ?_⟩⟩
        have hi := congrArg (·[i]?) htrees
        simpa [hi', hlength ▸ hi'] using hi

/-- The copy of a node of either document has the tree of the node. -/
theorem Grounded.alike_graft (hn : d.Grounded n) (hlinked : t.WellLinked) :
    Alike d (t.graft (d.tree n)).1 n (t.graft (d.tree n)).2 := by
  have hcopy := copied_graft_any hlinked (d.tree n)
  have hheight := hn.throughout.height_treeTo_le d.size
  refine ⟨d.size, hn.throughout, hcopy.throughout.mono hheight, ?_⟩
  exact treeTo_graft hlinked (d.tree n) (Nat.le_succ_of_le hheight)

/-! ## Nodes that stand for each other -/

/-- The node `n'` is at the same place below `x'` as `n` is below `x`: child by child the way to it
is the same. -/
inductive Counterpart (d d' : Document) (x x' : NodeId) : NodeId → NodeId → Prop where
  | top : Counterpart d d' x x' x x'
  | child {n n' c c' : NodeId} {i : Nat} (hparent : Counterpart d d' x x' n n')
    (hc : (d.children n)[i]? = some c) (hc' : (d'.children n')[i]? = some c') :
    Counterpart d d' x x' c c'

namespace Counterpart

theorem below_left (h : Counterpart d d' x x' n n') : d.Below x n := by
  induction h with
  | top => exact .refl
  | child _ hc _ ih => exact ih.child (List.mem_of_getElem? hc)

theorem below_right (h : Counterpart d d' x x' n n') : d'.Below x' n' := by
  induction h with
  | top => exact .refl
  | child _ _ hc' ih => exact ih.child (List.mem_of_getElem? hc')

/-- Places depend on child lists alone. -/
theorem congr_right (h : Counterpart d d' x x' n n')
    (hsame : ∀ m, d'.Below x' m → t.children m = d'.children m) :
    Counterpart d t x x' n n' := by
  induction h with
  | top => exact .top
  | child hparent hc hc' ih => exact ih.child hc ((hsame _ hparent.below_right).symm ▸ hc')

/-- A correspondence of the tops is one of all nodes at the same places. -/
theorem of_downward {view : View} {P : NodeId → NodeId → Prop} (h : Counterpart d d' x x' n n')
    (hsame : Downward view P d d') (htop : P x x') : P n n' := by
  induction h with
  | top => exact htop
  | child _ hc hc' ih =>
      obtain ⟨hi, rfl⟩ := List.getElem?_eq_some_iff.mp hc
      obtain ⟨hi', rfl⟩ := List.getElem?_eq_some_iff.mp hc'
      exact (List.forall₂_iff_get.mp (hsame.children ih)).2 _ hi hi'

theorem congr_left (h : Counterpart d d' x x' n n')
    (hsame : ∀ m, d.Below x m → t.children m = d.children m) : Counterpart t d' x x' n n' := by
  induction h with
  | top => exact .top
  | child hparent hc hc' ih => exact ih.child ((hsame _ hparent.below_left).symm ▸ hc) hc'

/-- Nothing else is at the place of the top: a node is not below itself. -/
theorem eq_top (hlinked : d'.WellLinked) (hrooted : d'.Rooted x')
    (h : Counterpart d d' x x' n x') : n = x := by
  generalize hx : x' = y at h
  cases h with
  | top => rfl
  | child hparent _ hc' =>
      subst hx
      obtain ⟨top, htop, hbelow⟩ := hrooted
      have hparent_eq := hlinked.parent_eq (List.mem_of_getElem? hc')
      exact absurd hparent.below_right (hlinked.not_below_parent htop hbelow hparent_eq)

theorem eq_top_right (hground : d.Grounded x) (h : Counterpart d d' x x' x n') : n' = x' := by
  generalize hx : x = y at h
  cases h with
  | top => rfl
  | child hparent hc _ =>
      subst hx
      obtain ⟨top, htop, hbelow⟩ := hground.rooted
      have hparent_eq := hground.linked.parent_eq (List.mem_of_getElem? hc)
      exact absurd hparent.below_left (hground.linked.not_below_parent htop hbelow hparent_eq)

end Counterpart

/-- The nodes below `x'` stand for the nodes below `x`: there are as many, and they are of the same
kind. The tops may differ. -/
structure Mirrors (d d' : Document) (x x' : NodeId) : Prop where
  length_eq : ∀ {n n'}, Counterpart d d' x x' n n' →
    (d'.children n').length = (d.children n).length
  kind_eq : ∀ {n n'}, Counterpart d d' x x' n n' → n ≠ x → d'.kind n' = d.kind n

namespace Mirrors

theorem of_alike (halike : Alike d d' x x') : Mirrors d d' x x' := by
  have hdown := downward_alike d d'
  constructor
  · intro n n' h
    exact (hdown.children (h.of_downward hdown halike)).length_eq.symm
  · intro n n' h _
    exact hdown.kind_eq (h.of_downward hdown halike)

/-- A mirror is not disturbed by changes elsewhere, nor by a change of what its top is. -/
theorem congr_right (h : Mirrors d d' x x') (hlinked : d'.WellLinked) (hrooted : d'.Rooted x')
    (hchildren : ∀ m, d'.Below x' m → t.children m = d'.children m)
    (hkind : ∀ m, d'.Below x' m → m ≠ x' → t.kind m = d'.kind m) : Mirrors d t x x' := by
  -- The same nodes lie below the top, so that the same nodes stand for each other.
  have hback : ∀ {n n'}, Counterpart d t x x' n n' → Counterpart d d' x x' n n' := by
    intro n n' hplace
    apply hplace.congr_right
    intro m hm
    symm
    apply hchildren
    apply hm.of_congr
    intro m hm
    rw [hchildren m hm]
    exact List.Subset.refl _
  constructor
  · intro n n' hplace
    have hplace := hback hplace
    rw [hchildren _ hplace.below_right, h.length_eq hplace]
  · intro n n' hplace hne
    have hplace := hback hplace
    have hne' : n' ≠ x' := by
      rintro rfl
      exact hne (hplace.eq_top hlinked hrooted)
    rw [hkind _ hplace.below_right hne', h.kind_eq hplace hne]

/-- A mirror of a tree is one of the same tree in another document. -/
theorem congr_left (h : Mirrors d d' x x')
    (hsame : ∀ m, d.Below x m → t.kind m = d.kind m ∧ t.children m = d.children m) :
    Mirrors t d' x x' := by
  have hback : ∀ {n n'}, Counterpart t d' x x' n n' → Counterpart d d' x x' n n' := by
    intro n n' hplace
    apply hplace.congr_left
    intro m hm
    symm
    apply (hsame m _).2
    apply hm.of_congr
    intro m hm
    rw [(hsame m hm).2]
    exact List.Subset.refl _
  constructor
  · intro n n' hplace
    have hplace := hback hplace
    rw [(hsame _ hplace.below_left).2, h.length_eq hplace]
  · intro n n' hplace hne
    have hplace := hback hplace
    rw [(hsame _ hplace.below_left).1, h.kind_eq hplace hne]

/-- Every node below the original has one that stands for it. -/
theorem exists_counterpart (h : Mirrors d d' x x') (hn : d.Below x n) :
    ∃ n', Counterpart d d' x x' n n' := by
  induction hn with
  | refl => exact ⟨x', .top⟩
  | child _ hchild ih =>
      obtain ⟨n', hplace⟩ := ih
      obtain ⟨i, hi, rfl⟩ := List.getElem_of_mem hchild
      have hi' : i < (d'.children n').length := h.length_eq hplace ▸ hi
      exact ⟨_, hplace.child (List.getElem?_eq_getElem hi) (List.getElem?_eq_getElem hi')⟩

end Mirrors

end PageTemplate.Markup.Document
