import PageTemplate.Proofs.Markup.Copying
import PageTemplate.Proofs.Markup.Preorder

/-! # Where a copy is stored

A tree that is grafted onto a document takes up the numbers behind all others, in document order.
The nodes that were there are as they were, whatever the document looks like.
-/

namespace PageTemplate.Markup

mutual
theorem Tree.map_id (tree : Tree) : tree.map id = tree := by
  match tree with
  | .node kind children =>
      unfold Tree.map
      rw [Tree.mapAll_id]
      rfl
theorem Tree.mapAll_id (trees : List Tree) : Tree.mapAll id trees = trees := by
  match trees with
  | [] => rfl
  | tree :: trees =>
      unfold Tree.mapAll
      rw [Tree.map_id, Tree.mapAll_id]
end

mutual
/-- A tree takes up its nodes in document order. -/
theorem Stored.preorder_eq {view : NodeKind → NodeKind} {d : Document} {tree : Tree} {id : NodeId}
    {nodes : List NodeId} {fuel : Nat} (h : Stored view d tree id nodes)
    (hfuel : tree.size ≤ fuel) : d.preorder fuel id = nodes := by
  match tree, h with
  | .node kind children, .node hkind hbelow =>
      unfold Tree.size at hfuel
      obtain ⟨fuel, rfl⟩ := Nat.exists_eq_add_of_le' (Nat.le_of_add_right_le hfuel)
      rw [Document.preorder, hbelow.flatMap_preorder (by omega)]
theorem StoredAll.flatMap_preorder {view : NodeKind → NodeKind} {d : Document}
    {trees : List Tree} {ids nodes : List NodeId} {fuel : Nat}
    (h : StoredAll view d trees ids nodes) (hfuel : Tree.sizeAll trees ≤ fuel) :
    ids.flatMap (d.preorder fuel) = nodes := by
  match h with
  | .nil => rfl
  | .cons hfirst hrest =>
      unfold Tree.sizeAll at hfuel
      rw [List.flatMap_cons, hfirst.preorder_eq (by omega), hrest.flatMap_preorder (by omega)]
end

namespace Document

variable {d t : Document} {n top : NodeId} {tree : Tree} {fuel : Nat}

/-- A tree has as many nodes as are listed when the document is read as far down. -/
theorem length_preorder (d : Document) (fuel : Nat) (n : NodeId) :
    (d.preorder (fuel + 1) n).length = (d.treeTo fuel n).size := by
  induction fuel generalizing n with
  | zero => simp [preorder, treeTo, Tree.size, Tree.sizeAll]
  | succ fuel ih =>
      have hall : ∀ children : List NodeId, (children.flatMap (d.preorder (fuel + 1))).length =
          Tree.sizeAll (children.map (d.treeTo fuel)) := by
        intro children
        induction children with
        | nil => rfl
        | cons c children ihc =>
            rw [List.flatMap_cons, List.length_append, ih, ihc, List.map_cons, Tree.sizeAll]
      rw [preorder, List.length_cons, hall, treeTo, Tree.size, Nat.add_comm]

theorem Branching.length_subtree (hn : d.Branching n) :
    (d.subtree n).length = (d.tree n).size := by
  rw [hn.subtree_eq, ← hn.fits.preorder_eq (Nat.le_succ _), length_preorder, tree]

/-! ## Grafts -/

/-- `t` is `d` with a tree behind all nodes, in document order, whose top has no parent. -/
structure Laid (d t : Document) (tree : Tree) : Prop where
  size_eq : t.size = d.size + tree.size
  node_eq : ∀ m < d.size, t.node m = d.node m
  parent_eq : t.parent d.size = none
  stored : Stored id t tree d.size (List.range' d.size tree.size)

/-- `t` is `d` with trees behind all nodes, and behind the children of `top`. -/
structure LaidBelow (top : NodeId) (tops : List NodeId) (d t : Document) (trees : List Tree) :
    Prop where
  size_eq : t.size = d.size + Tree.sizeAll trees
  node_eq : ∀ m < d.size, m ≠ top → t.node m = d.node m
  kind_eq : t.kind top = d.kind top
  parent_eq : t.parent top = d.parent top
  children_eq : t.children top = d.children top ++ tops
  stored : StoredAll id t trees tops (List.range' d.size (Tree.sizeAll trees))

theorem graft_snd (d : Document) (tree : Tree) : (d.graft tree).2 = d.size := by
  cases tree
  rfl

theorem Laid.of_create {kind : NodeKind} {children : List Tree} {tops : List NodeId}
    (h : LaidBelow d.size tops (d.create kind).1 t children) : Laid d t (.node kind children) := by
  -- The top takes up the first number, the trees below it those that follow.
  have hrange : List.range' d.size (Tree.node kind children).size =
      d.size :: List.range' (d.create kind).1.size (Tree.sizeAll children) := by
    rw [Tree.size, Nat.add_comm, List.range'_succ, size_create]
  refine ⟨?_, fun m hm => ?_, h.parent_eq.trans (parent_create d kind), ?_⟩
  · rw [h.size_eq, size_create, Tree.size, Nat.add_assoc]
  · rw [h.node_eq m (by rw [size_create]; omega) (Nat.ne_of_lt hm), node_create,
      if_neg (Nat.ne_of_lt hm)]
  · rw [hrange]
    refine .node (h.kind_eq.trans (kind_create d kind)) ?_
    rw [h.children_eq, children_create, List.nil_append]
    exact h.stored

theorem LaidBelow.cons {trees : List Tree} {tops : List NodeId} (htop : top < d.size)
    (h : Laid d t tree) {t' : Document}
    (h' : LaidBelow top tops (t.place top (t.children top).length d.size) t' trees) :
    LaidBelow top (d.size :: tops) d t' (tree :: trees) := by
  have hnew : d.size < t.size := by
    rw [h.size_eq]
    exact Nat.lt_add_of_pos_right tree.size_pos
  have htopt : top < t.size := Nat.lt_trans htop hnew
  have hkind : t.kind top = d.kind top := congrArg Node.kind (h.node_eq top htop)
  have hparent : t.parent top = d.parent top := congrArg Node.parent (h.node_eq top htop)
  have hchildren : t.children top = d.children top := congrArg Node.children (h.node_eq top htop)
  refine ⟨?_, fun m hm hne => ?_, ?_, ?_, ?_, ?_⟩
  · rw [h'.size_eq, size_place, h.size_eq, Tree.sizeAll, Nat.add_assoc]
  · rw [h'.node_eq m (by rw [size_place]; exact Nat.lt_trans hm hnew) hne,
      node_place_of_ne (Nat.ne_of_lt hm) hne, h.node_eq m hm]
  · rw [h'.kind_eq, kind_place, hkind]
  · rw [h'.parent_eq, parent_place hnew, if_neg (Nat.ne_of_lt htop), hparent]
  · rw [h'.children_eq, children_place htopt, if_pos rfl, List.insertIdx_length_self, hchildren,
      List.append_assoc, List.singleton_append]
  · rw [Tree.sizeAll, ← List.range'_append_1]
    refine .cons (h.stored.congr_parts fun m hm => ?_) ?_
    · -- Only `top` gets children when the tree is given its place.
      obtain ⟨hge, hlt⟩ := List.mem_range'_1.mp hm
      have hne : m ≠ top := Nat.ne_of_gt (Nat.lt_of_lt_of_le htop hge)
      have hlt : m < (t.place top (t.children top).length d.size).size := by
        rwa [size_place, h.size_eq]
      have hsame := h'.node_eq m hlt hne
      constructor
      · exact (congrArg Node.kind hsame).trans (kind_place ..)
      · refine (congrArg Node.children hsame).trans ?_
        exact (children_place htopt).trans (if_neg hne)
    · have hstored := h'.stored
      rwa [size_place, h.size_eq] at hstored

mutual
theorem laid_graft (d : Document) (tree : Tree) : Laid d (d.graft tree).1 tree := by
  match tree with
  | .node kind children =>
      have hlt : d.size < (d.create kind).1.size := by simp
      obtain ⟨tops, hbelow⟩ := laidBelow_graftBelow hlt children
      exact .of_create hbelow
theorem laidBelow_graftBelow {d : Document} {top : NodeId} (htop : top < d.size)
    (trees : List Tree) : ∃ tops, LaidBelow top tops d (d.graftBelow top trees) trees := by
  match trees with
  | [] => exact ⟨[], rfl, fun _ _ _ => rfl, rfl, rfl, (List.append_nil _).symm, .nil⟩
  | tree :: trees =>
      have hlaid := laid_graft d tree
      have htop' : top < ((d.graft tree).1.place top ((d.graft tree).1.children top).length
          (d.graft tree).2).size := by
        rw [size_place, hlaid.size_eq]
        exact Nat.lt_of_lt_of_le htop (Nat.le_add_right _ _)
      obtain ⟨tops, hbelow⟩ := laidBelow_graftBelow htop' trees
      refine ⟨d.size :: tops, .cons htop hlaid ?_⟩
      rw [← graft_snd d tree]
      exact hbelow
end

/-! ## Copies from other documents -/

theorem importSubtree_snd (d other : Document) (n : NodeId) :
    (d.importSubtree other n).2 = d.size := by
  unfold importSubtree
  dsimp only
  split <;> exact graft_snd d _

/-- A change of what the top is shows at the top of the tree. -/
theorem Laid.updateElement {kind : NodeKind} {children : List Tree}
    (h : Laid d t (.node kind children)) (change : Element → Element) :
    Laid d (t.updateElement d.size change) (.node (kind.mapElement change) children) := by
  have hlt : d.size < t.size := by
    rw [h.size_eq]
    exact Nat.lt_add_of_pos_right (Tree.size_pos _)
  have hrange : List.range' d.size (Tree.node kind children).size =
      d.size :: List.range' (d.size + 1) (Tree.sizeAll children) := by
    rw [Tree.size, Nat.add_comm, List.range'_succ]
  have hsame : ∀ m, m ≠ d.size → (t.updateElement d.size change).node m = t.node m := by
    intro m hm
    rw [node_updateElement t hlt, if_neg hm]
  refine ⟨?_, fun m hm => ?_, ?_, ?_⟩
  · rw [size_updateElement, h.size_eq]
    rfl
  · rw [hsame m (Nat.ne_of_lt hm), h.node_eq m hm]
  · rw [parent_updateElement, h.parent_eq]
  · have hstored := h.stored
    rw [hrange] at hstored
    cases hstored with
    | node hkind hbelow =>
        show Stored id _ _ _ (List.range' d.size (Tree.node kind children).size)
        rw [hrange]
        refine .node ?_ ?_
        · rw [kind_updateElement change t _ _ hlt, if_pos rfl]
          exact congrArg (NodeKind.mapElement change) hkind
        · rw [children_updateElement]
          refine hbelow.congr fun m hm => hsame m (Nat.ne_of_gt ?_)
          exact (List.mem_range'_1.mp hm).1

end Document

/-- The tree of a copy from a document with the given name: an element at the top remembers it. -/
def Tree.imported (source : Option String) : Tree → Tree
  | .node kind children =>
    match source with
    | none => .node kind children
    | some source =>
      .node (kind.mapElement fun element => { element with importedFrom := some source }) children

theorem Tree.size_imported (source : Option String) (tree : Tree) :
    (tree.imported source).size = tree.size := by
  cases tree
  cases source <;> rfl

namespace Document

theorem laid_importSubtree (d other : Document) (n : NodeId) :
    Laid d (d.importSubtree other n).1 ((other.tree n).imported other.sourceName) := by
  have hlaid := laid_graft d (other.tree n)
  have hcopy := graft_snd d (other.tree n)
  unfold importSubtree
  generalize other.tree n = tree at hlaid hcopy ⊢
  obtain ⟨kind, children⟩ := tree
  dsimp only
  split
  next hnone =>
    rw [hnone]
    exact hlaid
  next source hsource =>
    rw [hsource, hcopy]
    exact hlaid.updateElement _

end Document

end PageTemplate.Markup
