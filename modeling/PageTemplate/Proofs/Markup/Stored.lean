import Mathlib.Data.List.Nodup
import PageTemplate.Proofs.Markup.NodeTable

/-! # Trees in a table of nodes

A tree is stored below a node when the child lists lead through its nodes. The nodes that it
takes up are listed in document order; trees that take up different nodes do not get into each
other's way, and a tree stays as it is when its nodes do.
-/

namespace PageTemplate.Markup

mutual
/-- The tree with every kind of node seen through `view`. -/
def Tree.map (view : NodeKind → NodeKind) : Tree → Tree
  | .node kind children => .node (view kind) (Tree.mapAll view children)
/-- The trees with every kind of node seen through `view`. -/
def Tree.mapAll (view : NodeKind → NodeKind) : List Tree → List Tree
  | [] => []
  | tree :: trees => tree.map view :: Tree.mapAll view trees
end

mutual
/-- The kinds of the nodes of a tree in document order. -/
def Tree.kinds : Tree → List NodeKind
  | .node kind children => kind :: Tree.kindsAll children
/-- The kinds of the nodes of several trees. -/
def Tree.kindsAll : List Tree → List NodeKind
  | [] => []
  | tree :: trees => tree.kinds ++ Tree.kindsAll trees
end

mutual
/-- The tree is what `view` sees below a node, and takes up the listed nodes. -/
inductive Stored (view : NodeKind → NodeKind) (d : Document) :
    Tree → NodeId → List NodeId → Prop where
  | node {kind : NodeKind} {children : List Tree} {id : NodeId} {below : List NodeId}
    (hkind : view (d.kind id) = kind) (hbelow : StoredAll view d children (d.children id) below) :
    Stored view d (.node kind children) id (id :: below)
/-- The trees are what `view` sees below the nodes of a list, one below each. -/
inductive StoredAll (view : NodeKind → NodeKind) (d : Document) :
    List Tree → List NodeId → List NodeId → Prop where
  | nil : StoredAll view d [] [] []
  | cons {tree : Tree} {trees : List Tree} {id : NodeId} {ids first rest : List NodeId}
    (hfirst : Stored view d tree id first) (hrest : StoredAll view d trees ids rest) :
    StoredAll view d (tree :: trees) (id :: ids) (first ++ rest)
end

variable {view : NodeKind → NodeKind} {d d' : Document}

theorem Tree.mapAll_eq_map (view : NodeKind → NodeKind) (trees : List Tree) :
    Tree.mapAll view trees = trees.map (Tree.map view) := by
  induction trees with
  | nil => rfl
  | cons tree trees ih => rw [Tree.mapAll, ih, List.map_cons]

@[simp] theorem Tree.kindsAll_append (trees trees' : List Tree) :
    Tree.kindsAll (trees ++ trees') = Tree.kindsAll trees ++ Tree.kindsAll trees' := by
  induction trees with
  | nil => rfl
  | cons tree trees ih => simp [Tree.kindsAll, ih]

mutual
theorem Tree.kinds_map (view : NodeKind → NodeKind) (tree : Tree) :
    (tree.map view).kinds = tree.kinds.map view := by
  match tree with
  | .node kind children =>
      unfold Tree.map Tree.kinds
      rw [Tree.kindsAll_mapAll, List.map_cons]
theorem Tree.kindsAll_mapAll (view : NodeKind → NodeKind) (trees : List Tree) :
    Tree.kindsAll (Tree.mapAll view trees) = (Tree.kindsAll trees).map view := by
  match trees with
  | [] => rfl
  | tree :: trees =>
      unfold Tree.mapAll Tree.kindsAll
      rw [Tree.kinds_map, Tree.kindsAll_mapAll, List.map_append]
end

mutual
/-- A tree is read off kinds and child lists. -/
theorem Stored.congr_parts {tree : Tree} {id : NodeId} {nodes : List NodeId}
    (h : Stored view d tree id nodes)
    (hsame : ∀ n ∈ nodes, d'.kind n = d.kind n ∧ d'.children n = d.children n) :
    Stored view d' tree id nodes := by
  match h with
  | .node hkind hbelow =>
      obtain ⟨hid, hchildren⟩ := hsame id List.mem_cons_self
      refine .node (by rwa [hid]) (hchildren ▸ hbelow.congr_parts fun n hn => ?_)
      exact hsame n (List.mem_cons_of_mem _ hn)
theorem StoredAll.congr_parts {trees : List Tree} {ids nodes : List NodeId}
    (h : StoredAll view d trees ids nodes)
    (hsame : ∀ n ∈ nodes, d'.kind n = d.kind n ∧ d'.children n = d.children n) :
    StoredAll view d' trees ids nodes := by
  match h with
  | .nil => exact .nil
  | .cons hfirst hrest =>
      exact .cons (hfirst.congr_parts fun n hn => hsame n (List.mem_append_left _ hn))
        (hrest.congr_parts fun n hn => hsame n (List.mem_append_right _ hn))
end

/-- Trees stay as they are when their nodes do. -/
theorem StoredAll.congr {trees : List Tree} {ids nodes : List NodeId}
    (h : StoredAll view d trees ids nodes) (hsame : ∀ n ∈ nodes, d'.node n = d.node n) :
    StoredAll view d' trees ids nodes :=
  h.congr_parts fun n hn =>
    ⟨congrArg Node.kind (hsame n hn), congrArg Node.children (hsame n hn)⟩

theorem StoredAll.append {trees trees' : List Tree} {ids ids' nodes nodes' : List NodeId}
    (h : StoredAll view d trees ids nodes) (h' : StoredAll view d trees' ids' nodes') :
    StoredAll view d (trees ++ trees') (ids ++ ids') (nodes ++ nodes') := by
  match h with
  | .nil => exact h'
  | .cons hfirst hrest =>
      rw [List.append_assoc]
      exact .cons hfirst (hrest.append h')

theorem Stored.singleton {tree : Tree} {id : NodeId} {nodes : List NodeId}
    (h : Stored view d tree id nodes) : StoredAll view d [tree] [id] nodes := by
  simpa using StoredAll.cons h .nil

theorem StoredAll.of_append {trees trees' : List Tree} {ids nodes : List NodeId}
    (h : StoredAll view d (trees ++ trees') ids nodes) :
    ∃ front back first last, ids = front ++ back ∧ nodes = first ++ last ∧
      StoredAll view d trees front first ∧ StoredAll view d trees' back last := by
  induction trees generalizing ids nodes with
  | nil => exact ⟨[], ids, [], nodes, rfl, rfl, .nil, h⟩
  | cons tree trees ih =>
      match h with
      | .cons hfirst hrest =>
          obtain ⟨front, back, first, last, rfl, rfl, hfront, hback⟩ := ih hrest
          exact ⟨_ :: front, back, _ ++ first, last, rfl, (List.append_assoc ..).symm,
            .cons hfirst hfront, hback⟩

mutual
theorem Stored.length_nodes {tree : Tree} {id : NodeId} {nodes : List NodeId}
    (h : Stored view d tree id nodes) : nodes.length = tree.size := by
  match h with
  | .node hkind hbelow =>
      unfold Tree.size
      rw [List.length_cons, hbelow.length_nodes, Nat.add_comm]
theorem StoredAll.length_nodes {trees : List Tree} {ids nodes : List NodeId}
    (h : StoredAll view d trees ids nodes) : nodes.length = Tree.sizeAll trees := by
  match h with
  | .nil => rfl
  | .cons hfirst hrest =>
      unfold Tree.sizeAll
      rw [List.length_append, hfirst.length_nodes, hrest.length_nodes]
end

theorem Tree.size_pos (tree : Tree) : 0 < tree.size := by
  cases tree
  unfold size
  omega

theorem Tree.eq_nil_of_sizeAll_eq_zero {trees : List Tree} (h : sizeAll trees = 0) :
    trees = [] := by
  cases trees with
  | nil => rfl
  | cons tree trees =>
      have hpos := tree.size_pos
      unfold sizeAll at h
      omega

mutual
/-- Following child lists as often as a tree has nodes is enough to find all of it. -/
theorem Stored.map_treeTo {tree : Tree} {id : NodeId} {nodes : List NodeId} {fuel : Nat}
    (h : Stored view d tree id nodes) (hfuel : tree.size ≤ fuel + 1) :
    (d.treeTo fuel id).map view = tree := by
  match tree, h with
  | .node kind children, .node hkind hbelow =>
      unfold Tree.size at hfuel
      cases fuel with
      | zero =>
          obtain rfl : children = [] := Tree.eq_nil_of_sizeAll_eq_zero (by omega)
          unfold Document.treeTo Tree.map
          rw [hkind]
          rfl
      | succ fuel =>
          unfold Document.treeTo Tree.map
          rw [hkind, hbelow.mapAll_treeTo (by omega)]
theorem StoredAll.mapAll_treeTo {trees : List Tree} {ids nodes : List NodeId} {fuel : Nat}
    (h : StoredAll view d trees ids nodes) (hfuel : Tree.sizeAll trees ≤ fuel + 1) :
    Tree.mapAll view (ids.map (d.treeTo fuel)) = trees := by
  match h with
  | .nil => rfl
  | .cons hfirst hrest =>
      unfold Tree.sizeAll at hfuel
      rw [List.map_cons]
      unfold Tree.mapAll
      rw [hfirst.map_treeTo (by omega), hrest.mapAll_treeTo (by omega)]
end

end PageTemplate.Markup
