import PageTemplate.Proofs.Markup.CopyLayout
import PageTemplate.Proofs.Markup.Operations
import PageTemplate.Proofs.Markup.Rearranging

/-! # Copies that stand alone

A copy has the tree of its original, and the two have no node and no link in common. So what is done
to nodes of the one cannot reach the other. This holds of any two parts of a document without links
between them: a change that names no node of a part leaves the part as it was.
-/

namespace PageTemplate.Markup

namespace Document

variable {K : NodeId → Prop} {d t u : Document} {x m p r new : NodeId} {index : Nat}
  {nodes : List NodeId}

/-! ## Parts without links to others -/

/-- Links lead neither into nor out of some nodes of a document. -/
structure Secluded (K : NodeId → Prop) (d : Document) : Prop where
  linked : d.Linked
  lt : ∀ n, K n → n < d.size
  parent_iff : ∀ c p, d.parent c = some p → (K c ↔ K p)

/-- Such nodes are as they were, and still without links to others. -/
structure Spared (K : NodeId → Prop) (d t : Document) : Prop where
  secluded : Secluded K t
  size_le : d.size ≤ t.size
  node_eq : ∀ m, K m → t.node m = d.node m

theorem ne_of_kept (hx : ¬ K x) (hm : K m) : m ≠ x := by
  rintro rfl
  exact hx hm

theorem Spared.trans (h : Spared K d t) (h' : Spared K t u) : Spared K d u :=
  ⟨h'.secluded, Nat.le_trans h.size_le h'.size_le,
    fun m hm => (h'.node_eq m hm).trans (h.node_eq m hm)⟩

namespace Secluded

variable (h : Secluded K d)

include h

/-- A new link to one of the nodes would show on the node itself. -/
theorem spared (hlinked : t.Linked) (hsize : d.size ≤ t.size)
    (hsame : ∀ m, K m → t.node m = d.node m) : Spared K d t := by
  refine ⟨⟨hlinked, fun n hn => Nat.lt_of_lt_of_le (h.lt n hn) hsize, fun c p hp => ?_⟩, hsize,
    hsame⟩
  constructor
  · intro hc
    have hparent : t.parent c = d.parent c := congrArg Node.parent (hsame c hc)
    exact (h.parent_iff c p (hparent ▸ hp)).mp hc
  · intro hkept
    have hchildren : t.children p = d.children p := congrArg Node.children (hsame p hkept)
    have hc : c ∈ d.children p := hchildren ▸ (hlinked.mem_children_iff p c).mpr hp
    exact (h.parent_iff c p (h.linked.parent_eq hc)).mpr hkept

theorem same : Spared K d d := ⟨h, Nat.le_refl _, fun _ _ => rfl⟩

/-- Links agree after every call. -/
theorem spared_of_run (op : Operation) (hnodes : ∀ n ∈ op.nodes, n < d.size)
    (hsame : ∀ m, K m → (op.run d).node m = d.node m) : Spared K d (op.run d) := by
  have hcoherent : Coherent False d := ⟨h.linked, False.elim⟩
  have hrun := Operation.relinked_run hcoherent op hnodes False.elim
  exact h.spared hrun.coherent.linked hrun.size_le hsame

theorem node_detach (hx : ¬ K x) (hm : K m) : (d.detach x).node m = d.node m :=
  node_detach_of_ne (ne_of_kept hx hm) fun hparent => hx ((h.parent_iff x m hparent).mpr hm)

theorem node_place (hp : ¬ K p) (hnew : ¬ K new) (hm : K m) :
    ((d.detach new).place p index new).node m = d.node m :=
  (node_place_of_ne (ne_of_kept hnew hm) (ne_of_kept hp hm)).trans (h.node_detach hnew hm)

/-- The place beside a node outside is outside. -/
theorem node_beside (hr : ¬ K r) (hnew : ¬ K new) (hm : K m) :
    (outcome (insertBefore r new) d).2.node m = d.node m ∧
      (outcome (insertAfter r new) d).2.node m = d.node m := by
  rw [outcome_insertBefore, outcome_insertAfter]
  cases hposition : (d.detach new).positionOf? r with
  | none => exact ⟨h.node_detach hnew hm, h.node_detach hnew hm⟩
  | some found =>
      obtain ⟨p, index⟩ := found
      obtain ⟨hparent, -⟩ := Coherent.positionOf?_eq_some hposition
      rw [h.linked.parent_detach] at hparent
      split at hparent
      next => cases hparent
      next =>
        have hp : ¬ K p := fun hp => hr ((h.parent_iff r p hparent).mpr hp)
        exact ⟨h.node_place hp hnew hm, h.node_place hp hnew hm⟩

theorem spared_allBefore (hr : r < d.size ∧ ¬ K r) (hnodes : ∀ n ∈ nodes, n < d.size ∧ ¬ K n) :
    Spared K d (outcome (nodes.forM (insertBefore r)) d).2 := by
  induction nodes generalizing d with
  | nil => exact h.same
  | cons c nodes ih =>
      obtain ⟨hc, hrest⟩ := List.forall_mem_cons.mp hnodes
      have hfirst : Spared K d (outcome (insertBefore r c) d).2 :=
        h.spared_of_run (.insertBefore r c) (by simp [Operation.nodes, hr.1, hc.1])
          fun m hm => (h.node_beside hr.2 hc.2 hm).1
      rw [outcome_forM_cons, outcome_bind]
      rcases hstep : outcome (insertBefore r c) d with ⟨_ | _, u⟩
      all_goals rw [hstep] at hfirst
      · exact hfirst
      · refine hfirst.trans (ih hfirst.secluded ⟨?_, hr.2⟩ fun n hn => ⟨?_, (hrest n hn).2⟩)
        · exact Nat.lt_of_lt_of_le hr.1 hfirst.size_le
        · exact Nat.lt_of_lt_of_le (hrest n hn).1 hfirst.size_le

theorem node_replace (hr : r < d.size ∧ ¬ K r) (hnodes : ∀ n ∈ nodes, n < d.size ∧ ¬ K n)
    (hm : K m) : (outcome (replace r nodes) d).2.node m = d.node m := by
  -- The edit may stop at any of the nodes. What was kept until then is kept.
  have hall := h.spared_allBefore hr hnodes
  unfold replace
  rw [outcome_bind]
  rcases hmoved : outcome (nodes.forM (insertBefore r)) d with ⟨_ | _, u⟩
  all_goals rw [hmoved] at hall
  · exact hall.node_eq m hm
  · exact (hall.secluded.node_detach hr.2 hm).trans (hall.node_eq m hm)

theorem node_omitTag (hx : x < d.size ∧ ¬ K x) (hm : K m) :
    (outcome (omitTag x) d).2.node m = d.node m := by
  have hchildren : ∀ n ∈ d.children x, n < d.size ∧ ¬ K n := fun n hn =>
    ⟨(h.linked.child_lt x n hn).2, fun hkept =>
      hx.2 ((h.parent_iff n x (h.linked.parent_eq hn)).mp hkept)⟩
  have hreplace := h.node_replace hx hchildren hm
  unfold omitTag
  rw [outcome_bind_ok (outcome_get d), outcome_bind]
  rcases hreplaced : outcome (replace x (d.children x)) d with ⟨_ | _, u⟩
  all_goals rwa [hreplaced] at hreplace

theorem spared_clearChildren (hx : x < d.size ∧ ¬ K x) : Spared K d (d.clearChildren x) := by
  refine h.spared (h.linked.clearChildren hx.1) (Nat.le_of_eq (size_clearChildren d x).symm)
    fun m hm => node_clearChildren_of_ne (ne_of_kept hx.2 hm) fun hchild => ?_
  exact hx.2 ((h.parent_iff m x (h.linked.parent_eq hchild)).mp hm)

theorem spared_append (hp : p < d.size ∧ ¬ K p) (hnew : new < d.size ∧ ¬ K new) :
    Spared K d (d.append p new) :=
  h.spared_of_run (.append p new) (by simp [Operation.nodes, hp.1, hnew.1])
    fun m hm => h.node_place hp.2 hnew.2 hm

theorem spared_appendAll (hx : x < d.size ∧ ¬ K x) (hnodes : ∀ n ∈ nodes, n < d.size ∧ ¬ K n) :
    Spared K d (nodes.foldl (fun d child => d.append x child) d) := by
  induction nodes generalizing d with
  | nil => exact h.same
  | cons c nodes ih =>
      obtain ⟨hc, hrest⟩ := List.forall_mem_cons.mp hnodes
      have hfirst := h.spared_append hx hc
      rw [List.foldl_cons]
      refine hfirst.trans (ih hfirst.secluded ?_ ?_)
      · rwa [size_append]
      · rwa [size_append]

theorem spared_replaceChildren (hx : x < d.size ∧ ¬ K x)
    (hnodes : ∀ n ∈ nodes, n < d.size ∧ ¬ K n) : Spared K d (d.replaceChildren x nodes) := by
  have hclear := h.spared_clearChildren hx
  refine hclear.trans (hclear.secluded.spared_appendAll ?_ ?_)
  · rwa [size_clearChildren]
  · rwa [size_clearChildren]

/-- A change of what a node is changes no link. -/
theorem spared_relabel (hx : ¬ K x) (change : NodeKind → NodeKind) :
    Spared K d (d.update x fun node => { node with kind := change node.kind }) := by
  have hsize := size_update d x fun node => { node with kind := change node.kind }
  have hlinked := h.linked.of_links (Nat.le_of_eq hsize.symm) (fun _ => parent_update_kind change)
    fun _ => children_update_kind change
  refine h.spared hlinked (Nat.le_of_eq hsize.symm) fun m hm => ?_
  rw [node_update, if_neg fun heq => ne_of_kept hx hm heq.1]

end Secluded

/-- A call leaves alone what has no link to the nodes it speaks of. -/
theorem Secluded.node_run (h : Secluded K d) (op : Operation)
    (hnodes : ∀ n ∈ op.nodes, n < d.size ∧ ¬ K n) (hm : K m) :
    (op.run d).node m = d.node m := by
  have hold : m < d.size := h.lt m hm
  cases op with
  | create kind => exact (node_create d kind m).trans (if_neg (Nat.ne_of_lt hold))
  | detach id => exact h.node_detach (hnodes id (by simp [Operation.nodes])).2 hm
  | append p c =>
      have hp := hnodes p (by simp [Operation.nodes])
      exact h.node_place hp.2 (hnodes c (by simp [Operation.nodes])).2 hm
  | insertBefore r new =>
      have hr := hnodes r (by simp [Operation.nodes])
      exact (h.node_beside hr.2 (hnodes new (by simp [Operation.nodes])).2 hm).1
  | insertAfter r new =>
      have hr := hnodes r (by simp [Operation.nodes])
      exact (h.node_beside hr.2 (hnodes new (by simp [Operation.nodes])).2 hm).2
  | replace old replacements =>
      obtain ⟨hr, hrest⟩ := List.forall_mem_cons.mp hnodes
      exact h.node_replace hr hrest hm
  | omitTag id => exact h.node_omitTag (hnodes id (by simp [Operation.nodes])) hm
  | clearChildren id =>
      exact (h.spared_clearChildren (hnodes id (by simp [Operation.nodes]))).node_eq m hm
  | replaceChildren id children =>
      obtain ⟨hid, hrest⟩ := List.forall_mem_cons.mp hnodes
      exact (h.spared_replaceChildren hid hrest).node_eq m hm
  | deepCopy id => exact (laid_graft d (d.tree id)).node_eq m hold
  | importSubtree other id => exact (laid_importSubtree d other id).node_eq m hold
  | parseFragment markup => exact (ensures_parseFragment_node d markup).state m hold

end Document

/-! ## Changes one after the other -/

/-- What can be done to a document: a call of an operation on its tree, or a change of what a node
is. -/
inductive Change where
  | call (operation : Operation)
  | relabel (id : NodeId) (change : NodeKind → NodeKind)
  | setAttribute (id : NodeId) (raw value : String)
  | removeAttribute (id : NodeId) (raw : String)
  | setAttributeBySpec (id : NodeId) (spec : AttributeSpec) (value : String)
  | removeAttributeBySpec (id : NodeId) (spec : AttributeSpec)

namespace Change

variable {K : NodeId → Prop} {d t : Document}

/-- The document after the change, whether it succeeded or not. -/
def run (d : Document) : Change → Document
  | call operation => operation.run d
  | relabel id change => d.update id fun node => { node with kind := change node.kind }
  | setAttribute id raw value => (outcome (Document.setAttribute id raw value) d).2
  | removeAttribute id raw => (d.removeAttribute id raw).1
  | setAttributeBySpec id spec value => (outcome (Document.setAttributeBySpec id spec value) d).2
  | removeAttributeBySpec id spec => (d.removeAttributeBySpec id spec).1

/-- The nodes of the document that the change speaks of. -/
def nodes : Change → List NodeId
  | call operation => operation.nodes
  | relabel id _ | setAttribute id _ _ | removeAttribute id _ | setAttributeBySpec id _ _
  | removeAttributeBySpec id _ => [id]

theorem spared_run (h : Document.Secluded K d) (change : Change)
    (hnodes : ∀ n ∈ change.nodes, n < d.size ∧ ¬ K n) :
    Document.Spared K d (change.run d) := by
  have helement : ∀ id, ¬ K id → ∀ f, Document.Spared K d (d.updateElement id f) :=
    fun id hid f => h.spared_relabel hid (·.mapElement f)
  cases change with
  | call operation =>
      exact h.spared_of_run operation (fun n hn => (hnodes n hn).1)
        fun m hm => h.node_run operation hnodes hm
  | relabel id change => exact h.spared_relabel (hnodes id List.mem_cons_self).2 change
  | setAttribute id raw value =>
      have hid := (hnodes id List.mem_cons_self).2
      show Document.Spared K d (outcome (Document.setAttribute id raw value) d).2
      unfold Document.setAttribute
      rw [outcome_bind_ok (outcome_get d)]
      split
      · exact helement id hid _
      · exact h.same
  | removeAttribute id raw =>
      have hid := (hnodes id List.mem_cons_self).2
      show Document.Spared K d (d.removeAttribute id raw).1
      unfold Document.removeAttribute
      split
      · exact helement id hid _
      · exact h.same
  | setAttributeBySpec id spec value =>
      have hid := (hnodes id List.mem_cons_self).2
      show Document.Spared K d (outcome (Document.setAttributeBySpec id spec value) d).2
      unfold Document.setAttributeBySpec
      rw [outcome_bind_ok (outcome_get d)]
      split
      · exact helement id hid _
      · split
        · exact helement id hid _
        · exact h.same
  | removeAttributeBySpec id spec =>
      have hid := (hnodes id List.mem_cons_self).2
      show Document.Spared K d (d.removeAttributeBySpec id spec).1
      unfold Document.removeAttributeBySpec
      split
      · exact helement id hid _
      · exact h.same

end Change

namespace Document

variable {K : NodeId → Prop} {d t u : Document} {n m copy : NodeId} {tree : Tree} {count : Nat}

/-- Changes have led from `d` to the document that speak of nodes there at the time, and of `allowed`
ones alone. -/
inductive Edited (allowed : NodeId → Prop) (d : Document) : Document → Prop where
  | refl : Edited allowed d d
  | step {t : Document} (before : Edited allowed d t) (change : Change)
    (hnodes : ∀ n ∈ change.nodes, n < t.size ∧ allowed n) : Edited allowed d (change.run t)

theorem Secluded.edited (h : Secluded K d) (hedited : Edited (fun n => ¬ K n) d t) :
    Spared K d t := by
  induction hedited with
  | refl => exact h.same
  | step _ change hnodes ih => exact ih.trans (change.spared_run ih.secluded hnodes)

theorem Edited.mono {allowed allowed' : NodeId → Prop} (h : Edited allowed d t)
    (himp : ∀ n, allowed n → allowed' n) : Edited allowed' d t := by
  induction h with
  | refl => exact .refl
  | step _ change hnodes ih =>
      exact ih.step change fun n hn => (hnodes n hn).imp_right (himp n)

/-! ## Copies -/

/-- `t` is `d` with a copy of a tree of `count` nodes, and nothing that is done to the copy reaches
the nodes of `d`, nor the other way round. -/
structure StandsAlone (d t : Document) (copy : NodeId) (tree : Tree) (count : Nat) : Prop where
  linked : t.Linked
  acyclic : t.Acyclic
  size_eq : t.size = d.size + count
  node_eq : ∀ m < d.size, t.node m = d.node m
  parent_eq : t.parent copy = none
  tree_eq : t.tree copy = tree
  subtree_eq : t.subtree copy = List.range' d.size count
  copy_spared : ∀ u, Edited (· ∉ t.subtree copy) t u → ∀ m ∈ t.subtree copy, u.node m = t.node m
  rest_spared : ∀ u, Edited (d.size ≤ ·) t u → ∀ m < d.size, u.node m = t.node m

/-- The nodes that were there have no link to a copy. -/
theorem Laid.secluded_old (h : Laid d t tree) (hlinked : d.Linked) (ht : t.Linked) :
    Secluded (· < d.size) t := by
  have hsize : d.size ≤ t.size := by
    rw [h.size_eq]
    exact Nat.le_add_right _ _
  refine ⟨ht, fun n hn => Nat.lt_of_lt_of_le hn hsize, fun c p hp => ⟨fun hc => ?_, fun hold => ?_⟩⟩
  · have hparent : t.parent c = d.parent c := congrArg Node.parent (h.node_eq c hc)
    exact (hlinked.lt_of_parent (hparent ▸ hp)).1
  · have hchildren : t.children p = d.children p := congrArg Node.children (h.node_eq p hold)
    exact (hlinked.child_lt p c (hchildren ▸ (ht.mem_children_iff p c).mpr hp)).2

/-- A node without a parent has, with all below it, no link to others. -/
theorem Branching.secluded (h : t.Branching copy) (ht : t.Linked) (htop : t.parent copy = none) :
    Secluded (· ∈ t.subtree copy) t := by
  refine ⟨ht, fun n hn => h.lt n (h.mem_subtree_iff.mp hn), fun c p hp => ?_⟩
  rw [h.mem_subtree_iff, h.mem_subtree_iff]
  constructor
  · intro hc
    cases hc with
    | refl =>
        rw [htop] at hp
        cases hp
    | child hparent hchild =>
        obtain rfl := Option.some.inj ((ht.parent_eq hchild).symm.trans hp)
        exact hparent
  · intro hbelow
    exact hbelow.child ((ht.mem_children_iff p c).mpr hp)

theorem Laid.standsAlone (h : Laid d t tree) (hlinked : d.Linked) (ht : t.Linked)
    (hacyclic : t.Acyclic) (hcount : tree.size = count) : StandsAlone d t d.size tree count := by
  subst hcount
  have hlt : d.size < t.size := by
    rw [h.size_eq]
    exact Nat.lt_add_of_pos_right tree.size_pos
  have hsize : tree.size ≤ t.size := by
    rw [h.size_eq]
    exact Nat.le_add_left _ _
  have hbranch := ht.branching hacyclic hlt
  -- Both parts have no link to others: the copy since its top has no parent, and what was there
  -- before since its links are as they were.
  refine ⟨ht, hacyclic, h.size_eq, h.node_eq, h.parent_eq, ?_, ?_, fun u hedited => ?_,
    fun u hedited => ?_⟩
  · rw [← Tree.map_id (t.tree d.size)]
    exact h.stored.map_treeTo (Nat.le_succ_of_le hsize)
  · rw [hbranch.subtree_eq]
    exact h.stored.preorder_eq hsize
  · exact ((hbranch.secluded ht h.parent_eq).edited hedited).node_eq
  · exact ((h.secluded_old hlinked ht).edited (hedited.mono fun _ => Nat.not_lt_of_le)).node_eq

/-- A copy of a node consists of as many new nodes as lie below the node, numbered in document order.
It has no parent, and its tree is that of the node; only the top of a copy from another document
remembers the name of its source. The nodes that were there are as they were. From then on, changes
that speak of no node of the copy leave the copy as it is, and changes that speak of no older node
leave all of these as they are. -/
theorem copies_stand_alone (hlinked : d.Linked) (hacyclic : d.Acyclic) :
    (∀ n < d.size, (d.subtree n).Nodup ∧ (∀ m, m ∈ d.subtree n ↔ d.Below n m) ∧
      (d.deepCopy n).2 = d.size ∧
      StandsAlone d (d.deepCopy n).1 d.size (d.tree n) (d.subtree n).length) ∧
    ∀ other n, other.Linked → other.Acyclic → n < other.size →
      (other.subtree n).Nodup ∧ (∀ m, m ∈ other.subtree n ↔ other.Below n m) ∧
      (d.importSubtree other n).2 = d.size ∧
      StandsAlone d (d.importSubtree other n).1 d.size ((other.tree n).imported other.sourceName)
        (other.subtree n).length := by
  have hcoherent : Coherent True d := ⟨hlinked, fun _ => hacyclic⟩
  refine ⟨fun n hn => ?_, fun other n hlinked' hacyclic' hn => ?_⟩
  · have hbranch := hlinked.branching hacyclic hn
    have htame : ¬ (Operation.deepCopy n).Encloses d := by
      rintro ⟨_, _, hplaces, _⟩
      exact hplaces
    have hrun := Operation.relinked_run hcoherent (.deepCopy n) (by simpa [Operation.nodes])
      fun _ => htame
    refine ⟨hbranch.nodup_subtree, fun m => hbranch.mem_subtree_iff, graft_snd d _, ?_⟩
    exact (laid_graft d (d.tree n)).standsAlone hlinked hrun.coherent.linked
      (hrun.coherent.acyclic trivial) hbranch.length_subtree.symm
  · have hbranch := hlinked'.branching hacyclic' hn
    have htame : ¬ (Operation.importSubtree other n).Encloses d := by
      rintro ⟨_, _, hplaces, _⟩
      exact hplaces
    have hrun := Operation.relinked_run hcoherent (.importSubtree other n)
      (by simp [Operation.nodes]) fun _ => htame
    refine ⟨hbranch.nodup_subtree, fun m => hbranch.mem_subtree_iff, importSubtree_snd d other n, ?_⟩
    refine (laid_importSubtree d other n).standsAlone hlinked hrun.coherent.linked
      (hrun.coherent.acyclic trivial) ?_
    rw [Tree.size_imported, hbranch.length_subtree]

/-- The last of three elements is copied with its text. The copy loses the text, and the original gets
an attribute, each without a trace in the other. Then the element comes in once more from a document
that has a name. -/
theorem copies_stand_alone_threesome :
    let d := threesome
    let t := (d.deepCopy 4).1
    let other := { d with sourceName := some "page.pt" }
    d.Linked ∧ d.Acyclic ∧
      t.subtree 6 = [6, 7] ∧ t.tree 6 = d.tree 4 ∧
      (t.clearChildren 6).node 5 = t.node 5 ∧
      (outcome (setAttribute 4 "class" "x") t).2.node 6 = t.node 6 ∧
      (t.importSubtree other 4).1.tree 8 = (other.tree 4).imported (some "page.pt") := by
  intro d t other
  have hlinked : d.Linked := (show d.WellLinked by decide +kernel).toLinked
  have hacyclic : d.Acyclic := acyclic_of_parents_before (by decide +kernel)
  obtain ⟨-, -, -, hcopy⟩ := (copies_stand_alone hlinked hacyclic).1 4 (by decide)
  have hlinked' : other.Linked := (show other.WellLinked by decide +kernel).toLinked
  have hacyclic' : other.Acyclic := acyclic_of_parents_before (by decide +kernel)
  obtain ⟨-, -, -, himport⟩ :=
    (copies_stand_alone hcopy.linked hcopy.acyclic).2 other 4 hlinked' hacyclic' (by decide)
  have hsubtree : t.subtree 6 = [6, 7] := hcopy.subtree_eq.trans (by decide +kernel)
  refine ⟨hlinked, hacyclic, hsubtree, hcopy.tree_eq, ?_, ?_, ?_⟩
  · exact hcopy.rest_spared _ (.step .refl (.call (.clearChildren 6)) (by decide +kernel)) 5
      (by decide)
  · refine hcopy.copy_spared _ (.step .refl (.setAttribute 4 "class" "x") fun n hn => ?_) 6 ?_
    · obtain rfl := List.mem_singleton.mp hn
      refine ⟨by decide +kernel, ?_⟩
      show 4 ∉ t.subtree 6
      rw [hsubtree]
      decide
    · show 6 ∈ t.subtree 6
      rw [hsubtree]
      decide
  · exact himport.tree_eq

end Document

end PageTemplate.Markup
