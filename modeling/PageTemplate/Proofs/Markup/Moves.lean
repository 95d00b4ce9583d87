import PageTemplate.Proofs.Markup.Regions

/-! # Moving nodes within a region

The edits that a directive makes at an element: nodes are moved next to it or below it, it is
taken out, replaced, or loses its tag. None of them fails for an element that has a parent, and
each is a change within the region of the element.
-/

namespace PageTemplate.Markup.Document

variable {d d' d'' : Document} {R : NodeId → Prop} {x n m p q new : NodeId} {index : Nat}

/-- Nodes were moved to `p` or taken out of the tree, and nothing else was done. -/
structure Gathered (p : NodeId) (d d' : Document) : Prop where
  size_eq : d'.size = d.size
  kind_eq : ∀ n, d'.kind n = d.kind n
  children_subset : ∀ n, n ≠ p → d'.children n ⊆ d.children n

namespace Gathered

protected theorem trans (h : Gathered p d d') (h' : Gathered p d' d'') : Gathered p d d'' :=
  ⟨h'.size_eq.trans h.size_eq, fun n => (h'.kind_eq n).trans (h.kind_eq n),
    fun n hn => List.Subset.trans (h'.children_subset n hn) (h.children_subset n hn)⟩

theorem throughout {good : NodeId → NodeKind → Prop} {k : Nat} (h : Gathered p d d')
    (hout : ¬ d.Below x p) (hgood : Throughout good d k x) : Throughout good d' k x := by
  refine hgood.congr (fun m hm => h.children_subset m ?_) fun m _ hm => ?_
  · rintro rfl
    exact hout hm
  · rwa [h.kind_eq]

end Gathered

/-! ## Single steps -/

theorem gathered_detach (hlinked : d.WellLinked) (x p : NodeId) : Gathered p d (d.detach x) := by
  refine ⟨size_detach d, kind_detach d x, fun n _ => ?_⟩
  rw [hlinked.children_detach]
  exact fun c hc => (List.mem_filter.mp hc).1

theorem gathered_place (hp : p < d.size) (index : Nat) (new : NodeId) :
    Gathered p d (d.place p index new) := by
  refine ⟨size_place d index, kind_place d p index new, fun n hn => ?_⟩
  rw [children_place hp, if_neg hn]
  exact List.Subset.refl _

/-- Nodes with the same parts are the same. -/
theorem node_eq_of (hkind : d'.kind n = d.kind n) (hparent : d'.parent n = d.parent n)
    (hchildren : d'.children n = d.children n) : d'.node n = d.node n := by
  unfold kind parent children at *
  cases hnode : d.node n
  cases hnode' : d'.node n
  simp_all

theorem node_detach_of_ne (hn : n ≠ x) (hp : d.parent x ≠ some n) :
    (d.detach x).node n = d.node n := by
  unfold detach
  split
  · rfl
  next p hx =>
    have hnp : n ≠ p := by
      rintro rfl
      exact hp hx
    rw [node_update, if_neg fun h => hnp h.1, node_update, if_neg fun h => hn h.1]

theorem node_place_of_ne (hn : n ≠ new) (hnp : n ≠ p) :
    (d.place p index new).node n = d.node n := by
  unfold place
  rw [node_update, if_neg fun h => hnp h.1, node_update, if_neg fun h => hn h.1]

namespace Region

theorem ne_outer (hregion : Region R p d) (hn : R n) : n ≠ p := by
  rintro rfl
  exact hregion.outer hn

theorem ne_root (hregion : Region R p d) (hn : R n) : n ≠ root := by
  rintro rfl
  exact hregion.not_root hn

theorem detach_within (hregion : Region R p d) (hx : R x) : Within R p d (d.detach x) := by
  have hlinked := hregion.linked
  refine ⟨.of_kind (hlinked.detach x) (Nat.le_of_eq (size_detach d).symm) (kind_detach d x)
    fun n hn => ?_, kind_detach d x p, ?_⟩
  · refine node_detach_of_ne ?_ ?_
    · rintro rfl
      exact hn (.inl hx)
    · intro hparent
      exact hn (hregion.parent_cases hx hparent)
  · rw [hlinked.parent_detach, if_neg (hregion.ne_outer hx).symm]

theorem place_within (hregion : Region R p d) (hnew : R new) (hlt : new < d.size)
    (hnone : d.parent new = none) (hq : R q ∨ q = p) (hqlt : q < d.size)
    (hindex : index ≤ (d.children q).length) : Within R p d (d.place q index new) := by
  refine ⟨.of_kind (hregion.linked.place hnone (hregion.ne_root hnew) hqlt hlt hindex)
    (Nat.le_of_eq (size_place d index).symm) (kind_place d q index new) fun n hn => ?_,
    kind_place d q index new p, ?_⟩
  · refine node_place_of_ne ?_ ?_
    · rintro rfl
      exact hn (.inl hnew)
    · rintro rfl
      exact hn hq
  · rw [parent_place hlt, if_neg (hregion.ne_outer hnew).symm]

end Region

theorem extends_create (hlinked : d.WellLinked) (kind : NodeKind) :
    Extends d (d.create kind).1 := by
  have hsame : ∀ n, n ≠ d.size → (d.create kind).1.node n = d.node n := fun n hn => by
    rw [node_create, if_neg hn]
  refine ⟨hlinked.create kind, ?_, fun n hn => hsame n ?_, fun n hn => ?_⟩
  · rw [size_create]
    exact Nat.le_succ _
  · rintro rfl
    exact hn (Nat.le_refl _)
  · have hne : n ≠ d.size := Nat.ne_of_lt (lt_size_of_isElement hn)
    exact (isElement_congr (congrArg Node.kind (hsame n hne))).trans hn

/-! ## Next to an element -/

theorem outcome_position (d : Document) (x : NodeId) :
    outcome (position x) d = match d.positionOf? x with
      | some found => (.ok found, d)
      | none => (.error (.detached x), d) := by
  unfold position
  rw [outcome_bind_ok (outcome_get d)]
  cases d.positionOf? x <;> rfl

/-- What comes of moving a node right before another one. -/
theorem outcome_insertBefore (d : Document) (r new : NodeId) :
    outcome (insertBefore r new) d = match (d.detach new).positionOf? r with
      | some (p, index) => (.ok ⟨⟩, (d.detach new).place p index new)
      | none => (.error (.detached r), d.detach new) := by
  unfold insertBefore
  rw [outcome_bind_ok (outcome_modify d _), outcome_bind, outcome_position]
  cases (d.detach new).positionOf? r <;> rfl

theorem outcome_insertAfter (d : Document) (r new : NodeId) :
    outcome (insertAfter r new) d = match (d.detach new).positionOf? r with
      | some (p, index) => (.ok ⟨⟩, (d.detach new).place p (index + 1) new)
      | none => (.error (.detached r), d.detach new) := by
  unfold insertAfter
  rw [outcome_bind_ok (outcome_modify d _), outcome_bind, outcome_position]
  cases (d.detach new).positionOf? r <;> rfl

theorem exists_positionOf? (hlinked : d.WellLinked) (hx : d.parent x = some p) :
    ∃ index, index < (d.children p).length ∧ d.positionOf? x = some (p, index) := by
  have hmem := hlinked.mem_children hx
  cases hindex : (d.children p).findIdx? (· == x) with
  | none =>
      rw [List.findIdx?_eq_none_iff] at hindex
      simpa using hindex x hmem
  | some index =>
      obtain ⟨hlt, -⟩ := List.findIdx?_eq_some_iff_getElem.mp hindex
      exact ⟨index, hlt, by simp [positionOf?, hx, hindex]⟩

/-- A node of the region is moved to a place among the children of `p`. -/
structure Brought (R : NodeId → Prop) (p new : NodeId) (d d' : Document) : Prop extends
    Within R p d d', Gathered p d d' where
  parents : ∀ n, d'.parent n = if n = new then some p else d.parent n

namespace Region

theorem brought (hregion : Region R p d) (hnew : R new) (hlt : new < d.size)
    (hindex : index ≤ ((d.detach new).children p).length) :
    Brought R p new d ((d.detach new).place p index new) := by
  have hdetach := hregion.detach_within hnew
  have hfreed := hregion.within hdetach
  have hnone : (d.detach new).parent new = none := by
    rw [hregion.linked.parent_detach, if_pos rfl]
  have hlt' : new < (d.detach new).size := by rwa [size_detach]
  have hplace := hfreed.place_within hnew hlt' hnone (.inr rfl) hfreed.lt hindex
  refine ⟨hdetach.trans hplace, ?_, fun n => ?_⟩
  · exact (gathered_detach hregion.linked new p).trans (gathered_place hfreed.lt index new)
  · rw [parent_place hlt', hregion.linked.parent_detach]
    split <;> rfl

/-- Both insertions bring the new node to a place beside the old one. -/
theorem brought_beside (hregion : Region R p d) (hx : d.parent x = some p) (hnew : R new)
    (hlt : new < d.size) (hne : new ≠ x) :
    Ensures (insertBefore x new) d (fun _ => Brought R p new d) (fun _ _ => False) ∧
      Ensures (insertAfter x new) d (fun _ => Brought R p new d) (fun _ _ => False) := by
  have hfreed : (d.detach new).parent x = some p := by
    rw [hregion.linked.parent_detach, if_neg hne.symm, hx]
  -- The position is looked up after `new` was taken out: `x` is still there, wherever `new` was.
  obtain ⟨index, hindex, hposition⟩ := exists_positionOf? (hregion.linked.detach new) hfreed
  constructor
  · refine .of_eq (.ok ⟨⟩, (d.detach new).place p index new) ?_
      (hregion.brought hnew hlt (Nat.le_of_lt hindex))
    rw [outcome_insertBefore, hposition]
  · refine .of_eq (.ok ⟨⟩, (d.detach new).place p (index + 1) new) ?_
      (hregion.brought hnew hlt hindex)
    rw [outcome_insertAfter, hposition]

end Region

/-- An element is out of the tree, and nodes of its region have come to stand below `p`. -/
structure Replaced (R : NodeId → Prop) (p x : NodeId) (nodes : List NodeId) (d d' : Document) :
    Prop extends Within R p d d', Gathered p d d' where
  parents : ∀ n, d'.parent n =
    if n = x then none else if n ∈ nodes then some p else d.parent n

namespace Region

theorem detached (hregion : Region R p d) (hx : R x) : Replaced R p x [] d (d.detach x) := by
  refine ⟨hregion.detach_within hx, gathered_detach hregion.linked x p, fun n => ?_⟩
  rw [hregion.linked.parent_detach]
  simp

theorem replaced (hregion : Region R p d) (hR : R x) (hx : d.parent x = some p)
    {nodes : List NodeId} (hnodes : ∀ n ∈ nodes, R n ∧ n < d.size ∧ n ≠ x) :
    Ensures (replace x nodes) d (fun _ => Replaced R p x nodes d) (fun _ _ => False) := by
  unfold replace
  induction nodes generalizing d with
  | nil => exact Ensures.bind (Ensures.pure (Ensures.modify (hregion.detached hR)))
  | cons node nodes ih =>
      obtain ⟨⟨hnode, hlt, hne⟩, hrest⟩ := List.forall_mem_cons.mp hnodes
      show Ensures ((insertBefore x node >>= fun _ => nodes.forM (insertBefore x)) >>= fun _ =>
        modify (·.detach x)) d _ _
      rw [bind_assoc]
      refine Ensures.bind
        ((hregion.brought_beside hx hnode hlt hne).1.mono ?_ fun _ _ => False.elim)
      intro _ d₁ hfirst
      have hx₁ : d₁.parent x = some p := by
        rw [hfirst.parents, if_neg hne.symm, hx]
      have hrest₁ : ∀ n ∈ nodes, R n ∧ n < d₁.size ∧ n ≠ x := fun n hn => by
        rw [hfirst.size_eq]
        exact hrest n hn
      refine (ih (hregion.within hfirst.toWithin) hx₁ hrest₁).mono ?_ fun _ _ => id
      intro _ d₂ hlast
      refine ⟨hfirst.toWithin.trans hlast.toWithin, hfirst.toGathered.trans hlast.toGathered,
        fun n => ?_⟩
      rw [hlast.parents, hfirst.parents]
      by_cases hnx : n = x <;> by_cases hnn : n = node <;> by_cases hmem : n ∈ nodes <;>
        simp [hnx, hnn, hmem]

/-- Children of an element without its tag come to stand where it stood. -/
theorem omitted (hregion : Region R p d) (hR : R x) (hx : d.parent x = some p) :
    Ensures (omitTag x) d
      (fun promoted d' => promoted = d.children x ∧ Replaced R p x (d.children x) d d')
      (fun _ _ => False) := by
  have hchildren : ∀ n ∈ d.children x, R n ∧ n < d.size ∧ n ≠ x := by
    intro n hn
    refine ⟨hregion.closed x n hR hn, (hregion.linked.child_lt x n hn).2, ?_⟩
    rintro rfl
    have hself := (hregion.linked.parent_eq hn).symm.trans hx
    exact hregion.ne_outer hR (Option.some.inj hself)
  unfold omitTag
  refine Ensures.bind (Ensures.get ?_)
  refine Ensures.bind ((hregion.replaced hR hx hchildren).mono ?_ fun _ _ => id)
  exact fun _ d' hd' => Ensures.pure ⟨rfl, hd'⟩

end Region

/-! ## Below an element -/

section ClearChildren

variable {children : List NodeId}

/-- The document in which nodes have lost their parents. -/
def orphan (d : Document) (children : List NodeId) : Document :=
  children.foldl (fun d child => d.update child fun node => { node with parent := none }) d

theorem size_orphan (d : Document) (children : List NodeId) :
    (d.orphan children).size = d.size := by
  unfold orphan
  induction children generalizing d with
  | nil => rfl
  | cons child children ih => rw [List.foldl_cons, ih, size_update]

theorem kind_orphan (d : Document) (children : List NodeId) (n : NodeId) :
    (d.orphan children).kind n = d.kind n := by
  unfold orphan
  induction children generalizing d with
  | nil => rfl
  | cons child children ih => rw [List.foldl_cons, ih, kind_update_parent]

theorem children_orphan (d : Document) (children : List NodeId) (n : NodeId) :
    (d.orphan children).children n = d.children n := by
  unfold orphan
  induction children generalizing d with
  | nil => rfl
  | cons child children ih => rw [List.foldl_cons, ih, children_update_parent]

theorem node_orphan (hn : n ∉ children) : (d.orphan children).node n = d.node n := by
  unfold orphan
  induction children generalizing d with
  | nil => rfl
  | cons child children ih =>
      rw [List.mem_cons, not_or] at hn
      rw [List.foldl_cons, ih hn.2, node_update, if_neg fun h => hn.1 h.1]

theorem parent_orphan (hchildren : ∀ c ∈ children, c < d.size) (n : NodeId) :
    (d.orphan children).parent n = if n ∈ children then none else d.parent n := by
  unfold orphan
  induction children generalizing d with
  | nil => rfl
  | cons child children ih =>
      obtain ⟨hchild, hrest⟩ := List.forall_mem_cons.mp hchildren
      rw [List.foldl_cons, ih (by simpa using hrest), parent_update_parent hchild]
      by_cases hmem : n ∈ children <;> by_cases hn : n = child <;> simp [hmem, hn]

end ClearChildren

theorem kind_clearChildren (d : Document) (x n : NodeId) :
    (d.clearChildren x).kind n = d.kind n := by
  show ((d.orphan (d.children x)).update x _).kind n = _
  rw [kind_update_children (f := fun _ => []), kind_orphan]

theorem size_clearChildren (d : Document) (x : NodeId) : (d.clearChildren x).size = d.size := by
  show ((d.orphan (d.children x)).update x _).size = _
  rw [size_update, size_orphan]

theorem node_clearChildren_of_ne (hn : n ≠ x) (hchild : n ∉ d.children x) :
    (d.clearChildren x).node n = d.node n := by
  show ((d.orphan (d.children x)).update x _).node n = _
  rw [node_update, if_neg fun h => hn h.1, node_orphan hchild]

theorem parent_clearChildren (hchildren : ∀ c ∈ d.children x, c < d.size) (n : NodeId) :
    (d.clearChildren x).parent n = if n ∈ d.children x then none else d.parent n := by
  show ((d.orphan (d.children x)).update x _).parent n = _
  rw [parent_update_children (f := fun _ => []), parent_orphan hchildren]

theorem Linked.parent_clearChildren (hlinked : d.Linked) (x n : NodeId) :
    (d.clearChildren x).parent n = if n ∈ d.children x then none else d.parent n :=
  Document.parent_clearChildren (fun c hc => (hlinked.child_lt x c hc).2) n

theorem children_clearChildren (hx : x < d.size) (n : NodeId) :
    (d.clearChildren x).children n = if n = x then [] else d.children n := by
  show ((d.orphan (d.children x)).update x _).children n = _
  rw [children_update_children (f := fun _ => []) (by rwa [size_orphan]), children_orphan]

theorem Linked.clearChildren (hlinked : d.Linked) (hx : x < d.size) :
    (d.clearChildren x).Linked := by
  have hparent := hlinked.parent_clearChildren x
  have hchildren := children_clearChildren hx
  refine ⟨fun p c => ?_, fun p => ?_, fun p c hc => ?_⟩
  · rw [hparent, hchildren]
    have hlinks := hlinked.mem_children_iff
    by_cases hp : p = x
    · subst hp
      by_cases hc : c ∈ d.children p
      · simp [hc]
      · rw [if_pos rfl, if_neg hc, ← hlinks]
        simp [hc]
    · rw [if_neg hp]
      by_cases hc : c ∈ d.children x
      · have hcx := hlinked.parent_eq hc
        rw [if_pos hc, hlinks, hcx]
        simpa using fun heq => hp heq.symm
      · rw [if_neg hc, hlinks]
  · rw [hchildren]
    split
    · exact List.nodup_nil
    · exact hlinked.nodup_children p
  · rw [hchildren] at hc
    rw [size_clearChildren]
    split at hc
    · cases hc
    · exact hlinked.child_lt p c hc

section

variable (hlinked : d.WellLinked) (hx : x < d.size)

include hlinked

theorem WellLinked.parent_clearChildren (n : NodeId) :
    (d.clearChildren x).parent n = if n ∈ d.children x then none else d.parent n :=
  hlinked.toLinked.parent_clearChildren x n

include hx

theorem WellLinked.clearChildren : (d.clearChildren x).WellLinked := by
  refine (hlinked.toLinked.clearChildren hx).wellLinked ?_
  rw [hlinked.parent_clearChildren, hlinked.parent_root]
  split <;> rfl

theorem WellLinked.confined_clearChildren :
    Confined (fun n => n = x ∨ n ∈ d.children x) d (d.clearChildren x) := by
  refine .of_kind (hlinked.clearChildren hx) (Nat.le_of_eq (size_clearChildren d x).symm)
    (kind_clearChildren d x) fun n hn => ?_
  rw [not_or] at hn
  exact node_clearChildren_of_ne hn.1 hn.2

end

/-- Some nodes of a region were moved within it, or out of the tree. -/
structure Shifted (R : NodeId → Prop) (p : NodeId) (moved : List NodeId) (d d' : Document) :
    Prop extends Within R p d d' where
  size_eq : d'.size = d.size
  kind_same : ∀ n, d'.kind n = d.kind n
  parents : ∀ n, n ∉ moved → d'.parent n = d.parent n

protected theorem Shifted.trans {moved moved' : List NodeId} (h : Shifted R p moved d d')
    (h' : Shifted R p moved' d' d'') : Shifted R p (moved ++ moved') d d'' := by
  refine ⟨h.toWithin.trans h'.toWithin, h'.size_eq.trans h.size_eq,
    fun n => (h'.kind_same n).trans (h.kind_same n), fun n hn => ?_⟩
  rw [List.mem_append, not_or] at hn
  exact (h'.parents n hn.2).trans (h.parents n hn.1)

namespace Region

theorem cleared (hregion : Region R p d) (hR : R x) (hx : x < d.size) :
    Shifted R p (d.children x) d (d.clearChildren x) := by
  have hconfined := hregion.linked.confined_clearChildren hx
  refine ⟨.of_confined (hconfined.mono ?_) hregion.outer, size_clearChildren d x,
    kind_clearChildren d x, fun n hn => ?_⟩
  · rintro n (rfl | hn)
    · exact hR
    · exact hregion.closed x n hR hn
  · rw [hregion.linked.parent_clearChildren, if_neg hn]

theorem appended (hregion : Region R p d) (hR : R x) (hx : x < d.size) (hnew : R new)
    (hlt : new < d.size) : Shifted R p [new] d (d.append x new) := by
  have hdetach := hregion.detach_within hnew
  have hnone : (d.detach new).parent new = none := by
    rw [hregion.linked.parent_detach, if_pos rfl]
  have hplace := (hregion.within hdetach).place_within hnew (by rwa [size_detach]) hnone (.inl hR)
    (by rwa [size_detach]) (Nat.le_refl ((d.detach new).children x).length)
  refine ⟨hdetach.trans hplace, size_append d, fun n => ?_, fun n hn => ?_⟩
  · exact (kind_place _ x _ new n).trans (kind_detach d new n)
  · have hne : n ≠ new := by simpa using hn
    unfold append
    rw [parent_place (by rwa [size_detach]), if_neg hne, hregion.linked.parent_detach, if_neg hne]

theorem appended_all (hregion : Region R p d) (hR : R x) (hx : x < d.size) {nodes : List NodeId}
    (hnodes : ∀ n ∈ nodes, R n ∧ n < d.size) :
    Shifted R p nodes d (nodes.foldl (fun d child => d.append x child) d) := by
  induction nodes generalizing d with
  | nil => exact ⟨.refl hregion.linked, rfl, fun _ => rfl, fun _ _ => rfl⟩
  | cons node nodes ih =>
      obtain ⟨⟨hnode, hlt⟩, hrest⟩ := List.forall_mem_cons.mp hnodes
      have hfirst := hregion.appended hR hx hnode hlt
      exact hfirst.trans (ih (hregion.within hfirst.toWithin) (by rwa [size_append])
        (by simpa using hrest))

theorem refilled (hregion : Region R p d) (hR : R x) (hx : x < d.size) {nodes : List NodeId}
    (hnodes : ∀ n ∈ nodes, R n ∧ n < d.size) :
    Shifted R p (d.children x ++ nodes) d (d.replaceChildren x nodes) := by
  have hclear := hregion.cleared hR hx
  refine hclear.trans ((hregion.within hclear.toWithin).appended_all hR ?_ ?_)
  · rwa [size_clearChildren]
  · simpa [size_clearChildren] using hnodes

end Region

end PageTemplate.Markup.Document
