import Mathlib.Logic.Relation
import PageTemplate.Proofs.Markup.Moves

/-! # Trees without cycles

No edit makes child lists and parents disagree. A cycle can only come from an edit that puts a
node below itself: the parents of a document are free of cycles as long as every node that is
given a place was, at that moment, not above the place.
-/

namespace PageTemplate.Markup.Document

variable {d d' : Document} {tame : Prop} {m n p q x child reference new : NodeId} {index : Nat}

/-- No node is among its own ancestors. -/
def Acyclic (d : Document) : Prop :=
  ∀ n, ¬ Relation.TransGen (fun child parent => d.parent child = some parent) n n

theorem Linked.below_iff (hlinked : d.Linked) :
    d.Below x n ↔
      Relation.ReflTransGen (fun child parent => d.parent child = some parent) n x := by
  constructor
  · intro h
    induction h with
    | refl => exact .refl
    | child _ hchild ih => exact .head (hlinked.parent_eq hchild) ih
  · intro h
    induction h using Relation.ReflTransGen.head_induction_on with
    | refl => exact .refl
    | head hparent _ ih => exact ih.child ((hlinked.mem_children_iff _ _).mpr hparent)

theorem Linked.acyclic_iff (hlinked : d.Linked) :
    d.Acyclic ↔ ∀ n p, d.parent n = some p → ¬ d.Below n p := by
  unfold Acyclic
  simp only [Relation.TransGen.head'_iff, hlinked.below_iff, not_exists, not_and]

/-- Without a cycle what lies below a node is a tree. -/
theorem Linked.branching (hlinked : d.Linked) (hacyclic : d.Acyclic) (hn : n < d.size) :
    d.Branching n := by
  have hback := hlinked.acyclic_iff.mp hacyclic
  refine ⟨fun m hm => ?_, fun m _ => hlinked.nodup_children m, fun m _ c hc => ?_,
    fun m _ c hc c' hc' hne x hx hx' => ?_⟩
  · cases hm with
    | refl => exact hn
    | child _ hchild => exact (hlinked.child_lt _ _ hchild).2
  · exact hback c m (hlinked.parent_eq hc)
  · -- Of two nodes above `x` one is above the other, and so above the parent of both.
    have hunique : Relator.RightUnique fun child parent => d.parent child = some parent :=
      fun _ _ _ hp hq => Option.some.inj (hp.symm.trans hq)
    have hone : ∀ c ∈ d.children m, ∀ c' ∈ d.children m, c ≠ c' → ¬ d.Below c c' := by
      intro c hc c' hc' hne hbelow
      cases hbelow with
      | refl => exact hne rfl
      | child hparent hchild =>
          have hsame := (hlinked.parent_eq hchild).symm.trans (hlinked.parent_eq hc')
          obtain rfl := Option.some.inj hsame
          exact hback c _ (hlinked.parent_eq hc) hparent
    rw [hlinked.below_iff] at hx hx'
    rcases Relation.ReflTransGen.total_of_right_unique hunique hx hx' with h | h
    · exact hone c' hc' c hc hne.symm (hlinked.below_iff.mpr h)
    · exact hone c hc c' hc' hne (hlinked.below_iff.mpr h)

/-- Where parents come before their children in the table there is no cycle. -/
theorem acyclic_of_parents_before (h : ∀ n < d.size, ∀ p ∈ d.parent n, p < n) : d.Acyclic := by
  have hstep : ∀ n p, d.parent n = some p → p < n := by
    intro n p hp
    refine h n ?_ p hp
    by_contra hn
    unfold Document.parent at hp
    rw [d.node_of_size_le (Nat.le_of_not_lt hn)] at hp
    cases hp
  have hway : ∀ {n m}, Relation.TransGen (fun child parent => d.parent child = some parent) n m →
      m < n := by
    intro n m hway
    induction hway with
    | single hp => exact hstep _ _ hp
    | tail _ hp ih => exact Nat.lt_trans (hstep _ _ hp) ih
  exact fun n hn => Nat.lt_irrefl n (hway hn)

/-- Where parents are only taken away, no cycle comes about. -/
theorem Acyclic.of_parents (h : d.Acyclic)
    (hparents : ∀ n p, d'.parent n = some p → d.parent n = some p) : d'.Acyclic :=
  fun n hn => h n (Relation.TransGen.mono hparents n n hn)

theorem Linked.below_detach (hlinked : d.Linked) (h : (d.detach x).Below m n) : d.Below m n := by
  refine h.of_congr fun k _ => ?_
  rw [hlinked.children_detach]
  exact List.filter_subset_self _

/-- A way down that is new leads through the place that the child was given. -/
theorem below_place (hp : p < d.size) (hindex : index ≤ (d.children p).length)
    (h : (d.place p index child).Below m n) :
    d.Below m n ∨ d.Below m p ∧ d.Below child n := by
  induction h with
  | refl => exact .inl .refl
  | @child y c _ hchild ih =>
      rw [children_place hp] at hchild
      split at hchild
      next hy =>
        subst hy
        rcases (List.mem_insertIdx hindex).mp hchild with rfl | hold
        · exact .inr ⟨ih.elim id And.left, .refl⟩
        · exact ih.imp (·.child hold) (And.imp_right (·.child hold))
      next => exact ih.imp (·.child hchild) (And.imp_right (·.child hchild))

/-! ## Documents that edits lead to -/

/-- The links of the document agree, and when the edits so far were tame there is no cycle. -/
structure Coherent (tame : Prop) (d : Document) : Prop where
  linked : d.Linked
  acyclic : tame → d.Acyclic

namespace Coherent

variable (h : Coherent tame d)

include h

theorem of_links (hsize : d.size ≤ d'.size) (hparent : ∀ n, d'.parent n = d.parent n)
    (hchildren : ∀ n, d'.children n = d.children n) : Coherent tame d' := by
  refine ⟨h.linked.of_links hsize hparent hchildren, fun htame => (h.acyclic htame).of_parents ?_⟩
  intro n p hp
  rwa [hparent] at hp

theorem create (kind : NodeKind) : Coherent tame (d.create kind).1 := by
  refine h.of_links ?_ (fun n => (links_create d kind n).1) fun n => (links_create d kind n).2
  rw [size_create]
  exact Nat.le_succ _

theorem updateElement (x : NodeId) (change : Element → Element) :
    Coherent tame (d.updateElement x change) :=
  h.of_links (Nat.le_of_eq (size_updateElement d change).symm)
    (fun _ => parent_updateElement change) fun _ => children_updateElement change

theorem setKind (x : NodeId) (kind : NodeKind) : Coherent tame (d.setKind x kind) :=
  h.of_links (Nat.le_of_eq (size_setKind d kind).symm) (fun _ => parent_setKind kind)
    fun _ => children_setKind kind

theorem detach (x : NodeId) : Coherent tame (d.detach x) := by
  refine ⟨h.linked.detach x, fun htame => (h.acyclic htame).of_parents fun n p hp => ?_⟩
  rw [h.linked.parent_detach] at hp
  split at hp
  · cases hp
  · exact hp

theorem clearChildren (hx : x < d.size) : Coherent tame (d.clearChildren x) := by
  refine ⟨h.linked.clearChildren hx, fun htame => (h.acyclic htame).of_parents fun n p hp => ?_⟩
  rw [h.linked.parent_clearChildren] at hp
  split at hp
  · cases hp
  · exact hp

/-- A node that is not above its new place closes no cycle. -/
theorem place (hnone : d.parent child = none) (hp : p < d.size) (hchild : child < d.size)
    (hindex : index ≤ (d.children p).length) (hout : tame → ¬ d.Below child p) :
    Coherent tame (d.place p index child) := by
  have hlinked := h.linked.place hnone hp hchild hindex
  refine ⟨hlinked, fun htame => hlinked.acyclic_iff.mpr fun n q hq hback => ?_⟩
  have hback := below_place hp hindex hback
  rw [parent_place hchild] at hq
  split at hq
  next hn =>
    subst hn
    obtain rfl := Option.some.inj hq
    exact hout htame (hback.elim id And.left)
  next =>
    rcases hback with hback | ⟨hnp, hback⟩
    · exact h.linked.acyclic_iff.mp (h.acyclic htame) n q hq hback
    · -- the way leads from `n` to `p` and from `child` to `n`
      have hchildn := hback.child ((h.linked.mem_children_iff q n).mpr hq)
      exact hout htame (hchildn.trans hnp)

end Coherent

/-! ## What an edit does to parents -/

/-- Nodes that were there have kept their parents, lost them, or were placed. -/
structure Relinked (tame : Prop) (placed : NodeId → NodeId → Prop) (d d' : Document) : Prop where
  coherent : Coherent tame d'
  size_le : d.size ≤ d'.size
  parents : ∀ c < d.size, ∀ q, d'.parent c = some q → d.parent c = some q ∨ placed q c

variable {placed placed' : NodeId → NodeId → Prop} {d'' : Document}

namespace Relinked

protected theorem refl (h : Coherent tame d) : Relinked tame placed d d :=
  ⟨h, Nat.le_refl _, fun _ _ _ => .inl⟩

protected theorem trans (h : Relinked tame placed d d') (h' : Relinked tame placed d' d'') :
    Relinked tame placed d d'' := by
  refine ⟨h'.coherent, Nat.le_trans h.size_le h'.size_le, fun c hc q hq => ?_⟩
  rcases h'.parents c (Nat.lt_of_lt_of_le hc h.size_le) q hq with hq | hq
  · exact h.parents c hc q hq
  · exact .inr hq

theorem mono (h : Relinked tame placed d d') (himp : ∀ q c, placed q c → placed' q c) :
    Relinked tame placed' d d' :=
  ⟨h.coherent, h.size_le, fun c hc q hq => (h.parents c hc q hq).imp_right (himp q c)⟩

end Relinked

namespace Coherent

theorem relinked_create (h : Coherent tame d) (kind : NodeKind) :
    Relinked tame placed d (d.create kind).1 := by
  refine ⟨h.create kind, ?_, fun c _ q hq => ?_⟩
  · rw [size_create]
    exact Nat.le_succ _
  · rw [(links_create d kind c).1] at hq
    exact .inl hq

theorem relinked_detach (h : Coherent tame d) (x : NodeId) :
    Relinked tame placed d (d.detach x) := by
  refine ⟨h.detach x, Nat.le_of_eq (size_detach d).symm, fun c _ q hq => ?_⟩
  rw [h.linked.parent_detach] at hq
  split at hq
  · cases hq
  · exact .inl hq

theorem relinked_clearChildren (h : Coherent tame d) (hx : x < d.size) :
    Relinked tame placed d (d.clearChildren x) := by
  refine ⟨h.clearChildren hx, Nat.le_of_eq (size_clearChildren d x).symm, fun c _ q hq => ?_⟩
  rw [h.linked.parent_clearChildren] at hq
  split at hq
  · cases hq
  · exact .inl hq

/-- A node was put below `p`, and of the ways down to `p` there are no more than before. -/
structure Entered (tame : Prop) (p new : NodeId) (d d' : Document) : Prop extends
    Relinked tame (fun q c => q = p ∧ c = new) d d' where
  size_eq : d'.size = d.size
  parent_eq : ∀ n, n ≠ new → d'.parent n = d.parent n
  above : ∀ n, d'.Below n p → d.Below n p

/-- Moving a node is taking it out and placing it. -/
theorem entered (h : Coherent tame d) (hp : p < d.size) (hnew : new < d.size)
    (hindex : index ≤ ((d.detach new).children p).length) (hout : tame → ¬ d.Below new p) :
    Entered tame p new d ((d.detach new).place p index new) := by
  have hnone : (d.detach new).parent new = none := by rw [h.linked.parent_detach, if_pos rfl]
  have hp' : p < (d.detach new).size := by rwa [size_detach]
  have hnew' : new < (d.detach new).size := by rwa [size_detach]
  have hparent : ∀ n, n ≠ new →
      ((d.detach new).place p index new).parent n = d.parent n := by
    intro n hn
    rw [parent_place hnew', if_neg hn, h.linked.parent_detach, if_neg hn]
  refine ⟨⟨?_, by simp, fun c _ q hq => ?_⟩, by simp, hparent, fun n hn => ?_⟩
  · exact (h.detach new).place hnone hp' hnew' hindex fun htame hbelow =>
      hout htame (h.linked.below_detach hbelow)
  · by_cases hc : c = new
    · rw [parent_place hnew', if_pos hc] at hq
      exact .inr ⟨(Option.some.inj hq).symm, hc⟩
    · exact .inl (by rwa [hparent c hc] at hq)
  · exact h.linked.below_detach ((below_place hp' hindex hn).elim id And.left)

theorem append (h : Coherent tame d) (hp : p < d.size) (hnew : new < d.size)
    (hout : tame → ¬ d.Below new p) : Entered tame p new d (d.append p new) :=
  h.entered hp hnew (Nat.le_refl _) hout

/-! ## Beside a node -/

theorem positionOf?_eq_some (hfound : d.positionOf? x = some (p, index)) :
    d.parent x = some p ∧ index < (d.children p).length := by
  unfold positionOf? at hfound
  simp only [Option.bind_eq_bind, Option.bind_eq_some_iff, Option.pure_def, Option.some.injEq,
    Prod.mk.injEq] at hfound
  obtain ⟨parent, hparent, i, hi, rfl, rfl⟩ := hfound
  exact ⟨hparent, (List.findIdx?_eq_some_iff_getElem.mp hi).1⟩

/-- What comes of moving a node beside another one. When that fails, the node is out of the tree. -/
theorem ensures_beside (h : Coherent tame d) (hnew : new < d.size)
    (hout : tame → reference ≠ new → ∀ p, d.parent reference = some p → ¬ d.Below new p)
    (offset : Nat) (hoffset : offset ≤ 1) :
    Ensures (do
        modify (Document.detach · new)
        let (parent, index) ← position reference
        modify (Document.place · parent (index + offset) new)) d
      (fun _ t => reference ≠ new ∧ ∃ p, d.parent reference = some p ∧ Entered tame p new d t)
      (fun _ => Relinked tame (fun _ _ => False) d) := by
  refine Ensures.bind (Ensures.modify (Ensures.bind ?_))
  unfold position
  refine Ensures.bind (Ensures.get ?_)
  split
  next found hfound =>
    obtain ⟨p, index⟩ := found
    obtain ⟨hparent, hindex⟩ := positionOf?_eq_some hfound
    rw [h.linked.parent_detach] at hparent
    split at hparent
    next => cases hparent
    next hne =>
      have hp := (h.linked.lt_of_parent hparent).1
      refine Ensures.pure (Ensures.modify ⟨hne, p, hparent, ?_⟩)
      exact h.entered hp hnew (by omega) fun htame => hout htame hne p hparent
  next => exact Ensures.throw (h.relinked_detach new)

theorem ensures_insertBefore (h : Coherent tame d) (hnew : new < d.size)
    (hout : tame → reference ≠ new → ∀ p, d.parent reference = some p → ¬ d.Below new p) :
    Ensures (insertBefore reference new) d
      (fun _ t => reference ≠ new ∧ ∃ p, d.parent reference = some p ∧ Entered tame p new d t)
      (fun _ => Relinked tame (fun _ _ => False) d) :=
  h.ensures_beside hnew hout 0 (Nat.zero_le 1)

theorem ensures_insertAfter (h : Coherent tame d) (hnew : new < d.size)
    (hout : tame → reference ≠ new → ∀ p, d.parent reference = some p → ¬ d.Below new p) :
    Ensures (insertAfter reference new) d
      (fun _ t => reference ≠ new ∧ ∃ p, d.parent reference = some p ∧ Entered tame p new d t)
      (fun _ => Relinked tame (fun _ _ => False) d) :=
  h.ensures_beside hnew hout 1 (Nat.le_refl 1)

/-- The nodes that come to stand in place of `old` are those before the first `old` among the
replacements: there the edit fails. -/
theorem ensures_replace (h : Coherent tame d) {old : NodeId} {nodes : List NodeId}
    (hnodes : ∀ n ∈ nodes, n < d.size)
    (hout : tame → ∀ n ∈ nodes.takeWhile (· ≠ old), ∀ p, d.parent old = some p →
      ¬ d.Below n p) :
    Ensures (replace old nodes) d
      (fun _ => Relinked tame (fun q c => d.parent old = some q ∧
        c ∈ nodes.takeWhile (· ≠ old)) d)
      (fun _ => Relinked tame (fun q c => d.parent old = some q ∧
        c ∈ nodes.takeWhile (· ≠ old)) d) := by
  unfold replace
  induction nodes generalizing d with
  | nil => exact Ensures.bind (Ensures.pure (Ensures.modify (h.relinked_detach old)))
  | cons node nodes ih =>
      obtain ⟨hnode, hrest⟩ := List.forall_mem_cons.mp hnodes
      show Ensures ((insertBefore old node >>= fun _ => nodes.forM (insertBefore old)) >>= fun _ =>
        modify (·.detach old)) d _ _
      rw [bind_assoc]
      have hfirst := h.ensures_insertBefore hnode fun htame (hne : old ≠ node) =>
        hout htame node (by simp [Ne.symm hne])
      refine Ensures.bind (hfirst.mono ?_ fun _ _ hfail => hfail.mono fun _ _ => False.elim)
      rintro _ t ⟨hne, p, hparent, hentered⟩
      have hkept : t.parent old = some p := by rw [hentered.parent_eq old hne, hparent]
      have hwhile : (node :: nodes).takeWhile (· ≠ old) = node :: nodes.takeWhile (· ≠ old) := by
        rw [List.takeWhile_cons, if_pos (by simpa using Ne.symm hne)]
      rw [hwhile] at hout ⊢
      refine (ih hentered.coherent (fun n hn => hentered.size_eq ▸ hrest n hn)
        fun htame n hn q hq hbelow => ?_).mono ?_ ?_
      · obtain rfl := Option.some.inj (hkept.symm.trans hq)
        exact hout htame n (List.mem_cons_of_mem _ hn) p hparent (hentered.above n hbelow)
      all_goals
        intro _ t' hlast
        refine (hentered.toRelinked.mono ?_).trans (hlast.mono ?_)
        · rintro _ _ ⟨rfl, rfl⟩
          exact ⟨hparent, List.mem_cons_self⟩
        · rintro q c ⟨hq, hc⟩
          rw [hkept] at hq
          exact ⟨hparent.trans hq, List.mem_cons_of_mem _ hc⟩

/-- Without a cycle no child of a node is above the parent of the node, so stripping a tag is
always tame. -/
theorem ensures_omitTag (h : Coherent tame d) (x : NodeId) :
    Ensures (omitTag x) d
      (fun _ => Relinked tame (fun q c => d.parent x = some q ∧ c ∈ d.children x) d)
      (fun _ => Relinked tame (fun q c => d.parent x = some q ∧ c ∈ d.children x) d) := by
  have hreplace := h.ensures_replace (fun n hn => (h.linked.child_lt x n hn).2)
    fun htame n hn p (hp : d.parent x = some p) hbelow => by
      have hchild := (List.takeWhile_prefix _).subset hn
      have hacyclic := h.linked.acyclic_iff.mp (h.acyclic htame)
      refine hacyclic x p hp (.of_child hchild hbelow)
  have himp : ∀ q c, d.parent x = some q ∧ c ∈ (d.children x).takeWhile (· ≠ x) →
      d.parent x = some q ∧ c ∈ d.children x := fun q c hplaced =>
    ⟨hplaced.1, (List.takeWhile_prefix _).subset hplaced.2⟩
  unfold omitTag
  refine Ensures.bind (Ensures.get (Ensures.bind (hreplace.mono ?_ ?_)))
  · exact fun _ _ hdone => Ensures.pure (hdone.mono himp)
  · exact fun _ _ hfail => hfail.mono himp

/-! ## Below a node -/

theorem below_clearChildren (hx : x < d.size) (h : (d.clearChildren x).Below m n) :
    d.Below m n := by
  refine h.of_congr fun k _ => ?_
  rw [children_clearChildren hx]
  split
  · exact List.nil_subset _
  · exact List.Subset.refl _

theorem relinked_appendAll (h : Coherent tame d) (hx : x < d.size) {nodes : List NodeId}
    (hnodes : ∀ n ∈ nodes, n < d.size) (hout : tame → ∀ n ∈ nodes, ¬ d.Below n x) :
    Relinked tame (fun q c => q = x ∧ c ∈ nodes) d
      (nodes.foldl (fun d child => d.append x child) d) := by
  induction nodes generalizing d with
  | nil => exact .refl h
  | cons node nodes ih =>
      obtain ⟨hnode, hrest⟩ := List.forall_mem_cons.mp hnodes
      have hfirst := h.append hx hnode fun htame => hout htame node List.mem_cons_self
      have hlast := ih hfirst.coherent (hfirst.size_eq ▸ hx)
        (fun n hn => hfirst.size_eq ▸ hrest n hn) fun htame n hn hbelow =>
          hout htame n (List.mem_cons_of_mem _ hn) (hfirst.above n hbelow)
      refine (hfirst.toRelinked.mono ?_).trans (hlast.mono ?_)
      · rintro _ _ ⟨rfl, rfl⟩
        exact ⟨rfl, List.mem_cons_self⟩
      · exact fun _ _ hplaced => ⟨hplaced.1, List.mem_cons_of_mem _ hplaced.2⟩

theorem relinked_replaceChildren (h : Coherent tame d) (hx : x < d.size) {nodes : List NodeId}
    (hnodes : ∀ n ∈ nodes, n < d.size) (hout : tame → ∀ n ∈ nodes, ¬ d.Below n x) :
    Relinked tame (fun q c => q = x ∧ c ∈ nodes) d (d.replaceChildren x nodes) := by
  have hclear : Relinked tame (fun q c => q = x ∧ c ∈ nodes) d (d.clearChildren x) :=
    h.relinked_clearChildren hx
  refine hclear.trans (hclear.coherent.relinked_appendAll ?_ ?_ fun htame n hn hbelow =>
    hout htame n hn (below_clearChildren hx hbelow))
  · rwa [size_clearChildren]
  · simpa [size_clearChildren] using hnodes

/-- Nodes that are no children yet come behind the children, in order. -/
theorem children_appendAll (h : Coherent tame d) (hx : x < d.size) {nodes : List NodeId}
    (hnodes : ∀ n ∈ nodes, n < d.size) (hout : tame → ∀ n ∈ nodes, ¬ d.Below n x)
    (hnodup : (d.children x ++ nodes).Nodup) :
    (nodes.foldl (fun d child => d.append x child) d).children x = d.children x ++ nodes := by
  induction nodes generalizing d with
  | nil => exact (List.append_nil _).symm
  | cons node nodes ih =>
      obtain ⟨hnode, hrest⟩ := List.forall_mem_cons.mp hnodes
      have hfirst := h.append hx hnode fun htame => hout htame node List.mem_cons_self
      have hnot : node ∉ d.children x := fun hmem =>
        List.disjoint_of_nodup_append hnodup hmem List.mem_cons_self
      have hchildren : (d.append x node).children x = d.children x ++ [node] := by
        rw [h.linked.children_append hx, if_pos rfl, List.filter_eq_self.mpr fun c hc => ?_]
        simpa using fun heq : c = node => hnot (heq ▸ hc)
      rw [List.append_cons, ← hchildren] at hnodup
      rw [List.foldl_cons, ih hfirst.coherent (hfirst.size_eq ▸ hx)
        (fun n hn => hfirst.size_eq ▸ hrest n hn) (fun htame n hn hbelow =>
          hout htame n (List.mem_cons_of_mem _ hn) (hfirst.above n hbelow)) hnodup, hchildren,
        ← List.append_cons]

theorem children_replaceChildren (h : Coherent tame d) (hx : x < d.size) {nodes : List NodeId}
    (hnodes : ∀ n ∈ nodes, n < d.size) (hout : tame → ∀ n ∈ nodes, ¬ d.Below n x)
    (hnodup : nodes.Nodup) : (d.replaceChildren x nodes).children x = nodes := by
  have hnone : (d.clearChildren x).children x = [] := by
    rw [children_clearChildren hx, if_pos rfl]
  unfold replaceChildren
  rw [(h.clearChildren hx).children_appendAll (by rwa [size_clearChildren])
    (by simpa [size_clearChildren] using hnodes)
    (fun htame n hn hbelow => hout htame n hn (below_clearChildren hx hbelow)) (by rwa [hnone]),
    hnone, List.nil_append]

/-! ## New nodes -/

/-- Nodes that were there have kept their parents. -/
abbrev Added (tame : Prop) (d d' : Document) : Prop := Relinked tame (fun _ _ => False) d d'

theorem not_below_new (hlinked : d.Linked) (hadded : Added tame d d') (hn : d.size ≤ n)
    (hm : m < d.size) : ¬ d'.Below n m := by
  have hnew : ∀ c, d'.Below n c → d.size ≤ c := by
    intro c hc
    induction hc with
    | refl => exact hn
    | @child y c _ hchild ih =>
        by_contra hlt
        have hparent := hadded.parents c (Nat.lt_of_not_le hlt) y
          (hadded.coherent.linked.parent_eq hchild)
        exact absurd (hlinked.lt_of_parent (hparent.elim id False.elim)).1 (Nat.not_lt_of_le ih)
  exact fun h => absurd (hnew m h) (Nat.not_le_of_lt hm)

/-- A node that was not there before is placed below one that was. -/
theorem added_place (h : Coherent tame d) (hadded : Added tame d d') (hp : p < d.size)
    (hnew : d.size ≤ new) (hlt : new < d'.size) (hnone : d'.parent new = none)
    (hindex : index ≤ (d'.children p).length) : Added tame d (d'.place p index new) := by
  refine ⟨?_, by simpa using hadded.size_le, fun c hc q hq => ?_⟩
  · exact hadded.coherent.place hnone (Nat.lt_of_lt_of_le hp hadded.size_le) hlt hindex
      fun _ => not_below_new h.linked hadded hnew hp
  · rw [parent_place hlt, if_neg (Nat.ne_of_lt (Nat.lt_of_lt_of_le hc hnew))] at hq
    exact hadded.parents c hc q hq

mutual
theorem added_graft {d : Document} (h : Coherent tame d) (tree : Tree) :
    Added tame d (d.graft tree).1 ∧ d.size ≤ (d.graft tree).2 ∧
      (d.graft tree).2 < (d.graft tree).1.size ∧
      (d.graft tree).1.parent (d.graft tree).2 = none := by
  match tree with
  | .node kind children =>
      have hcreate : Added tame d (d.create kind).1 := h.relinked_create kind
      have hlt : d.size < (d.create kind).1.size := by simp
      have hbelow := added_graftBelow hcreate.coherent hlt children
      refine ⟨hcreate.trans hbelow, Nat.le_refl _, Nat.lt_of_lt_of_le hlt hbelow.size_le, ?_⟩
      refine Option.eq_none_iff_forall_ne_some.mpr fun q hq => ?_
      have hold := (hbelow.parents d.size hlt q hq).elim id False.elim
      have hnone := (links_create d kind d.size).1.symm.trans hold
      exact absurd (h.linked.lt_of_parent hnone).2 (Nat.lt_irrefl _)
theorem added_graftBelow {d : Document} {top : NodeId} (h : Coherent tame d) (htop : top < d.size)
    (trees : List Tree) : Added tame d (d.graftBelow top trees) := by
  match trees with
  | [] => exact .refl h
  | tree :: trees =>
      obtain ⟨hadded, hnew, hlt, hnone⟩ := added_graft h tree
      have hplaced := added_place h hadded htop hnew hlt hnone (Nat.le_refl _)
      exact hplaced.trans (added_graftBelow hplaced.coherent
        (Nat.lt_of_lt_of_le htop hplaced.size_le) trees)
end

end Coherent

end PageTemplate.Markup.Document
