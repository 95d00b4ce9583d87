import PageTemplate.Proofs.Markup.Preorder
import PageTemplate.Proofs.Markup.Rearranging

/-! # Ways through the tree

Descendants are collected by emptying a stack, and a node is known to be in the tree by going up
from it. In a document whose links agree and that has no cycle both come to an end. The stack gives
what recursion on the child lists gives, in document order, and the way up leads to the document
node from just the nodes that are found on the way down from there.
-/

namespace PageTemplate.Markup.Document

variable {d : Document} {n m p c : NodeId} {h : Nat} {stack ids rest all : List NodeId}

/-- Nodes are taken from the end of a stack until it is empty, and the children of each are put
there in reverse. The nodes come off the stack in the order of `all`. -/
inductive Empties (d : Document) : List NodeId → List NodeId → Prop where
  | done : Empties d [] []
  | take {stack all : List NodeId} {next : NodeId}
    (hrest : Empties d (stack ++ (d.children next).reverse) all) :
    Empties d (stack ++ [next]) (next :: all)

/-- Parents are followed from a node on until this leads to the document node, or to a node without
a parent. The first of the two is told by `found`. -/
inductive Climbs (d : Document) : NodeId → Bool → Prop where
  | arrived : Climbs d root true
  | top {n : NodeId} (hne : n ≠ root) (hparent : d.parent n = none) : Climbs d n false
  | parent {n p : NodeId} {found : Bool} (hne : n ≠ root) (hparent : d.parent n = some p)
    (hrest : Climbs d p found) : Climbs d n found

/-- The first node comes before the second in the document: it is above it, or above or at the
earlier of two siblings while the second is below or at the later one. -/
inductive Precedes (d : Document) : NodeId → NodeId → Prop where
  | above {n c m : NodeId} (hchild : c ∈ d.children n) (hm : d.Below c m) : Precedes d n m
  | beside {p c c' n m : NodeId} (hsiblings : [c, c'].Sublist (d.children p)) (hn : d.Below c n)
    (hm : d.Below c' m) : Precedes d n m

/-! ## Down -/

/-- Nodes that lie on a stack in reverse come off it in order, if each of them comes off as it
should. -/
theorem Empties.flatMap {f : NodeId → List NodeId}
    (hstep : ∀ c ∈ ids, ∀ {stack rest}, Empties d stack rest →
      Empties d (stack ++ [c]) (f c ++ rest))
    (hrest : Empties d stack rest) : Empties d (stack ++ ids.reverse) (ids.flatMap f ++ rest) := by
  induction ids with
  | nil => simpa using hrest
  | cons c ids ih =>
      obtain ⟨hc, hids⟩ := List.forall_mem_cons.mp hstep
      rw [List.reverse_cons, ← List.append_assoc, List.flatMap_cons,
        List.append_assoc (f c)]
      exact hc (ih hids)

/-- A node on top of a stack comes off it with all that lies below, before the rest does. -/
theorem Empties.preorder {good : NodeId → NodeKind → Prop} (hgood : Throughout good d h n)
    (hrest : Empties d stack rest) : Empties d (stack ++ [n]) (d.preorder h n ++ rest) := by
  induction h generalizing n stack rest with
  | zero => exact hgood.elim
  | succ h ih => exact .take (Empties.flatMap (fun c hc _ _ => ih (hgood.2 c hc)) hrest)

/-- The list puts every node before those that it is to precede. -/
theorem Throughout.pairwise_preorder {good : NodeId → NodeKind → Prop}
    (hgood : Throughout good d h n) : (d.preorder h n).Pairwise d.Precedes := by
  induction h generalizing n with
  | zero => exact hgood.elim
  | succ h ih =>
      have hbelow : ∀ c ∈ d.children n, ∀ m ∈ d.preorder h c, d.Below c m :=
        fun c hc m hm => (hgood.2 c hc).mem_preorder_iff.mp hm
      rw [Document.preorder, List.pairwise_cons, List.pairwise_flatMap]
      refine ⟨fun m hm => ?_, fun c hc => ih (hgood.2 c hc), ?_⟩
      · obtain ⟨c, hc, hm⟩ := List.mem_flatMap.mp hm
        exact .above hc (hbelow c hc m hm)
      · rw [List.pairwise_iff_forall_sublist]
        intro c c' hsiblings m hm m' hm'
        have hc := hsiblings.subset List.mem_cons_self
        have hc' := hsiblings.subset (List.mem_cons_of_mem _ List.mem_cons_self)
        exact .beside hsiblings (hbelow c hc m hm) (hbelow c' hc' m' hm')

namespace Branching

variable (hn : d.Branching n)

include hn

/-- The descendants of a node are its children, each followed by its own descendants. -/
theorem descendants_eq_flatMap :
    d.descendants n = (d.children n).flatMap fun c => c :: d.descendants c := by
  rw [hn.descendants_eq]
  apply List.flatMap_congr
  intro c hc
  exact (hn.below (.child .refl hc)).subtree_eq.symm

theorem empties_descendants : Empties d (d.children n).reverse (d.descendants n) := by
  have hstep : ∀ c ∈ d.children n, ∀ {stack rest}, Empties d stack rest →
      Empties d (stack ++ [c]) (d.preorder d.size c ++ rest) :=
    fun c hc _ _ => Empties.preorder (hn.below (.child .refl hc)).fits
  simpa [hn.descendants_eq] using Empties.flatMap hstep .done

theorem mem_descendants_iff : m ∈ d.descendants n ↔ d.Below n m ∧ m ≠ n := by
  have hnot : n ∉ d.descendants n := (List.nodup_cons.mp hn.nodup_subtree).1
  rw [← hn.mem_subtree_iff, subtree, List.mem_cons]
  constructor
  · intro hm
    exact ⟨.inr hm, fun heq => hnot (heq ▸ hm)⟩
  · rintro ⟨hm, hne⟩
    exact hm.resolve_left hne

theorem pairwise_descendants : (d.descendants n).Pairwise d.Precedes := by
  have hsubtree := hn.fits.pairwise_preorder
  rw [← hn.subtree_eq] at hsubtree
  exact (List.pairwise_cons.mp hsubtree).2

end Branching

/-! ## Up -/

/-- The way up comes to an end: where there is no cycle it passes no node twice. -/
theorem Linked.climbs_lineage (hlinked : d.Linked) (hacyclic : d.Acyclic) {fuel : Nat}
    {passed : List NodeId} (hnodup : (n :: passed).Nodup) (hlt : ∀ m ∈ n :: passed, m < d.size)
    (hbelow : ∀ m ∈ passed, d.Below n m) (hfuel : d.size ≤ fuel + passed.length) :
    Climbs d n ((d.lineage fuel n).contains root) := by
  induction fuel generalizing n passed with
  | zero =>
      have hlength := length_le_of_nodup hnodup hlt
      simp only [List.length_cons] at hlength
      omega
  | succ fuel ih =>
      unfold lineage
      by_cases hroot : n = root
      · subst hroot
        simpa using Climbs.arrived
      · cases hparent : d.parent n with
        | none => simpa [Ne.symm hroot] using Climbs.top hroot hparent
        | some p =>
            have hchild := (hlinked.mem_children_iff p n).mpr hparent
            have hback := hlinked.acyclic_iff.mp hacyclic n p hparent
            have hpassed : ∀ m ∈ n :: passed, d.Below n m :=
              List.forall_mem_cons.mpr ⟨.refl, hbelow⟩
            have hnew : p ∉ n :: passed := fun hmem => hback (hpassed p hmem)
            have hrest := ih (List.nodup_cons.mpr ⟨hnew, hnodup⟩)
              (List.forall_mem_cons.mpr ⟨(hlinked.lt_of_parent hparent).1, hlt⟩)
              (fun m hm => .of_child hchild (hpassed m hm))
              (by simp only [List.length_cons]; omega)
            simpa [Ne.symm hroot] using Climbs.parent hroot hparent hrest

theorem Linked.climbs_isAttached (hlinked : d.Linked) (hacyclic : d.Acyclic) (hn : n < d.size) :
    Climbs d n (d.isAttached n) := by
  refine hlinked.climbs_lineage hacyclic (List.nodup_singleton n) ?_ (List.forall_mem_nil _)
    (Nat.le_refl _)
  intro m hm
  rwa [List.mem_singleton.mp hm]

/-- The way up leads to the document node from what lies below it. -/
theorem Climbs.found_iff (hlinked : d.Linked) {found : Bool} (hclimbs : Climbs d n found) :
    found = true ↔ d.Below root n := by
  induction hclimbs with
  | arrived => exact iff_of_true rfl .refl
  | top hne hparent =>
      refine iff_of_false Bool.false_ne_true fun hbelow => ?_
      cases hbelow with
      | refl => exact hne rfl
      | child _ hchild => cases hparent.symm.trans (hlinked.parent_eq hchild)
  | parent hne hparent _ ih =>
      rw [ih]
      refine ⟨fun hbelow => hbelow.child ((hlinked.mem_children_iff _ _).mpr hparent), ?_⟩
      intro hbelow
      cases hbelow with
      | refl => exact absurd rfl hne
      | child habove hchild =>
          exact Option.some.inj ((hlinked.parent_eq hchild).symm.trans hparent) ▸ habove

/-- In a document whose links agree and that has no cycle, the stack that collects the descendants
of a node gets empty. It gives the children, each with its own descendants behind it: all nodes
below the node, each once, and each where it belongs in the document. The way up that tells whether
a node is in the tree ends as well, and a node is in the tree when it is the document node or one of
its descendants. -/
theorem descendants_in_order (hlinked : d.Linked) (hacyclic : d.Acyclic) (hn : n < d.size) :
    Empties d (d.children n).reverse (d.descendants n) ∧
    (d.descendants n = (d.children n).flatMap fun c => c :: d.descendants c) ∧
    (d.descendants n).Nodup ∧ (∀ m, m ∈ d.descendants n ↔ d.Below n m ∧ m ≠ n) ∧
    (d.descendants n).Pairwise d.Precedes ∧
    Climbs d n (d.isAttached n) ∧
    (d.isAttached n = true ↔ n = root ∨ n ∈ d.descendants root) := by
  have hbranch := hlinked.branching hacyclic hn
  have hclimbs := hlinked.climbs_isAttached hacyclic hn
  have hroot : d.Branching root :=
    hlinked.branching hacyclic (Nat.lt_of_le_of_lt (Nat.zero_le n) hn)
  refine ⟨hbranch.empties_descendants, hbranch.descendants_eq_flatMap,
    (List.nodup_cons.mp hbranch.nodup_subtree).2, fun m => hbranch.mem_descendants_iff,
    hbranch.pairwise_descendants, hclimbs, ?_⟩
  rw [hclimbs.found_iff hlinked, ← hroot.mem_subtree_iff, subtree, List.mem_cons]

/-- The first of three siblings has been moved behind the others. The text in the last of them comes
before it then, although its number is greater. -/
theorem descendants_in_order_threesome :
    let d := threesome.append 1 2
    d.Linked ∧ d.Acyclic ∧ 1 < d.size ∧ 5 < d.size ∧
      Empties d [2, 4, 3] [3, 4, 5, 2] ∧ d.Precedes 5 2 ∧ Climbs d 5 true := by
  intro d
  have hlinked : d.Linked := (show d.WellLinked by decide +kernel).toLinked
  have hacyclic : d.Acyclic := acyclic_of_parents_before (by decide +kernel)
  have hsize : 1 < d.size ∧ 5 < d.size := by decide +kernel
  have hchildren : d.children 1 = [3, 4, 2] := by decide +kernel
  have hlist : d.descendants 1 = [3, 4, 5, 2] := by decide +kernel
  have hattached : d.isAttached 5 = true := by decide +kernel
  obtain ⟨hempties, -, -, -, horder, -, -⟩ := descendants_in_order hlinked hacyclic hsize.1
  obtain ⟨-, -, -, -, -, hclimbs, -⟩ := descendants_in_order hlinked hacyclic hsize.2
  rw [hchildren, hlist] at hempties
  rw [hlist] at horder
  rw [hattached] at hclimbs
  exact ⟨hlinked, hacyclic, hsize.1, hsize.2, hempties, by simp_all, hclimbs⟩

end PageTemplate.Markup.Document
