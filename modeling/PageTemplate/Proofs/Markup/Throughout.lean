import PageTemplate.Proofs.Markup.Below
import PageTemplate.Proofs.Markup.Stored

/-! # Trees of bounded height and good nodes

A node has good nodes throughout when it and everything below it are good and no way down is
longer than a bound. In a document with agreeing links, the number of nodes is such a bound for
every node that lies below one without a parent.
-/

namespace PageTemplate.Markup

mutual
/-- The number of levels of a tree. -/
def Tree.height : Tree → Nat
  | .node _ children => Tree.heightAll children + 1
/-- The number of levels of the highest of several trees. -/
def Tree.heightAll : List Tree → Nat
  | [] => 0
  | tree :: trees => max tree.height (Tree.heightAll trees)
end

theorem Tree.heightAll_le_iff {trees : List Tree} {h : Nat} :
    Tree.heightAll trees ≤ h ↔ ∀ tree ∈ trees, tree.height ≤ h := by
  induction trees with
  | nil => simp [heightAll]
  | cons tree trees ih => rw [heightAll, Nat.max_le, ih, List.forall_mem_cons]

theorem Tree.eq_nil_of_heightAll_eq_zero {trees : List Tree} (h : heightAll trees = 0) :
    trees = [] := by
  cases trees with
  | nil => rfl
  | cons tree trees =>
      obtain ⟨kind, children⟩ := tree
      simp [heightAll, Tree.height] at h

theorem Tree.mem_kindsAll {trees : List Tree} {kind : NodeKind} :
    kind ∈ Tree.kindsAll trees ↔ ∃ tree ∈ trees, kind ∈ tree.kinds := by
  induction trees with
  | nil => simp [kindsAll]
  | cons tree trees ih => simp [kindsAll, ih]

namespace Document

variable {d d' : Document} {top x n m p : NodeId} {h h' : Nat}

/-- The node and what lies below it are good, and reach at most `h` levels down. -/
def Throughout (good : NodeId → NodeKind → Prop) (d : Document) : Nat → NodeId → Prop
  | 0, _ => False
  | h + 1, n => good n (d.kind n) ∧ ∀ c ∈ d.children n, Throughout good d h c

variable {good good' : NodeId → NodeKind → Prop}

theorem Throughout.self (hgood : Throughout good d h n) : good n (d.kind n) := by
  cases h with
  | zero => exact hgood.elim
  | succ h => exact hgood.1

theorem Throughout.mono (hgood : Throughout good d h n) (hle : h ≤ h') :
    Throughout good d h' n := by
  induction h generalizing h' n with
  | zero => exact hgood.elim
  | succ h ih =>
      obtain ⟨h', rfl⟩ : ∃ k, h' = k + 1 := ⟨h' - 1, by omega⟩
      exact ⟨hgood.1, fun c hc => ih (hgood.2 c hc) (by omega)⟩

theorem Throughout.below (hgood : Throughout good d h n) (hbelow : d.Below n m) :
    Throughout good d h m := by
  induction hbelow with
  | refl => exact hgood
  | child _ hchild ih =>
      cases h with
      | zero => exact ih.elim
      | succ h => exact (ih.2 _ hchild).mono (Nat.le_succ h)

/-- A tree stays good when its nodes do and no child is added. -/
theorem Throughout.congr (hgood : Throughout good d h n)
    (hsame : ∀ m, d.Below n m → d'.children m ⊆ d.children m)
    (himp : ∀ m, d.Below n m → good m (d.kind m) → good' m (d'.kind m)) :
    Throughout good' d' h n := by
  induction h generalizing n with
  | zero => exact hgood.elim
  | succ h ih =>
      refine ⟨himp n .refl hgood.1, fun c hc => ?_⟩
      replace hc := hsame n .refl hc
      exact ih (hgood.2 c hc) (fun m hm => hsame m (.of_child hc hm))
        fun m hm => himp m (.of_child hc hm)

theorem Throughout.imp (hgood : Throughout good d h n)
    (himp : ∀ m, d.Below n m → good m (d.kind m) → good' m (d.kind m)) :
    Throughout good' d h n :=
  hgood.congr (fun _ _ => List.Subset.refl _) himp

/-! ## Heights are bounded by the number of nodes -/

/-- Child lists lead down from a node as in a tree: to nodes of the table, to each of them on one
way, and never back. -/
structure Branching (d : Document) (n : NodeId) : Prop where
  lt : ∀ m, d.Below n m → m < d.size
  nodup_children : ∀ m, d.Below n m → (d.children m).Nodup
  not_back : ∀ m, d.Below n m → ∀ c ∈ d.children m, ¬ d.Below c m
  apart : ∀ m, d.Below n m → ∀ c ∈ d.children m, ∀ c' ∈ d.children m, c ≠ c' →
    ∀ x, d.Below c x → ¬ d.Below c' x

theorem Branching.below (h : d.Branching n) (hm : d.Below n m) : d.Branching m :=
  ⟨fun x hx => h.lt x (hm.trans hx), fun x hx => h.nodup_children x (hm.trans hx),
    fun x hx => h.not_back x (hm.trans hx), fun x hx => h.apart x (hm.trans hx)⟩

/-- Below a node without a parent there are no two ways to a node. -/
theorem WellLinked.branching (hlinked : d.WellLinked) (htop : d.parent top = none)
    (hn : d.Below top n) (hlt : n < d.size) : d.Branching n := by
  refine ⟨fun m hm => hlinked.below_lt hm hlt, fun m _ => hlinked.nodup_children m,
    fun m hm c hc => ?_, fun m hm c hc c' hc' hne x => ?_⟩
  · exact hlinked.not_below_parent htop ((hn.trans hm).child hc) (hlinked.parent_eq hc)
  · exact hlinked.not_below_sibling htop ((hn.trans hm).child hc) ((hn.trans hm).child hc')
      (hlinked.parent_eq hc) (hlinked.parent_eq hc') hne

theorem Branching.throughout_of_path (hbranch : d.Branching n) {l : List NodeId}
    (hnodup : l.Nodup) (hmem : n ∈ l) (hpath : ∀ m ∈ l, m < d.size ∧ d.Below m n)
    (hgood : ∀ m, d.Below n m → good m (d.kind m)) (hlength : d.size + 1 ≤ h + l.length) :
    Throughout good d h n := by
  induction h generalizing n l with
  | zero =>
      have hle := length_le_of_nodup hnodup fun m hm => (hpath m hm).1
      omega
  | succ h ih =>
      refine ⟨hgood n .refl, fun c hc => ?_⟩
      have hnew : c ∉ l := fun hcl => hbranch.not_back n .refl c hc (hpath c hcl).2
      have hbelow : d.Below n c := .child .refl hc
      refine ih (hbranch.below hbelow) (List.nodup_cons.mpr ⟨hnew, hnodup⟩) List.mem_cons_self ?_
        (fun m hm => hgood m (hbelow.trans hm)) ?_
      · intro m hm
        rcases List.mem_cons.mp hm with rfl | hm
        · exact ⟨hbranch.lt m hbelow, .refl⟩
        · exact ⟨(hpath m hm).1, (hpath m hm).2.child hc⟩
      · simp only [List.length_cons]
        omega

/-- No tree is higher than the table of nodes is long. -/
theorem Branching.throughout (hbranch : d.Branching n)
    (hgood : ∀ m, d.Below n m → good m (d.kind m)) : Throughout good d d.size n := by
  refine hbranch.throughout_of_path (l := [n]) (by simp) (by simp) ?_ hgood (by simp)
  intro m hm
  obtain rfl : m = n := by simpa using hm
  exact ⟨hbranch.lt m .refl, .refl⟩

theorem throughout_of_rooted (hlinked : d.WellLinked) (htop : d.parent top = none)
    (hn : d.Below top n) (hlt : n < d.size) (hgood : ∀ m, d.Below n m → good m (d.kind m)) :
    Throughout good d d.size n :=
  (hlinked.branching htop hn hlt).throughout hgood

/-! ## The tree of a node -/

theorem Throughout.height_treeTo_le (hgood : Throughout good d h n) (fuel : Nat) :
    (d.treeTo fuel n).height ≤ h := by
  induction fuel generalizing h n with
  | zero =>
      cases h with
      | zero => exact hgood.elim
      | succ h => simp [treeTo, Tree.height, Tree.heightAll]
  | succ fuel ih =>
      cases h with
      | zero => exact hgood.elim
      | succ h =>
          rw [treeTo, Tree.height, Nat.add_le_add_iff_right, Tree.heightAll_le_iff]
          intro tree htree
          obtain ⟨c, hc, rfl⟩ := List.mem_map.mp htree
          exact ih (hgood.2 c hc)

theorem Throughout.exists_of_mem_kinds (hgood : Throughout good d h n) (fuel : Nat) :
    ∀ kind ∈ (d.treeTo fuel n).kinds, ∃ m, good m kind := by
  induction fuel generalizing h n with
  | zero =>
      intro kind hkind
      obtain rfl : kind = d.kind n := by simpa [treeTo, Tree.kinds, Tree.kindsAll] using hkind
      exact ⟨n, hgood.self⟩
  | succ fuel ih =>
      intro kind hkind
      rw [treeTo, Tree.kinds] at hkind
      rcases List.mem_cons.mp hkind with rfl | hkind
      · exact ⟨n, hgood.self⟩
      · obtain ⟨tree, htree, hkind⟩ := Tree.mem_kindsAll.mp hkind
        obtain ⟨c, hc, rfl⟩ := List.mem_map.mp htree
        cases h with
        | zero => exact hgood.elim
        | succ h => exact ih (hgood.2 c hc) kind hkind

theorem exists_kind_of_mem_treeTo (d : Document) (fuel : Nat) (n : NodeId) :
    ∀ kind ∈ (d.treeTo fuel n).kinds, ∃ m, d.kind m = kind := by
  induction fuel generalizing n with
  | zero =>
      intro kind hkind
      exact ⟨n, by simpa [treeTo, Tree.kinds, Tree.kindsAll, eq_comm] using hkind⟩
  | succ fuel ih =>
      intro kind hkind
      rw [treeTo, Tree.kinds] at hkind
      rcases List.mem_cons.mp hkind with rfl | hkind
      · exact ⟨n, rfl⟩
      · obtain ⟨tree, htree, hkind⟩ := Tree.mem_kindsAll.mp hkind
        obtain ⟨c, -, rfl⟩ := List.mem_map.mp htree
        exact ih c kind hkind

/-- The height of the tree is the least bound. -/
theorem Throughout.height_treeTo (hgood : Throughout good d h n) {fuel : Nat}
    (hfuel : h ≤ fuel + 1) : Throughout good d (d.treeTo fuel n).height n := by
  induction fuel generalizing h n with
  | zero =>
      obtain rfl | rfl : h = 0 ∨ h = 1 := by omega
      · exact hgood.elim
      · exact ⟨hgood.1, hgood.2⟩
  | succ fuel ih =>
      cases h with
      | zero => exact hgood.elim
      | succ h =>
          rw [treeTo, Tree.height]
          refine ⟨hgood.1, fun c hc => ?_⟩
          have hle := Tree.heightAll_le_iff.mp (Nat.le_refl _) (d.treeTo fuel c)
            (List.mem_map_of_mem hc)
          exact (ih (hgood.2 c hc) (by omega)).mono hle

/-- The number of levels from a node down. -/
def height (d : Document) (n : NodeId) : Nat := (d.tree n).height

theorem Throughout.height_le (hgood : Throughout good d h n) : d.height n ≤ h :=
  hgood.height_treeTo_le d.size

theorem Throughout.at_height (hlinked : d.WellLinked) (htop : d.parent top = none)
    (hn : d.Below top n) (hlt : n < d.size) (hgood : Throughout good d h n) :
    Throughout good d (d.height n) n := by
  have hbounded := throughout_of_rooted hlinked htop hn hlt fun m hm => (hgood.below hm).self
  exact hbounded.height_treeTo (Nat.le_succ _)

end Document

end PageTemplate.Markup
