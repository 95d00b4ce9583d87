import PageTemplate.Proofs.Markup.Twins

/-! # Twins beside which something is done

At each child of a node a document is its own twin. When something is done beside a child in one of
two twins, the documents are twins still: what is below the child and what is above it stays as it
is, and only its siblings are others.
-/

namespace PageTemplate.Markup

namespace Document

variable {d d' e : Document} {p x q n m : NodeId} {l r : List NodeId}

/-- A child of `p` with its siblings before and after it. -/
structure Amid (d : Document) (p x : NodeId) (l r : List NodeId) : Prop where
  linked : d.WellLinked
  rooted : d.Rooted p
  children_eq : d.children p = l ++ x :: r

namespace Amid

variable (h : d.Amid p x l r)

include h

theorem mem_children : x ∈ d.children p := by
  rw [h.children_eq]
  exact List.mem_append_right l List.mem_cons_self

theorem mem_children_of_mem (hm : m ∈ l ++ r) : m ∈ d.children p := by
  rw [h.children_eq]
  rcases List.mem_append.mp hm with hm | hm
  · exact List.mem_append_left _ hm
  · exact List.mem_append_right l (List.mem_cons_of_mem x hm)

theorem parent_eq : d.parent x = some p := h.linked.parent_eq h.mem_children

theorem not_mem : x ∉ l ++ r := by
  have hnodup := h.linked.nodup_children p
  rw [h.children_eq, List.nodup_middle] at hnodup
  exact (List.nodup_cons.mp hnodup).1

theorem below_lt (hn : d.Below x n) : n < d.size :=
  h.linked.below_lt hn (h.linked.lt_of_parent h.parent_eq).2

theorem not_below_above (hn : d.Below x n) : ¬ d.Below n p := by
  obtain ⟨top, htop, hp⟩ := h.rooted
  exact fun hback => h.linked.not_below_parent htop (hp.child h.mem_children) h.parent_eq
    (hn.trans hback)

/-- The other children of the nodes above do not lie below the child. -/
theorem not_below (hq : d.Below q p) (hm : m ∈ d.children q) (hne : m ≠ x) : ¬ d.Below x m := by
  intro hbelow
  rcases h.linked.below_cases hbelow with heq | ⟨q', hq', hbelow'⟩
  · exact hne heq
  · obtain rfl := Option.some.inj ((h.linked.parent_eq hm).symm.trans hq')
    exact h.not_below_above hbelow' hq

theorem ne_of_mem_children (hm : m ∈ d.children q) (hne : q ≠ p) : m ≠ x := by
  rintro rfl
  exact hne (Option.some.inj ((h.linked.parent_eq hm).symm.trans h.parent_eq))

/-! ## A document as its own twin -/

open Classical in
/-- The children of a node above that stand before what lies below `x`. -/
noncomputable def before (_ : d.Amid p x l r) (q : NodeId) : List NodeId :=
  if q = p then l else if d.Below q p then d.children q else []

open Classical in
/-- The children of a node above that stand after what lies below `x`. -/
noncomputable def after (_ : d.Amid p x l r) (q : NodeId) : List NodeId := if q = p then r else []

theorem apart (hm : m ∈ h.before q ++ h.after q) :
    d.Below q p ∧ m < d.size ∧ ¬ d.Below x m := by
  unfold before after at hm
  by_cases hq : q = p
  · subst hq
    rw [if_pos rfl, if_pos rfl] at hm
    have hchild := h.mem_children_of_mem hm
    exact ⟨.refl, (h.linked.child_lt _ _ hchild).2,
      h.not_below .refl hchild (ne_of_mem_of_not_mem hm h.not_mem)⟩
  · rw [if_neg hq, if_neg hq, List.append_nil] at hm
    split at hm
    next hbelow =>
      exact ⟨hbelow, (h.linked.child_lt _ _ hm).2,
        h.not_below hbelow hm (h.ne_of_mem_children hm hq)⟩
    next => cases hm

/-- Everything below `x` is paired with itself. -/
noncomputable def pairing : Pairing where
  left := d.size
  right := d.size
  old := fun n n' => n' = n ∧ d.Below x n
  above := fun q q' => q' = q ∧ d.Below q p
  before := h.before
  after := h.after
  before' := h.before
  after' := h.after
  source := d.sourceName
  source' := d.sourceName
  old_lt := by
    rintro n _ ⟨rfl, hn⟩
    exact ⟨h.below_lt hn, h.below_lt hn⟩
  old_iff := by
    rintro n _ m _ ⟨rfl, -⟩ ⟨rfl, -⟩
    exact Iff.rfl
  above_lt := by
    rintro q _ ⟨rfl, hq⟩
    have hlt := h.linked.above_lt hq (h.linked.lt_of_parent h.parent_eq).1
    exact ⟨hlt, hlt⟩
  above_iff := by
    rintro q _ m _ ⟨rfl, -⟩ ⟨rfl, -⟩
    exact Iff.rfl
  not_above := by
    rintro n _ ⟨rfl, hn⟩ m
    refine ⟨fun habove => h.not_below_above hn habove.2, ?_⟩
    rintro ⟨rfl, habove⟩
    exact h.not_below_above hn habove
  apart := fun hm =>
    have hapart := h.apart hm
    ⟨⟨_, rfl, hapart.1⟩, hapart.2.1, fun _ hold => hapart.2.2 hold.2⟩
  apart' := fun hm =>
    have hapart := h.apart hm
    ⟨⟨_, rfl, hapart.1⟩, hapart.2.1, fun _ hold => hapart.2.2 (hold.1 ▸ hold.2)⟩

theorem eq_of_shares (hn : h.pairing.Shares n m) : m = n := by
  rcases hn with (⟨heq, -⟩ | ⟨-, heq⟩) | ⟨heq, -⟩
  · exact heq
  · exact (Nat.add_right_cancel heq).symm
  · exact heq

theorem shares_of_below (hn : d.Below x n) : h.pairing.Pairs n n := .inl ⟨rfl, hn⟩

/-- The nodes above a paired node or one above are paired or above. -/
theorem shares_parent (hn : h.pairing.Shares n n) (hq : d.parent n = some q) :
    h.pairing.Shares q q := by
  rcases hn with (⟨-, hn⟩ | ⟨hn, -⟩) | ⟨-, hn⟩
  · rcases h.linked.below_cases hn with rfl | ⟨q', hq', hbelow⟩
    · obtain rfl := Option.some.inj (hq.symm.trans h.parent_eq)
      exact .inr ⟨rfl, .refl⟩
    · obtain rfl := Option.some.inj (hq.symm.trans hq')
      exact (h.shares_of_below hbelow).shares
  · exact absurd (h.linked.lt_of_parent hq).2 (Nat.not_lt_of_le hn)
  · exact .inr ⟨rfl, .of_child (h.linked.mem_children hq) hn⟩

theorem lists_children (hn : h.pairing.Shares n n) :
    h.pairing.Lists n n (d.children n) (d.children n) := by
  rcases hn with hn | ⟨-, hn⟩
  · refine hn.lists_iff.mpr (List.forall₂_same.mpr fun c hc => ?_)
    rcases hn with ⟨-, hn⟩ | ⟨hn, -⟩
    · exact h.shares_of_below (hn.child hc)
    · exact absurd (h.linked.child_lt _ _ hc).1 (Nat.not_lt_of_le hn)
  · by_cases hnp : n = p
    · subst hnp
      refine ⟨[x], [x], ?_, ?_, .cons (h.shares_of_below .refl) .nil⟩ <;>
        simp [pairing, before, after, h.children_eq]
    · have hn' : d.Below n p := hn
      refine ⟨[], [], ?_, ?_, .nil⟩ <;> simp [pairing, before, after, hnp, hn']

/-- A document is its own twin. -/
theorem twins : Twins h.pairing d d := by
  refine ⟨rfl, rfl, paired_self _ _, fun hn => ?_, fun {n m} hn => ?_, fun hn => ?_⟩
  · rw [h.eq_of_shares hn]
  · obtain rfl := h.eq_of_shares hn
    cases hq : d.parent m with
    | none => exact .none
    | some q => exact .some (h.shares_parent hn hq)
  · obtain rfl := h.eq_of_shares hn
    exact h.lists_children hn

end Amid

/-! ## Something is done beside a twin -/

/-- From `d'` to `e`, nothing happens to the nodes that are paired with nodes of `d`, nor to those
above them but to the child list of `p`. -/
structure Beside (P : Pairing) (d d' e : Document) (p : NodeId) (l r : List NodeId) : Prop where
  twins : Twins P d d'
  linked : d.WellLinked
  above : ∃ q, P.above q p
  size_le : d'.size ≤ e.size
  source_eq : e.sourceName = d'.sourceName
  paired : ∀ {n n'}, P.Pairs n n' → n' < d'.size → e.node n' = d'.node n'
  higher : ∀ {q q'}, P.above q q' → q' ≠ p → e.node q' = d'.node q'
  outer_kind : e.kind p = d'.kind p
  outer_parent : e.parent p = d'.parent p
  children_eq : ∃ mid, d'.children p = P.before' p ++ mid ++ P.after' p ∧ e.children p = l ++ mid ++ r
  apart : ∀ m ∈ l ++ r, m < e.size ∧ ∀ n, P.Pairs n m → d'.size ≤ m

namespace Beside

variable {P : Pairing} (h : Beside P d d' e p l r)

include h

/-- The same pairs, with the siblings that there are now. -/
noncomputable def pairing : Pairing where
  left := d.size
  right := e.size
  old := fun n n' => P.Pairs n n' ∧ n < d.size ∧ n' < d'.size
  above := P.above
  before := P.before
  after := P.after
  before' := fun q => if q = p then l else P.before' q
  after' := fun q => if q = p then r else P.after' q
  source := P.source
  source' := P.source'
  old_lt := fun hold => ⟨hold.2.1, Nat.lt_of_lt_of_le hold.2.2 h.size_le⟩
  old_iff := fun hn hm => hn.1.eq_iff hm.1
  above_lt := fun hq =>
    have hlt := P.above_lt hq
    ⟨Nat.lt_of_lt_of_le hlt.1 h.twins.size.1,
      Nat.lt_of_lt_of_le hlt.2 (Nat.le_trans h.twins.size.le_right h.size_le)⟩
  above_iff := P.above_iff
  not_above := fun hold => hold.1.not_above
  apart := fun hm =>
    have hapart := P.apart hm
    ⟨hapart.1, Nat.lt_of_lt_of_le hapart.2.1 h.twins.size.1, fun _ hold => hold.1.not_mem hm⟩
  apart' := by
    intro q m hm
    by_cases hq : q = p
    · subst hq
      simp only [if_pos] at hm
      obtain ⟨hlt, hnew⟩ := h.apart m hm
      exact ⟨h.above, hlt, fun n hold => Nat.not_le_of_lt hold.2.2 (hnew n hold.1)⟩
    · simp only [if_neg hq] at hm
      obtain ⟨habove, hlt, -⟩ := P.apart' hm
      exact ⟨habove, Nat.lt_of_lt_of_le hlt (Nat.le_trans h.twins.size.le_right h.size_le),
        fun n hold => hold.1.not_mem' hm⟩

/-- Nodes that were there stay paired. -/
theorem pairs (hn : P.Pairs n m) (hlt : n < d.size) : h.pairing.Pairs n m :=
  .inl ⟨hn, hlt, (h.twins.lt_iff hn.shares).mp hlt⟩

theorem shares (hn : P.Shares n m) (hlt : n < d.size) : h.pairing.Shares n m :=
  hn.imp_left fun hn => h.pairs hn hlt

theorem kind_eq (hn : h.pairing.Shares n m) : e.kind m = d.kind n := by
  rcases hn with (⟨hn, -, hlt⟩ | hn) | hn
  · unfold kind
    rw [h.paired hn hlt]
    exact h.twins.kind_eq hn.shares
  · unfold kind
    rw [d.node_of_size_le hn.1, e.node_of_size_le hn.le_right]
  · refine Eq.trans ?_ (h.twins.kind_eq (.inr hn))
    by_cases hq : m = p
    · rw [hq, h.outer_kind]
    · unfold kind
      rw [h.higher hn hq]

theorem parents (hn : h.pairing.Shares n m) :
    Option.Rel h.pairing.Shares (d.parent n) (e.parent m) := by
  have hkept : P.Shares n m → e.parent m = d'.parent m →
      Option.Rel h.pairing.Shares (d.parent n) (e.parent m) := by
    intro hn hsame
    have hparents := h.twins.parents hn
    rw [hsame]
    generalize hq : d.parent n = parent, d'.parent m = parent' at hparents ⊢
    cases hparents with
    | none => exact .none
    | some hshares => exact .some (h.shares hshares (h.linked.lt_of_parent hq).1)
  rcases hn with (⟨hn, -, hlt⟩ | hn) | hn
  · exact hkept hn.shares (congrArg Node.parent (h.paired hn hlt))
  · unfold parent
    rw [d.node_of_size_le hn.1, e.node_of_size_le hn.le_right]
    exact .none
  · refine hkept (.inr hn) ?_
    by_cases hq : m = p
    · rw [hq, h.outer_parent]
    · exact congrArg Node.parent (h.higher hn hq)

theorem forall₂_pairs {mid mid' : List NodeId} (hmid : List.Forall₂ P.Pairs mid mid')
    (hchild : ∀ c ∈ mid, c ∈ d.children n) : List.Forall₂ h.pairing.Pairs mid mid' := by
  induction hmid with
  | nil => exact .nil
  | cons hhead _ ih =>
      obtain ⟨hfirst, hrest⟩ := List.forall_mem_cons.mp hchild
      exact .cons (h.pairs hhead (h.linked.child_lt _ _ hfirst).2) (ih hrest)

theorem lists (hn : h.pairing.Shares n m) :
    h.pairing.Lists n m (d.children n) (e.children m) := by
  rcases hn with hn | hn
  · refine hn.lists_iff.mpr ?_
    rcases hn with ⟨hn, -, hlt⟩ | hn
    · have hchildren := hn.lists_iff.mp (h.twins.lists hn.shares)
      unfold children at hchildren ⊢
      rw [h.paired hn hlt]
      exact h.forall₂_pairs hchildren fun _ => id
    · unfold children
      rw [d.node_of_size_le hn.1, e.node_of_size_le hn.le_right]
      exact .nil
  · obtain ⟨mid, mid', hchildren, hchildren', hmid⟩ := h.twins.lists (.inr hn)
    have hpairs := h.forall₂_pairs hmid fun c hc => by
      rw [hchildren]
      exact List.mem_append_left _ (List.mem_append_right _ hc)
    by_cases hq : m = p
    · subst hq
      obtain ⟨mid'', hmid'', he⟩ := h.children_eq
      obtain rfl : mid' = mid'' := by simpa using hchildren'.symm.trans hmid''
      refine ⟨mid, mid', hchildren, ?_, hpairs⟩
      simpa [pairing] using he
    · refine ⟨mid, mid', hchildren, ?_, hpairs⟩
      unfold children at hchildren' ⊢
      rw [h.higher hn hq, hchildren']
      simp [pairing, hq]

/-- The documents are still twins. -/
theorem twins_pairing : Twins h.pairing d e :=
  ⟨h.twins.source, h.source_eq.trans h.twins.source', paired_self _ _, h.kind_eq, h.parents,
    h.lists⟩

end Beside

end Document

end PageTemplate.Markup
