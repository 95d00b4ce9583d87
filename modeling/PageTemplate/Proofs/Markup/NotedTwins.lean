import PageTemplate.Proofs.Markup.Notes
import PageTemplate.Proofs.Markup.TwinsBeside

/-! # Twins in documents with notes

Where an element has no notes below it, documents that are the same but for notes are twins: what
is below the element is paired one by one, and notes only stand around it. So what does the same to
twins may be done there, and leaves the documents the same but for notes.
-/

namespace PageTemplate.Markup.Document

variable {M : NodeId → NodeId → Prop} {notes : List NodeId} {d d' t t' : Document}
  {p p' x x' q q' n n' m m' c : NodeId} {l l' r r' : List NodeId}

/-! ## New nodes -/

/-- The pairs when the same new nodes have been added to documents. -/
def joined (M : NodeId → NodeId → Prop) (d d' t : Document) (n n' : NodeId) : Prop :=
  M n n' ∨ (Pairing.fresh d d').Pairs n n' ∧ n < t.size

theorem le_joined : M ≤ joined M d d' t := fun _ _ => .inl

/-- New nodes that are twins are paired besides those that were paired. -/
theorem Noted.joined (h : Noted M notes d d') (hgrown : Extends d t) (hgrown' : Extends d' t')
    (htwins : Twins (.fresh d d') t t') : Noted (joined M d d' t) notes t t' := by
  have hold : ∀ {n n'}, M n n' → t.node n = d.node n ∧ t'.node n' = d'.node n' := fun hn =>
    ⟨hgrown.same _ (Nat.not_le_of_lt (h.lt hn).1),
      hgrown'.same _ (Nat.not_le_of_lt (h.lt hn).2)⟩
  have hnew : ∀ {n n'}, (Pairing.fresh d d').Pairs n n' → d.size ≤ n ∧ d'.size ≤ n' := fun hn =>
    hn.elim False.elim fun hn => ⟨hn.1, hn.le_right⟩
  have hnote : ∀ c ∈ notes, t'.node c = d'.node c := fun c hc =>
    hgrown'.same c (Nat.not_le_of_lt (h.note_lt hc))
  have hapart : ∀ {n n' m m'}, M n n' → (Pairing.fresh d d').Pairs m m' → n ≠ m ∧ n' ≠ m' := by
    intro n n' m m' hn hm
    obtain ⟨hle, hle'⟩ := hnew hm
    have hlt := h.lt hn
    exact ⟨Nat.ne_of_lt (Nat.lt_of_lt_of_le hlt.1 hle),
      Nat.ne_of_lt (Nat.lt_of_lt_of_le hlt.2 hle')⟩
  refine ⟨htwins.source'.trans (h.source_eq.trans htwins.source.symm), ?_, ?_, ?_, ?_, ?_,
    fun c hc => ?_, fun c hc => ?_, fun c hc n hn => ?_, h.nodup⟩
  · rintro n n' (hn | ⟨hn, hlt⟩)
    · exact (h.lt hn).imp (Nat.lt_of_lt_of_le · hgrown.size_le)
        (Nat.lt_of_lt_of_le · hgrown'.size_le)
    · exact ⟨hlt, (htwins.lt_iff hn.shares).mp hlt⟩
  · rintro n n' m m' (hn | ⟨hn, -⟩) (hm | ⟨hm, -⟩)
    · exact h.eq_iff hn hm
    · exact iff_of_false (hapart hn hm).1 (hapart hn hm).2
    · exact iff_of_false (hapart hm hn).1.symm (hapart hm hn).2.symm
    · exact hn.eq_iff hm
  · rintro n n' (hn | ⟨hn, -⟩)
    · unfold kind
      rw [(hold hn).1, (hold hn).2]
      exact h.kind_eq hn
    · exact htwins.kind_eq hn.shares
  · rintro n n' (hn | ⟨hn, -⟩)
    · unfold parent
      rw [(hold hn).1, (hold hn).2]
      have hparents := h.parents hn
      unfold parent at hparents
      generalize (d.node n).parent = parent, (d'.node n').parent = parent' at hparents ⊢
      cases hparents with
      | none => exact .none
      | some hq => exact .some (.inl hq)
    · have hparents := htwins.parents hn.shares
      have hlt : ∀ q, t.parent n = some q → q < t.size := fun q hq =>
        (hgrown.linked.lt_of_parent hq).1
      generalize t.parent n = parent, t'.parent n' = parent' at hparents hlt ⊢
      cases hparents with
      | none => exact .none
      | some hq => exact .some (.inr ⟨hq.resolve_right id, hlt _ rfl⟩)
  · rintro n n' (hn | ⟨hn, -⟩)
    · unfold Document.children
      rw [(hold hn).1, (hold hn).2]
      exact (h.children hn).mono (fun _ _ _ => .inl) (List.Subset.refl _)
    · exact .of_forall₂ (forall₂_imp_of_mem (htwins.down.children hn) fun c hc _ _ hpair =>
        .inr ⟨hpair, (hgrown.linked.child_lt n c hc).2⟩)
  · unfold kind
    rw [hnote c hc]
    exact h.comment c hc
  · unfold Document.children
    rw [hnote c hc]
    exact h.leaf c hc
  · rcases hn with hn | ⟨hn, -⟩
    · exact h.apart c hc n hn
    · exact Nat.not_le_of_lt (h.note_lt hc) (hnew hn).2

/-! ## Elements with no notes below -/

/-- Paired elements among their siblings, with no notes below. -/
structure Clear (M : NodeId → NodeId → Prop) (notes : List NodeId) (d d' : Document)
    (p x : NodeId) (l r : List NodeId) (p' x' : NodeId) (l' r' : List NodeId) : Prop where
  noted : Noted M notes d d'
  amid : d.Amid p x l r
  amid' : d'.Amid p' x' l' r'
  pairs : M x x'
  clear : ∀ m, d'.Below x' m → m ∉ notes

/-- Paired elements with parents stand among siblings. -/
theorem Noted.exists_clear (h : Noted M notes d d') (hx : M x x') (hlinked : d.WellLinked)
    (hlinked' : d'.WellLinked) (hrooted : d.Rooted p) (hrooted' : d'.Rooted p')
    (hp : d.parent x = some p) (hp' : d'.parent x' = some p')
    (hclear : ∀ m, d'.Below x' m → m ∉ notes) :
    ∃ l r l' r', Clear M notes d d' p x l r p' x' l' r' := by
  obtain ⟨l, r, hchildren⟩ := List.append_of_mem (hlinked.mem_children hp)
  obtain ⟨l', r', hchildren'⟩ := List.append_of_mem (hlinked'.mem_children hp')
  exact ⟨l, r, l', r', h, ⟨hlinked, hrooted, hchildren⟩, ⟨hlinked', hrooted', hchildren'⟩, hx, hclear⟩

namespace Clear

variable (h : Clear M notes d d' p x l r p' x' l' r')

include h

theorem parents : M p p' := by
  obtain ⟨q, hq, hpairs⟩ := h.noted.exists_parent h.pairs h.amid.parent_eq
  obtain rfl := Option.some.inj (hq.symm.trans h.amid'.parent_eq)
  exact hpairs

theorem siblings : Among M notes l l' ∧ Among M notes r r' := by
  have hamong := h.noted.children h.parents
  have hnodup := h.amid'.linked.nodup_children p'
  rw [h.amid.children_eq, h.amid'.children_eq] at hamong
  rw [h.amid'.children_eq] at hnodup
  exact hamong.split h.noted.eq_iff h.pairs hnodup

theorem below_iff (hn : M n n') : d.Below x n ↔ d'.Below x' n' :=
  h.noted.below_iff h.pairs hn h.amid.linked h.amid'.linked

theorem note_lt (hc : c ∈ notes) : c < d'.size := h.noted.note_lt hc

/-- Everything below the elements is paired, as twins are. -/
noncomputable def pairing : Pairing where
  left := d.size
  right := d'.size
  old := fun n n' => M n n' ∧ d.Below x n ∧ d'.Below x' n'
  above := fun q q' => M q q' ∧ d.Below q p ∧ d'.Below q' p'
  before := h.amid.before
  after := h.amid.after
  before' := h.amid'.before
  after' := h.amid'.after
  source := d.sourceName
  source' := d'.sourceName
  old_lt := fun hold => h.noted.lt hold.1
  old_iff := fun hn hm => h.noted.eq_iff hn.1 hm.1
  above_lt := fun habove => h.noted.lt habove.1
  above_iff := fun hn hm => h.noted.eq_iff hn.1 hm.1
  not_above := fun hold _ =>
    ⟨fun habove => h.amid.not_below_above hold.2.1 habove.2.1,
      fun habove => h.amid'.not_below_above hold.2.2 habove.2.2⟩
  apart := fun hm => by
    obtain ⟨hq, hlt, hout⟩ := h.amid.apart hm
    obtain ⟨q', hpairs, hq'⟩ := h.noted.exists_above h.parents h.amid.linked h.amid'.linked hq
    exact ⟨⟨q', hpairs, hq, hq'⟩, hlt, fun _ hold => hout hold.2.1⟩
  apart' := fun hm => by
    obtain ⟨hq', hlt, hout⟩ := h.amid'.apart hm
    obtain ⟨q, hpairs, hq⟩ := h.noted.exists_above' h.parents h.amid.linked h.amid'.linked hq'
    exact ⟨⟨q, hpairs, hq, hq'⟩, hlt, fun _ hold => hout hold.2.2⟩

theorem self_pairs : h.pairing.Pairs x x' := .inl ⟨h.pairs, .refl, .refl⟩

theorem above_outer : h.pairing.above p p' := ⟨h.parents, .refl, .refl⟩

theorem pairs_of_below (hn : M n n') (hbelow : d.Below x n) : h.pairing.Pairs n n' :=
  .inl ⟨hn, hbelow, (h.below_iff hn).mp hbelow⟩

/-- A paired node that is new on one side is new on the other one. -/
theorem pairs_cases (hn : h.pairing.Pairs n n') :
    M n n' ∧ d.Below x n ∧ d'.Below x' n' ∨ d.size ≤ n ∧ d'.size ≤ n' :=
  hn.imp_right fun hnew => ⟨hnew.1, hnew.le_right⟩

theorem children_old (hn : M n n') (hbelow : d.Below x n) :
    List.Forall₂ h.pairing.Pairs (d.children n) (d'.children n') := by
  have hbelow' := (h.below_iff hn).mp hbelow
  have hchildren := (h.noted.children hn).forall₂ fun c hc => h.clear c (hbelow'.child hc)
  exact forall₂_imp_of_mem hchildren fun c hc c' _ hpairs =>
    h.pairs_of_below hpairs (hbelow.child hc)

theorem parents_old (hn : M n n') (hbelow : d.Below x n) :
    Option.Rel h.pairing.Shares (d.parent n) (d'.parent n') := by
  rcases h.amid.linked.below_cases hbelow with rfl | ⟨q, hq, hbelowq⟩
  · obtain rfl := (h.noted.eq_iff hn h.pairs).mp rfl
    rw [h.amid.parent_eq, h.amid'.parent_eq]
    exact .some (.inr h.above_outer)
  · obtain ⟨q', hq', hpairs⟩ := h.noted.exists_parent hn hq
    rw [hq, hq']
    exact .some (h.pairs_of_below hpairs hbelowq).shares

theorem parents_above (hq : h.pairing.above q q') :
    Option.Rel h.pairing.Shares (d.parent q) (d'.parent q') := by
  obtain ⟨hpairs, hbelow, hbelow'⟩ := hq
  have hparents := h.noted.parents hpairs
  cases hp : d.parent q with
  | none =>
      rw [hp] at hparents
      cases hp' : d'.parent q' with
      | none => exact .none
      | some _ =>
          rw [hp'] at hparents
          cases hparents
  | some up =>
      obtain ⟨up', hup', hup⟩ := h.noted.exists_parent hpairs hp
      rw [hup']
      exact .some (.inr ⟨hup, .of_child (h.amid.linked.mem_children hp) hbelow,
        .of_child (h.amid'.linked.mem_children hup') hbelow'⟩)

theorem lists_above (hq : h.pairing.above q q') :
    h.pairing.Lists q q' (d.children q) (d'.children q') := by
  obtain ⟨hpairs, hbelow, hbelow'⟩ := hq
  have houter := h.noted.eq_iff hpairs h.parents
  by_cases hqp : q = p
  · obtain rfl := hqp
    obtain rfl := houter.mp rfl
    refine ⟨[x], [x'], ?_, ?_, .cons h.self_pairs .nil⟩
    · simp [pairing, Amid.before, Amid.after, h.amid.children_eq]
    · simp [pairing, Amid.before, Amid.after, h.amid'.children_eq]
  · have hqp' : q' ≠ p' := fun heq => hqp (houter.mpr heq)
    refine ⟨[], [], ?_, ?_, .nil⟩
    · simp [pairing, Amid.before, Amid.after, hqp, hbelow]
    · simp [pairing, Amid.before, Amid.after, hqp', hbelow']

/-- The documents are twins at the elements. -/
theorem twins : Twins h.pairing d d' := by
  refine ⟨rfl, rfl, paired_self _ _, fun hn => ?_, fun hn => ?_, fun hn => ?_⟩
  · rcases hn with (hold | hnew) | habove
    · exact h.noted.kind_eq hold.1
    · have hnode : d.node _ = {} := d.node_of_size_le hnew.1
      have hnode' : d'.node _ = {} := d'.node_of_size_le hnew.le_right
      unfold kind
      rw [hnode, hnode']
    · exact h.noted.kind_eq habove.1
  · rcases hn with (hold | hnew) | habove
    · exact h.parents_old hold.1 hold.2.1
    · have hnode : d.node _ = {} := d.node_of_size_le hnew.1
      have hnode' : d'.node _ = {} := d'.node_of_size_le hnew.le_right
      unfold parent
      rw [hnode, hnode']
      exact .none
    · exact h.parents_above habove
  · rcases hn with hn | habove
    · refine hn.lists_iff.mpr ?_
      rcases hn with hold | hnew
      · exact h.children_old hold.1 hold.2.1
      · rw [children_of_size_le hnew.1, children_of_size_le hnew.le_right]
        exact .nil
    · exact h.lists_above habove

/-- What lies outside the elements stays outside. -/
theorem parent_outside (hn : ¬ d.Below x n) (hq : d.parent n = some q) : ¬ d.Below x q := fun hx =>
  hn (hx.child (h.amid.linked.mem_children hq))

theorem child_outside (hn : ¬ d.Below x n) (hne : n ≠ p) (hc : c ∈ d.children n) :
    ¬ d.Below x c := by
  intro hx
  have hparent := h.amid.linked.parent_eq hc
  rcases h.amid.linked.below_cases hx with rfl | ⟨q, hq, hbelow⟩
  · exact hne (Option.some.inj (hparent.symm.trans h.amid.parent_eq))
  · obtain rfl := Option.some.inj (hparent.symm.trans hq)
    exact hn hbelow

/-! ## After something was done to the elements -/

/-- The pairs when the same has been done to the elements: those outside, and those of twins. -/
def grown (t : Document) (n n' : NodeId) : Prop :=
  h.pairing.Pairs n n' ∧ n < t.size ∨ M n n' ∧ ¬ d.Below x n

theorem grown_of_pairs (hn : h.pairing.Pairs n n') (hlt : n < t.size) : h.grown t n n' :=
  .inl ⟨hn, hlt⟩

/-- What was paired is paired still. -/
theorem grown_old (hsize : d.size ≤ t.size) (hn : M n n') : h.grown t n n' := by
  by_cases hbelow : d.Below x n
  · exact .inl ⟨h.pairs_of_below hn hbelow, Nat.lt_of_lt_of_le (h.noted.lt hn).1 hsize⟩
  · exact .inr ⟨hn, hbelow⟩

section Grown

variable (hwithin : Within (d.own x) p d t) (hwithin' : Within (d'.own x') p' d' t')

include hwithin

omit h in
theorem same_outside (hlt : n < d.size) (hn : ¬ d.Below x n) :
    t.kind n = d.kind n ∧ t.parent n = d.parent n ∧ (n ≠ p → t.children n = d.children n) := by
  have hout : ¬ d.own x n := fun hown => hown.elim hn (Nat.not_le_of_lt hlt)
  refine ⟨?_, hwithin.parent_eq_of_not hout, fun hne => hwithin.children_eq (by simp [hout, hne])⟩
  by_cases hnp : n = p
  · rw [hnp, hwithin.outer_kind]
  · exact hwithin.kind_eq (by simp [hout, hnp])

include hwithin'

/-- Pairs outside the elements are as they were. -/
theorem outside (hn : M n n') (hbelow : ¬ d.Below x n) :
    (t.kind n = d.kind n ∧ t.parent n = d.parent n ∧ (n ≠ p → t.children n = d.children n)) ∧
      t'.kind n' = d'.kind n' ∧ t'.parent n' = d'.parent n' ∧
        (n' ≠ p' → t'.children n' = d'.children n') :=
  ⟨same_outside hwithin (h.noted.lt hn).1 hbelow, same_outside hwithin' (h.noted.lt hn).2 fun hx =>
    hbelow ((h.below_iff hn).mpr hx)⟩

omit hwithin in
theorem note_outside (hc : c ∈ notes) :
    t'.kind c = d'.kind c ∧ t'.children c = d'.children c := by
  obtain ⟨hkind, -, hchildren⟩ :=
    same_outside hwithin' (h.note_lt hc) fun hx => h.clear c hx hc
  exact ⟨hkind, hchildren fun heq => h.noted.not_note h.parents (heq ▸ hc)⟩

variable (htwins : Twins h.pairing t t')

include htwins

theorem grown_lt (hn : h.grown t n n') : n < t.size ∧ n' < t'.size := by
  rcases hn with ⟨hn, hlt⟩ | ⟨hn, -⟩
  · exact ⟨hlt, (htwins.lt_iff hn.shares).mp hlt⟩
  · exact (h.noted.lt hn).imp (Nat.lt_of_lt_of_le · hwithin.size_le)
      (Nat.lt_of_lt_of_le · hwithin'.size_le)

omit hwithin hwithin' htwins in
theorem grown_eq_iff (hn : h.grown t n n') (hm : h.grown t m m') : n = m ↔ n' = m' := by
  have hmixed : ∀ {n n' m m'}, h.pairing.Pairs n n' → M m m' → (n = m ↔ n' = m') := by
    intro n n' m m' hn hm
    rcases h.pairs_cases hn with ⟨hold, -⟩ | hnew
    · exact h.noted.eq_iff hold hm
    · have hlt := h.noted.lt hm
      exact iff_of_false (fun heq => Nat.not_le_of_lt hlt.1 (heq ▸ hnew.1))
        fun heq => Nat.not_le_of_lt hlt.2 (heq ▸ hnew.2)
  rcases hn with ⟨hn, -⟩ | ⟨hn, -⟩ <;> rcases hm with ⟨hm, -⟩ | ⟨hm, -⟩
  · exact hn.eq_iff hm
  · exact hmixed hn hm
  · exact eq_comm.trans ((hmixed hm hn).trans eq_comm)
  · exact h.noted.eq_iff hn hm

theorem grown_parents (hn : h.grown t n n') :
    Option.Rel (h.grown t) (t.parent n) (t'.parent n') := by
  rcases hn with ⟨hn, -⟩ | ⟨hn, hbelow⟩
  · have hparents := htwins.parents hn.shares
    cases hq : t.parent n with
    | none =>
        rw [hq] at hparents
        generalize t'.parent n' = parent' at hparents ⊢
        cases hparents with
        | none => exact .none
    | some q =>
        rw [hq] at hparents
        generalize t'.parent n' = parent' at hparents ⊢
        cases hparents with
        | some hpairs =>
            refine .some ?_
            rcases hpairs with hpairs | ⟨hpairs, habove, -⟩
            · exact .inl ⟨hpairs, (hwithin.linked.lt_of_parent hq).1⟩
            · exact .inr ⟨hpairs, fun hx => h.amid.not_below_above hx habove⟩
  · obtain ⟨⟨-, hparent, -⟩, -, hparent', -⟩ := h.outside hwithin hwithin' hn hbelow
    rw [hparent, hparent']
    cases hq : d.parent n with
    | none =>
        have hnone : d'.parent n' = none := by
          have hsome := h.noted.parent_isSome hn
          rw [hq] at hsome
          exact Option.not_isSome_iff_eq_none.mp (by simp [hsome])
        rw [hnone]
        exact .none
    | some q =>
        obtain ⟨q', hq', hpairs⟩ := h.noted.exists_parent hn hq
        rw [hq']
        exact .some (.inr ⟨hpairs, h.parent_outside hbelow hq⟩)

theorem grown_children (hn : h.grown t n n') :
    Among (h.grown t) notes (t.children n) (t'.children n') := by
  have hlt : ∀ {n}, ∀ c ∈ t.children n, c < t.size := fun c hc => (hwithin.linked.child_lt _ c hc).2
  have hpairs : ∀ {mid mid' : List NodeId}, mid ⊆ t.children n →
      List.Forall₂ h.pairing.Pairs mid mid' → Among (h.grown t) notes mid mid' := fun hmid hpairs =>
    .of_forall₂ (forall₂_imp_of_mem hpairs fun c hc _ _ hpair => .inl ⟨hpair, hlt c (hmid hc)⟩)
  rcases hn with ⟨hn, -⟩ | ⟨hn, hbelow⟩
  · exact hpairs (List.Subset.refl _) (htwins.down.children hn)
  have hsiblings : ∀ {l l' : List NodeId}, (∀ c ∈ l, ¬ d.Below x c) → Among M notes l l' →
      Among (h.grown t) notes l l' := fun hout hl =>
    hl.mono (fun c hc _ hpair => .inr ⟨hpair, hout c hc⟩) (List.Subset.refl _)
  by_cases hnp : n = p
  · subst hnp
    obtain rfl := (h.noted.eq_iff hn h.parents).mp rfl
    obtain ⟨mid, mid', hchildren, hchildren', hmid⟩ := htwins.lists (.inr h.above_outer)
    have hbefore : h.pairing.before n = l := if_pos rfl
    have hafter : h.pairing.after n = r := if_pos rfl
    have hbefore' : h.pairing.before' n' = l' := if_pos rfl
    have hafter' : h.pairing.after' n' = r' := if_pos rfl
    rw [hbefore, hafter] at hchildren
    rw [hbefore', hafter'] at hchildren'
    have hout : ∀ c ∈ l ++ r, ¬ d.Below x c := fun c hc =>
      h.amid.not_below .refl (h.amid.mem_children_of_mem hc)
        (ne_of_mem_of_not_mem hc h.amid.not_mem)
    have hinner : mid ⊆ t.children n := by
      rw [hchildren]
      exact fun c hc => List.mem_append_left r (List.mem_append_right l hc)
    have hmiddle := hpairs hinner hmid
    rw [hchildren, hchildren']
    exact ((hsiblings (fun c hc => hout c (List.mem_append_left r hc)) h.siblings.1).append
      hmiddle).append (hsiblings (fun c hc => hout c (List.mem_append_right l hc)) h.siblings.2)
  · have hnp' : n' ≠ p' := fun heq => hnp ((h.noted.eq_iff hn h.parents).mpr heq)
    obtain ⟨⟨-, -, hchildren⟩, -, -, hchildren'⟩ := h.outside hwithin hwithin' hn hbelow
    rw [hchildren hnp, hchildren' hnp']
    exact hsiblings (fun c hc => h.child_outside hbelow hnp hc) (h.noted.children hn)

/-- When the same has been done to the elements, the documents are the same but for notes. -/
theorem noted_grown : Noted (h.grown t) notes t t' := by
  refine ⟨?_, h.grown_lt hwithin hwithin' htwins, h.grown_eq_iff, fun hn => ?_,
    h.grown_parents hwithin hwithin' htwins, h.grown_children hwithin hwithin' htwins,
    fun c hc => ?_, fun c hc => ?_, fun c hc n hn => ?_, h.noted.nodup⟩
  · exact htwins.source'.trans (h.noted.source_eq.trans htwins.source.symm)
  · rcases hn with ⟨hn, -⟩ | ⟨hn, hbelow⟩
    · exact htwins.kind_eq hn.shares
    · obtain ⟨⟨hkind, -⟩, hkind', -⟩ := h.outside hwithin hwithin' hn hbelow
      rw [hkind, hkind', h.noted.kind_eq hn]
  · rw [(h.note_outside hwithin' hc).1]
    exact h.noted.comment c hc
  · rw [(h.note_outside hwithin' hc).2]
    exact h.noted.leaf c hc
  · rcases hn with ⟨hn, -⟩ | ⟨hn, -⟩
    · rcases h.pairs_cases hn with ⟨hold, -⟩ | ⟨-, hnew⟩
      · exact h.noted.apart c hc n hold
      · exact Nat.not_le_of_lt (h.note_lt hc) hnew
    · exact h.noted.apart c hc n hn

end Grown

end Clear

end PageTemplate.Markup.Document
