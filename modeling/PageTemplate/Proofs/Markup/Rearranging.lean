import PageTemplate.Proofs.Markup.Acyclicity

/-! # Nodes that are moved beside others

Nodes that are moved right before or behind another one, or that come in its place, leave the lists
they stood in and stand there in their order. The place is looked up after a node has left its old
one, so that it does not matter whether that was before the place, behind it or elsewhere. Nothing
else changes, and this holds wherever the document node stands.
-/

namespace PageTemplate.Markup.Document

variable {d t u : Document} {x p c n r new old : NodeId} {index : Nat}
  {l nodes front back children children' moved moved' out : List NodeId}

theorem insertIdx_length_append (front back : List NodeId) (n : NodeId) :
    (front ++ back).insertIdx front.length n = front ++ n :: back := by
  induction front with
  | nil => rfl
  | cons c front ih => simpa using ih

theorem filter_of_not_mem {children : List NodeId} (hx : x ∉ children) :
    children.filter (· ≠ x) = children := by
  apply List.filter_eq_self.mpr
  intro c hc
  simp only [ne_eq, decide_not, Bool.not_eq_true', decide_eq_false_iff_not]
  rintro rfl
  exact hx hc

theorem filter_ne_not_mem (c : NodeId) (nodes l : List NodeId) :
    (l.filter (· ≠ c)).filter (· ∉ nodes) = l.filter (· ∉ c :: nodes) := by
  rw [List.filter_filter]
  apply List.filter_congr
  intro n _
  simp [Bool.and_comm]

/-! ## Places -/

/-- The place of a node is its parent and the number of the siblings that stand before it. -/
theorem Linked.positionOf?_eq (hlinked : d.Linked) (hchildren : d.children p = front ++ x :: back) :
    d.positionOf? x = some (p, front.length) := by
  have hx : d.parent x = some p :=
    hlinked.parent_eq (hchildren ▸ List.mem_append_right _ List.mem_cons_self)
  have hnodup := hlinked.nodup_children p
  rw [hchildren] at hnodup
  have hfront : ∀ c ∈ front, (c == x) = false := by
    intro c hc
    apply beq_eq_false_iff_ne.mpr
    rintro rfl
    exact (List.nodup_append.mp hnodup).2.2 c hc c List.mem_cons_self rfl
  have hindex : (d.children p).findIdx? (· == x) = some front.length := by
    rw [hchildren, List.findIdx?_append, List.findIdx?_eq_none_iff.mpr hfront, Option.none_or,
      List.findIdx?_cons, beq_self_eq_true, if_pos rfl, Option.map_some, Nat.zero_add]
  simp [positionOf?, hx, hindex]

theorem positionOf?_eq_none (hx : d.parent x = none) : d.positionOf? x = none := by
  unfold positionOf?
  rw [hx]
  rfl

/-- Once a node has left its place there is none beside it. -/
theorem Linked.positionOf?_detach_eq_none (hlinked : d.Linked) (h : d.parent r = none ∨ r = new) :
    (d.detach new).positionOf? r = none := by
  apply positionOf?_eq_none
  rw [hlinked.parent_detach]
  rcases h with h | h <;> simp [h]

/-! ## One node -/

/-- The nodes `moved` have come to stand below `p`, whose children are now `children`, and the nodes
`out` are out of the tree. All other links are as they were, and so is what the nodes are. -/
structure Rearranged (p : NodeId) (children moved out : List NodeId) (d t : Document) : Prop where
  size_eq : t.size = d.size
  kind_eq : ∀ n, t.kind n = d.kind n
  parent_eq : ∀ n, t.parent n =
    if n ∈ moved then some p else if n ∈ out then none else d.parent n
  children_eq : ∀ n, t.children n = if n = p then children else (d.children n).filter (· ∉ moved)

/-- A node that was taken out of the tree is placed. -/
theorem Linked.rearranged_place (hlinked : d.Linked) (hp : p < d.size) (hnew : new < d.size)
    (hindex : index ≤ ((d.detach new).children p).length) :
    ((d.detach new).place p index new).Linked ∧
      Rearranged p (((d.children p).filter (· ≠ new)).insertIdx index new) [new] [] d
        ((d.detach new).place p index new) := by
  have hnone : (d.detach new).parent new = none := by rw [hlinked.parent_detach, if_pos rfl]
  have hp' : p < (d.detach new).size := by rwa [size_detach]
  have hnew' : new < (d.detach new).size := by rwa [size_detach]
  refine ⟨(hlinked.detach new).place hnone hp' hnew' hindex, by simp, fun n => ?_, fun n => ?_,
    fun n => ?_⟩
  · rw [kind_place, kind_detach]
  · rw [parent_place hnew', hlinked.parent_detach]
    by_cases hn : n = new <;> simp [hn]
  · rw [children_place hp', hlinked.children_detach, hlinked.children_detach]
    simp

/-- Moving a node beside another one succeeds when that has a parent. -/
theorem Linked.exists_beside (hlinked : d.Linked) (hchildren : d.children p = front ++ r :: back)
    (hne : new ≠ r) (hnew : new < d.size) :
    (∃ t, outcome (insertBefore r new) d = (.ok (), t) ∧ t.Linked ∧
      Rearranged p (front.filter (· ≠ new) ++ new :: r :: back.filter (· ≠ new)) [new] [] d t) ∧
    ∃ t, outcome (insertAfter r new) d = (.ok (), t) ∧ t.Linked ∧
      Rearranged p (front.filter (· ≠ new) ++ r :: new :: back.filter (· ≠ new)) [new] [] d t := by
  have hsplit : (d.children p).filter (· ≠ new) =
      front.filter (· ≠ new) ++ r :: back.filter (· ≠ new) := by
    rw [hchildren, List.filter_append, List.filter_cons_of_pos (by simpa using hne.symm)]
  generalize front.filter (· ≠ new) = front', back.filter (· ≠ new) = back' at hsplit ⊢
  have hfreed : (d.detach new).children p = front' ++ r :: back' := by
    rw [hlinked.children_detach, hsplit]
  have hposition := (hlinked.detach new).positionOf?_eq hfreed
  have hp : p < d.size :=
    (hlinked.child_lt p r (hchildren ▸ List.mem_append_right _ List.mem_cons_self)).1
  have hlength : front'.length + 1 ≤ ((d.detach new).children p).length := by
    rw [hfreed, List.length_append, List.length_cons]
    omega
  have hbefore := hlinked.rearranged_place hp hnew (Nat.le_of_succ_le hlength)
  have hafter := hlinked.rearranged_place hp hnew hlength
  have hbehind : (front' ++ r :: back').insertIdx (front'.length + 1) new =
      front' ++ r :: new :: back' := by
    simpa using insertIdx_length_append (front' ++ [r]) back' new
  rw [hsplit, insertIdx_length_append] at hbefore
  rw [hsplit, hbehind] at hafter
  refine ⟨⟨_, ?_, hbefore⟩, _, ?_, hafter⟩
  · rw [outcome_insertBefore, hposition]
  · rw [outcome_insertAfter, hposition]

/-! ## Several nodes -/

/-- One rearrangement after another, both below `p`. -/
theorem Rearranged.trans (h : Rearranged p children moved [] d u)
    (h' : Rearranged p children' moved' [] u t) :
    Rearranged p children' (moved ++ moved') [] d t := by
  refine ⟨h'.size_eq.trans h.size_eq, fun n => (h'.kind_eq n).trans (h.kind_eq n), fun n => ?_,
    fun n => ?_⟩
  · rw [h'.parent_eq, h.parent_eq]
    by_cases hn : n ∈ moved <;> by_cases hn' : n ∈ moved' <;> simp [hn, hn']
  · rw [h'.children_eq, h.children_eq]
    split
    · rfl
    · rw [List.filter_filter]
      apply List.filter_congr
      intro c _
      simp [Bool.and_comm]

/-- Nodes that are moved before another one stand there in their order. -/
theorem Linked.exists_allBefore (hlinked : d.Linked)
    (hchildren : d.children p = front ++ r :: back) (hnodes : ∀ n ∈ nodes, n ≠ r ∧ n < d.size)
    (hnodup : nodes.Nodup) :
    ∃ t, outcome (nodes.forM (insertBefore r)) d = (.ok (), t) ∧ t.Linked ∧
      Rearranged p (front.filter (· ∉ nodes) ++ nodes ++ r :: back.filter (· ∉ nodes)) nodes [] d
        t := by
  induction nodes generalizing d front back with
  | nil =>
      refine ⟨d, rfl, hlinked, rfl, fun _ => rfl, by simp, fun n => ?_⟩
      by_cases hn : n = p <;> simp [hn, hchildren]
  | cons c nodes ih =>
      obtain ⟨⟨hne, hc⟩, hrest⟩ := List.forall_mem_cons.mp hnodes
      obtain ⟨hnew, hnodup⟩ := List.nodup_cons.mp hnodup
      obtain ⟨⟨u, hinsert, hu, hfirst⟩, -⟩ := hlinked.exists_beside hchildren hne hc
      have hbetween : u.children p =
          (front.filter (· ≠ c) ++ [c]) ++ r :: back.filter (· ≠ c) := by
        rw [hfirst.children_eq, if_pos rfl, List.append_cons]
      obtain ⟨t, hall, ht, hlast⟩ := ih hu hbetween (hfirst.size_eq ▸ hrest) hnodup
      refine ⟨t, (outcome_bind_ok hinsert).trans hall, ht, ?_⟩
      have hwhole := hfirst.trans hlast
      rw [List.filter_append, filter_ne_not_mem, filter_ne_not_mem,
        List.filter_cons_of_pos (by simpa using hnew)] at hwhole
      simpa using hwhole

/-! ## In the place of a node -/

/-- A node whose place others have taken is taken out of the tree. -/
theorem Rearranged.detach (h : Rearranged p (front ++ old :: back) moved [] d u)
    (hu : u.Linked) (hfront : old ∉ front) (hback : old ∉ back) (hmoved : old ∉ moved) :
    Rearranged p (front ++ back) moved [old] d (u.detach old) := by
  have hp : ∀ n, n ≠ p → old ∉ u.children n := by
    intro n hn hmem
    have hold : old ∈ u.children p := by
      rw [h.children_eq, if_pos rfl]
      exact List.mem_append_right _ List.mem_cons_self
    exact hn (Option.some.inj ((hu.parent_eq hmem).symm.trans (hu.parent_eq hold)))
  refine ⟨(size_detach u).trans h.size_eq, fun n => (kind_detach u old n).trans (h.kind_eq n),
    fun n => ?_, fun n => ?_⟩
  · rw [hu.parent_detach, h.parent_eq]
    by_cases hn : n = old <;> by_cases hn' : n ∈ moved <;> simp_all
  · rw [hu.children_detach]
    by_cases hn : n = p
    · rw [hn, h.children_eq, if_pos rfl, if_pos rfl, List.filter_append, filter_of_not_mem hfront,
        List.filter_cons_of_neg (by simp), filter_of_not_mem hback]
    · rw [filter_of_not_mem (hp n hn), h.children_eq, if_neg hn, if_neg hn]

theorem Linked.exists_replace (hlinked : d.Linked)
    (hchildren : d.children p = front ++ old :: back) (hnodes : ∀ n ∈ nodes, n ≠ old ∧ n < d.size)
    (hnodup : nodes.Nodup) :
    ∃ t, outcome (replace old nodes) d = (.ok (), t) ∧ t.Linked ∧
      Rearranged p (front.filter (· ∉ nodes) ++ nodes ++ back.filter (· ∉ nodes)) nodes [old] d
        t := by
  obtain ⟨u, hall, hu, hmoved⟩ := hlinked.exists_allBefore hchildren hnodes hnodup
  have hnot : old ∉ nodes := fun hmem => (hnodes old hmem).1 rfl
  have hold := hlinked.nodup_children p
  rw [hchildren, List.nodup_middle, List.nodup_cons, List.mem_append, not_or] at hold
  refine ⟨u.detach old, ?_, hu.detach old, hmoved.detach hu ?_ ?_ hnot⟩
  · unfold Document.replace
    rw [outcome_bind_ok hall]
    rfl
  · simp [hold.1.1, hnot]
  · simp [hold.1.2]

/-- The children of an element without its tag stand where the element stood. -/
theorem Linked.exists_omitTag (hlinked : d.Linked) (hself : d.parent x ≠ some x)
    (hchildren : d.children p = front ++ x :: back) :
    ∃ t, outcome (omitTag x) d = (.ok (d.children x), t) ∧ t.Linked ∧ t.children x = [] ∧
      Rearranged p (front ++ d.children x ++ back) (d.children x) [x] d t := by
  have hx : d.parent x = some p :=
    hlinked.parent_eq (hchildren ▸ List.mem_append_right _ List.mem_cons_self)
  have hpx : x ≠ p := by
    rintro rfl
    exact hself hx
  have hnodes : ∀ n ∈ d.children x, n ≠ x ∧ n < d.size := by
    refine fun n hn => ⟨?_, (hlinked.child_lt x n hn).2⟩
    rintro rfl
    exact hself (hlinked.parent_eq hn)
  obtain ⟨t, hreplace, ht, hmoved⟩ :=
    hlinked.exists_replace hchildren hnodes (hlinked.nodup_children x)
  -- The children of `x` are not among the children of `p`.
  have hkept : ∀ l ⊆ d.children p, l.filter (· ∉ d.children x) = l := by
    intro l hl
    apply List.filter_eq_self.mpr
    intro c hc
    have hcx : c ∉ d.children x := fun hcx =>
      hpx (Option.some.inj ((hlinked.parent_eq hcx).symm.trans (hlinked.parent_eq (hl hc))))
    simpa using hcx
  have hfront : front ⊆ d.children p := hchildren ▸ List.subset_append_left front _
  have hbehind : back ⊆ d.children p :=
    hchildren ▸ List.subset_append_of_subset_right front (List.subset_cons_self x back)
  rw [hkept front hfront, hkept back hbehind] at hmoved
  refine ⟨t, ?_, ht, ?_, hmoved⟩
  · unfold omitTag
    rw [outcome_bind_ok (outcome_get d), outcome_bind_ok hreplace]
    rfl
  · rw [hmoved.children_eq, if_neg hpx, List.filter_eq_nil_iff]
    simp

/-- In a document whose links agree and have no cycle, a node that is moved beside another one stands
right before or behind it, and where it stood before it is missing; a place beside a node without a
parent there is not. Nodes that replace another one stand in its place in their order, also when some
of them stood beside it. An element that loses its tag leaves its place to its children. All other
nodes keep their kinds, parents and children. -/
theorem edits_rearrange (hlinked : d.Linked) (hacyclic : d.Acyclic) :
    (∀ r new p front back, new < d.size → new ≠ r → d.children p = front ++ r :: back →
      (∃ t, outcome (insertBefore r new) d = (.ok (), t) ∧ Rearranged p
        (front.filter (· ≠ new) ++ new :: r :: back.filter (· ≠ new)) [new] [] d t) ∧
      ∃ t, outcome (insertAfter r new) d = (.ok (), t) ∧ Rearranged p
        (front.filter (· ≠ new) ++ r :: new :: back.filter (· ≠ new)) [new] [] d t) ∧
    (∀ r new t, d.parent r = none → outcome (insertBefore r new) d ≠ (.ok (), t) ∧
      outcome (insertAfter r new) d ≠ (.ok (), t)) ∧
    (∀ old nodes p front back, nodes.Nodup → (∀ n ∈ nodes, n ≠ old ∧ n < d.size) →
      d.children p = front ++ old :: back →
      ∃ t, outcome (replace old nodes) d = (.ok (), t) ∧ Rearranged p
        (front.filter (· ∉ nodes) ++ nodes ++ back.filter (· ∉ nodes)) nodes [old] d t) ∧
    ∀ x p front back, d.children p = front ++ x :: back →
      ∃ t, outcome (omitTag x) d = (.ok (d.children x), t) ∧ t.children x = [] ∧
        Rearranged p (front ++ d.children x ++ back) (d.children x) [x] d t := by
  refine ⟨fun r new p front back hnew hne hchildren => ?_, fun r new t hr => ?_,
    fun old nodes p front back hnodup hnodes hchildren => ?_, fun x p front back hchildren => ?_⟩
  · obtain ⟨⟨t, hbefore, -, ht⟩, t', hafter, -, ht'⟩ := hlinked.exists_beside hchildren hne hnew
    exact ⟨⟨t, hbefore, ht⟩, t', hafter, ht'⟩
  · rw [outcome_insertBefore, outcome_insertAfter, hlinked.positionOf?_detach_eq_none (.inl hr)]
    exact ⟨nofun, nofun⟩
  · obtain ⟨t, hreplace, -, ht⟩ := hlinked.exists_replace hchildren hnodes hnodup
    exact ⟨t, hreplace, ht⟩
  · have hself : d.parent x ≠ some x := fun hself =>
      hlinked.acyclic_iff.mp hacyclic x x hself .refl
    obtain ⟨t, homit, -, hnone, ht⟩ := hlinked.exists_omitTag hself hchildren
    exact ⟨t, homit, hnone, ht⟩

/-- An element with three elements in it, of which the last one holds a text. -/
def threesome : Document where
  nodes := #[{ children := [1] },
    { kind := .element (.named "a"), parent := some 0, children := [2, 3, 4] },
    { kind := .element (.named "b"), parent := some 1 },
    { kind := .element (.named "c"), parent := some 1 },
    { kind := .element (.named "d"), parent := some 1, children := [5] },
    { kind := .text "t", parent := some 4 }]

/-- The element in the middle is moved to the end, gives way to its two siblings and the text, or
sees the last one lose its tag. -/
theorem edits_rearrange_threesome :
    threesome.Linked ∧ threesome.Acyclic ∧ 3 < threesome.size ∧
      threesome.children 1 = [2, 3] ++ 4 :: [] ∧
      (∃ t, outcome (insertAfter 4 3) threesome = (.ok (), t) ∧ t.children 1 = [2, 4, 3]) ∧
      (∃ t, outcome (replace 3 [5, 4, 2]) threesome = (.ok (), t) ∧
        t.children 1 = [5, 4, 2] ∧ t.children 4 = [] ∧ t.parent 3 = none) ∧
      ∃ t, outcome (omitTag 4) threesome = (.ok [5], t) ∧ t.children 1 = [2, 3, 5] := by
  have hlinked : threesome.Linked := (show threesome.WellLinked by decide +kernel).toLinked
  have hacyclic : threesome.Acyclic := acyclic_of_parents_before (by decide +kernel)
  obtain ⟨hbeside, -, hreplace, homit⟩ := edits_rearrange hlinked hacyclic
  have hlast : threesome.children 1 = [2, 3] ++ 4 :: [] := by decide +kernel
  have hmiddle : threesome.children 1 = [2] ++ 3 :: [4] := by decide +kernel
  obtain ⟨-, t₁, hinserted, h₁⟩ := hbeside 4 3 1 [2, 3] [] (by decide) (by decide) hlast
  obtain ⟨t₂, hreplaced, h₂⟩ :=
    hreplace 3 [5, 4, 2] 1 [2] [4] (by decide) (by decide) hmiddle
  obtain ⟨t₃, homitted, -, h₃⟩ := homit 4 1 [2, 3] [] hlast
  refine ⟨hlinked, hacyclic, by decide, hlast, ⟨t₁, hinserted, ?_⟩, ⟨t₂, hreplaced, ?_, ?_, ?_⟩,
    t₃, homitted, ?_⟩
  · exact h₁.children_eq 1
  · exact h₂.children_eq 1
  · exact (h₂.children_eq 4).trans (by decide)
  · exact h₂.parent_eq 3
  · exact h₃.children_eq 1

end PageTemplate.Markup.Document
