import PageTemplate.Proofs.Markup.Abridging
import PageTemplate.Proofs.Markup.Credits
import PageTemplate.Proofs.Render.CleanOutput

/-! # Cleaning up is copying without directives

What is left of a document is told by one recursion on its tree, in which every name stands for what
it stands for in the document as it was: an attribute that belongs to a vocabulary is left out, and
an element that belongs to one makes way for what is left of its children.
-/

namespace PageTemplate.Cleanup

open Markup Document

variable {v : Vocabularies} {d t : Document} {n x p : NodeId}

/-- The node without its directives; nothing for an element of a vocabulary. -/
def cleanKind? (v : Vocabularies) (d : Document) (n : NodeId) : Option NodeKind :=
  if isDirectiveElement v d n then none
  else some ((d.kind n).mapElement (·.keep fun attr => !isDirective v d n attr))

/-- What is left of a node and of what is below it. -/
def remaining (v : Vocabularies) (d : Document) (n : NodeId) : List Tree :=
  d.abridged (cleanKind? v d) n

theorem remaining_eq (hlinked : d.WellLinked) (hn : d.Below root n) :
    remaining v d n =
      if isDirectiveElement v d n then (d.children n).flatMap (remaining v d)
      else [.node ((d.kind n).mapElement (·.keep fun attr => !isDirective v d n attr))
        ((d.children n).flatMap (remaining v d))] := by
  have heq := hlinked.abridged_eq (cleanKind? v d) hn
  unfold remaining
  rw [heq]
  unfold cleanKind?
  by_cases hdirective : isDirectiveElement v d n = true <;> simp [hdirective]

/-! ## Without the directives -/

theorem kind_removeAttribute_of_not_element (hx : t.element? n = none) (raw : String) :
    (t.removeAttribute x raw).1.kind n = t.kind n := by
  unfold removeAttribute
  split
  · rcases kind_updateElement_cases t x n _ with heq | ⟨-, heq⟩
    · exact heq
    · exact heq.trans (NodeKind.mapElement_of_element?_eq_none hx _)
  · rfl

/-- Nodes that are no elements stay as they are. -/
theorem kind_strip_of_not_element (hn : d.element? n = none) (elements : List NodeId) :
    (strip v d elements).kind n = d.kind n := by
  unfold strip
  refine List.foldlRecOn (motive := fun t : Document => t.kind n = d.kind n) elements _ rfl ?_
  intro t ht node _
  unfold removeNames
  refine List.foldlRecOn (motive := fun t : Document => t.kind n = d.kind n) _ _ ht ?_
  intro t ht name _
  have hnone : t.element? n = none := (congrArg NodeKind.element? ht).trans hn
  rw [kind_removeAttribute_of_not_element hnone, ht]

/-- In the tree a node loses its directives and nothing else. -/
theorem kind_strip (hlinked : d.WellLinked) (hread : d.ReadNames) (hn : d.Below root n) :
    (strip v d (elements d)).kind n =
      (d.kind n).mapElement (·.keep fun attr => !isDirective v d n attr) := by
  cases helement : d.element? n with
  | none =>
      rw [kind_strip_of_not_element helement]
      exact (NodeKind.mapElement_of_element?_eq_none helement _).symm
  | some element =>
      have hmem : n ∈ elements d :=
        (mem_elements_iff hlinked).mpr ⟨hn, Option.isSome_iff_exists.mpr ⟨element, helement⟩⟩
      have hstripped := element?_strip (v := v) hread (elements d) n
      rw [helement, Option.map_some] at hstripped
      rw [NodeKind.eq_element hstripped, NodeKind.eq_element helement]
      simp [hmem, NodeKind.mapElement]

/-! ## Taking tags away -/

theorem unwrap_eq (hp : t.parent x = some p) {promoted : List NodeId} {u : Document}
    (homit : outcome (omitTag x) t = (.ok promoted, u)) : unwrap t x = u := by
  have hrun : (omitTag x).run t = (.ok promoted, u) := homit
  unfold unwrap
  rw [hp, hrun]
  rfl

/-- A document on its way from the directives being removed to the last tag being taken away: what
is left of its tree stays the same. -/
structure Clearing (v : Vocabularies) (d t : Document) : Prop extends Unwrapping d t where
  size_eq : t.size = d.size
  kind_eq : ∀ n, t.kind n = (strip v d (elements d)).kind n
  below_of : ∀ n, t.Below root n → d.Below root n
  remaining_eq : t.abridged (cleanKind? v d) root = remaining v d root

theorem clearing_strip (hlinked : d.WellLinked) :
    Clearing v d (strip v d (elements d)) := by
  obtain ⟨-, hsize, -, hchildren⟩ := relabeled_strip (v := v) hlinked (elements d)
  refine ⟨unwrapping_strip hlinked, hsize, fun _ => rfl, fun n hn => ?_, ?_⟩
  · apply hn.of_congr
    intro m _
    rw [hchildren]
    exact List.Subset.refl _
  · unfold remaining abridged
    rw [hsize]
    exact abridgedTo_congr hchildren _ _

/-- An element of a vocabulary loses its tag, unless it has lost it before. -/
theorem Clearing.unwrap (h : Clearing v d t) (hlinked : d.WellLinked) (hroot : d.kind root = .root)
    (hx : d.Below root x) (hdirective : isDirectiveElement v d x = true) :
    Clearing v d (unwrap t x) ∧ (Cleanup.unwrap t x).parent x = none ∧
      ∀ m, t.parent m = none → (Cleanup.unwrap t x).parent m = none := by
  rcases h.unwrap_cases hlinked hx with ⟨hnone, heq⟩ | ⟨p, hp, hreplaced, hunwrapping⟩
  · rw [heq]
    exact ⟨h, hnone, fun _ => id⟩
  have hlinked' := h.confined.linked
  have hbelow : t.Below root x := (h.below x hx).resolve_left (by simp [hp])
  have hrooted : t.Rooted x := ⟨root, hlinked'.parent_root, hbelow⟩
  obtain ⟨u, homit, huntagged⟩ := hlinked'.exists_untagged hrooted hp
  rw [unwrap_eq hp homit] at hreplaced hunwrapping ⊢
  have hself : x ∉ t.children x := fun hself =>
    hlinked'.not_below_parent hlinked'.parent_root hbelow (hlinked'.parent_eq hself) .refl
  have hne : root ≠ x := by
    rintro rfl
    simp [isDirectiveElement_iff, element?, hroot, NodeKind.element?] at hdirective
  refine ⟨⟨hunwrapping, huntagged.size_eq.trans h.size_eq,
    fun n => (huntagged.kind_eq n).trans (h.kind_eq n),
    fun n hn => h.below_of n (huntagged.below_of hn), ?_⟩, huntagged.parent_self, fun m hm => ?_⟩
  · rw [← h.remaining_eq]
    unfold abridged
    rw [huntagged.size_eq]
    exact huntagged.abridgedTo_eq (if_pos hdirective) hself hlinked'.throughout_root hne
  · by_cases hmx : m = x
    · rw [hmx, huntagged.parent_self]
    · rw [hreplaced.parent_eq_of_ne hlinked' hmx, hm, if_neg (Option.some_ne_none x).symm]

/-- Elements of the vocabularies lose their tags one after the other. -/
theorem clearing_unwrapAll (hlinked : d.WellLinked) (hroot : d.kind root = .root)
    (nodes : List NodeId)
    (hnodes : ∀ n ∈ nodes, d.Below root n ∧ isDirectiveElement v d n = true) :
    Clearing v d (nodes.foldl unwrap (strip v d (elements d))) ∧
      ∀ n ∈ nodes, (nodes.foldl unwrap (strip v d (elements d))).parent n = none := by
  induction nodes using List.reverseRecOn with
  | nil => exact ⟨clearing_strip hlinked, nofun⟩
  | append_singleton nodes x ih =>
      obtain ⟨hbelow, hdirective⟩ := hnodes x (by simp)
      obtain ⟨hclearing, hgone⟩ := ih fun n hn => hnodes n (List.mem_append_left _ hn)
      obtain ⟨hnext, hxgone, hkept⟩ := hclearing.unwrap hlinked hroot hbelow hdirective
      rw [List.foldl_concat]
      refine ⟨hnext, fun n hn => ?_⟩
      rcases List.mem_append.mp hn with hn | hn
      · exact hkept n (hgone n hn)
      · rw [List.mem_singleton.mp hn, hxgone]

/-! ## What is left -/

/-- Cleaning up leaves the filtered copy of the tree: a node that is no element is kept, an element
of no vocabulary is kept with the attributes that are no directives, in order, and with what is left
of its children, and an element of a vocabulary is replaced by what is left of its children. -/
theorem tree_removeDirectives (hlinked : d.WellLinked) (hroot : d.kind root = .root)
    (hread : d.ReadNames) :
    (∀ n, d.Below root n → remaining v d n =
      if d.inNamespace n v.tal || d.inNamespace n v.metal then
        (d.children n).flatMap (remaining v d)
      else
        [.node ((d.kind n).mapElement fun element => { element with
            attributes := element.attributes.filter fun attr =>
              !(d.attributeInNamespace n attr v.tal || d.attributeInNamespace n attr v.metal) })
          ((d.children n).flatMap (remaining v d))]) ∧
      [(removeDirectives v d root).tree root] = remaining v d root := by
  refine ⟨fun n hn => remaining_eq hlinked hn, ?_⟩
  have hmem : ∀ n ∈ (elements d).filter (isDirectiveElement v d),
      d.Below root n ∧ isDirectiveElement v d n = true := by
    intro n hn
    obtain ⟨hn, hdirective⟩ := List.mem_filter.mp hn
    exact ⟨((mem_elements_iff hlinked).mp hn).1, hdirective⟩
  obtain ⟨hclearing, hgone⟩ := clearing_unwrapAll hlinked hroot _ hmem
  rw [← removeDirectives_eq] at hclearing hgone
  generalize removeDirectives v d root = t at hclearing hgone ⊢
  have hlinked' := hclearing.confined.linked
  have hlabel : ∀ n, t.Below root n → cleanKind? v d n = some (t.kind n) := by
    intro n hn
    have hbelow := hclearing.below_of n hn
    have hplain : isDirectiveElement v d n = false := by
      by_contra hdirective
      have hdirective := Bool.not_eq_false _ ▸ hdirective
      obtain ⟨element, helement, -⟩ := isDirectiveElement_iff.mp hdirective
      have hnone := hgone n (List.mem_filter.mpr ⟨(mem_elements_iff hlinked).mpr
        ⟨hbelow, Option.isSome_iff_exists.mpr ⟨element, helement⟩⟩, hdirective⟩)
      -- Only the document node is in the tree without a parent, and it is no element.
      rcases hlinked'.below_cases hn with rfl | ⟨p, hp, -⟩
      · simp [element?, hroot, NodeKind.element?] at helement
      · rw [hnone] at hp
        cases hp
    unfold cleanKind?
    rw [hplain, hclearing.kind_eq, kind_strip hlinked hread hbelow]
    rfl
  rw [← hclearing.remaining_eq, ← hlinked'.treeTo_root]
  exact (hlinked'.throughout_root.abridgedTo_eq_treeTo hlabel).symm

/-- A page with an element of the vocabulary of directives in another one, which declares the
qualifier that both have. -/
def nestedBlocksPage : Document where
  nodes := #[
    { kind := .root, children := [1] },
    { kind := .element { name := .parse "r" }, parent := some 0, children := [2, 7] },
    { kind := .element {
        name := .parse "t:block"
        attributes := [⟨.parse "xmlns:t", "http://xml.zope.org/namespaces/tal"⟩,
          ⟨.parse "omit-tag", ""⟩] },
      parent := some 1, children := [3, 6] },
    { kind := .element { name := .parse "t:block" }, parent := some 2, children := [4] },
    { kind := .element {
        name := .parse "p"
        attributes := [⟨.parse "t:content", "here"⟩, ⟨.parse "class", "c"⟩] },
      parent := some 3, children := [5] },
    { kind := .text "a", parent := some 4 },
    { kind := .text "b", parent := some 2 },
    { kind := .comment "c", parent := some 1 }]

theorem tree_removeDirectives_nestedBlocksPage :
    let d := nestedBlocksPage
    d.WellLinked ∧ d.kind root = .root ∧ d.ReadNames ∧
      [(removeDirectives {} d root).tree root] = remaining {} d root ∧
      (removeDirectives {} d root).children 1 = [4, 6, 7] ∧
      (removeDirectives {} d root).attributes 4 = [⟨.parse "class", "c"⟩] := by
  intro d
  have hlinked : d.WellLinked := by decide +kernel
  have hread : d.ReadNames := by decide +kernel
  obtain ⟨-, htree⟩ := tree_removeDirectives (v := {}) hlinked rfl hread
  exact ⟨hlinked, rfl, hread, htree, by decide +kernel, by decide +kernel⟩

end PageTemplate.Cleanup
