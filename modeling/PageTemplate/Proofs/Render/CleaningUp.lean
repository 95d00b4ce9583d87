import PageTemplate.Proofs.Markup.Copying
import PageTemplate.Proofs.Markup.Omission
import PageTemplate.Render.Cleanup

/-! # Removing directives keeps to the tree

Cleaning up a document changes what lies below the document node and nothing else. Elements lose
attributes first; then elements of the vocabularies lose their tags, one after the other, and
those that are still to lose theirs stay in the tree until it is their turn.
-/

namespace PageTemplate.Cleanup

open Markup Document

variable {v : Vocabularies} {d t : Document} {n : NodeId}

theorem relabeled_removeNames (hlinked : d.WellLinked) (node : NodeId) (names : List String) :
    Relabeled node d (removeNames d node names) := by
  unfold removeNames
  refine List.foldlRecOn (motive := Relabeled node d) _ _ (.refl hlinked) ?_
  intro t ht name _
  exact ht.trans (relabeled_removeAttribute ht.confined.linked node name)

/-- While tags are taken away, only the tree has changed, and what was in it still is or has no
parent. -/
structure Unwrapping (d t : Document) : Prop where
  confined : Confined (d.own root) d t
  below : ∀ n, d.Below root n → t.parent n = none ∨ t.Below root n

/-- The tag of an element of the tree that still has a parent can be taken away. -/
theorem Unwrapping.exists_replaced {p : NodeId} (hlinked : d.WellLinked) (h : Unwrapping d t)
    (hn : d.Below root n) (hp : t.parent n = some p) :
    ∃ t', outcome (Document.omitTag n) t = (.ok (t.children n), t') ∧
      Replaced (t.own n) p n (t.children n) t t' ∧ Unwrapping d t' := by
  have hlinked' := h.confined.linked
  have hbelow : t.Below root n := (h.below n hn).resolve_left (by simp [hp])
  have hpbelow : t.Below root p := hlinked'.below_parent hlinked'.parent_root hbelow hp
  have hregion := region_own hlinked' ⟨root, hlinked'.parent_root, hpbelow⟩ hp
  obtain ⟨promoted, t', houtcome, rfl, hreplaced⟩ := (hregion.omitted (own_self t n) hp).exists_ok
  refine ⟨t', houtcome, hreplaced, h.confined.within hlinked (.inl hn) ?_ hreplaced.toWithin,
    fun m hm => ?_⟩
  · exact h.confined.own_below hlinked (own_self d root) hpbelow
  · by_cases hmn : m = n
    · refine .inl ?_
      rw [hreplaced.parents, if_pos hmn]
    rcases h.below m hm with hnone | hm
    · refine .inl ?_
      rw [hreplaced.parent_eq_of_ne hlinked' hmn, hnone, if_neg nofun]
    · exact .inr (hreplaced.below_top hlinked' hp hlinked'.parent_root hm hmn)

/-- An element without a parent keeps its tag. Any other one is replaced by its children. -/
theorem Unwrapping.unwrap_cases (hlinked : d.WellLinked) (h : Unwrapping d t)
    (hn : d.Below root n) :
    t.parent n = none ∧ unwrap t n = t ∨
      ∃ p, t.parent n = some p ∧ Replaced (t.own n) p n (t.children n) t (unwrap t n) ∧
        Unwrapping d (unwrap t n) := by
  unfold unwrap
  cases hp : t.parent n with
  | none => exact .inl ⟨rfl, rfl⟩
  | some p =>
      obtain ⟨t', houtcome, hreplaced, hunwrapping⟩ := h.exists_replaced hlinked hn hp
      have hresult : ((Document.omitTag n).run t).2 = t' := congrArg Prod.snd houtcome
      simp only [Option.isSome_some, if_true, hresult]
      exact .inr ⟨p, rfl, hreplaced, hunwrapping⟩

/-- Taking away the tag of an element of the tree. -/
theorem unwrapping_unwrap (hlinked : d.WellLinked) (h : Unwrapping d t) (hn : d.Below root n) :
    Unwrapping d (unwrap t n) := by
  rcases h.unwrap_cases hlinked hn with ⟨-, heq⟩ | ⟨p, -, -, hunwrapping⟩
  · rwa [heq]
  · exact hunwrapping

/-- Attributes are removed before any tag is taken away. -/
theorem unwrapping_removeNames (hlinked : d.WellLinked) {doomed : List (NodeId × List String)}
    (hdoomed : ∀ entry ∈ doomed, d.Below root entry.1) :
    Unwrapping d (doomed.foldl (fun d (node, names) => removeNames d node names) d) := by
  have hsame := List.foldlRecOn (motive := fun t =>
    Confined (d.own root) d t ∧ ∀ n, t.children n = d.children n) doomed
    (fun d (node, names) => removeNames d node names) ⟨.refl hlinked, fun _ => rfl⟩ ?_
  · refine ⟨hsame.1, fun n hn => .inr (hn.congr fun m _ => ?_)⟩
    rw [hsame.2]
    exact List.Subset.refl _
  · rintro t ⟨ht, hchildren⟩ ⟨node, names⟩ hmem
    have hremoved := relabeled_removeNames ht.linked node names
    refine ⟨ht.trans (hremoved.confined.mono ?_), fun n =>
      (hremoved.children_eq n).trans (hchildren n)⟩
    rintro _ rfl
    exact .inl (hdoomed _ hmem)

/-- Removing directives changes what lies below the document node and nothing else. -/
theorem confined_removeDirectives (hlinked : d.WellLinked) :
    Confined (d.own root) d (removeDirectives v d root) := by
  have helements : ∀ n ∈ (d.subtree root).filter (d.isElement ·), d.Below root n := fun n hn =>
    below_of_mem_subtree (List.mem_filter.mp hn).1
  unfold removeDirectives
  refine (List.foldlRecOn (motive := Unwrapping d) _ _ (unwrapping_removeNames hlinked ?_)
    ?_).confined
  · intro entry hentry
    obtain ⟨n, hn, rfl⟩ := List.mem_map.mp hentry
    exact helements n hn
  · intro t ht n hn
    exact unwrapping_unwrap hlinked ht (helements n (List.mem_filter.mp hn).1)

end PageTemplate.Cleanup
