import PageTemplate.Markup.NamespaceScope
import PageTemplate.Proofs.Markup.Below

/-! # The way up from a node

The ancestry of a node is read by following parents as often as there are nodes. Below a node
without a parent that is always often enough, so that the ancestry is the node itself followed by
the ancestry of its parent. Whatever a qualifier stands for is declared on the node or is what it
stands for at the parent.
-/

namespace PageTemplate.Markup.Document

variable {d : Document} {top n m p : NodeId}

/-- Below a node without a parent there is a list of all nodes on the way up, each once. -/
theorem WellLinked.exists_lineage (hlinked : d.WellLinked) (htop : d.parent top = none)
    (hlt : top < d.size) (h : d.Below top n) :
    ∃ way : List NodeId, way.Nodup ∧ (∀ m ∈ way, m < d.size) ∧
      ∀ fuel, way.length ≤ fuel → d.lineage fuel n = way := by
  induction h with
  | refl =>
      refine ⟨[top], by simp, by simpa using hlt, fun fuel hfuel => ?_⟩
      cases fuel with
      | zero => cases hfuel
      | succ fuel =>
          unfold lineage
          rw [htop]
          rfl
  | @child q n hq hchild ih =>
      obtain ⟨way, hnodup, hway, hlineage⟩ := ih
      have hparent := hlinked.parent_eq hchild
      -- The way is the lineage of the parent, and a node is not above its own parent.
      have hnew : n ∉ way := by
        intro hmem
        rw [← hlineage _ (Nat.le_refl _)] at hmem
        exact hlinked.not_below_parent htop (hq.child hchild) hparent
          (below_of_mem_lineage hlinked hmem)
      refine ⟨n :: way, List.nodup_cons.mpr ⟨hnew, hnodup⟩, ?_, fun fuel hfuel => ?_⟩
      · exact List.forall_mem_cons.mpr ⟨(hlinked.child_lt q n hchild).2, hway⟩
      · cases fuel with
        | zero => cases hfuel
        | succ fuel =>
            unfold lineage
            rw [hparent]
            exact congrArg (n :: ·) (hlineage fuel (Nat.le_of_succ_le_succ hfuel))

/-- The ancestry of a node is the node itself and the ancestry of its parent. -/
theorem WellLinked.ancestry_eq (hlinked : d.WellLinked) (htop : d.parent top = none)
    (hlt : top < d.size) (h : d.Below top n) :
    d.ancestry n = n :: (d.parent n).elim [] d.ancestry := by
  obtain ⟨way, hnodup, hway, hlineage⟩ := hlinked.exists_lineage htop hlt h
  have hsize := hlineage d.size (length_le_of_nodup hnodup hway)
  have hmore := hlineage (d.size + 1) (Nat.le_succ_of_le (length_le_of_nodup hnodup hway))
  unfold ancestry
  rw [hsize, ← hmore]
  rfl

/-- What a node itself declares a qualifier, or the default namespace, to be. -/
def declared? (d : Document) (n : NodeId) (qualifier : Option String) : Option String :=
  (d.element? n).bind (·.attribute? (QualifiedName.declaration qualifier))

/-- A qualifier stands for what the node declares it to be, or for what it stands for at the
parent. -/
theorem WellLinked.lookupNamespace_eq (hlinked : d.WellLinked) (htop : d.parent top = none)
    (hlt : top < d.size) (h : d.Below top n) (qualifier : Option String) :
    d.lookupNamespace n qualifier =
      (d.declared? n qualifier).or ((d.parent n).bind (d.lookupNamespace · qualifier)) := by
  unfold lookupNamespace
  rw [hlinked.ancestry_eq htop hlt h, List.findSome?_cons]
  unfold declared?
  cases (d.element? n).bind (·.attribute? (QualifiedName.declaration qualifier)) with
  | some uri => rfl
  | none => cases d.parent n <;> rfl

end PageTemplate.Markup.Document
