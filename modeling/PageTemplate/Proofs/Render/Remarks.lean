import PageTemplate.Proofs.Markup.Notes
import PageTemplate.Proofs.Render.Crediting
import PageTemplate.Proofs.Render.Expanding

/-! # Source comments are put beside elements

What an element is annotated with are new comments among the children of the node above it. Nothing
else changes: in a document with notes they are further notes.
-/

namespace PageTemplate

open Markup Document

namespace Markup.Document

variable {M : NodeId → NodeId → Prop} {notes : List NodeId} {d e d' : Document}
  {p q x n c index : Nat} {text : String}

/-- A new comment is put among the children of `p`. -/
def remark (d : Document) (p index : Nat) (text : String) : Document :=
  (d.create (.comment text)).1.place p index d.size

@[simp] theorem size_remark : (d.remark p index text).size = d.size + 1 := by
  unfold remark
  rw [size_place, size_create]

theorem kind_remark (n : NodeId) :
    (d.remark p index text).kind n = if n = d.size then .comment text else d.kind n := by
  unfold remark
  rw [kind_place]
  unfold kind
  rw [node_create]
  split <;> rfl

theorem parent_remark (n : NodeId) :
    (d.remark p index text).parent n = if n = d.size then some p else d.parent n := by
  unfold remark
  rw [parent_place (by simp), (links_create d _ n).1]

theorem WellLinked.remark (hlinked : d.WellLinked) (hp : p < d.size)
    (hindex : index ≤ (d.children p).length) : (d.remark p index text).WellLinked := by
  have hnone : d.parent d.size = none := by
    unfold parent
    rw [node_of_size_le d (Nat.le_refl _)]
  have hsize : (d.create (.comment text)).1.size = d.size + 1 := size_create ..
  refine (hlinked.create _).place ?_ ?_ ?_ ?_ ?_
  · rw [(links_create d _ d.size).1, hnone]
  · exact Nat.ne_of_gt (Nat.lt_of_le_of_lt (Nat.zero_le _) hp)
  · rw [hsize]
    exact Nat.lt_succ_of_lt hp
  · rw [hsize]
    exact Nat.lt_succ_self _
  · rw [(links_create d _ p).2]
    exact hindex

theorem Noted.remark (h : Noted M notes d d') (hlinked : d'.WellLinked) (hq : M q p) (index : Nat)
    (text : String) : Noted M (notes ++ [d'.size]) d (d'.remark p index text) :=
  (h.createNote text hlinked).placeNote (by simp) hq index

/-- Comments have been put among the children of `p`, one after the other. -/
inductive Remarks (p : NodeId) (d : Document) : Document → Prop
  | nil : Remarks p d d
  | add {e : Document} (h : Remarks p d e) (text : String) {index : Nat}
      (hindex : index ≤ (e.children p).length) : Remarks p d (e.remark p index text)

namespace Remarks

theorem size_le (h : Remarks p d d') : d.size ≤ d'.size := by
  induction h with
  | nil => exact Nat.le_refl _
  | add _ _ _ ih =>
      rw [size_remark]
      exact Nat.le_succ_of_le ih

theorem linked (h : Remarks p d d') (hlinked : d.WellLinked) (hp : p < d.size) :
    d'.WellLinked := by
  induction h with
  | nil => exact hlinked
  | add h _ hindex ih => exact ih.remark (Nat.lt_of_lt_of_le hp h.size_le) hindex

/-- The new nodes are comments below `p`. -/
theorem new (h : Remarks p d d') (hle : d.size ≤ n) (hlt : n < d'.size) :
    d'.parent n = some p ∧ ∃ text, d'.kind n = .comment text := by
  induction h with
  | nil => exact absurd hlt (Nat.not_lt_of_le hle)
  | @add e _ text index _ ih =>
      rw [parent_remark, kind_remark]
      split
      next => exact ⟨rfl, text, rfl⟩
      next hne =>
        rw [size_remark] at hlt
        exact ih (Nat.lt_of_le_of_ne (Nat.le_of_lt_succ hlt) hne)

/-- The new nodes are further notes. -/
theorem noted (h : Remarks p e d') (hnoted : Noted M notes d e) (hlinked : e.WellLinked)
    (hq : M q p) : Noted M (notes ++ List.range' e.size (d'.size - e.size)) d d' := by
  induction h with
  | nil => simpa using hnoted
  | @add u h text index _ ih =>
      have hu := h.linked hlinked (hnoted.lt hq).2
      have hrange : List.range' e.size (u.size + 1 - e.size) =
          List.range' e.size (u.size - e.size) ++ [u.size] := by
        have hle := h.size_le
        rw [Nat.succ_sub hle, List.range'_concat, Nat.one_mul, Nat.add_sub_of_le hle]
      rw [size_remark, hrange, ← List.append_assoc]
      exact ih.remark hu hq index text

end Remarks

/-- A new node is put right before or after a node, among the children of the node above it. -/
theorem WellLinked.exists_beside (hlinked : d.WellLinked) (hx : d.parent x = some p)
    (hnone : d.parent c = none) :
    (∃ index ≤ (d.children p).length,
        outcome (insertBefore x c) d = (.ok (), d.place p index c)) ∧
      ∃ index ≤ (d.children p).length,
        outcome (insertAfter x c) d = (.ok (), d.place p index c) := by
  obtain ⟨index, hindex, hposition⟩ := exists_positionOf? hlinked hx
  refine ⟨⟨index, Nat.le_of_lt hindex, ?_⟩, index + 1, hindex, ?_⟩
  · rw [outcome_insertBefore, detach_of_parent_eq_none d hnone, hposition]
  · rw [outcome_insertAfter, detach_of_parent_eq_none d hnone, hposition]

end Markup.Document

namespace SourceComment

variable {s : RenderState} {p x : NodeId} {v : Vocabularies} {base : Option String}

/-- What is annotated is a node below another one, and comments are put below that. -/
def Annotates (p : NodeId) (s : RenderState) (step : Rendering Unit) : Prop :=
  ∃ d, outcome step s = (.ok (), { s with document := d }) ∧ Remarks p s.document d

theorem Annotates.pure : Annotates p s (pure ()) := ⟨s.document, rfl, .nil⟩

/-- A comment is made and put beside the node. -/
theorem exists_remark (base : Option String) (hlinked : s.document.WellLinked)
    (hx : s.document.parent x = some p) (tag : Tag) :
    (∃ text, ∃ index ≤ (s.document.children p).length,
        outcome (addComment base x tag insertBefore) s =
          (.ok (), { s with document := s.document.remark p index text })) ∧
      ∃ text, ∃ index ≤ (s.document.children p).length,
        outcome (addComment base x tag insertAfter) s =
          (.ok (), { s with document := s.document.remark p index text }) := by
  let text := content base s.document x tag
  have hmade : (s.document.create (.comment text)).1.WellLinked := hlinked.create _
  have hnone : (s.document.create (.comment text)).1.parent s.document.size = none := by
    rw [(links_create s.document _ _).1]
    unfold parent
    rw [node_of_size_le s.document (Nat.le_refl _)]
  obtain ⟨⟨index, hindex, hbefore⟩, index', hindex', hafter⟩ :=
    hmade.exists_beside ((links_create s.document _ x).1.trans hx) hnone
  rw [(links_create s.document _ p).2] at hindex hindex'
  have hadd : ∀ {insert : NodeId → NodeId → Edit Unit} {d : Document},
      outcome (insert x s.document.size) (s.document.create (.comment text)).1 = (.ok (), d) →
        outcome (addComment base x tag insert) s = (.ok (), { s with document := d }) := by
    intro insert d hinsert
    have hrun : (insert x s.document.size).run (s.document.create (.comment text)).1 =
        (.ok (), d) := hinsert
    unfold addComment Rendering.edit
    rw [outcome_bind_ok (Rendering.outcome_document s),
      outcome_bind_ok (Rendering.outcome_createIn _ s), outcome_bind, Rendering.outcome_createIn]
    dsimp only
    rw [show (s.document.create (.comment (content base s.document x tag))).2 =
      s.document.size from rfl, hrun]
    rfl
  exact ⟨⟨text, index, hindex, hadd hbefore⟩, text, index', hindex', hadd hafter⟩

theorem annotates_annotate (v : Vocabularies) (base : Option String)
    (hlinked : s.document.WellLinked) (hx : s.document.parent x = some p) :
    Annotates p s (annotate v base x) := by
  have hbefore : Annotates p s (addComment base x .start insertBefore) := by
    obtain ⟨⟨text, index, hindex, houtcome⟩, -⟩ := exists_remark base hlinked hx .start
    exact ⟨_, houtcome, .add .nil text hindex⟩
  have hafter : Annotates p s (addComment base x .start insertAfter) := by
    obtain ⟨-, text, index, hindex, houtcome⟩ := exists_remark base hlinked hx .start
    exact ⟨_, houtcome, .add .nil text hindex⟩
  have hboth : Annotates p s (do
      addComment base x .start insertBefore
      addComment base x .ending insertAfter) := by
    obtain ⟨⟨text, index, hindex, houtcome⟩, -⟩ := exists_remark base hlinked hx .start
    obtain ⟨hp, hlt⟩ := hlinked.lt_of_parent hx
    let t : RenderState := { s with document := s.document.remark p index text }
    have hx' : t.document.parent x = some p := by
      show (s.document.remark p index text).parent x = some p
      rw [parent_remark, if_neg (Nat.ne_of_lt hlt), hx]
    obtain ⟨-, text', index', hindex', houtcome'⟩ :=
      exists_remark (s := t) base (hlinked.remark hp hindex) hx' .ending
    exact ⟨_, (outcome_bind_ok houtcome).trans houtcome',
      .add (.add .nil text hindex) text' hindex'⟩
  unfold annotate
  rw [Annotates, outcome_bind_ok (Rendering.outcome_document s)]
  split
  · dsimp only
    split
    · exact hbefore
    split
    · exact hboth
    split
    · exact hbefore
    split
    · exact hafter
    · exact Annotates.pure
  · exact Annotates.pure

end SourceComment

end PageTemplate
