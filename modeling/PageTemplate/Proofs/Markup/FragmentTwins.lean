import PageTemplate.Proofs.Markup.ReadingBeside
import PageTemplate.Proofs.Markup.Twins

/-! # Reading one fragment twice

The same events do the same to twins: they add nodes and open and close elements alike, and reading
stops at the same event. So a fragment that is read into both of two twins leaves twins, with paired
nodes at the top.
-/

namespace PageTemplate.Markup

open Document

variable {P : Pairing}

namespace Reading

section

variable {d d' : Document} {p p' : NodeId} (h : Twins P d d') (hp : P.Pairs p p')

include h hp

theorem twins_addNode (kind : NodeKind) :
    Twins P (addNode d p kind).1 (addNode d' p' kind).1 ∧
      P.Pairs (addNode d p kind).2 (addNode d' p' kind).2 :=
  ⟨(h.create rfl).append hp h.size_pairs, h.size_pairs⟩

theorem twins_addText (content : String) :
    Twins P (addText d p content) (addText d' p' content) := by
  have hnew := (twins_addNode h hp (.text content)).1
  have hlast : Option.Rel P.Pairs (d.children p).getLast? (d'.children p').getLast? := by
    have hreversed := List.rel_reverse (h.down.children hp)
    rw [← List.head?_reverse, ← List.head?_reverse]
    generalize (d.children p).reverse = l, (d'.children p').reverse = l' at hreversed
    cases hreversed with
    | nil => exact .none
    | cons hhead _ => exact .some hhead
  unfold addText
  generalize (d.children p).getLast? = last, (d'.children p').getLast? = last' at hlast
  cases hlast with
  | none => exact hnew
  | some hc =>
      dsimp only
      rw [h.kind_eq hc.shares]
      split
      · exact h.setKind hc _
      · exact hnew

end

/-- Twins with paired elements open. -/
structure Alike (P : Pairing) (t : Document) (opened : OpenNodes) (t' : Document)
    (opened' : OpenNodes) : Prop where
  documents : Twins P t t'
  opened : List.Forall₂ (fun entry entry' => entry'.1 = entry.1 ∧ P.Pairs entry.2 entry'.2)
    opened opened'

variable {container container' : NodeId}

theorem Alike.innermost {t t' : Document} {opened opened' : OpenNodes}
    (h : Alike P t opened t' opened') (hcontainer : P.Pairs container container') :
    P.Pairs (innermost container opened) (innermost container' opened') := by
  cases h.opened with
  | nil => exact hcontainer
  | cons hhead _ => exact hhead.2

theorem Alike.kept (hcontainer : P.Pairs container container') :
    KeptBeside container container' (Alike P) := by
  refine ⟨fun h => ?_, fun kind h => ?_, fun name element h => ?_, fun content h => ?_,
    fun place h => ?_⟩
  · exact map_eq_of_forall₂ h.opened fun _ _ _ _ hentry => hentry.1
  · exact ⟨(twins_addNode h.documents (h.innermost hcontainer) kind).1, h.opened⟩
  · have hadded := twins_addNode h.documents (h.innermost hcontainer) (.element element)
    exact ⟨hadded.1, .cons ⟨rfl, hadded.2⟩ h.opened⟩
  · exact ⟨twins_addText h.documents (h.innermost hcontainer) content, h.opened⟩
  · obtain ⟨⟨-, hid⟩, hopened⟩ := List.forall₂_cons.mp h.opened
    have hblind : Element.Blind ({ · with endPosition := some place }) := fun hbare =>
      Element.bare_eq_iff.mpr (Element.bare_eq_iff.mp hbare)
    exact ⟨h.documents.updateElement hid hblind, hopened⟩

end Reading

namespace Document.Twins

variable {d d' : Document} (h : Twins P d d')

include h

theorem readInto {container container' : NodeId} (hcontainer : P.Pairs container container')
    (markup : String) :
    EndAlike (fun _ t _ t' => Twins P t t') (SameError (Twins P))
      (outcome (readInto container markup) d)
      (outcome (Document.readInto container' markup) d') := by
  refine ((Reading.Alike.kept hcontainer).readInto ⟨h, .nil⟩ markup).mono ?_ ?_
  · rintro _ t _ t' ⟨_, _, halike⟩
    exact halike.documents
  · rintro _ t _ t' ⟨rfl, _, _, halike⟩
    exact ⟨rfl, halike.documents⟩

/-- The nodes of a fragment that is read into twins are paired. -/
theorem parseFragment (markup : String) :
    EndAlike (fun nodes t nodes' t' => List.Forall₂ P.Pairs nodes nodes' ∧ Twins P t t')
      (SameError (Twins P)) (outcome (parseFragment markup) d)
      (outcome (Document.parseFragment markup) d') := by
  unfold Document.parseFragment
  rw [outcome_bind, outcome_bind, outcome_modifyGet, outcome_modifyGet]
  refine (readInto (h.create rfl) h.size_pairs markup).bind fun _ t _ t' ht => ?_
  have hchildren := ht.down.children h.size_pairs
  rw [outcome_bind, outcome_bind, outcome_get, outcome_get]
  exact .ok ⟨hchildren, ht.clearChildren h.size_pairs⟩

end Document.Twins

end PageTemplate.Markup
