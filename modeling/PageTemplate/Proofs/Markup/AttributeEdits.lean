import PageTemplate.Markup.NamespaceScope
import PageTemplate.Proofs.Markup.Copying
import PageTemplate.Proofs.Text.Cutting

/-! # Attributes after an edit

An edit of an element's attributes changes that element and no other. Names that were read are
written as they were read, so that an attribute can be removed by the text of its name.
-/

namespace PageTemplate.Markup

/-- A name is written as the text it was read from. -/
theorem QualifiedName.text_parse (raw : String) : (QualifiedName.parse raw).text = raw := by
  unfold QualifiedName.parse
  split
  next q qualifier l localName hsplit =>
    obtain ⟨c, hc, htext, -⟩ := Text.eq_append_of_splitAt? hsplit
    obtain rfl : c = ':' := by simpa using hc
    apply String.toList_inj.mp
    simp [QualifiedName.text, htext]
  · rfl

variable {α β : Type}

/-- Where a key is found at most once, removing the first entry of the key removes all of them. -/
theorem eraseP_eq_filter [DecidableEq β] {key : α → β} {l : List α} (hnodup : (l.map key).Nodup)
    (k : β) : l.eraseP (key · = k) = l.filter (key · ≠ k) := by
  induction l with
  | nil => rfl
  | cons a l ih =>
      obtain ⟨hnew, hrest⟩ := List.nodup_cons.mp hnodup
      by_cases ha : key a = k
      · have hkept : l.filter (key · ≠ k) = l := by
          apply List.filter_eq_self.mpr
          intro b hb
          simp only [ne_eq, decide_not, Bool.not_eq_true', decide_eq_false_iff_not]
          rintro rfl
          exact hnew (ha ▸ List.mem_map_of_mem hb)
        rw [List.eraseP_cons_of_pos (by simpa using ha), List.filter_cons_of_neg (by simpa using ha),
          hkept]
      · rw [List.eraseP_cons_of_neg (by simpa using ha), List.filter_cons_of_pos (by simpa using ha),
          ih hrest]

/-- Removing the first entry that `p` holds of leaves what is found by a condition that excludes
`p`. -/
theorem find?_eraseP_of_disjoint {α : Type} {p q : α → Bool} (hpq : ∀ a, p a = true → q a = false)
    (l : List α) : (l.eraseP p).find? q = l.find? q := by
  induction l with
  | nil => rfl
  | cons a l ih =>
      by_cases ha : p a = true
      · rw [List.eraseP_cons_of_pos ha, List.find?_cons, hpq a ha]
      · rw [List.eraseP_cons_of_neg ha, List.find?_cons, List.find?_cons, ih]

/-- What is found first when the first entry was removed is the second one. -/
theorem find?_eraseP_self {α : Type} (p : α → Bool) (l : List α) :
    (l.eraseP p).find? p = (l.filter p)[1]? := by
  induction l with
  | nil => rfl
  | cons a l ih =>
      by_cases ha : p a = true
      · rw [List.eraseP_cons_of_pos ha, List.filter_cons_of_pos ha, List.getElem?_cons_succ,
          ← List.head?_eq_getElem?, List.head?_filter]
      · rw [List.eraseP_cons_of_neg ha, List.filter_cons_of_neg ha, ← ih,
          List.find?_cons_of_neg ha]

/-- What an element declares is still declared without an attribute that is no declaration. -/
theorem Element.declared_eraseP {picks : Attribute → Bool}
    (hpicks : ∀ attr, picks attr = true → attr.name.isDeclaration = false) (element : Element)
    (qualifier : Option String) :
    ({ element with attributes := element.attributes.eraseP picks } : Element).attribute?
      (QualifiedName.declaration qualifier) =
        element.attribute? (QualifiedName.declaration qualifier) := by
  unfold Element.attribute?
  congr 1
  apply find?_eraseP_of_disjoint
  intro attr hattr
  apply decide_eq_false
  intro hname
  have hno := hpicks attr hattr
  rw [QualifiedName.isDeclaration, QualifiedName.declares?_eq_some_iff.mpr hname] at hno
  cases hno

theorem NodeKind.eq_element {kind : NodeKind} {element : Element}
    (h : kind.element? = some element) : kind = .element element := by
  cases kind <;> cases h
  rfl

theorem NodeKind.mapElement_of_element?_eq_none {kind : NodeKind} (h : kind.element? = none)
    (change : Element → Element) : kind.mapElement change = kind := by
  cases kind <;> first | rfl | cases h

namespace Document

variable (d : Document) (x n : NodeId)

theorem attributes_of_element? {d : Document} {n : NodeId} {element : Element}
    (h : d.element? n = some element) : d.attributes n = element.attributes := by
  simp [attributes, h]

theorem attributes_of_size_le {d : Document} {n : NodeId} (h : d.size ≤ n) :
    d.attributes n = [] := by
  simp [attributes, element?, kind, d.node_of_size_le h, NodeKind.element?]

theorem element?_updateElement (change : Element → Element) :
    (d.updateElement x change).element? n =
      if n = x then (d.element? x).map change else d.element? n := by
  by_cases hx : x < d.size
  · unfold element?
    rw [kind_updateElement change d x n hx]
    split
    · cases d.kind x <;> rfl
    · rfl
  · have hnode : (d.updateElement x change).node n = d.node n := by
      unfold updateElement
      rw [node_update, if_neg fun h => hx h.2]
    have hnone : d.element? x = none := by
      unfold element? kind
      rw [d.node_of_size_le (Nat.le_of_not_lt hx)]
      rfl
    have hsame : (d.updateElement x change).element? n = d.element? n :=
      congrArg (fun node : Node => node.kind.element?) hnode
    rw [hsame]
    split
    next hn => rw [hn, hnone, Option.map_none]
    next => rfl

/-- Removing what is found first. -/
theorem element?_eraseFound (p : Attribute → Bool) :
    (match (d.attributes x).findIdx? p with
      | some index => d.eraseAttribute x index
      | none => d).element? n =
      if n = x then (d.element? x).map fun element =>
        { element with attributes := element.attributes.eraseP p }
      else d.element? n := by
  cases hx : d.element? x with
  | none =>
      have hnone : d.attributes x = [] := by simp [attributes, hx]
      simp only [hnone, List.findIdx?_nil, Option.map_none]
      split
      next hn => rw [hn, hx]
      next => rfl
  | some element =>
      rw [attributes_of_element? hx, Option.map_some, List.eraseP_eq_eraseIdx]
      cases List.findIdx? p element.attributes with
      | some index =>
          simp only [eraseAttribute]
          rw [element?_updateElement, hx]
          rfl
      | none => by_cases hn : n = x <;> simp [hn, hx]

theorem element?_removeAttribute (raw : String) :
    (d.removeAttribute x raw).1.element? n =
      if n = x then (d.element? x).map fun element =>
        { element with
          attributes := element.attributes.eraseP (·.name = QualifiedName.parse raw) }
      else d.element? n := by
  rw [← element?_eraseFound]
  unfold removeAttribute
  cases (d.attributes x).findIdx? (·.name = QualifiedName.parse raw) <;> rfl

theorem element?_removeAttributeBySpec (spec : AttributeSpec) :
    (d.removeAttributeBySpec x spec).1.element? n =
      if n = x then (d.element? x).map fun element =>
        { element with attributes := element.attributes.eraseP (d.attributeMatches x · spec) }
      else d.element? n := by
  rw [← element?_eraseFound]
  unfold removeAttributeBySpec matchingIndex?
  cases (d.attributes x).findIdx? (d.attributeMatches x · spec) <;> rfl

end Document

end PageTemplate.Markup
