import PageTemplate.Proofs.Render.CleanOutput
import PageTemplate.Proofs.Render.SlotAccounting

/-! # Slots that are handed on

A slot may itself say which slot it fills: then what is put into it fills that slot in the macro that
is extended. The copy of a filler takes this word over under the name that the attribute has at the
slot. Whether it says the same there depends on what the name stands for at the copy: a name without
qualifier speaks for the macro vocabulary only on an element of it.
-/

namespace PageTemplate

open Markup Document

namespace Markup.Element

variable {element : Element} {name other : QualifiedName} {value : String}

/-- Setting an attribute gives the first of its name the value, or adds it behind the others. -/
theorem set_cases (element : Element) (name : QualifiedName) (value : String) :
    (∃ front old back, element.attributes = front ++ old :: back ∧ old.name = name ∧
      (∀ attr ∈ front, attr.name ≠ name) ∧
      element.set name value = { element with attributes := front ++ ⟨name, value⟩ :: back }) ∨
    (∀ attr ∈ element.attributes, attr.name ≠ name) ∧
      element.set name value =
        { element with attributes := element.attributes ++ [⟨name, value⟩] } := by
  unfold set
  cases hindex : element.attributes.findIdx? (·.name = name) with
  | none =>
      rw [List.findIdx?_eq_none_iff] at hindex
      exact .inr ⟨by simpa using hindex, rfl⟩
  | some index =>
      obtain ⟨hlt, hname, hbefore⟩ := List.findIdx?_eq_some_iff_getElem.mp hindex
      refine .inl ⟨element.attributes.take index, element.attributes[index],
        element.attributes.drop (index + 1), ?_, by simpa using hname, ?_, ?_⟩
      · rw [List.getElem_cons_drop, List.take_append_drop]
      · intro attr hattr
        obtain ⟨i, hi, rfl⟩ := List.mem_take_iff_getElem.mp hattr
        simpa using hbefore i (by omega)
      · have hname : element.attributes[index].name = name := by simpa using hname
        simp only [List.modify_eq_take_cons_drop hlt, hname]

theorem attribute?_set_of_ne (hne : other ≠ name) :
    (element.set name value).attribute? other = element.attribute? other := by
  rcases element.set_cases name value with ⟨front, old, back, hattributes, rfl, -, hset⟩ | ⟨-, hset⟩
  · rw [hset]
    simp [attribute?, hattributes, List.find?_append, hne.symm]
  · rw [hset]
    simp [attribute?, List.find?_append, hne.symm]

theorem name_set : (element.set name value).name = element.name := by
  unfold set
  split <;> rfl

end Markup.Element

namespace Slots

variable {v : Vocabularies} {d : Document} {root p slot filler : NodeId} {fillers : Fillers}
  {own : Option Attribute} {picks : Attribute → Bool} {element : Element}

/-! ## What is found on a copy -/

/-- Of an attribute that was handed on and the one of the filler's own that is left, the one that is
found first. -/
def foundFirst (picks : Attribute → Bool) : Option Attribute → Option Attribute → Option Attribute
  | none, second => second
  | some own, none => if picks own then some own else none
  | some own, some second => if second.name = own.name then some own else some second

/-- The name of the slot that a copy of a filler fills is written in the first attribute that is left
of those that name one, or else in the one that the slot has handed on. -/
theorem find?_handedOn (hpicks : ∀ a b, a.name = b.name → picks a = picks b)
    (hown : ∀ attr ∈ own, QualifiedName.parse attr.name.text = attr.name) :
    (handedOn own picks element).attributes.find? picks =
      foundFirst picks own (element.attributes.filter picks)[1]? := by
  have hsecond := find?_eraseP_self picks element.attributes
  cases own with
  | none => exact hsecond
  | some attr =>
      rw [← hsecond]
      simp only [handedOn, hown attr rfl]
      rcases Element.set_cases { element with attributes := element.attributes.eraseP picks }
        attr.name attr.value with ⟨front, old, back, hkept, hold, hfront, hset⟩ | ⟨hkept, hset⟩
      · replace hkept : element.attributes.eraseP picks = front ++ old :: back := hkept
        rw [hset, hkept, List.find?_append, List.find?_append, List.find?_cons, List.find?_cons,
          hpicks old attr hold, hpicks ⟨attr.name, attr.value⟩ attr rfl]
        cases hfound : front.find? picks with
        | some first =>
            have hne := hfront first (List.mem_of_find?_eq_some hfound)
            simp [foundFirst, hne]
        | none =>
            cases hattr : picks attr with
            | true => simp [foundFirst, hold]
            | false =>
                cases hback : back.find? picks with
                | none => simp [foundFirst, hattr]
                | some first =>
                    have hne : first.name ≠ attr.name := by
                      intro heq
                      have hfirst := List.find?_some hback
                      rw [hpicks first attr heq, hattr] at hfirst
                      cases hfirst
                    simp [foundFirst, hne]
      · rw [hset, List.find?_append, List.find?_singleton]
        rw [hpicks ⟨attr.name, attr.value⟩ attr rfl]
        cases hfound : (element.attributes.eraseP picks).find? picks with
        | none => simp [foundFirst]
        | some first =>
            have hne := hkept first (List.mem_of_find?_eq_some hfound)
            simp [foundFirst, hne]

/-- A copy declares what its filler declares. -/
theorem declared_handedOn (hpicks : ∀ attr, picks attr = true → attr.name.isDeclaration = false)
    (hown : ∀ attr ∈ own, (QualifiedName.parse attr.name.text).isDeclaration = false)
    (qualifier : Option String) :
    (handedOn own picks element).attribute? (QualifiedName.declaration qualifier) =
      element.attribute? (QualifiedName.declaration qualifier) := by
  have hdeclares : (QualifiedName.declaration qualifier).isDeclaration = true := by
    rw [QualifiedName.isDeclaration, QualifiedName.declares?_eq_some_iff.mpr rfl]
    rfl
  have hkept := element.declared_eraseP hpicks qualifier
  cases own with
  | none => exact hkept
  | some attr =>
      refine (Element.attribute?_set_of_ne ?_).trans hkept
      intro hname
      have hno := hown attr rfl
      rw [← hname, hdeclares] at hno
      cases hno

theorem name_handedOn : (handedOn own picks element).name = element.name := by
  cases own with
  | none => rfl
  | some attr => exact Element.name_set

/-! ## Slots and what they hand on -/

/-- The attributes of a filler that name the slot it fills, as they are read below `p`. -/
def fillAttributes (v : Vocabularies) (d : Document) (p filler : NodeId) : List Attribute :=
  (d.attributes filler).filter (d.attributeMatchesBelow p filler · v.fillSlot)

/-- What is put into the slot, a child of `p`, fills there what the slot fills: nothing when the
filler has one attribute at most that names a slot, and otherwise the same when the slot's attribute
is read at the copy as at the slot, and comes before others. -/
def HandsOn (v : Vocabularies) (d : Document) (p slot filler : NodeId) : Prop :=
  match d.findAttribute? slot v.fillSlot, (fillAttributes v d p filler)[1]? with
  | none, second => second = none
  | some own, none => d.attributeMatchesBelow p filler own v.fillSlot = true
  | some own, some second =>
    second.name = own.name ∨ Text.trimmed second.value = Text.trimmed own.value

theorem isDeclaration_of_matches {attr : Attribute} {spec : AttributeSpec}
    (h : d.attributeMatchesBelow p filler attr spec = true) : attr.name.isDeclaration = false := by
  unfold attributeMatchesBelow at h
  split at h
  · cases h
  next hguard => exact (Bool.or_eq_false_iff.mp (Bool.eq_false_iff.mpr hguard)).2

/-- A filler that was put into a slot fills in the macro's copy what the slot fills, exactly when the
slot's attribute can be read at the filler's place and nothing of the filler's own comes before. -/
theorem fills_iff_handsOn (hapart : Apart d root fillers) (hread : d.ReadNames)
    (helements : ∀ entry ∈ fillers, d.isElement entry.2 = true) :
    ∃ replaced, Tracks v d root fillers replaced (fill v d root fillers) ∧
      ∀ r ∈ replaced, ∀ p, d.parent r.slot = some p →
        (fills? v (fill v d root fillers).document r.copy = fills? v d r.slot ↔
          HandsOn v d p r.slot r.filler) := by
  obtain ⟨replaced, hdone⟩ := hapart.advances_fill (v := v)
  have htracks : Tracks v d root fillers replaced (fill v d root fillers) := hdone.tracks
  refine ⟨replaced, htracks, fun r hr p hp => ?_⟩
  have hrefilled := htracks.refilled
  generalize (fill v d root fillers).document = t at hrefilled ⊢
  obtain ⟨element, helement⟩ := Option.isSome_iff_exists.mp
    (helements _ (Keyed.mem_of_lookup (htracks.consumed r hr)))
  replace helement : d.element? r.filler = some element := helement
  obtain ⟨-, hcopy, haround⟩ := hrefilled.grounded_parent hr hp
  have hplaced := (hrefilled.copies r hr).element?_eq p hp
  rw [helement, Option.map_some] at hplaced
  -- The slot's attribute has a name that was read, and is no declaration.
  have hown : ∀ own ∈ d.findAttribute? r.slot v.fillSlot,
      QualifiedName.parse own.name.text = own.name ∧ own.name.isDeclaration = false := by
    intro own hfound
    obtain ⟨raw, hraw⟩ := hread.read r.slot own (List.mem_of_find?_eq_some hfound)
    refine ⟨by rw [hraw, QualifiedName.text_parse], ?_⟩
    have hmatches := List.find?_some hfound
    unfold attributeMatches at hmatches
    split at hmatches
    · cases hmatches
    next hguard => exact (Bool.or_eq_false_iff.mp (Bool.eq_false_iff.mpr hguard)).2
  have hmatches : t.attributeMatches r.copy = d.attributeMatchesBelow p r.filler := by
    apply hcopy.attributeMatches_eq_below
    · rw [(hrefilled.copies r hr).parent_eq, hp]
    · rw [name?, name?, hplaced, helement, Option.map_some, Option.map_some, name_handedOn]
    · funext qualifier
      rw [declared?, declared?, hplaced, helement, Option.bind_some, Option.bind_some]
      apply declared_handedOn fun attr => isDeclaration_of_matches
      intro own hfound
      rw [(hown own hfound).1]
      exact (hown own hfound).2
    · exact haround
  have hfound : t.findAttribute? r.copy v.fillSlot =
      (handedOn (d.findAttribute? r.slot v.fillSlot) (d.attributeMatchesBelow p r.filler · v.fillSlot)
        element).attributes.find? (d.attributeMatchesBelow p r.filler · v.fillSlot) := by
    unfold findAttribute?
    rw [attributes_of_element? hplaced, hmatches, ← findAttribute?]
  rw [find?_handedOn (fun a b hab => by simp only [attributeMatchesBelow, hab])
    fun own hown' => (hown own hown').1] at hfound
  have hattributes : element.attributes = d.attributes r.filler :=
    (attributes_of_element? helement).symm
  unfold fills? HandsOn fillAttributes
  rw [hfound, hattributes]
  cases d.findAttribute? r.slot v.fillSlot with
  | none => simp [foundFirst]
  | some own =>
      cases ((d.attributes r.filler).filter
        (d.attributeMatchesBelow p r.filler · v.fillSlot))[1]? with
      | none => simp [foundFirst]
      | some second => by_cases hname : second.name = own.name <;> simp [foundFirst, hname]

section Examples

/-- A page with an element to fill slots, and the copy of a macro that has the given element as its
slot. -/
def passingPage (slot : Element) : Document where
  nodes := #[
    { kind := .root, children := [1] },
    { kind := .element { name := .parse "r" }, parent := some 0, children := [2] },
    { kind := .element {
        name := .parse "b", attributes := [⟨.parse "metal:fill-slot", "s"⟩] },
      parent := some 1 },
    { kind := .element { name := .parse "m" }, children := [4] },
    { kind := .element slot, parent := some 3 }]

theorem apart_passingPage {slot : Element} (hlinked : (passingPage slot).WellLinked) :
    Apart (passingPage slot) 3 [("s", 2)] := by
  have hfiller : (passingPage slot).Grounded 2 :=
    .of_parent hlinked ⟨0, rfl, .child .refl (List.mem_singleton_self 1)⟩ rfl
  refine ⟨hlinked, by simp [size, passingPage], rfl, ?_⟩
  intro entry hentry
  rw [List.mem_singleton.mp hentry]
  refine ⟨hfiller, fun hbelow => ?_⟩
  rcases hlinked.below_cases hbelow with heq | ⟨p, hp, hbelow⟩
  · cases heq
  · obtain rfl : p = 1 := (Option.some.inj hp).symm
    rcases hlinked.below_cases hbelow with heq | ⟨p, hp, hbelow⟩
    · cases heq
    · obtain rfl : p = 0 := (Option.some.inj hp).symm
      rcases hlinked.below_cases hbelow with heq | ⟨p, hp, -⟩
      · cases heq
      · cases hp

/-- An ordinary slot hands on what it fills. -/
theorem fills_iff_handsOn_ordinary :
    let d := passingPage {
      name := .parse "i"
      attributes := [⟨.parse "metal:define-slot", "s"⟩, ⟨.parse "metal:fill-slot", "outer"⟩] }
    Apart d 3 [("s", 2)] ∧ d.ReadNames ∧ (∀ entry ∈ [("s", 2)], d.isElement entry.2 = true) ∧
      fills? {} (fill {} d 3 [("s", 2)]).document 5 = some "outer" ∧
      ∃ replaced, Tracks {} d 3 [("s", 2)] replaced (fill {} d 3 [("s", 2)]) ∧
        ∀ r ∈ replaced, ∀ p, d.parent r.slot = some p →
          (fills? {} (fill {} d 3 [("s", 2)]).document r.copy = fills? {} d r.slot ↔
            HandsOn {} d p r.slot r.filler) := by
  intro d
  have hlinked : d.WellLinked := by decide +kernel
  have hread : d.ReadNames := by decide +kernel
  have helements : ∀ entry ∈ [("s", 2)], d.isElement entry.2 = true := by decide +kernel
  have hapart : Apart d 3 [("s", 2)] := apart_passingPage hlinked
  exact ⟨hapart, hread, helements, by decide +kernel, fills_iff_handsOn hapart hread helements⟩

/-- A slot that is an element of the macro vocabulary hands on an attribute that says nothing on an
ordinary element. -/
theorem not_fills_unqualified :
    let d := passingPage {
      name := .parse "metal:block"
      attributes := [⟨.parse "define-slot", "s"⟩, ⟨.parse "fill-slot", "outer"⟩] }
    let t := (fill {} d 3 [("s", 2)]).document
    Apart d 3 [("s", 2)] ∧ d.ReadNames ∧ t.children 3 = [5] ∧
      fills? {} d 4 = some "outer" ∧ fills? {} t 5 = none := by
  intro d t
  have hlinked : d.WellLinked := by decide +kernel
  exact ⟨apart_passingPage hlinked, by decide +kernel, by decide +kernel, by decide +kernel,
    by decide +kernel⟩

end Examples

end Slots

end PageTemplate
