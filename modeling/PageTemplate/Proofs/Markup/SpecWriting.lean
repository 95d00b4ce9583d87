import PageTemplate.Proofs.Ensures
import PageTemplate.Proofs.Markup.AttributeEdits
import PageTemplate.Proofs.Markup.Correspondence

/-! # Setting an attribute by what it means

An attribute is found through what its qualifier stands for. One that is not found is written under
the usual qualifier of its vocabulary, and it is found from then on if that qualifier stands for the
vocabulary at the element. If it stands for something else, what was written is not found again, and
the next time another attribute of the same name is written.
-/

namespace PageTemplate.Markup

/-- The name that the attribute is written under where there is none yet. -/
def AttributeSpec.ownName (spec : AttributeSpec) : QualifiedName :=
  ⟨spec.vocabulary.qualifier, spec.name⟩

namespace Attribute

variable {picks : QualifiedName → Bool} {name other : QualifiedName} {value again : String}
  {attr : Attribute} {attributes : List Attribute}

/-- The first attribute with a name that is picked. -/
def picked? (picks : QualifiedName → Bool) (attributes : List Attribute) : Option Attribute :=
  attributes.find? (picks ·.name)

/-- The first attribute with a name that is picked gets the value. When there is none, an attribute
of the given name is added behind the others. -/
def assign (picks : QualifiedName → Bool) (name : QualifiedName) (value : String) :
    List Attribute → List Attribute
  | [] => [⟨name, value⟩]
  | attr :: rest =>
    if picks attr.name then { attr with value } :: rest else attr :: assign picks name value rest

/-- The attribute that gets the value. -/
def assigned (picks : QualifiedName → Bool) (name : QualifiedName) (value : String)
    (attributes : List Attribute) : Attribute :=
  (picked? picks attributes).elim ⟨name, value⟩ fun attr => { attr with value }

theorem picked?_cons_of_pos (h : picks attr.name = true) :
    picked? picks (attr :: attributes) = some attr :=
  List.find?_cons_of_pos h

theorem picked?_cons_of_neg (h : ¬ picks attr.name = true) :
    picked? picks (attr :: attributes) = picked? picks attributes :=
  List.find?_cons_of_neg h

theorem picks_of_picked? (h : picked? picks attributes = some attr) : picks attr.name = true :=
  List.find?_some (p := fun attr : Attribute => picks attr.name) h

theorem picked?_eq_none_iff :
    picked? picks attributes = none ↔ ∀ name ∈ attributes.map (·.name), picks name = false := by
  simp [picked?]

theorem assign_eq_modify (attributes : List Attribute) :
    assign picks name value attributes =
      match attributes.findIdx? (picks ·.name) with
      | some index => attributes.modify index fun attr => { attr with value }
      | none => attributes ++ [⟨name, value⟩] := by
  induction attributes with
  | nil => rfl
  | cons attr rest ih =>
      rw [assign, List.findIdx?_cons]
      by_cases hattr : picks attr.name = true
      · simp [hattr]
      · rw [if_neg hattr, if_neg hattr, ih]
        cases rest.findIdx? (picks ·.name) <;> rfl

theorem assign_of_none (h : picked? picks attributes = none) :
    assign picks name value attributes = attributes ++ [⟨name, value⟩] := by
  have hindex : attributes.findIdx? (picks ·.name) = none := by
    simpa [picked?, List.findIdx?_eq_none_iff] using h
  rw [assign_eq_modify, hindex]

/-- The other attributes stay as they are, and where they are. -/
theorem exists_assign_eq (picks : QualifiedName → Bool) (name : QualifiedName) (value : String)
    (attributes : List Attribute) :
    ∃ front back, attributes = front ++ (picked? picks attributes).toList ++ back ∧
      assign picks name value attributes =
        front ++ assigned picks name value attributes :: back ∧
      (picked? picks attributes = none → back = []) := by
  induction attributes with
  | nil => exact ⟨[], [], rfl, rfl, fun _ => rfl⟩
  | cons attr rest ih =>
      rw [assign, assigned]
      by_cases hattr : picks attr.name = true
      · rw [if_pos hattr, picked?_cons_of_pos hattr]
        exact ⟨[], rest, rfl, rfl, nofun⟩
      · obtain ⟨front, back, hold, hnew, hback⟩ := ih
        rw [if_neg hattr, picked?_cons_of_neg hattr, hnew]
        exact ⟨attr :: front, back, congrArg (attr :: ·) hold, rfl, hback⟩

theorem map_name_assign (attributes : List Attribute) :
    (assign picks name value attributes).map (·.name) =
      attributes.map (·.name) ++ if (picked? picks attributes).isSome then [] else [name] := by
  induction attributes with
  | nil => rfl
  | cons attr rest ih =>
      rw [assign]
      by_cases hattr : picks attr.name = true
      · rw [if_pos hattr, picked?_cons_of_pos hattr]
        simp
      · rw [if_neg hattr, picked?_cons_of_neg hattr, List.map_cons, ih]
        rfl

/-- What has a name that is not picked is found as before, unless an attribute of this very name is
added. -/
theorem picked?_assign_of_not_picked (hother : picks other = false)
    (hname : (picked? picks attributes).isSome ∨ name ≠ other) :
    picked? (· = other) (assign picks name value attributes) = picked? (· = other) attributes := by
  induction attributes with
  | nil => simpa [assign, picked?] using hname
  | cons attr rest ih =>
      rw [assign]
      by_cases hattr : picks attr.name = true
      · have hne : attr.name ≠ other := by
          rintro rfl
          exact Bool.false_ne_true (hother.symm.trans hattr)
        rw [if_pos hattr, picked?_cons_of_neg (by simpa using hne),
          picked?_cons_of_neg (by simpa using hne)]
      · rw [picked?_cons_of_neg hattr] at hname
        rw [if_neg hattr]
        unfold picked? at ih ⊢
        rw [List.find?_cons, List.find?_cons, ih hname]

section

variable (h : (picked? picks attributes).isSome ∨ picks name = true)

include h

/-- What is picked afterwards is the attribute that got the value. -/
theorem picked?_assign :
    picked? picks (assign picks name value attributes) =
      some (assigned picks name value attributes) := by
  induction attributes with
  | nil => simpa [assign, assigned, picked?] using h
  | cons attr rest ih =>
      rw [assign, assigned]
      by_cases hattr : picks attr.name = true
      · rw [if_pos hattr, picked?_cons_of_pos hattr]
        exact picked?_cons_of_pos hattr
      · rw [picked?_cons_of_neg hattr] at h
        rw [if_neg hattr, picked?_cons_of_neg hattr, picked?_cons_of_neg hattr, ih h, assigned]

/-- The attribute that got a value gets the next one too. -/
theorem assign_assign :
    assign picks name again (assign picks name value attributes) =
      assign picks name again attributes := by
  induction attributes with
  | nil => simpa [assign, picked?] using h
  | cons attr rest ih =>
      by_cases hattr : picks attr.name = true
      · simp [assign, hattr]
      · rw [picked?_cons_of_neg hattr] at h
        simp only [assign, if_neg hattr, ih h]

end

end Attribute

namespace Document

open Attribute

variable {d : Document} {x n : NodeId} {spec : AttributeSpec} {value : String}
  {attributes attributes' : List Attribute}

/-! ## Other attributes for an element -/

/-- The document with other attributes at an element. -/
def withAttributes (d : Document) (x : NodeId) (attributes : List Attribute) : Document :=
  d.updateElement x fun element => { element with attributes }

theorem update_update (d : Document) (x : NodeId) (first second : Node → Node) :
    (d.update x first).update x second = d.update x (second ∘ first) := by
  unfold update
  congr 1
  apply Array.ext (by simp)
  intro i hi hi'
  by_cases hx : x = i <;> simp [Array.getElem_modify, hx]

theorem update_congr {first second : Node → Node} (h : first (d.node x) = second (d.node x)) :
    d.update x first = d.update x second := by
  unfold update
  congr 1
  apply Array.ext (by simp)
  intro i hi hi'
  have hlt : i < d.nodes.size := by simpa using hi
  simp only [Array.getElem_modify]
  split
  next heq =>
    subst heq
    simpa [node, hlt] using h
  next => rfl

@[simp] theorem withAttributes_withAttributes :
    (d.withAttributes x attributes).withAttributes x attributes' =
      d.withAttributes x attributes' := by
  unfold withAttributes updateElement
  rw [update_update]
  congr 1
  funext node
  obtain ⟨kind, parent, children⟩ := node
  cases kind <;> rfl

theorem updateElement_eq_withAttributes (change : List Attribute → List Attribute) :
    (d.updateElement x fun element =>
      { element with attributes := change element.attributes }) =
      d.withAttributes x (change (d.attributes x)) := by
  apply update_congr
  unfold attributes element? kind
  cases (d.node x).kind <;> rfl

theorem attributes_withAttributes (hx : d.isElement x = true) :
    (d.withAttributes x attributes).attributes x = attributes := by
  obtain ⟨element, helement⟩ := Option.isSome_iff_exists.mp hx
  have hchanged := d.element?_updateElement x x fun element => { element with attributes }
  rw [if_pos rfl, show d.element? x = some element from helement] at hchanged
  exact attributes_of_element? hchanged

theorem name?_withAttributes : (d.withAttributes x attributes).name? n = d.name? n := by
  unfold name? withAttributes
  rw [element?_updateElement]
  split
  next heq => rw [heq, Option.map_map, Function.comp_def]
  next => rfl

/-! ## What a name means at an element -/

/-- An attribute of this name at the element is the one that the spec names. -/
def means (d : Document) (x : NodeId) (spec : AttributeSpec) (name : QualifiedName) : Bool :=
  d.attributeMatches x ⟨name, ""⟩ spec

theorem findAttribute?_eq_picked? :
    d.findAttribute? x spec = picked? (d.means x spec) (d.attributes x) := rfl

/-- A declaration is never meant. -/
theorem isDeclaration_of_means {name : QualifiedName} (h : d.means x spec name = true) :
    name.isDeclaration = false := by
  unfold means attributeMatches at h
  split at h
  · cases h
  next hnot => exact (show name.localName = spec.name ∧ _ by simpa using hnot).2

/-- The usual qualifier of a vocabulary means the vocabulary at a node: it is not declared there, or
it is declared as the URI of the vocabulary. A vocabulary without a qualifier is meant where the
element itself belongs to it. -/
def QualifierFits (d : Document) (x : NodeId) (vocabulary : Namespace) : Prop :=
  match vocabulary.qualifier with
  | some qualifier =>
    ∀ uri ∈ d.lookupNamespace x (some qualifier), ∀ own ∈ vocabulary.uri, uri = own
  | none => d.inNamespace x vocabulary = true

theorem means_ownName_iff :
    d.means x spec spec.ownName = true ↔
      spec.ownName.isDeclaration = false ∧ d.QualifierFits x spec.vocabulary := by
  obtain ⟨⟨qualifier, uri⟩, name⟩ := spec
  unfold means attributeMatches AttributeSpec.ownName QualifierFits
  cases hdeclaration : QualifiedName.isDeclaration ⟨qualifier, name⟩ with
  | true => simp
  | false =>
      cases qualifier with
      | none => simp
      | some qualifier =>
          cases hlookup : d.lookupNamespace x (some qualifier) <;> cases uri <;>
            simp [namespaceOf, Namespace.agrees, hlookup]

section

variable (h : ∀ qualifier, picked? (· = QualifiedName.declaration qualifier) attributes =
  picked? (· = QualifiedName.declaration qualifier) (d.attributes x))

include h

theorem scoped_withAttributes : Scoped Eq d (d.withAttributes x attributes) := by
  refine ⟨?_, ?_, ?_⟩
  · rintro n _ rfl
    exact name?_withAttributes
  · rintro n _ rfl
    funext qualifier
    unfold declared? withAttributes
    rw [element?_updateElement]
    split
    next heq =>
      subst heq
      cases helement : d.element? n with
      | none => rfl
      | some element =>
          have hsame := h qualifier
          rw [attributes_of_element? helement] at hsame
          exact congrArg (Option.map (·.value)) hsame
    next => rfl
  · rintro n _ rfl
    unfold withAttributes
    rw [parent_updateElement]
    cases d.parent n with
    | none => exact .none
    | some p => exact .some rfl

/-- Attributes that declare the same leave the meaning of names as it is. -/
theorem means_withAttributes : (d.withAttributes x attributes).means x spec = d.means x spec := by
  have hscoped := scoped_withAttributes h
  have hway : List.Forall₂ Eq (d.ancestry x) ((d.withAttributes x attributes).ancestry x) := by
    have hsize : (d.withAttributes x attributes).size = d.size := size_updateElement ..
    unfold ancestry
    rw [hsize]
    exact hscoped.lineage rfl d.size
  have hlookup := hscoped.lookupNamespace_of_ancestry hway
  funext name
  unfold means
  rw [attributeMatches_of_lookup hlookup name?_withAttributes]

end

/-! ## Setting -/

/-- The document after an attribute of an element was set by what it means. -/
def setBySpec (d : Document) (x : NodeId) (spec : AttributeSpec) (value : String) : Document :=
  d.withAttributes x (assign (d.means x spec) spec.ownName value (d.attributes x))

theorem outcome_setAttributeBySpec (d : Document) (x : NodeId) (spec : AttributeSpec)
    (value : String) :
    outcome (setAttributeBySpec x spec value) d =
      if d.isElement x then (.ok (), d.setBySpec x spec value)
      else (.error (.notAnElement x), d) := by
  unfold setAttributeBySpec setBySpec
  rw [outcome_bind_ok (outcome_get d), assign_eq_modify]
  change outcome (match (d.attributes x).findIdx? (d.means x spec ·.name) with
    | some index => _
    | none => _) d = _
  cases hindex : (d.attributes x).findIdx? (d.means x spec ·.name) with
  | none =>
      dsimp only
      split
      · exact congrArg (Prod.mk _) (updateElement_eq_withAttributes (· ++ _))
      · rfl
  | some index =>
      have hx : d.isElement x = true := by
        by_contra hno
        have hnone : d.element? x = none := Option.not_isSome_iff_eq_none.mp hno
        simp [Document.attributes, hnone] at hindex
      dsimp only
      rw [if_pos hx]
      exact congrArg (Prod.mk _) (updateElement_eq_withAttributes (·.modify index _))

/-- What is set by spec is found again: it was there before, or the usual qualifier of the
vocabulary means the vocabulary at the element, so that a new attribute is one that the spec
names. -/
def FoundAgain (d : Document) (x : NodeId) (spec : AttributeSpec) : Prop :=
  d.hasAttribute x spec = true ∨
    spec.ownName.isDeclaration = false ∧ d.QualifierFits x spec.vocabulary

/-- The attribute that setting by spec leaves: the one that was found with its new value, or a new
one under the usual qualifier. -/
def written (d : Document) (x : NodeId) (spec : AttributeSpec) (value : String) : Attribute :=
  (d.findAttribute? x spec).elim ⟨spec.ownName, value⟩ fun attr => { attr with value }

def attributeNames (d : Document) (x : NodeId) : List QualifiedName :=
  (d.attributes x).map (·.name)

theorem foundAgain_iff : d.FoundAgain x spec ↔
    d.hasAttribute x spec = true ∨ d.means x spec spec.ownName = true := by
  unfold FoundAgain
  rw [means_ownName_iff]

theorem FoundAgain.picked (h : d.FoundAgain x spec) :
    (picked? (d.means x spec) (d.attributes x)).isSome ∨ d.means x spec spec.ownName = true :=
  foundAgain_iff.mp h

theorem FoundAgain.has_or_new (h : d.FoundAgain x spec) :
    d.hasAttribute x spec = true ∨ spec.ownName ∉ d.attributeNames x := by
  by_cases hhas : d.hasAttribute x spec = true
  · exact .inl hhas
  have hmeans := (or_iff_right hhas).mp (foundAgain_iff.mp h)
  have hnone : picked? (d.means x spec) (d.attributes x) = none :=
    Option.not_isSome_iff_eq_none.mp hhas
  refine .inr fun hmem => ?_
  exact Bool.false_ne_true ((picked?_eq_none_iff.mp hnone _ hmem).symm.trans hmeans)

/-- Unless a declaration is added, setting leaves the meaning of names as it is. -/
theorem means_setBySpec
    (h : d.hasAttribute x spec = true ∨ spec.ownName.isDeclaration = false) :
    (d.setBySpec x spec value).means x spec = d.means x spec := by
  apply means_withAttributes
  intro qualifier
  have hdeclaration : (QualifiedName.declaration qualifier).isDeclaration = true := by
    rw [QualifiedName.isDeclaration, QualifiedName.declares?_eq_some_iff.mpr rfl,
      Option.isSome_some]
  apply picked?_assign_of_not_picked
  · refine Bool.eq_false_iff.mpr fun hmeans => ?_
    rw [isDeclaration_of_means hmeans] at hdeclaration
    cases hdeclaration
  · refine h.imp_right fun hno heq => ?_
    rw [heq, hdeclaration] at hno
    cases hno

theorem FoundAgain.means_setBySpec (h : d.FoundAgain x spec) :
    (d.setBySpec x spec value).means x spec = d.means x spec :=
  Document.means_setBySpec (h.imp_right And.left)

section

variable (hx : d.isElement x = true)

include hx

theorem attributes_setBySpec : (d.setBySpec x spec value).attributes x =
    assign (d.means x spec) spec.ownName value (d.attributes x) :=
  attributes_withAttributes hx

theorem isElement_setBySpec : (d.setBySpec x spec value).isElement x = true :=
  (isElement_updateElement _ d x x).trans hx

theorem nodup_setBySpec :
    ((d.setBySpec x spec value).attributeNames x).Nodup ↔ (d.attributeNames x).Nodup ∧
      (d.hasAttribute x spec = true ∨ spec.ownName ∉ d.attributeNames x) := by
  unfold attributeNames
  rw [attributes_setBySpec hx, map_name_assign]
  change (_ ++ if d.hasAttribute x spec = true then [] else [spec.ownName]).Nodup ↔ _
  split
  next hhas => simp [hhas]
  next hnot => rw [← List.concat_eq_append, List.nodup_concat, or_iff_right hnot, and_comm]

/-- Setting a second time is setting from what the first time left. -/
theorem setBySpec_setBySpec {again : String}
    (hmeans : (d.setBySpec x spec value).means x spec = d.means x spec) :
    (d.setBySpec x spec value).setBySpec x spec again = d.withAttributes x
      (assign (d.means x spec) spec.ownName again
        (assign (d.means x spec) spec.ownName value (d.attributes x))) := by
  conv_lhs => rw [setBySpec, hmeans, attributes_setBySpec hx, setBySpec]
  rw [withAttributes_withAttributes]

/-- What is found after setting is the attribute that got the value exactly if it was found before
or the usual qualifier means the vocabulary. -/
theorem findAttribute?_setBySpec_iff :
    (d.setBySpec x spec value).findAttribute? x spec = some (d.written x spec value) ↔
      d.FoundAgain x spec := by
  constructor
  · intro hfound
    have hmeans : (d.setBySpec x spec value).means x spec (d.written x spec value).name = true :=
      picks_of_picked? hfound
    by_cases hhas : d.hasAttribute x spec = true
    · exact .inl hhas
    have hname : (d.written x spec value).name = spec.ownName := by
      rw [written, show d.findAttribute? x spec = none from Option.not_isSome_iff_eq_none.mp hhas,
        Option.elim_none]
    rw [hname] at hmeans
    rw [means_setBySpec (.inr (isDeclaration_of_means hmeans))] at hmeans
    exact foundAgain_iff.mpr (.inr hmeans)
  · intro h
    rw [findAttribute?_eq_picked?, h.means_setBySpec, attributes_setBySpec hx]
    exact picked?_assign h.picked

/-- What is found again is set over. -/
theorem FoundAgain.setBySpec_setBySpec {again : String} (h : d.FoundAgain x spec) :
    (d.setBySpec x spec value).setBySpec x spec again = d.setBySpec x spec again := by
  rw [Document.setBySpec_setBySpec hx h.means_setBySpec, assign_assign h.picked]
  rfl

section

variable (h : ¬ d.FoundAgain x spec) (hname : spec.ownName.isDeclaration = false)

include h

omit hx in
theorem picked?_of_not_foundAgain : picked? (d.means x spec) (d.attributes x) = none :=
  Option.not_isSome_iff_eq_none.mp (mt .inl h)

omit hx in
theorem picked?_append_of_not_foundAgain :
    picked? (d.means x spec) (d.attributes x ++ [⟨spec.ownName, value⟩]) = none := by
  rw [picked?_eq_none_iff, List.map_append]
  refine List.forall_mem_append.mpr ⟨picked?_eq_none_iff.mp (picked?_of_not_foundAgain h), ?_⟩
  simpa using Bool.eq_false_iff.mpr (mt (foundAgain_iff.mpr ∘ .inr) h)

include hname

/-- An attribute that is not meant is not found after it was set. -/
theorem findAttribute?_setBySpec_of_not_foundAgain :
    (d.setBySpec x spec value).findAttribute? x spec = none := by
  rw [findAttribute?_eq_picked?, means_setBySpec (.inr hname), attributes_setBySpec hx,
    assign_of_none (picked?_of_not_foundAgain h), picked?_append_of_not_foundAgain h]

/-- Then setting again adds another attribute of the name. -/
theorem setBySpec_setBySpec_of_not_foundAgain {again : String} :
    (d.setBySpec x spec value).setBySpec x spec again = d.withAttributes x
      (d.attributes x ++ [⟨spec.ownName, value⟩, ⟨spec.ownName, again⟩]) := by
  rw [setBySpec_setBySpec hx (means_setBySpec (.inr hname)),
    assign_of_none (picked?_of_not_foundAgain h),
    assign_of_none (picked?_append_of_not_foundAgain h), List.append_assoc]
  rfl

end

end

/-- Setting by spec succeeds at every element and nowhere else. It gives one attribute the value,
which keeps its name, or adds one behind the others, and leaves everything else as it is. What is
found from then on is this attribute exactly if one was found before or the usual qualifier means
the vocabulary at the element. In that case names that were distinct stay distinct, and to set again
is the same as to set only then. Otherwise the new name is there twice if it was there before, and
unless it is that of a declaration nothing is found, and to set again adds one more attribute of the
name. -/
theorem found_after_setting (d : Document) (x : NodeId) (spec : AttributeSpec) (value : String) :
    (d.isElement x = false →
      outcome (setAttributeBySpec x spec value) d = (.error (.notAnElement x), d)) ∧
    (d.isElement x = true → ∃ d' front back,
      outcome (setAttributeBySpec x spec value) d = (.ok (), d') ∧
      d.attributes x = front ++ (d.findAttribute? x spec).toList ++ back ∧
      d' = d.withAttributes x (front ++ d.written x spec value :: back) ∧
      (d.findAttribute? x spec = none → back = []) ∧
      (d'.findAttribute? x spec = some (d.written x spec value) ↔ d.FoundAgain x spec) ∧
      (d.FoundAgain x spec →
        ((d'.attributeNames x).Nodup ↔ (d.attributeNames x).Nodup) ∧
        ∀ again, outcome (setAttributeBySpec x spec again) d' =
          outcome (setAttributeBySpec x spec again) d) ∧
      (¬ d.FoundAgain x spec →
        ((d'.attributeNames x).Nodup ↔
          (d.attributeNames x).Nodup ∧ spec.ownName ∉ d.attributeNames x) ∧
        (spec.ownName.isDeclaration = false → d'.findAttribute? x spec = none ∧
          ∀ again, outcome (setAttributeBySpec x spec again) d' =
            (.ok (), d.withAttributes x
              (d.attributes x ++ [⟨spec.ownName, value⟩, ⟨spec.ownName, again⟩]))))) := by
  refine ⟨fun hx => ?_, fun hx => ?_⟩
  · rw [outcome_setAttributeBySpec, if_neg (Bool.eq_false_iff.mp hx)]
  obtain ⟨front, back, hold, hnew, hback⟩ :=
    exists_assign_eq (d.means x spec) spec.ownName value (d.attributes x)
  have hset : ∀ again, outcome (setAttributeBySpec x spec again) d =
      (.ok (), d.setBySpec x spec again) := fun again => by
    rw [outcome_setAttributeBySpec, if_pos hx]
  have hagain : ∀ again, outcome (setAttributeBySpec x spec again) (d.setBySpec x spec value) =
      (.ok (), (d.setBySpec x spec value).setBySpec x spec again) := fun again => by
    rw [outcome_setAttributeBySpec, if_pos (isElement_setBySpec hx)]
  refine ⟨d.setBySpec x spec value, front, back, hset value, hold, ?_, hback,
    findAttribute?_setBySpec_iff hx, fun h => ⟨?_, fun again => ?_⟩,
    fun h => ⟨?_, fun hname => ⟨?_, fun again => ?_⟩⟩⟩
  · rw [setBySpec, hnew]
    rfl
  · rw [nodup_setBySpec hx, and_iff_left h.has_or_new]
  · rw [hagain, hset, h.setBySpec_setBySpec hx]
  · rw [nodup_setBySpec hx, or_iff_right (mt .inl h)]
  · exact findAttribute?_setBySpec_of_not_foundAgain hx h hname
  · rw [hagain, setBySpec_setBySpec_of_not_foundAgain hx h hname]

/-- An element without attributes. -/
def barePage : Document where
  nodes := #[{ children := [1] }, { kind := .element (.named "p"), parent := some 0 }]

/-- On an element without declarations, `tal:content` is found after it was set, and set again. -/
theorem found_after_setting_bare :
    let d := barePage
    let spec : AttributeSpec := ⟨.tal, "content"⟩
    d.isElement 1 = true ∧ d.FoundAgain 1 spec ∧
      ∃ d', outcome (setAttributeBySpec 1 spec "here/a") d = (.ok (), d') ∧
        d'.findAttribute? 1 spec = some ⟨⟨some "tal", "content"⟩, "here/a"⟩ ∧
        outcome (setAttributeBySpec 1 spec "here/b") d' =
          outcome (setAttributeBySpec 1 spec "here/b") d := by
  intro d spec
  have hagain : d.FoundAgain 1 spec := by
    refine .inr ⟨by decide, fun uri huri => ?_⟩
    have hnone : d.lookupNamespace 1 (some "tal") = none := by decide +kernel
    rw [hnone] at huri
    cases huri
  obtain ⟨d', -, -, hset, -, -, -, hfound, htwice, -⟩ :=
    (found_after_setting d 1 spec "here/a").2 (by decide)
  exact ⟨by decide, hagain, d', hset, hfound.mpr hagain, (htwice hagain).2 "here/b"⟩

/-- An element on which `t` stands for the vocabulary and `tal` for something else. -/
def reboundPage : Document where
  nodes := #[{ children := [1] },
    { kind := .element {
        name := .parse "r"
        attributes := [⟨.parse "xmlns:t", "http://xml.zope.org/namespaces/tal"⟩,
          ⟨.parse "xmlns:tal", "urn:other"⟩] },
      parent := some 0 }]

/-- There, the attribute that was set is not found, and setting it again leaves two of it. -/
theorem not_found_after_setting_rebound :
    let d := reboundPage
    let spec : AttributeSpec := ⟨.tal, "content"⟩
    ∃ d' d'', outcome (setAttributeBySpec 1 spec "x") d = (.ok (), d') ∧
      d'.findAttribute? 1 spec = none ∧
      outcome (setAttributeBySpec 1 spec "y") d' = (.ok (), d'') ∧
      (d.attributeNames 1).Nodup ∧ ¬ (d''.attributeNames 1).Nodup :=
  ⟨_, _, rfl, by decide +kernel, rfl, by decide +kernel, by decide +kernel⟩

end Document

end PageTemplate.Markup
