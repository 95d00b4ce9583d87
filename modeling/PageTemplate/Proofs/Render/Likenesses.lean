import Mathlib.Data.List.Find
import PageTemplate.Proofs.Markup.CopiedOrder
import PageTemplate.Proofs.Render.MacroTops

/-! # Copies that are like the original

A copy that a rendering keeps of a macro has the tree of the macro. Only its top may differ: there
more qualifiers of the vocabularies may be declared, and the library may be named that the macro
comes from. Inside the copy of a library's macro, what defines further macros is found again under
the same names, provided that the qualifiers which make it do so still refer to the vocabulary.
-/

namespace PageTemplate

open Markup Document

variable {v : Vocabularies} {d t t' : Document} {e c n n' m m' x x' : NodeId}

namespace Markup.Document

/-! ## Mirrors inside of mirrors -/

theorem Counterpart.trans (h : Counterpart d t x x' n n') (h' : Counterpart d t n n' m m') :
    Counterpart d t x x' m m' := by
  induction h' with
  | top => exact h
  | child _ hc hc' ih => exact ih.child hc hc'

theorem Mirrors.below (hmirrors : Mirrors d t x x') (hx : d.Grounded x)
    (hplace : Counterpart d t x x' n n') : Mirrors d t n n' := by
  refine ⟨fun h => hmirrors.length_eq (hplace.trans h), fun {m m'} h hne => ?_⟩
  apply hmirrors.kind_eq (hplace.trans h)
  -- The top is not met again further down.
  rintro rfl
  obtain ⟨top, htop, -, hbelow⟩ := hx.exists_top
  rcases hx.linked.below_cases h.below_left with rfl | ⟨p, hp, hnp⟩
  · exact hne rfl
  · exact hx.linked.not_below_parent htop hbelow hp (hplace.below_left.trans hnp)

end Markup.Document

/-! ## Declarations that are added -/

/-- The attribute declares a qualifier that belongs to one of the vocabularies. -/
def Vocabularies.Declares (v : Vocabularies) (attr : Attribute) : Prop :=
  ∃ key, attr.name = .parse ("xmlns:" ++ key) ∧ v.covers ⟨some key, some attr.value⟩

theorem Vocabularies.covers_of_mem_declarations {entry : String × String}
    (h : entry ∈ v.declarations d n) : v.covers ⟨some entry.1, some entry.2⟩ := by
  obtain ⟨⟨qualifier, uri⟩, -, hentry⟩ := List.mem_filterMap.mp h
  obtain ⟨key, rfl, hcovered⟩ := Option.bind_eq_some_iff.mp hentry
  split at hcovered
  next hcovers =>
    cases hcovered
    exact hcovers
  next => cases hcovered

/-- A declaration is no directive, and what declares nothing because its qualifier is empty has the
name of none. -/
theorem Vocabularies.Declares.not_matches {attr : Attribute} (h : v.Declares attr)
    {spec : AttributeSpec} (hspec : spec.name ≠ "xmlns:") :
    d.attributeMatches n attr spec = false := by
  obtain ⟨key, hname, -⟩ := h
  unfold attributeMatches
  by_cases hkey : key = ""
  · subst hkey
    have hread : QualifiedName.parse ("xmlns:" ++ "") = ⟨none, "xmlns:"⟩ := by decide +kernel
    rw [hname, hread, if_pos]
    simp [hspec.symm]
  · have hdeclares : attr.name.isDeclaration = true := by
      rw [hname, QualifiedName.parse_eq_declaration_iff.mpr ⟨rfl, hkey⟩]
      exact Option.isSome_of_mem (QualifiedName.declares?_eq_some_iff.mpr rfl)
    rw [if_pos]
    simp [hdeclares]

theorem Markup.Element.exists_declareAll (element : Element) (entries : List (String × String)) :
    ∃ added, element.declareAll entries =
        { element with attributes := element.attributes ++ added } ∧
      ∀ attr ∈ added, ∃ entry ∈ entries, attr = ⟨.parse ("xmlns:" ++ entry.1), entry.2⟩ := by
  apply List.foldlRecOn (motive := fun made : Element => ∃ added,
    made = { element with attributes := element.attributes ++ added } ∧
      ∀ attr ∈ added, ∃ entry ∈ entries, attr = ⟨.parse ("xmlns:" ++ entry.1), entry.2⟩)
  · exact ⟨[], by rw [List.append_nil], nofun⟩
  · rintro _ ⟨added, rfl, hadded⟩ entry hentry
    simp only [declare]
    split
    · exact ⟨added, rfl, hadded⟩
    · refine ⟨added ++ [_], by rw [← List.append_assoc], fun attr hattr => ?_⟩
      rcases List.mem_append.mp hattr with hattr | hattr
      · exact hadded attr hattr
      · exact ⟨entry, hentry, List.mem_singleton.mp hattr⟩

/-- The element `c` is the element `e` with further declarations of qualifiers of the vocabularies
behind its attributes. It may name another source. -/
def Redeclared (v : Vocabularies) (d : Document) (e : NodeId) (t : Document) (c : NodeId) : Prop :=
  ∃ element source added, d.element? e = some element ∧
    t.element? c = some
      { element with attributes := element.attributes ++ added, importedFrom := source } ∧
    ∀ attr ∈ added, v.Declares attr

namespace Redeclared

/-- An element of the same kind declares nothing more. -/
theorem of_eq (hsame : t.element? c = d.element? e) (helement : d.isElement e = true) :
    Redeclared v d e t c := by
  obtain ⟨element, he⟩ : ∃ element, d.element? e = some element :=
    Option.isSome_iff_exists.mp helement
  refine ⟨element, element.importedFrom, [], he, ?_, nofun⟩
  rw [hsame, he, List.append_nil]

theorem of_declareAll {element : Element} (source : Option String)
    (he : d.element? e = some element) (hc : t.element? c =
      some (Element.declareAll { element with importedFrom := source } (v.declarations d e))) :
    Redeclared v d e t c := by
  obtain ⟨added, hadded, hentries⟩ :=
    Element.exists_declareAll { element with importedFrom := source } (v.declarations d e)
  refine ⟨element, source, added, he, hc.trans (congrArg some hadded), fun attr hattr => ?_⟩
  obtain ⟨entry, hentry, rfl⟩ := hentries attr hattr
  exact ⟨entry.1, rfl, Vocabularies.covers_of_mem_declarations hentry⟩

theorem congr_right (h : Redeclared v d e t c) (hsame : t'.element? c = t.element? c) :
    Redeclared v d e t' c := by
  obtain ⟨element, source, added, he, hc, hadded⟩ := h
  exact ⟨element, source, added, he, hsame.trans hc, hadded⟩

theorem congr_left (h : Redeclared v d e t c) (hsame : t'.element? e = d.element? e) :
    Redeclared v t' e t c := by
  obtain ⟨element, source, added, he, hc, hadded⟩ := h
  exact ⟨element, source, added, hsame.trans he, hc, hadded⟩

theorem exists_attributes_eq (h : Redeclared v d e t c) :
    ∃ added, t.attributes c = d.attributes e ++ added ∧ ∀ attr ∈ added, v.Declares attr := by
  obtain ⟨element, source, added, he, hc, hadded⟩ := h
  exact ⟨added, by rw [attributes_of_element? hc, attributes_of_element? he], hadded⟩

end Redeclared

/-! ## Likenesses -/

/-- The tree of `c` is the tree of the element `e`, except that its top may declare more qualifiers
of the vocabularies and name another source. -/
structure Likeness (v : Vocabularies) (d : Document) (e : NodeId) (t : Document) (c : NodeId) :
    Prop where
  grounded : t.Grounded c
  mirrors : Mirrors d t e c
  top : Redeclared v d e t c

theorem Likeness.extends (h : Likeness v d e t c) (hext : Extends t t') : Likeness v d e t' c := by
  have hold : ∀ m, t.Below c m → ¬ t.size ≤ m := fun m hm =>
    Nat.not_le_of_lt (h.grounded.linked.below_lt hm h.grounded.lt)
  refine ⟨hext.grounded h.grounded, ?_, h.top.congr_right (hext.element?_old h.grounded.lt)⟩
  exact h.mirrors.congr_right h.grounded.linked h.grounded.rooted
    (fun m hm => hext.children_eq (hold m hm)) fun m hm _ => hext.kind_eq (hold m hm)

/-- What is like an element in a document is like the element that it was before additions. -/
theorem Likeness.of_extends (h : Likeness v t e t' c) (hext : Extends d t) (he : d.Grounded e) :
    Likeness v d e t' c := by
  have hold : ∀ m, t.Below e m → ¬ d.size ≤ m := fun m hm => Nat.not_le_of_lt <|
    he.linked.below_lt ((hext.below_old he.linked he.lt).mp hm) he.lt
  refine ⟨h.grounded, h.mirrors.congr_left fun m hm => ?_, ?_⟩
  · exact ⟨(hext.kind_eq (hold m hm)).symm, (hext.children_eq (hold m hm)).symm⟩
  · exact h.top.congr_left (hext.element?_old he.lt).symm

namespace MacroTable

theorem likeness_copyElement (hground : d.Grounded e) (helement : d.isElement e = true) :
    Likeness v d e (copyElement v d e).1 (copyElement v d e).2 := by
  obtain ⟨element, he⟩ : ∃ element, d.element? e = some element :=
    Option.isSome_iff_exists.mp helement
  have hcopy := macroCopy_copyElement (v := v) hground helement
  refine ⟨⟨hcopy.linked, hcopy.lt, .of_parent hcopy.parent_eq⟩, hcopy.mirrors,
    Redeclared.of_declareAll element.importedFrom he ?_⟩
  rw [element?_copyElement, he, Option.map_some]

/-- A copy of a library's macro, as an importing leaves it. -/
structure Imported (v : Vocabularies) (d : Document) (e : NodeId) (t : Document) (c : NodeId) :
    Prop where
  copy : MacroCopy v d e t c
  top : Redeclared v d e t c

theorem imported_importElement (hlinked : t.WellLinked) (hground : d.Grounded e)
    (helement : d.isElement e = true) :
    Imported v d e (importElement v d t e).1 (importElement v d t e).2 := by
  obtain ⟨element, he⟩ : ∃ element, d.element? e = some element :=
    Option.isSome_iff_exists.mp helement
  refine ⟨macroCopy_importElement hlinked hground helement, ?_⟩
  have htop : (t.graft (d.tree e)).1.element? (t.graft (d.tree e)).2 = some element :=
    (congrArg NodeKind.element? ((kind_graft t (d.tree e)).trans (kind_tree d e))).trans he
  simp only [importElement, importSubtree]
  cases d.sourceName with
  | none =>
      apply Redeclared.of_declareAll element.importedFrom he
      rw [element?_declareMissing, if_pos rfl, htop, Option.map_some]
  | some source =>
      apply Redeclared.of_declareAll (some source) he
      rw [element?_declareMissing, if_pos rfl, element?_updateElement, if_pos rfl, htop]
      rfl

theorem Imported.extends (h : Imported v d e t c) (hext : Extends t t') : Imported v d e t' c :=
  ⟨h.copy.extends hext, h.top.congr_right (hext.element?_old h.copy.lt)⟩

namespace Imported

variable (h : Imported v d e t c) (hground : d.Grounded e) (hplace : Counterpart d t e c n n')

include h

theorem grounded : t.Grounded c := ⟨h.copy.linked, h.copy.lt, .of_parent h.copy.parent_eq⟩

include hground hplace

/-- Below the top the copy is the original, and its top is the original's with more declarations. -/
theorem redeclared (helement : d.isElement n = true) : Redeclared v d n t n' := by
  by_cases hne : n = e
  · subst hne
    obtain rfl := hplace.eq_top_right hground
    exact h.top
  · exact .of_eq (congrArg NodeKind.element? (h.copy.mirrors.kind_eq hplace hne)) helement

theorem likeness (helement : d.isElement n = true) : Likeness v d n t n' :=
  ⟨h.grounded.below hplace.below_right, h.copy.mirrors.below hground hplace,
    h.redeclared hground hplace helement⟩

theorem isElement_eq : t.isElement n' = d.isElement n := by
  by_cases hne : n = e
  · subst hne
    obtain rfl := hplace.eq_top_right hground
    obtain ⟨element, source, added, he, hc, -⟩ := h.top
    show (t.element? n').isSome = (d.element? n).isSome
    rw [he, hc, Option.isSome_some, Option.isSome_some]
  · exact congrArg NodeKind.isElement (h.copy.mirrors.kind_eq hplace hne)

/-- An attribute is found in the copy where it is found in the original, when every attribute of its
local name is taken there for the directive that it was. -/
theorem findAttribute?_eq (helement : d.isElement n = true) {spec : AttributeSpec}
    (hspec : spec.name ≠ "xmlns:")
    (hkeeps : ∀ attr ∈ d.attributes n, attr.name.localName = spec.name →
      t.attributeMatches n' attr spec = d.attributeMatches n attr spec) :
    t.findAttribute? n' spec = d.findAttribute? n spec := by
  obtain ⟨added, hattributes, hadded⟩ :=
    (h.redeclared hground hplace helement).exists_attributes_eq
  have hnone : added.find? (t.attributeMatches n' · spec) = none := by
    apply List.find?_eq_none.mpr
    intro attr hattr
    rw [(hadded attr hattr).not_matches hspec]
    exact Bool.false_ne_true
  unfold findAttribute?
  rw [hattributes, List.find?_append, hnone, Option.or_none]
  apply List.find?_congr
  intro attr hattr
  by_cases hname : attr.name.localName = spec.name
  · exact hkeeps attr hattr hname
  · simp [attributeMatches, hname]

end Imported

end MacroTable

end PageTemplate
