import PageTemplate.Proofs.Markup.AttributeEdits
import PageTemplate.Proofs.Markup.OmittedScope
import PageTemplate.Proofs.Markup.Preorder
import PageTemplate.Proofs.Render.CleaningUp

/-! # Nothing of the vocabularies is left

What is to go is found by what names stand for before anything goes. A name that stays stands for
something else than a vocabulary, by a declaration that stays where it is: the declarations of the
vocabularies go, and so do those on the elements of the vocabularies. So after cleaning up no name
belongs to a vocabulary, and there is nothing left to do.
-/

namespace PageTemplate

open Markup Document

namespace Markup

variable {d : Document} {n : NodeId} {qualifier : Option String} {uri : String}

/-- The attributes have names that reading gives, and on one element no two have the same. -/
structure Document.ReadNames (d : Document) : Prop where
  read : ∀ n, ∀ attr ∈ d.attributes n, ∃ raw, attr.name = QualifiedName.parse raw
  nodup : ∀ n, ((d.attributes n).map (·.name)).Nodup

theorem Document.readNames_iff : d.ReadNames ↔ ∀ n < d.size,
    (∀ attr ∈ d.attributes n, QualifiedName.parse attr.name.text = attr.name) ∧
      ((d.attributes n).map (·.name)).Nodup := by
  constructor
  · intro h n _
    refine ⟨fun attr hattr => ?_, h.nodup n⟩
    obtain ⟨raw, hraw⟩ := h.read n attr hattr
    rw [hraw, QualifiedName.text_parse]
  · intro h
    have hall : ∀ n, (∀ attr ∈ d.attributes n, ∃ raw, attr.name = QualifiedName.parse raw) ∧
        ((d.attributes n).map (·.name)).Nodup := by
      intro n
      by_cases hn : n < d.size
      · refine ⟨fun attr hattr => ⟨attr.name.text, ?_⟩, (h n hn).2⟩
        rw [(h n hn).1 attr hattr]
      · simp [attributes_of_size_le (Nat.le_of_not_lt hn)]
    exact ⟨fun n => (hall n).1, fun n => (hall n).2⟩

instance : Decidable d.ReadNames := decidable_of_iff _ Document.readNames_iff.symm

/-- The element with those of its attributes that `p` holds of. -/
def Element.keep (p : Attribute → Bool) (element : Element) : Element :=
  { element with attributes := element.attributes.filter p }

theorem Element.keep_keep (p q : Attribute → Bool) (element : Element) :
    (element.keep p).keep q = element.keep fun attr => p attr && q attr := by
  simp [Element.keep, List.filter_filter, Bool.and_comm]

theorem Element.keep_congr {p q : Attribute → Bool} {element : Element}
    (h : ∀ attr ∈ element.attributes, p attr = q attr) : element.keep p = element.keep q := by
  simp [Element.keep, List.filter_congr h]

/-- Where no name is given twice, the attribute of a name is found. -/
theorem Element.attribute?_eq_some_iff {element : Element}
    (hnodup : (element.attributes.map (·.name)).Nodup) {name : QualifiedName} {value : String} :
    element.attribute? name = some value ↔ ⟨name, value⟩ ∈ element.attributes := by
  unfold Element.attribute?
  constructor
  · intro h
    obtain ⟨attr, hfound, rfl⟩ := Option.map_eq_some_iff.mp h
    obtain rfl : attr.name = name := by simpa using List.find?_some hfound
    exact List.mem_of_find?_eq_some hfound
  · intro hmem
    cases hfound : element.attributes.find? (·.name = name) with
    | none =>
        rw [List.find?_eq_none] at hfound
        simpa using hfound _ hmem
    | some attr =>
        have hname : attr.name = name := by simpa using List.find?_some hfound
        have heq := List.inj_on_of_nodup_map hnodup (List.mem_of_find?_eq_some hfound) hmem hname
        rw [heq, Option.map_some]

theorem Element.attribute?_keep_eq_some_iff {element : Element}
    (hnodup : (element.attributes.map (·.name)).Nodup) {p : Attribute → Bool}
    {name : QualifiedName} {value : String} :
    (element.keep p).attribute? name = some value ↔
      element.attribute? name = some value ∧ p ⟨name, value⟩ = true := by
  rw [attribute?_eq_some_iff (hnodup.sublist (List.filter_sublist.map _)),
    attribute?_eq_some_iff hnodup]
  simp [Element.keep]

theorem Document.declared?_eq_some_iff (hnodup : ((d.attributes n).map (·.name)).Nodup) :
    d.declared? n qualifier = some uri ↔
      ⟨QualifiedName.declaration qualifier, uri⟩ ∈ d.attributes n := by
  unfold declared? attributes at *
  cases helement : d.element? n with
  | none => simp
  | some element =>
      rw [helement] at hnodup
      exact Element.attribute?_eq_some_iff hnodup

theorem Document.mem_declarations_iff :
    (qualifier, uri) ∈ d.declarations n ↔
      ⟨QualifiedName.declaration qualifier, uri⟩ ∈ d.attributes n := by
  unfold Document.declarations
  simp only [List.mem_filterMap, Option.map_eq_some_iff, Prod.mk.injEq]
  constructor
  · rintro ⟨⟨name, _⟩, hmem, declared, hdeclares, rfl, rfl⟩
    exact QualifiedName.declares?_eq_some_iff.mp hdeclares ▸ hmem
  · intro hmem
    exact ⟨_, hmem, qualifier, QualifiedName.declares?_eq_some_iff.mpr rfl, rfl, rfl⟩

end Markup

namespace Cleanup

variable {v : Vocabularies} {d t : Document} {n m x : NodeId} {qualifier : Option String}
  {attr : Attribute} {uri : String}

/-! ## What is a directive -/

theorem isDirectiveElement_iff :
    isDirectiveElement v d n = true ↔
      ∃ element, d.element? n = some element ∧
        v.covers (d.namespaceOf n element.name.qualifier) = true := by
  unfold isDirectiveElement inNamespace elementNamespace? Vocabularies.covers
  cases d.element? n <;> simp

/-- The declaration of a qualifier is a directive when it declares a vocabulary. The declaration of
the default namespace never is. -/
theorem isDirective_declaration (hname : attr.name = QualifiedName.declaration qualifier) :
    isDirective v d n attr =
      (qualifier.isSome && v.covers ⟨qualifier, some attr.value⟩) := by
  unfold isDirective attributeInNamespace Vocabularies.covers
  cases qualifier <;>
    simp [hname, QualifiedName.declaration, QualifiedName.isDeclaration, QualifiedName.declares?]

/-- Any other attribute is a directive when its qualifier stands for a vocabulary, or when it has
none and the element is one of a vocabulary. -/
theorem isDirective_of_not_isDeclaration (hname : attr.name.isDeclaration = false) :
    isDirective v d n attr = match attr.name.qualifier with
      | some qualifier => v.covers (d.namespaceOf n (some qualifier))
      | none => isDirectiveElement v d n := by
  unfold isDirective attributeInNamespace isDirectiveElement Vocabularies.covers
  cases hqualifier : attr.name.qualifier with
  | none => simp [hname]
  | some qualifier =>
      have hne : qualifier ≠ "xmlns" := by
        rintro rfl
        simp [QualifiedName.isDeclaration, QualifiedName.declares?, hqualifier] at hname
      simp [hne]

/-- An attribute that is looked for in a vocabulary is a directive. -/
theorem isDirective_of_attributeMatches {spec : AttributeSpec}
    (hspec : spec.vocabulary = v.tal ∨ spec.vocabulary = v.metal)
    (hmatches : d.attributeMatches n attr spec = true) : isDirective v d n attr = true := by
  unfold attributeMatches at hmatches
  split at hmatches
  next => cases hmatches
  next hname =>
    simp only [Bool.or_eq_true, decide_eq_true_eq, not_or, Bool.not_eq_true] at hname
    rw [isDirective_of_not_isDeclaration hname.2]
    unfold isDirectiveElement Vocabularies.covers
    cases hqualifier : attr.name.qualifier
    all_goals
      simp only [hqualifier] at hmatches ⊢
      rcases hspec with hspec | hspec <;> simp [← hspec, hmatches]

/-! ## Removing attributes -/

theorem element?_removeNames {d : Document} (hnodup : ((d.attributes x).map (·.name)).Nodup)
    (names : List String) :
    (removeNames d x names).element? n =
      if n = x then (d.element? x).map (·.keep (·.name ∉ names.map QualifiedName.parse))
      else d.element? n := by
  induction names generalizing d with
  | nil => by_cases hn : n = x <;> simp [removeNames, Element.keep, hn]
  | cons name names ih =>
      have hfirst : ∀ m, (d.removeAttribute x name).1.element? m =
          if m = x then (d.element? x).map (·.keep (·.name ≠ QualifiedName.parse name))
          else d.element? m := by
        intro m
        rw [element?_removeAttribute]
        cases hx : d.element? x with
        | none => rfl
        | some element =>
            rw [attributes_of_element? hx] at hnodup
            rw [Option.map_some, Option.map_some, eraseP_eq_filter hnodup]
            rfl
      have hrest : (((d.removeAttribute x name).1.attributes x).map (·.name)).Nodup := by
        unfold attributes at hnodup ⊢
        rw [hfirst, if_pos rfl]
        cases hx : d.element? x with
        | none => exact List.nodup_nil
        | some element =>
            rw [hx] at hnodup
            exact hnodup.sublist (List.filter_sublist.map _)
      have hcons : removeNames d x (name :: names) =
          removeNames (d.removeAttribute x name).1 x names := rfl
      rw [hcons, ih hrest, hfirst, hfirst, if_pos rfl]
      by_cases hn : n = x
      · simp [hn, Option.map_map, Function.comp_def, Element.keep_keep]
      · simp [hn]

/-- The names that are found to be directives are those of the directives. -/
theorem mem_directiveNames_iff (hread : d.ReadNames) (hattr : attr ∈ d.attributes n) :
    attr.name ∈ (directiveNames v d n).map QualifiedName.parse ↔
      isDirective v d n attr = true := by
  unfold directiveNames
  simp only [List.map_map, List.mem_map, List.mem_filter, Function.comp_apply]
  have hparse : ∀ other ∈ d.attributes n, QualifiedName.parse other.name.text = other.name := by
    intro other hother
    obtain ⟨raw, hraw⟩ := hread.read n other hother
    rw [hraw, QualifiedName.text_parse]
  constructor
  · rintro ⟨other, ⟨hother, hdirective⟩, hname⟩
    rw [hparse other hother] at hname
    exact List.inj_on_of_nodup_map (hread.nodup n) hother hattr hname ▸ hdirective
  · intro hdirective
    exact ⟨attr, ⟨hattr, hdirective⟩, hparse attr hattr⟩

/-- The document in which elements have lost their directives. -/
def strip (v : Vocabularies) (d : Document) (elements : List NodeId) : Document :=
  elements.foldl (fun t node => removeNames t node (directiveNames v d node)) d

theorem element?_strip (hread : d.ReadNames) (elements : List NodeId) (n : NodeId) :
    (strip v d elements).element? n =
      (d.element? n).map (·.keep fun attr => !(n ∈ elements && isDirective v d n attr)) := by
  unfold strip
  induction elements using List.reverseRecOn generalizing n with
  | nil => simp [Element.keep]
  | append_singleton elements x ih =>
      rw [List.foldl_concat]
      generalize elements.foldl (fun t node => removeNames t node (directiveNames v d node)) d = t
        at ih ⊢
      have hnodup : ((t.attributes x).map (·.name)).Nodup := by
        have hread := hread.nodup x
        unfold attributes at hread ⊢
        rw [ih]
        cases hx : d.element? x with
        | none => exact List.nodup_nil
        | some element =>
            rw [hx] at hread
            exact hread.sublist (List.filter_sublist.map _)
      rw [element?_removeNames hnodup, ih, ih]
      by_cases hn : n = x
      · subst hn
        rw [if_pos rfl]
        cases hx : d.element? n with
        | none => rfl
        | some element =>
            simp only [Option.map_some, Element.keep_keep]
            congr 1
            apply Element.keep_congr
            intro attr hattr
            rw [← attributes_of_element? hx] at hattr
            have hiff := mem_directiveNames_iff (v := v) hread hattr
            by_cases hdirective : isDirective v d n attr = true <;> simp [hiff, hdirective]
      · simp [hn]

theorem declared?_strip (hread : d.ReadNames) (elements : List NodeId) (n : NodeId) :
    (strip v d elements).declared? n qualifier = some uri ↔
      d.declared? n qualifier = some uri ∧
        ¬ (n ∈ elements ∧ qualifier.isSome = true ∧ v.covers ⟨qualifier, some uri⟩ = true) := by
  have hnodup := hread.nodup n
  unfold declared?
  rw [element?_strip hread]
  cases hn : d.element? n with
  | none => simp
  | some element =>
      rw [attributes_of_element? hn] at hnodup
      simp only [Option.map_some, Option.bind_some]
      have hdirective : isDirective v d n ⟨QualifiedName.declaration qualifier, uri⟩ =
          (qualifier.isSome && v.covers ⟨qualifier, some uri⟩) := isDirective_declaration rfl
      rw [Element.attribute?_keep_eq_some_iff hnodup, hdirective]
      grind

theorem relabeled_strip (hlinked : d.WellLinked) (elements : List NodeId) :
    (strip v d elements).WellLinked ∧ (strip v d elements).size = d.size ∧
      (∀ n, (strip v d elements).parent n = d.parent n) ∧
      ∀ n, (strip v d elements).children n = d.children n := by
  unfold strip
  apply List.foldlRecOn (motive := fun t : Document => t.WellLinked ∧ t.size = d.size ∧
    (∀ n, t.parent n = d.parent n) ∧ ∀ n, t.children n = d.children n)
  · exact ⟨hlinked, rfl, fun _ => rfl, fun _ => rfl⟩
  · rintro t ⟨ht, hsize, hparent, hchildren⟩ node -
    have hremoved := relabeled_removeNames ht node (directiveNames v d node)
    exact ⟨hremoved.confined.linked, hremoved.size_eq.trans hsize,
      fun n => (hremoved.parent_eq n).trans (hparent n),
      fun n => (hremoved.children_eq n).trans (hchildren n)⟩

/-- A name that stands for no vocabulary stands for the same when the directives are gone. -/
theorem lookupNamespace_strip (hlinked : d.WellLinked) (hread : d.ReadNames)
    (hpos : root < d.size) (elements : List NodeId) (hn : d.Below root n)
    (hother : v.covers (d.namespaceOf n qualifier) = false) :
    (strip v d elements).lookupNamespace n qualifier = d.lookupNamespace n qualifier := by
  obtain ⟨hlinked', hsize, hparent, hchildren⟩ := relabeled_strip (v := v) hlinked elements
  have hbelow : ∀ m, d.Below root m → (strip v d elements).Below root m := by
    intro m hm
    apply hm.congr
    intro k _
    rw [hchildren]
    exact List.Subset.refl _
  have hroot : (strip v d elements).parent root = none := (hparent root).trans hlinked.parent_root
  unfold namespaceOf at hother
  -- Either the node declares the qualifier in both documents, or its parent decides in both.
  have hstep : ∀ m, d.Below root m →
      v.covers ⟨qualifier, d.lookupNamespace m qualifier⟩ = false →
      (∀ p, d.parent m = some p → v.covers ⟨qualifier, d.lookupNamespace p qualifier⟩ = false →
        (strip v d elements).lookupNamespace p qualifier = d.lookupNamespace p qualifier) →
      (strip v d elements).lookupNamespace m qualifier = d.lookupNamespace m qualifier := by
    intro m hm hother hparents
    have hbefore := hlinked.lookupNamespace_eq hlinked.parent_root hpos hm qualifier
    have hafter := hlinked'.lookupNamespace_eq hroot (hsize ▸ hpos) (hbelow m hm) qualifier
    have hiff : ∀ uri, (strip v d elements).declared? m qualifier = some uri ↔
        d.declared? m qualifier = some uri ∧
          ¬ (m ∈ elements ∧ qualifier.isSome = true ∧ v.covers ⟨qualifier, some uri⟩ = true) :=
      fun _ => declared?_strip hread elements m
    rw [hparent] at hafter
    cases hdeclared : d.declared? m qualifier with
    | some uri =>
        rw [hdeclared] at hbefore
        have hkept : (strip v d elements).declared? m qualifier = some uri := by
          rw [hbefore] at hother
          apply (hiff uri).mpr
          refine ⟨hdeclared, ?_⟩
          rintro ⟨-, -, hcovers⟩
          exact absurd hcovers (by simpa using hother)
        rw [hkept] at hafter
        exact hafter.trans hbefore.symm
    | none =>
        rw [hdeclared] at hbefore
        have hkept : (strip v d elements).declared? m qualifier = none := by
          apply Option.eq_none_iff_forall_ne_some.mpr
          intro uri huri
          rw [((hiff uri).mp huri).1] at hdeclared
          cases hdeclared
        rw [hkept] at hafter
        cases hp : d.parent m with
        | none =>
            rw [hp] at hbefore hafter
            exact hafter.trans hbefore.symm
        | some p =>
            rw [hp] at hbefore hafter
            have hbefore : d.lookupNamespace m qualifier = d.lookupNamespace p qualifier := hbefore
            rw [hbefore] at hother
            exact hafter.trans ((hparents p hp hother).trans hbefore.symm)
  induction hn with
  | refl =>
      apply hstep root .refl hother
      intro p hp
      rw [hlinked.parent_root] at hp
      cases hp
  | @child q n hq hchild ih =>
      apply hstep n (hq.child hchild) hother
      intro p hp hother
      obtain rfl := Option.some.inj ((hlinked.parent_eq hchild).symm.trans hp)
      exact ih hother

/-! ## Taking tags away -/

/-- The elements at the document node and below it. -/
def elements (d : Document) : List NodeId := (d.subtree root).filter (d.isElement ·)

theorem mem_elements_iff (hlinked : d.WellLinked) :
    n ∈ elements d ↔ d.Below root n ∧ d.isElement n = true := by
  unfold elements
  rw [List.mem_filter]
  constructor
  · rintro ⟨hmem, helement⟩
    exact ⟨below_of_mem_subtree hmem, helement⟩
  · rintro ⟨hbelow, helement⟩
    have hpos : root < d.size := Nat.zero_lt_of_lt (lt_size_of_isElement helement)
    have hground : d.Grounded root := ⟨hlinked, hpos, .of_parent hlinked.parent_root⟩
    exact ⟨hground.mem_subtree_iff.mpr hbelow, helement⟩

theorem removeDirectives_eq :
    removeDirectives v d root =
      ((elements d).filter (isDirectiveElement v d)).foldl unwrap (strip v d (elements d)) := by
  unfold removeDirectives strip
  dsimp only
  rw [List.foldl_map]
  rfl

/-- A document on its way from the directives being removed to the tags being taken away. What is
still in the tree has lost its directives, and its names stand for what they stood for, unless that
was a vocabulary. -/
structure Cleaning (v : Vocabularies) (d t : Document) : Prop extends Unwrapping d t where
  element?_eq : ∀ n, t.element? n = (strip v d (elements d)).element? n
  below_of : ∀ n, t.Below root n → d.Below root n
  lookup_eq : ∀ n qualifier, t.Below root n → v.covers (d.namespaceOf n qualifier) = false →
    t.lookupNamespace n qualifier = d.lookupNamespace n qualifier

/-- The elements of the vocabularies declare nothing but vocabularies. -/
def DeclareOwn (v : Vocabularies) (d : Document) : Prop :=
  ∀ n, d.Below root n → isDirectiveElement v d n = true →
    ∀ qualifier uri, (qualifier, uri) ∈ d.declarations n →
      v.covers ⟨qualifier, some uri⟩ = true

theorem unwrapping_strip (hlinked : d.WellLinked) : Unwrapping d (strip v d (elements d)) := by
  have hdoomed : ∀ entry ∈ (elements d).map fun node => (node, directiveNames v d node),
      d.Below root entry.1 := by
    intro entry hentry
    obtain ⟨n, hn, rfl⟩ := List.mem_map.mp hentry
    exact ((mem_elements_iff hlinked).mp hn).1
  have hunwrapping := unwrapping_removeNames hlinked hdoomed
  rwa [List.foldl_map] at hunwrapping

theorem cleaning_strip (hlinked : d.WellLinked) (hread : d.ReadNames) (hpos : root < d.size) :
    Cleaning v d (strip v d (elements d)) := by
  obtain ⟨-, -, -, hchildren⟩ := relabeled_strip (v := v) hlinked (elements d)
  have hbelow : ∀ n, (strip v d (elements d)).Below root n → d.Below root n := by
    intro n hn
    apply hn.of_congr
    intro m _
    rw [hchildren]
    exact List.Subset.refl _
  refine ⟨unwrapping_strip hlinked, fun _ => rfl, hbelow, fun n qualifier hn => ?_⟩
  exact lookupNamespace_strip hlinked hread hpos _ (hbelow n hn)

namespace Cleaning

variable (hlinked : d.WellLinked) (hread : d.ReadNames) (hpos : root < d.size)

include hread

/-- What an element still declares, it declared before. -/
theorem declared?_of (h : Cleaning v d t) (hdeclared : t.declared? n qualifier = some uri) :
    d.declared? n qualifier = some uri := by
  have hkept : (strip v d (elements d)).declared? n qualifier = some uri := by
    unfold declared? at hdeclared ⊢
    rwa [← h.element?_eq]
  exact ((declared?_strip hread _ n).mp hkept).1

include hlinked hpos

/-- Taking away the tag of an element that declares nothing but vocabularies. -/
theorem unwrap (h : Cleaning v d t) (hn : d.Below root n)
    (hown : ∀ qualifier uri, (qualifier, uri) ∈ d.declarations n →
      v.covers ⟨qualifier, some uri⟩ = true) :
    Cleaning v d (unwrap t n) ∧ (Cleanup.unwrap t n).parent n = none ∧
      ∀ m, t.parent m = none → (Cleanup.unwrap t n).parent m = none := by
  rcases h.unwrap_cases hlinked hn with ⟨hnone, heq⟩ | ⟨p, hp, hreplaced, hunwrapping⟩
  · rw [heq]
    exact ⟨h, hnone, fun _ => id⟩
  generalize Cleanup.unwrap t n = t' at hreplaced hunwrapping ⊢
  have hlinked' := h.confined.linked
  have hroot' : t.parent root = none := hlinked'.parent_root
  have hpos' : root < t.size := Nat.lt_of_lt_of_le hpos h.confined.size_le
  have hbelow : t.Below root n := (h.below n hn).resolve_left (by simp [hp])
  have hgone : t'.parent n = none := by
    rw [hreplaced.parents, if_pos rfl]
  have hold : ∀ m, t'.Below root m → t.Below root m := by
    intro m hm
    induction hm with
    | refl => exact .refl
    | @child q m _ hchild ih =>
        have hparent := hreplaced.linked.parent_eq hchild
        have hne : m ≠ n := by
          rintro rfl
          rw [hgone] at hparent
          cases hparent
        rw [hreplaced.parent_eq_of_ne hlinked' hne] at hparent
        split at hparent
        next hpromoted => exact hbelow.child (hlinked'.mem_children hpromoted)
        next => exact ih.child (hlinked'.mem_children hparent)
  refine ⟨⟨hunwrapping, fun m => ?_, fun m hm => h.below_of m (hold m hm),
    fun m qualifier hm hother => ?_⟩, hgone, fun m hm => ?_⟩
  · rw [← h.element?_eq]
    exact congrArg NodeKind.element? (hreplaced.kind_eq m)
  · have hm' := hold m hm
    have hbefore := h.lookup_eq m qualifier hm' hother
    rw [← hbefore]
    by_cases hin : t.Below n m
    · have hne : m ≠ n := by
        rintro rfl
        rcases hreplaced.linked.below_cases hm with heq | ⟨q, hq, -⟩
        · rw [heq, hroot'] at hp
          cases hp
        · rw [hgone] at hq
          cases hq
      rcases hreplaced.lookupNamespace_inside hlinked' hp hroot' hpos' hbelow hin hne qualifier with
        ⟨-, hsame⟩ | ⟨-, hthrough, hafter⟩
      · exact hsame
      · rw [hthrough, hafter]
        cases hdeclared : t.declared? n qualifier with
        | none => rfl
        | some uri =>
            -- A declaration of `n` that decided for `m` would be one of a vocabulary.
            have hmem := mem_declarations_iff.mpr
              ((declared?_eq_some_iff (hread.nodup n)).mp (h.declared?_of hread hdeclared))
            rw [hdeclared] at hthrough
            unfold namespaceOf at hother
            rw [← hbefore, hthrough] at hother
            exact absurd (hown qualifier uri hmem) (by simpa using hother)
    · exact hreplaced.lookupNamespace_outside hlinked' hp hroot' hpos' hm' hin
  · by_cases hmn : m = n
    · rw [hmn, hgone]
    · rw [hreplaced.parent_eq_of_ne hlinked' hmn, hm, if_neg nofun]

/-- Taking away the tags of elements of the vocabularies, one after the other. -/
theorem unwrapAll (hown : DeclareOwn v d) (nodes : List NodeId)
    (hnodes : ∀ n ∈ nodes, d.Below root n ∧ isDirectiveElement v d n = true) :
    Cleaning v d (nodes.foldl Cleanup.unwrap (strip v d (elements d))) ∧
      ∀ n ∈ nodes, (nodes.foldl Cleanup.unwrap (strip v d (elements d))).parent n = none := by
  induction nodes using List.reverseRecOn with
  | nil => exact ⟨cleaning_strip hlinked hread hpos, nofun⟩
  | append_singleton nodes x ih =>
      have hx := hnodes x (by simp)
      obtain ⟨hcleaning, hgone⟩ := ih fun n hn => hnodes n (List.mem_append_left _ hn)
      obtain ⟨hnext, hxgone, hkept⟩ := hcleaning.unwrap hlinked hread hpos hx.1 (hown x hx.1 hx.2)
      rw [List.foldl_concat]
      refine ⟨hnext, fun n hn => ?_⟩
      rcases List.mem_append.mp hn with hn | hn
      · exact hkept n (hgone n hn)
      · rw [List.mem_singleton.mp hn, hxgone]

end Cleaning

/-! ## What is left -/

/-- There is nothing to remove from a document without nodes. -/
theorem pos_of_element?_removeDirectives {element : Element}
    (h : (removeDirectives v d root).element? n = some element) : root < d.size := by
  by_contra hpos
  have hnone : ∀ m, d.element? m = none := by
    intro m
    unfold element? kind
    rw [d.node_of_size_le (Nat.le_trans (Nat.le_of_not_lt hpos) (Nat.zero_le m))]
    rfl
  have helements : elements d = [] := by
    apply List.filter_eq_nil_iff.mpr
    intro m _
    have hm : d.isElement m = (d.element? m).isSome := rfl
    simp [hm, hnone]
  rw [removeDirectives_eq, helements] at h
  exact nomatch h.symm.trans (hnone n)

section

variable (hlinked : d.WellLinked) (hroot : d.kind root = .root) (hread : d.ReadNames)
  (hown : DeclareOwn v d)

include hlinked hread hown

theorem cleaning_removeDirectives (hpos : root < d.size) :
    Cleaning v d (removeDirectives v d root) ∧
      ∀ n, d.Below root n → isDirectiveElement v d n = true →
        (removeDirectives v d root).parent n = none := by
  have hall := Cleaning.unwrapAll hlinked hread hpos hown
    ((elements d).filter (isDirectiveElement v d)) ?_
  · rw [← removeDirectives_eq] at hall
    refine ⟨hall.1, fun n hn hdirective => hall.2 n ?_⟩
    obtain ⟨element, helement, -⟩ := isDirectiveElement_iff.mp hdirective
    apply List.mem_filter.mpr
    refine ⟨(mem_elements_iff hlinked).mpr ⟨hn, ?_⟩, hdirective⟩
    exact Option.isSome_iff_exists.mpr ⟨element, helement⟩
  · intro n hn
    obtain ⟨hn, hdirective⟩ := List.mem_filter.mp hn
    exact ⟨((mem_elements_iff hlinked).mp hn).1, hdirective⟩

include hroot

/-- In the cleaned document no element belongs to a vocabulary. -/
theorem isDirectiveElement_removeDirectives (hn : (removeDirectives v d root).Below root n) :
    isDirectiveElement v (removeDirectives v d root) n = false := by
  by_contra hdirective
  obtain ⟨element, helement, hcovers⟩ :=
    isDirectiveElement_iff.mp (Bool.not_eq_false _ ▸ hdirective)
  obtain ⟨hcleaning, hgone⟩ := cleaning_removeDirectives hlinked hread hown
    (pos_of_element?_removeDirectives helement)
  have hbefore := hcleaning.below_of n hn
  rw [hcleaning.element?_eq, element?_strip hread] at helement
  obtain ⟨written, hwritten, rfl⟩ := Option.map_eq_some_iff.mp helement
  have hcovers : v.covers ⟨written.name.qualifier,
      (removeDirectives v d root).lookupNamespace n written.name.qualifier⟩ = true := hcovers
  cases hstood : v.covers (d.namespaceOf n written.name.qualifier) with
  | false =>
      rw [hcleaning.lookup_eq n _ hn hstood] at hcovers
      exact absurd hcovers (by simpa [namespaceOf] using hstood)
  | true =>
      have hparent := hgone n hbefore (isDirectiveElement_iff.mpr ⟨written, hwritten, hstood⟩)
      -- Without a parent only the document node is in the tree, and that is no element.
      rcases hcleaning.confined.linked.below_cases hn with rfl | ⟨p, hp, -⟩
      · simp [element?, hroot, NodeKind.element?] at hwritten
      · rw [hparent] at hp
        cases hp

/-- In the cleaned document no attribute is a directive. -/
theorem isDirective_removeDirectives (hn : (removeDirectives v d root).Below root n)
    (hattr : attr ∈ (removeDirectives v d root).attributes n) :
    isDirective v (removeDirectives v d root) n attr = false := by
  obtain ⟨element, helement⟩ : ∃ element,
      (removeDirectives v d root).element? n = some element := by
    cases hnone : (removeDirectives v d root).element? n with
    | some element => exact ⟨element, rfl⟩
    | none => simp [attributes, hnone] at hattr
  obtain ⟨hcleaning, -⟩ := cleaning_removeDirectives hlinked hread hown
    (pos_of_element?_removeDirectives helement)
  have hout := isDirectiveElement_removeDirectives hlinked hroot hread hown hn
  rw [attributes_of_element? helement] at hattr
  rw [hcleaning.element?_eq, element?_strip hread] at helement
  obtain ⟨written, hwritten, rfl⟩ := Option.map_eq_some_iff.mp helement
  have hmem : n ∈ elements d := (mem_elements_iff hlinked).mpr
    ⟨hcleaning.below_of n hn, Option.isSome_iff_exists.mpr ⟨written, hwritten⟩⟩
  have hkept : isDirective v d n attr = false := by
    have hkept := (List.mem_filter.mp hattr).2
    simpa [hmem] using hkept
  cases hname : attr.name.isDeclaration with
  | true =>
      obtain ⟨qualifier, hdeclares⟩ := Option.isSome_iff_exists.mp hname
      have hname := QualifiedName.declares?_eq_some_iff.mp hdeclares
      rwa [isDirective_declaration hname] at hkept ⊢
  | false =>
      rw [isDirective_of_not_isDeclaration hname] at hkept ⊢
      cases hqualifier : attr.name.qualifier with
      | none => exact hout
      | some qualifier =>
          rw [hqualifier] at hkept
          have hkept : v.covers (d.namespaceOf n (some qualifier)) = false := hkept
          have hsame := hcleaning.lookup_eq n (some qualifier) hn hkept
          show v.covers ⟨some qualifier, _⟩ = false
          rwa [hsame]

end

/-- Where there is nothing of the vocabularies, nothing is removed. -/
theorem removeDirectives_eq_self
    (helements : ∀ n, d.Below root n → isDirectiveElement v d n = false)
    (hattributes : ∀ n, d.Below root n → ∀ attr ∈ d.attributes n, isDirective v d n attr = false) :
    removeDirectives v d root = d := by
  have hbelow : ∀ n ∈ elements d, d.Below root n := fun n hn =>
    below_of_mem_subtree (List.mem_filter.mp hn).1
  have homitted : (elements d).filter (isDirectiveElement v d) = [] := by
    apply List.filter_eq_nil_iff.mpr
    intro n hn
    simp [helements n (hbelow n hn)]
  have hstripped : strip v d (elements d) = d := by
    apply List.foldlRecOn (motive := fun t : Document => t = d)
    · rfl
    · rintro t rfl n hn
      have hnames : directiveNames v t n = [] := by
        unfold directiveNames
        rw [List.map_eq_nil_iff, List.filter_eq_nil_iff]
        intro attr hattr
        simp [hattributes n (hbelow n hn) attr hattr]
      rw [hnames]
      rfl
  rw [removeDirectives_eq, homitted, hstripped]
  rfl

/-- Cleaning up is complete, unless an element of a vocabulary declares something else: afterwards
no element in the tree belongs to a vocabulary, no attribute is one that is looked for in a
vocabulary, no qualifier is declared to stand for one, and cleaning up again changes nothing. -/
theorem removeDirectives_complete (hlinked : d.WellLinked) (hroot : d.kind root = .root)
    (hread : d.ReadNames)
    (hown : ∀ n, d.Below root n → d.inNamespace n v.tal || d.inNamespace n v.metal →
      ∀ qualifier uri, (qualifier, uri) ∈ d.declarations n →
        v.covers ⟨qualifier, some uri⟩ = true) :
    (∀ n, (removeDirectives v d root).Below root n →
      (removeDirectives v d root).inNamespace n v.tal = false ∧
      (removeDirectives v d root).inNamespace n v.metal = false ∧
      ∀ attr ∈ (removeDirectives v d root).attributes n,
        (∀ name, (removeDirectives v d root).attributeMatches n attr ⟨v.tal, name⟩ = false ∧
          (removeDirectives v d root).attributeMatches n attr ⟨v.metal, name⟩ = false) ∧
        ∀ qualifier, attr.name = QualifiedName.declaration (some qualifier) →
          v.covers ⟨some qualifier, some attr.value⟩ = false) ∧
    removeDirectives v (removeDirectives v d root) root = removeDirectives v d root := by
  have helements : ∀ n, (removeDirectives v d root).Below root n →
      isDirectiveElement v (removeDirectives v d root) n = false := fun n =>
    isDirectiveElement_removeDirectives hlinked hroot hread hown
  have hattributes : ∀ n, (removeDirectives v d root).Below root n →
      ∀ attr ∈ (removeDirectives v d root).attributes n,
        isDirective v (removeDirectives v d root) n attr = false := fun n hn attr =>
    isDirective_removeDirectives hlinked hroot hread hown hn
  refine ⟨fun n hn => ?_, removeDirectives_eq_self helements hattributes⟩
  have hout := Bool.or_eq_false_iff.mp (helements n hn)
  refine ⟨hout.1, hout.2, fun attr hattr => ⟨fun name => ?_, fun qualifier hname => ?_⟩⟩
  · have hkept := hattributes n hn attr hattr
    constructor
    · by_contra hmatches
      have hdirective := isDirective_of_attributeMatches (v := v) (.inl rfl)
        (Bool.not_eq_false _ ▸ hmatches)
      exact nomatch hkept.symm.trans hdirective
    · by_contra hmatches
      have hdirective := isDirective_of_attributeMatches (v := v) (.inr rfl)
        (Bool.not_eq_false _ ▸ hmatches)
      exact nomatch hkept.symm.trans hdirective
  · have hkept := hattributes n hn attr hattr
    rw [isDirective_declaration hname] at hkept
    simpa using hkept

section Examples

/-- A page that uses the vocabulary of directives under a qualifier of its own, and its usual
qualifier for something else. -/
def ownQualifierPage : Document where
  nodes := #[
    { kind := .root, children := [1] },
    { kind := .element {
        name := .parse "html"
        attributes := [⟨.parse "xmlns:t", "http://xml.zope.org/namespaces/tal"⟩,
          ⟨.parse "xmlns:tal", "urn:other"⟩] },
      parent := some 0, children := [2] },
    { kind := .element {
        name := .parse "t:block", attributes := [⟨.parse "condition", "here"⟩] },
      parent := some 1, children := [3] },
    { kind := .element {
        name := .parse "p"
        attributes := [⟨.parse "t:content", "here"⟩, ⟨.parse "tal:content", "kept"⟩] },
      parent := some 2 }]

/-- What only looks like a directive is kept. -/
theorem removeDirectives_complete_ownQualifierPage :
    let d := ownQualifierPage
    let d' := removeDirectives {} d root
    d.WellLinked ∧ d.kind root = .root ∧ d.ReadNames ∧
      d'.children 1 = [3] ∧ d'.attributes 1 = [⟨.parse "xmlns:tal", "urn:other"⟩] ∧
      d'.attributes 3 = [⟨.parse "tal:content", "kept"⟩] ∧
      (∀ n, d'.Below root n → d'.inNamespace n .tal = false ∧ d'.inNamespace n .metal = false ∧
        ∀ attr ∈ d'.attributes n,
          (∀ name, d'.attributeMatches n attr ⟨.tal, name⟩ = false ∧
            d'.attributeMatches n attr ⟨.metal, name⟩ = false) ∧
          ∀ qualifier, attr.name = QualifiedName.declaration (some qualifier) →
            ({} : Vocabularies).covers ⟨some qualifier, some attr.value⟩ = false) ∧
      removeDirectives {} d' root = d' := by
  intro d d'
  have hlinked : d.WellLinked := by decide +kernel
  have hroot : d.kind root = .root := rfl
  have hread : d.ReadNames := by decide +kernel
  have hown : ∀ n, d.Below root n → d.inNamespace n .tal || d.inNamespace n .metal →
      ∀ qualifier uri, (qualifier, uri) ∈ d.declarations n →
        ({} : Vocabularies).covers ⟨qualifier, some uri⟩ = true := by
    intro n _ hdirective qualifier uri hmem
    have hplain : ∀ n < d.size, (d.inNamespace n .tal || d.inNamespace n .metal) = false ∨
        d.declarations n = [] := by decide +kernel
    have hn : n < d.size := by
      by_contra hn
      simp [Document.declarations, attributes_of_size_le (Nat.le_of_not_lt hn)] at hmem
    rcases hplain n hn with hplain | hplain
    · exact nomatch hplain.symm.trans hdirective
    · rw [hplain] at hmem
      cases hmem
  obtain ⟨hclean, hagain⟩ := removeDirectives_complete (v := {}) hlinked hroot hread hown
  exact ⟨hlinked, hroot, hread, by decide +kernel, by decide +kernel, by decide +kernel, hclean,
    hagain⟩

end Examples

end Cleanup

end PageTemplate
