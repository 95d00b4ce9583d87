import PageTemplate.Proofs.Markup.Grafting
import PageTemplate.Proofs.Markup.OmittedScope
import PageTemplate.Proofs.Render.Authored
import PageTemplate.Proofs.Render.Declaring

/-! # What the names in the copy of a macro stand for

The copy of a macro has lost the elements around the macro. What its names stood for is kept where
it is declared in the macro itself. Of what is declared around it, the copy declares the qualifiers
of the vocabularies again; the default namespace, and qualifiers that stand for something else,
are lost. So a name in the copy belongs to the same vocabularies exactly when its qualifier is
declared in the macro, is declared again, or belongs to the vocabulary as much without its URI as
with it.
-/

namespace PageTemplate

open Markup Document

variable {v : Vocabularies} {d t t' : Document} {e c n n' : NodeId} {qualifier : Option String}

/-- The copy of a macro declares the qualifier of this namespace again: it has one, and belongs to a
vocabulary. -/
def Vocabularies.Redeclares (v : Vocabularies) (space : Namespace) : Prop :=
  space.qualifier ≠ none ∧ space.qualifier ≠ some "" ∧ v.covers space

/-- What a qualifier stands for at `n` is kept in a copy of `e`: it is declared on the way from `e` to
`n`, or on `e` itself, or the copy declares it again, or there is nothing to declare. -/
def Vocabularies.Keeps (v : Vocabularies) (d : Document) (e n : NodeId)
    (qualifier : Option String) : Prop :=
  d.DeclaredBetween e n qualifier ∨ (d.declared? e qualifier).isSome ∨
    ∀ uri, d.lookupNamespace e qualifier = some uri → v.Redeclares ⟨qualifier, some uri⟩

/-- A qualifier says in a copy of `e` what it says at `n` about a vocabulary: what it stands for is
kept, or makes no difference. -/
def Vocabularies.Refers (v : Vocabularies) (d : Document) (e n : NodeId)
    (qualifier : Option String) (vocabulary : Namespace) : Prop :=
  v.Keeps d e n qualifier ∨
    (d.namespaceOf n qualifier).agrees vocabulary = Namespace.agrees ⟨qualifier, none⟩ vocabulary

/-! ## Copies -/

/-- The node `c` is a copy of the element `e` of another document or the same one, and declares what
`e` declares and the qualifiers that stand for vocabularies there. -/
structure MacroCopy (v : Vocabularies) (d : Document) (e : NodeId) (t : Document) (c : NodeId) :
    Prop where
  linked : t.WellLinked
  lt : c < t.size
  parent_eq : t.parent c = none
  mirrors : Mirrors d t e c
  name?_eq : t.name? c = d.name? e
  attributes_subset : d.attributes e ⊆ t.attributes c
  declared?_eq : ∀ qualifier, t.declared? c qualifier = (d.declared? e qualifier).or
    ((qualifier.filter (· ≠ "")).bind fun key =>
      (d.lookupNamespace e (some key)).filter fun uri => v.covers ⟨some key, some uri⟩)

theorem relabeled_declareMissing (hlinked : t.WellLinked) (c : NodeId)
    (entries : List (String × String)) : Relabeled c t (declareMissing t c entries) := by
  apply List.foldlRecOn (motive := Relabeled c t)
  · exact .refl hlinked
  · intro made hmade entry _
    dsimp only
    split
    · exact hmade
    · exact hmade.trans (relabeled_updateElement hmade.confined.linked c _)

/-- What a node is counts for its mirror only below the top. -/
theorem Markup.Document.Relabeled.mirrors (h : Relabeled c t t') (hlinked : t.WellLinked)
    (htop : t.parent c = none) (hmirrors : Mirrors d t e c) : Mirrors d t' e c :=
  hmirrors.congr_right hlinked (.of_parent htop) (fun m _ => h.children_eq m)
    fun _ _ hne => h.confined.kind_eq hne

/-- A copy is complete when its top has been given the declarations. -/
theorem macroCopy_declareMissing {element : Element} (source : Option String)
    (hlinked : t.WellLinked) (hlt : c < t.size) (htop : t.parent c = none)
    (hmirrors : Mirrors d t e c) (he : d.element? e = some element)
    (hc : t.element? c = some { element with importedFrom := source }) :
    MacroCopy v d e (declareMissing t c (v.declarations d e)) c := by
  have hrelabeled := relabeled_declareMissing hlinked c (v.declarations d e)
  have hdeclared : (declareMissing t c (v.declarations d e)).element? c =
      some (Element.declareAll { element with importedFrom := source } (v.declarations d e)) := by
    rw [element?_declareMissing, if_pos rfl, hc, Option.map_some]
  refine ⟨hrelabeled.confined.linked, hrelabeled.size_eq ▸ hlt,
    (hrelabeled.parent_eq c).trans htop, hrelabeled.mirrors hlinked htop hmirrors, ?_, ?_, ?_⟩
  · simp only [name?, hdeclared, he, Option.map_some, Element.name_declareAll]
  · rw [attributes_of_element? hdeclared, attributes_of_element? he]
    let relabeled : Element := { element with importedFrom := source }
    exact relabeled.subset_attributes_declareAll (v.declarations d e)
  · intro qualifier
    simp only [declared?, hdeclared, he, Option.bind_some, Element.declared_declareAll,
      v.lookup_declarations]
    rfl

/-- What is added to the document later leaves the copy as it is. -/
theorem MacroCopy.extends (h : MacroCopy v d e t c) (hext : Extends t t') :
    MacroCopy v d e t' c := by
  have hsame : ∀ m, t.Below c m → t'.node m = t.node m := by
    intro m hm
    exact hext.same m (Nat.not_le_of_lt (h.linked.below_lt hm h.lt))
  have helement : t'.element? c = t.element? c := by
    unfold element? kind
    rw [hsame c .refl]
  refine ⟨hext.linked, Nat.lt_of_lt_of_le h.lt hext.size_le, ?_, ?_, ?_, ?_, ?_⟩
  · rw [hext.parent_eq (Nat.not_le_of_lt h.lt), h.parent_eq]
  · exact h.mirrors.congr_right h.linked (.of_parent h.parent_eq)
      (fun m hm => congrArg Node.children (hsame m hm)) fun m hm _ => congrArg Node.kind (hsame m hm)
  · rw [name?, helement, ← h.name?_eq, name?]
  · have hattributes : t'.attributes c = t.attributes c := by rw [attributes, helement, attributes]
    rw [hattributes]
    exact h.attributes_subset
  · intro qualifier
    rw [declared?, helement]
    exact h.declared?_eq qualifier

namespace MacroTable

/-- The copy that a rendering works with is one. -/
theorem macroCopy_copyElement (hground : d.Grounded e) (helement : d.isElement e = true) :
    MacroCopy v d e (copyElement v d e).1 (copyElement v d e).2 := by
  obtain ⟨element, he⟩ := Option.isSome_iff_exists.mp helement
  have hcopy := copied_graft_any hground.linked (d.tree e)
  have hkind := (kind_graft d (d.tree e)).trans (kind_tree d e)
  apply macroCopy_declareMissing element.importedFrom hcopy.grown.linked hcopy.lt hcopy.parent_eq
    (.of_alike (hground.alike_graft hground.linked)) he
  exact (congrArg NodeKind.element? hkind).trans he

theorem copied_importElement_any (v : Vocabularies) (hlinked : t.WellLinked) (d : Document)
    (e : NodeId) : Copied (StemsOn (fun _ => True) (t.size ≤ ·)) (d.height e) t
      (importElement v d t e).1 (importElement v d t e).2 :=
  copied_importElement v hlinked d (fun _ => trivial) e

/-- The copy of a library's macro is one. -/
theorem macroCopy_importElement (hlinked : t.WellLinked) (hground : d.Grounded e)
    (helement : d.isElement e = true) :
    MacroCopy v d e (importElement v d t e).1 (importElement v d t e).2 := by
  obtain ⟨element, he⟩ := Option.isSome_iff_exists.mp helement
  have hcopy := copied_graft_any hlinked (d.tree e)
  have hkind := (kind_graft t (d.tree e)).trans (kind_tree d e)
  have hmirrors := Mirrors.of_alike (hground.alike_graft hlinked)
  have htop : (t.graft (d.tree e)).1.element? (t.graft (d.tree e)).2 = some element :=
    (congrArg NodeKind.element? hkind).trans he
  simp only [importElement, importSubtree]
  cases d.sourceName with
  | none =>
      exact macroCopy_declareMissing element.importedFrom hcopy.grown.linked hcopy.lt
        hcopy.parent_eq hmirrors he htop
  | some source =>
      have hrelabeled := relabeled_updateElement hcopy.grown.linked (t.graft (d.tree e)).2
        fun element => { element with importedFrom := some source }
      apply macroCopy_declareMissing (some source) hrelabeled.confined.linked
        (hrelabeled.size_eq ▸ hcopy.lt) ((hrelabeled.parent_eq _).trans hcopy.parent_eq)
        (hrelabeled.mirrors hcopy.grown.linked hcopy.parent_eq hmirrors) he
      rw [element?_updateElement, if_pos rfl, htop]
      rfl

/-- Importing a library copies its macros one by one. What holds of each copy when it is made, and
is not disturbed by additions, holds in the end of all of them. -/
theorem forall₂_importLibrary (R : NodeId → Document → NodeId → Prop) {root : NodeId}
    (hmade : ∀ {e t'}, Extends t t' → d.Grounded e → d.isElement e = true →
      R e (importElement v d t' e).1 (importElement v d t' e).2)
    (hkept : ∀ {e t t' c}, R e t c → Extends t t' → R e t' c) (hlinked : t.WellLinked)
    (hlibrary : d.WellLinked) (hroot : d.rootElement? = some root) :
    List.Forall₂ (fun e c => R e (importLibrary v d t).1 c)
      (definitions v d (d.subtree root)) (importLibrary v d t).2 := by
  have hbelow : d.Below Document.root root :=
    .child .refl (List.mem_of_find?_eq_some hroot)
  have hground : d.Grounded root :=
    ⟨hlibrary, (hlibrary.child_lt _ _ (List.mem_of_find?_eq_some hroot)).2,
      Document.root, hlibrary.parent_root, hbelow⟩
  have hdefinition : ∀ e ∈ definitions v d (d.subtree root),
      d.Grounded e ∧ d.isElement e = true := by
    intro e he
    obtain ⟨hmem, hdefines⟩ := List.mem_filter.mp he
    exact ⟨hground.below (below_of_mem_subtree hmem), (Bool.and_eq_true_iff.mp hdefines).1⟩
  simp only [importLibrary, hroot]
  -- What has been copied so far stays as it is when the next macro is.
  have hloop : ∀ (rest done : List NodeId) (made : Document × List NodeId),
      (∀ e ∈ rest, d.Grounded e ∧ d.isElement e = true) → Extends t made.1 →
      List.Forall₂ (R · made.1) done made.2 →
      let made' := rest.foldl (fun (made : Document × List NodeId) element =>
        ((importElement v d made.1 element).1, made.2 ++ [(importElement v d made.1 element).2]))
        made
      List.Forall₂ (R · made'.1) (done ++ rest) made'.2 := by
    intro rest
    induction rest with
    | nil =>
        intro done made _ _ hdone
        simpa using hdone
    | cons e rest ih =>
        intro done made hrest hgrown hdone
        obtain ⟨⟨he, helement⟩, hrest⟩ := List.forall_mem_cons.mp hrest
        have hext := (copied_importElement_any v hgrown.linked d e).grown
        have hnext := ih (done ++ [e]) ((importElement v d made.1 e).1,
          made.2 ++ [(importElement v d made.1 e).2]) hrest (hgrown.trans hext)
          (List.rel_append (hdone.imp fun _ _ h => hkept h hext)
            (.cons (hmade hgrown he helement) .nil))
        rwa [List.append_assoc, List.singleton_append] at hnext
  exact hloop _ [] (t, []) hdefinition (.refl hlinked) .nil

theorem macroCopies_importLibrary {root : NodeId} (hlinked : t.WellLinked)
    (hlibrary : d.WellLinked) (hroot : d.rootElement? = some root) :
    List.Forall₂ (fun e c => MacroCopy v d e (importLibrary v d t).1 c)
      (definitions v d (d.subtree root)) (importLibrary v d t).2 := by
  apply forall₂_importLibrary (MacroCopy v d) _ _ hlinked hlibrary hroot
  · exact fun hgrown => macroCopy_importElement hgrown.linked
  · exact fun h hext => h.extends hext

end MacroTable

/-! ## What qualifiers stand for in a copy -/

/-- What is asked of one name is asked at that name. -/
theorem forall_named_and_iff {given : String} {a b : Bool} :
    (∀ name, (decide (given = name) && a) = (decide (given = name) && b)) ↔ a = b := by
  constructor
  · intro h
    simpa using h given
  · rintro rfl name
    rfl

namespace MacroCopy

variable (hcopy : MacroCopy v d e t c) (hground : d.Grounded e)
  (hplace : Counterpart d t e c n n')

include hcopy hground hplace

/-- A qualifier that is declared between the macro's element and a node stands for the same at the
node's copy. Any other stands for what it stands for at the element, and at the copy of the element
for what is declared there. -/
theorem lookupNamespace_cases (qualifier : Option String) :
    (d.DeclaredBetween e n qualifier ∧
      t.lookupNamespace n' qualifier = d.lookupNamespace n qualifier) ∨
    (¬ d.DeclaredBetween e n qualifier ∧
      d.lookupNamespace n qualifier = d.lookupNamespace e qualifier ∧
      t.lookupNamespace n' qualifier = t.declared? c qualifier) := by
  obtain ⟨top, htop, hlt, hetop⟩ := hground.exists_top
  have hlinked := hground.linked
  induction hplace with
  | top =>
      refine .inr ⟨not_declaredBetween_self hlinked htop hetop, rfl, ?_⟩
      rw [hcopy.linked.lookupNamespace_eq hcopy.parent_eq hcopy.lt .refl, hcopy.parent_eq]
      exact Option.or_none
  | @child n n' m m' i hparent hm hm' ih =>
      have hchild := List.mem_of_getElem? hm
      have hchild' := List.mem_of_getElem? hm'
      have hmtop : d.Below top m := (hetop.trans hparent.below_left).child hchild
      -- The element does not lie below itself, so that the two children are of one kind.
      have hne : m ≠ e := by
        rintro rfl
        exact hlinked.not_below_parent htop hetop (hlinked.parent_eq hchild) hparent.below_left
      have hdeclared : t.declared? m' qualifier = d.declared? m qualifier := by
        unfold declared? element?
        rw [hcopy.mirrors.kind_eq (hparent.child hm hm') hne]
      have hbefore := hlinked.lookupNamespace_eq htop hlt hmtop qualifier
      have hafter := hcopy.linked.lookupNamespace_eq hcopy.parent_eq hcopy.lt
        (hparent.below_right.child hchild') qualifier
      rw [hlinked.parent_eq hchild, Option.bind_some] at hbefore
      rw [hcopy.linked.parent_eq hchild', hdeclared, Option.bind_some] at hafter
      rw [declaredBetween_iff hlinked hparent.below_left hchild hne]
      cases hown : d.declared? m qualifier with
      | some uri =>
          rw [hown] at hbefore hafter
          exact .inl ⟨.inl rfl, hafter.trans hbefore.symm⟩
      | none =>
          rw [hown, Option.none_or] at hbefore hafter
          simpa [hbefore, hafter] using ih

/-- The node's copy gives a qualifier the same URI, or the qualifier had its URI from around the macro
and has none in the copy. -/
theorem lookupNamespace_kept_or_lost (qualifier : Option String) :
    v.Keeps d e n qualifier ∧
      t.lookupNamespace n' qualifier = d.lookupNamespace n qualifier ∨
    ¬ v.Keeps d e n qualifier ∧ t.lookupNamespace n' qualifier = none := by
  unfold Vocabularies.Keeps
  rcases hcopy.lookupNamespace_cases hground hplace qualifier with
    ⟨hbetween, hsame⟩ | ⟨hbetween, hbefore, hafter⟩
  · exact .inl ⟨.inl hbetween, hsame⟩
  rw [hcopy.declared?_eq] at hafter
  rw [hafter, hbefore]
  obtain ⟨top, htop, hlt, hetop⟩ := hground.exists_top
  have hself := hground.linked.lookupNamespace_eq htop hlt hetop qualifier
  cases hown : d.declared? e qualifier with
  | some uri =>
      rw [hown] at hself
      exact .inl ⟨.inr (.inl rfl), hself.symm⟩
  | none =>
      rw [Option.none_or]
      -- Only what is declared around the macro is left, and of that what is declared again.
      cases qualifier with
      | none => cases hlook : d.lookupNamespace e none <;> simp [hbetween, Vocabularies.Redeclares]
      | some key =>
          by_cases hkey : key = ""
          · subst hkey
            cases hlook : d.lookupNamespace e (some "") <;>
              simp [hbetween, Vocabularies.Redeclares, Option.filter]
          · cases hlook : d.lookupNamespace e (some key) with
            | none => simp [hkey, Option.filter, hlook]
            | some uri =>
                cases hcovers : v.covers ⟨some key, some uri⟩ <;>
                  simp [hbetween, Vocabularies.Redeclares, hkey, Option.filter, hlook, hcovers]

/-- A qualifier that is kept refers to the same vocabularies in the copy. One that is lost does so
where its URI made no difference. -/
theorem agrees_iff (qualifier : Option String) (vocabulary : Namespace) :
    (t.namespaceOf n' qualifier).agrees vocabulary = (d.namespaceOf n qualifier).agrees vocabulary ↔
      v.Refers d e n qualifier vocabulary := by
  unfold Vocabularies.Refers namespaceOf
  rcases hcopy.lookupNamespace_kept_or_lost hground hplace qualifier with
    ⟨hkept, hsame⟩ | ⟨hlost, hnone⟩
  · simp [hkept, hsame]
  · simp [hlost, hnone, eq_comm]

/-- At the same place in the copy stands an element of the same name with the same attributes. -/
theorem element_cases {element : Element} (helement : d.element? n = some element) :
    ∃ element', t.element? n' = some element' ∧ element'.name = element.name ∧
      element.attributes ⊆ element'.attributes := by
  by_cases hne : n = e
  · subst hne
    obtain rfl := hplace.eq_top_right hground
    have hname := hcopy.name?_eq
    have hattributes := hcopy.attributes_subset
    simp only [name?, attributes, helement, Option.map_some, Option.elim_some] at hname hattributes
    obtain ⟨element', helement', hname⟩ := Option.map_eq_some_iff.mp hname
    rw [helement', Option.elim_some] at hattributes
    exact ⟨element', helement', hname, hattributes⟩
  · have hkind := hcopy.mirrors.kind_eq hplace hne
    exact ⟨element, (congrArg NodeKind.element? hkind).trans helement, rfl, List.Subset.refl _⟩

/-- An element belongs in the copy to a vocabulary as before exactly when the qualifier of its name
refers to the vocabulary as before. -/
theorem inNamespace_iff {element : Element} (helement : d.element? n = some element)
    (vocabulary : Namespace) :
    t.inNamespace n' vocabulary = d.inNamespace n vocabulary ↔
      v.Refers d e n element.name.qualifier vocabulary := by
  obtain ⟨element', helement', hname, -⟩ := hcopy.element_cases hground hplace helement
  rw [← hcopy.agrees_iff hground hplace]
  simp only [inNamespace, elementNamespace?, helement, helement', hname, Option.map_some,
    Option.any_some]

/-- An attribute is in the copy the directive that it was exactly when it declares something, or the
qualifier that speaks for it refers to the vocabulary as before: its own, or that of its element. -/
theorem attributeMatches_iff {element : Element} (helement : d.element? n = some element)
    (attr : Attribute) (vocabulary : Namespace) :
    (∀ name, t.attributeMatches n' attr ⟨vocabulary, name⟩ =
        d.attributeMatches n attr ⟨vocabulary, name⟩) ↔
      attr.name.isDeclaration ∨
        v.Refers d e n (attr.name.qualifier.or element.name.qualifier) vocabulary := by
  cases hdeclaration : attr.name.isDeclaration with
  | true => simp [attributeMatches, hdeclaration]
  | false =>
      cases hqualifier : attr.name.qualifier with
      | none =>
          rw [Option.none_or, ← hcopy.inNamespace_iff hground hplace helement]
          simp only [attributeMatches, hdeclaration, hqualifier]
          simp [forall_named_and_iff]
      | some qualifier =>
          rw [Option.some_or, ← hcopy.agrees_iff hground hplace]
          simp only [attributeMatches, hdeclaration, hqualifier]
          simp [forall_named_and_iff]

end MacroCopy

/-! ## Copies of macros -/

namespace MacroTable

/-- A copy of the element `e` of a document that a rendering works with: one that was made from its
own document, or one among those imported from a library. -/
inductive CopyOf (v : Vocabularies) (d : Document) (e : NodeId) : Document → NodeId → Prop where
  | copied : CopyOf v d e (copyElement v d e).1 (copyElement v d e).2
  | imported {start : Document} {root c : NodeId} {i : Nat} (hlinked : start.WellLinked)
    (hroot : d.rootElement? = some root)
    (he : (definitions v d (d.subtree root))[i]? = some e)
    (hc : (importLibrary v d start).2[i]? = some c) : CopyOf v d e (importLibrary v d start).1 c

theorem CopyOf.macroCopy (h : CopyOf v d e t c) (hground : d.Grounded e)
    (helement : d.isElement e = true) : MacroCopy v d e t c := by
  cases h with
  | copied => exact macroCopy_copyElement hground helement
  | imported hlinked hroot he hc =>
      have hcopies := macroCopies_importLibrary (v := v) hlinked hground.linked hroot
      obtain ⟨hi, rfl⟩ := List.getElem?_eq_some_iff.mp he
      obtain ⟨hi', rfl⟩ := List.getElem?_eq_some_iff.mp hc
      exact (List.forall₂_iff_get.mp hcopies).2 _ hi hi'

/-- The copy of a macro has no parent, and its nodes stand for the nodes of the macro one by one. An
element of the copy belongs to a vocabulary as before, and an attribute is the directive that it was,
exactly when the qualifier that speaks for it refers to the vocabulary as before. -/
theorem CopyOf.keeps_directives_iff (hground : d.Grounded e) (helement : d.isElement e = true)
    (hcopy : CopyOf v d e t c) :
    t.parent c = none ∧ (∀ n, d.Below e n ↔ ∃ n', Counterpart d t e c n n') ∧
      ∀ n n', Counterpart d t e c n n' → ∀ element, d.element? n = some element →
        ∀ vocabulary,
          (t.inNamespace n' vocabulary = d.inNamespace n vocabulary ↔
            v.Refers d e n element.name.qualifier vocabulary) ∧
          ∀ attr ∈ element.attributes, attr ∈ t.attributes n' ∧
            ((∀ name, t.attributeMatches n' attr ⟨vocabulary, name⟩ =
                d.attributeMatches n attr ⟨vocabulary, name⟩) ↔
              attr.name.isDeclaration ∨
                v.Refers d e n (attr.name.qualifier.or element.name.qualifier) vocabulary) := by
  have hmade := hcopy.macroCopy hground helement
  refine ⟨hmade.parent_eq, fun n => ⟨hmade.mirrors.exists_counterpart, ?_⟩, ?_⟩
  · rintro ⟨n', hplace⟩
    exact hplace.below_left
  · intro n n' hplace element hn vocabulary
    refine ⟨hmade.inNamespace_iff hground hplace hn vocabulary, fun attr hattr => ⟨?_, ?_⟩⟩
    · obtain ⟨element', hn', -, hattributes⟩ := hmade.element_cases hground hplace hn
      rw [attributes_of_element? hn']
      exact hattributes hattr
    · exact hmade.attributeMatches_iff hground hplace hn attr vocabulary

section Examples

/-- A macro with a directive on an element of its own, below an element with the given declarations.
The names are written with the given qualifier. -/
def declaringPage (declarations : List Attribute) (write : String → String) : Document where
  nodes := #[
    { kind := .root, children := [1] },
    { kind := .element { name := .parse "r", attributes := declarations }, parent := some 0,
      children := [2] },
    { kind := .element {
        name := .parse "div", attributes := [⟨.parse "metal:define-macro", "m"⟩] },
      parent := some 1, children := [3] },
    { kind := .element {
        name := .parse (write "block"), attributes := [⟨.parse "content", "string:a"⟩] },
      parent := some 2 }]

/-- A qualifier that is declared around the macro for directives is declared on the copy. -/
theorem CopyOf.keeps_directives_of_qualifier :
    let d := declaringPage [⟨.parse "xmlns:t", "http://xml.zope.org/namespaces/tal"⟩] ("t:" ++ ·)
    let t := (copyElement {} d 2).1
    d.Grounded 2 ∧ d.isElement 2 = true ∧ CopyOf {} d 2 t 4 ∧
      Counterpart d t 2 4 3 5 ∧ d.inNamespace 3 .tal = true ∧
      t.inNamespace 5 .tal = d.inNamespace 3 .tal ∧
      ∀ name, t.attributeMatches 5 ⟨.parse "content", "string:a"⟩ ⟨.tal, name⟩ =
        d.attributeMatches 3 ⟨.parse "content", "string:a"⟩ ⟨.tal, name⟩ := by
  intro d t
  have hground : d.Grounded 2 := by
    have hlinked : d.WellLinked := by decide +kernel
    have htop : d.Rooted 1 := ⟨0, by decide +kernel, .child .refl (by decide +kernel)⟩
    exact .of_parent hlinked htop (by decide +kernel)
  have helement : d.isElement 2 = true := by decide +kernel
  have hplace : Counterpart d t 2 4 3 5 := by
    apply Counterpart.child (i := 0) .top <;> decide +kernel
  obtain ⟨element, helement₃, hname, hattributes⟩ : ∃ element, d.element? 3 = some element ∧
      element.name.qualifier = some "t" ∧ ⟨.parse "content", "string:a"⟩ ∈ element.attributes := by
    refine ⟨{ name := .parse "t:block", attributes := [⟨.parse "content", "string:a"⟩] }, ?_⟩
    decide +kernel
  have hrefers : Vocabularies.Refers {} d 2 3 (some "t") .tal := by
    refine .inl (.inr (.inr fun uri huri => ?_))
    have hlook : d.lookupNamespace 2 (some "t") = some "http://xml.zope.org/namespaces/tal" := by
      decide +kernel
    obtain rfl := Option.some.inj (hlook.symm.trans huri)
    exact ⟨nofun, by decide, by decide⟩
  obtain ⟨-, -, hkeeps⟩ := CopyOf.keeps_directives_iff hground helement .copied
  obtain ⟨hspace, hmatches⟩ := hkeeps 3 5 hplace element helement₃ .tal
  rw [hname] at hspace hmatches
  refine ⟨hground, helement, .copied, hplace, by decide +kernel, hspace.mpr hrefers, ?_⟩
  exact (hmatches _ hattributes).2.mpr (.inr hrefers)

/-- What the default namespace makes a directive is none in the copy. -/
theorem CopyOf.not_keeps_directives_of_default :
    let d := declaringPage [⟨.parse "xmlns", "http://xml.zope.org/namespaces/tal"⟩] id
    let t := (copyElement {} d 2).1
    d.Grounded 2 ∧ d.isElement 2 = true ∧ CopyOf {} d 2 t 4 ∧ Counterpart d t 2 4 3 5 ∧
      d.inNamespace 3 .tal = true ∧ t.inNamespace 5 .tal = false ∧
      ⟨.parse "content", "string:a"⟩ ∈ t.attributes 5 ∧
      d.attributeMatches 3 ⟨.parse "content", "string:a"⟩ ⟨.tal, "content"⟩ = true ∧
      t.attributeMatches 5 ⟨.parse "content", "string:a"⟩ ⟨.tal, "content"⟩ = false := by
  intro d t
  have hlinked : d.WellLinked := by decide +kernel
  have htop : d.Rooted 1 := ⟨0, by decide +kernel, .child .refl (by decide +kernel)⟩
  have hplace : Counterpart d t 2 4 3 5 := by
    apply Counterpart.child (i := 0) .top <;> decide +kernel
  exact ⟨.of_parent hlinked htop (by decide +kernel), by decide +kernel, .copied, hplace,
    by decide +kernel, by decide +kernel, by decide +kernel, by decide +kernel, by decide +kernel⟩

end Examples

end MacroTable

end PageTemplate
