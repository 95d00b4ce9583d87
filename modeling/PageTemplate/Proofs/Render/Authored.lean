import PageTemplate.Proofs.Markup.Copying
import PageTemplate.Render.MacroTable

/-! # Markup that was written by an author

The nodes of templates and libraries are origins. A node stems from them when it is a copy of one:
an element may have lost attributes or got others, but every value of an attribute is one that
stands in an origin. Copying, and what is done to copies before they are rendered, keeps this.
-/

namespace PageTemplate

open Markup

variable {origin : NodeKind → Prop}

/-- The value is that of an attribute of an origin. -/
def Authored (origin : NodeKind → Prop) (value : String) : Prop :=
  ∃ element, origin (.element element) ∧ ∃ attr ∈ element.attributes, attr.value = value

/-- The node is an origin, or an element made from one whose attribute values are authored. -/
def Stems (origin : NodeKind → Prop) : NodeKind → Prop
  | .element element =>
    (∃ source, origin (.element source) ∧ element.name = source.name ∧
      element.position = source.position ∧ element.endPosition = source.endPosition) ∧
    ∀ attr ∈ element.attributes, Authored origin attr.value
  | kind => origin kind

theorem stems_of_origin {kind : NodeKind} (h : origin kind) : Stems origin kind := by
  cases kind with
  | element element =>
      exact ⟨⟨element, h, rfl, rfl, rfl⟩, fun attr hattr => ⟨element, h, attr, hattr, rfl⟩⟩
  | _ => exact h

/-- A change of an element's attributes and of the source it is said to come from. -/
theorem Stems.mapElement {kind : NodeKind} (h : Stems origin kind) {change : Element → Element}
    (hname : ∀ element, (change element).name = element.name ∧
      (change element).position = element.position ∧
      (change element).endPosition = element.endPosition)
    (hvalues : ∀ element, (∀ attr ∈ element.attributes, Authored origin attr.value) →
      ∀ attr ∈ (change element).attributes, Authored origin attr.value) :
    Stems origin (kind.mapElement change) := by
  cases kind with
  | element element =>
      obtain ⟨⟨source, hsource, hsame⟩, hattributes⟩ := h
      obtain ⟨h1, h2, h3⟩ := hname element
      exact ⟨⟨source, hsource, h1.trans hsame.1, h2.trans hsame.2.1, h3.trans hsame.2.2⟩,
        hvalues element hattributes⟩
  | _ => exact h

theorem Stems.set {kind : NodeKind} (h : Stems origin kind) (name : QualifiedName)
    {value : String} (hvalue : Authored origin value) :
    Stems origin (kind.mapElement (Element.set name value)) := by
  refine h.mapElement (fun element => ?_) fun element hattributes attr hattr => ?_
  · unfold Element.set
    split <;> exact ⟨rfl, rfl, rfl⟩
  · unfold Element.set at hattr
    split at hattr
    · obtain ⟨index, hindex, hget⟩ := List.mem_iff_getElem.mp hattr
      rw [List.getElem_modify] at hget
      split at hget
      · exact hget ▸ hvalue
      · exact hget ▸ hattributes _ (List.getElem_mem _)
    · rcases List.mem_append.mp hattr with hattr | hattr
      · exact hattributes attr hattr
      · exact List.mem_singleton.mp hattr ▸ hvalue

theorem Stems.erase {kind : NodeKind} (h : Stems origin kind) (index : Nat) :
    Stems origin (kind.mapElement fun element =>
      { element with attributes := element.attributes.eraseIdx index }) :=
  h.mapElement (fun _ => ⟨rfl, rfl, rfl⟩) fun _ hattributes attr hattr =>
    hattributes attr (List.mem_of_mem_eraseIdx hattr)

theorem Stems.imported {kind : NodeKind} (h : Stems origin kind) (source : String) :
    Stems origin (kind.mapElement fun element => { element with importedFrom := some source }) :=
  h.mapElement (fun _ => ⟨rfl, rfl, rfl⟩) fun _ hattributes => hattributes

variable {d d' : Document} {n m copy : NodeId} {h : Nat}

theorem Stems.attributes (hstems : Stems origin (d.kind n)) :
    ∀ attr ∈ d.attributes n, Authored origin attr.value := by
  unfold Document.attributes Document.element?
  cases hkind : d.kind n with
  | element element =>
      rw [hkind] at hstems
      exact hstems.2
  | _ => simp [NodeKind.element?]

/-! ## Declarations -/

theorem Markup.Document.mem_addDeclarations {seen rest : List (Option String × String)}
    {declaration : Option String × String}
    (h : declaration ∈ Document.addDeclarations seen rest) :
    declaration ∈ seen ∨ declaration ∈ rest := by
  induction rest generalizing seen with
  | nil => exact .inl h
  | cons first rest ih =>
      unfold Document.addDeclarations at h
      split at h
      · exact (ih h).imp_right (List.mem_cons_of_mem _)
      · rcases ih h with h | h
        · rcases List.mem_append.mp h with h | h
          · exact .inl h
          · exact .inr (List.mem_singleton.mp h ▸ List.mem_cons_self)
        · exact .inr (List.mem_cons_of_mem _ h)

/-- The URIs of the declarations in force at a node are values of attributes above it. -/
theorem Vocabularies.authored_declarations (v : Vocabularies)
    (hstems : ∀ m ∈ d.ancestry n, Stems origin (d.kind m)) :
    ∀ declaration ∈ v.declarations d n, Authored origin declaration.2 := by
  intro declaration hdeclaration
  obtain ⟨⟨qualifier, uri⟩, hscope, hqualifier⟩ := List.mem_filterMap.mp hdeclaration
  obtain rfl : declaration.2 = uri := by
    obtain ⟨qualifier, -, hsome⟩ := Option.bind_eq_some_iff.mp hqualifier
    split at hsome
    · exact (congrArg Prod.snd (Option.some.inj hsome)).symm
    · cases hsome
  rcases Document.mem_addDeclarations hscope with hscope | hscope
  · cases hscope
  · obtain ⟨m, hm, hdeclares⟩ := List.mem_flatMap.mp hscope
    obtain ⟨attr, hattr, hname⟩ := List.mem_filterMap.mp hdeclares
    obtain ⟨_, -, hpair⟩ := Option.map_eq_some_iff.mp hname
    obtain ⟨-, hvalue⟩ := Prod.mk.inj hpair
    exact hvalue ▸ (hstems m hm).attributes attr hattr

/-! ## Nodes that stem from origins -/

/-- A node with a property that stems from the origins. -/
def StemsOn (origin : NodeKind → Prop) (ok : NodeId → Prop) (n : NodeId) (kind : NodeKind) : Prop :=
  ok n ∧ Stems origin kind

/-- One element was changed, and still stems from the origins if it did before. -/
structure Retouched (origin : NodeKind → Prop) (x : NodeId) (d d' : Document) : Prop extends
    Document.Relabeled x d d' where
  stems : Stems origin (d.kind x) → Stems origin (d'.kind x)

section Retouched

variable {d'' : Document} {x : NodeId}

protected theorem Retouched.refl (hlinked : d.WellLinked) : Retouched origin x d d :=
  ⟨.refl hlinked, id⟩

protected theorem Retouched.trans (h : Retouched origin x d d') (h' : Retouched origin x d' d'') :
    Retouched origin x d d'' :=
  ⟨h.toRelabeled.trans h'.toRelabeled, fun hx => h'.stems (h.stems hx)⟩

theorem retouched_updateElement (hlinked : d.WellLinked) (x : NodeId) {change : Element → Element}
    (hchange : ∀ kind, Stems origin kind → Stems origin (kind.mapElement change)) :
    Retouched origin x d (d.updateElement x change) := by
  refine ⟨Document.relabeled_updateElement hlinked x change, fun hx => ?_⟩
  by_cases hlt : x < d.size
  · rw [Document.kind_updateElement change d x x hlt, if_pos rfl]
    exact hchange _ hx
  · have hsame : (d.updateElement x change).kind x = d.kind x := by
      unfold Document.kind Document.updateElement
      rw [Document.node_update, if_neg fun h => hlt h.2]
    rwa [hsame]

theorem retouched_removeAttributeBySpec (hlinked : d.WellLinked) (x : NodeId)
    (spec : AttributeSpec) : Retouched origin x d (d.removeAttributeBySpec x spec).1 := by
  unfold Document.removeAttributeBySpec
  split
  next index _ => exact retouched_updateElement hlinked x fun kind hkind => hkind.erase index
  next => exact .refl hlinked

theorem Retouched.throughout {ok : NodeId → Prop} (hretouched : Retouched origin x d d')
    (hgood : Document.Throughout (StemsOn origin ok) d h n) :
    Document.Throughout (StemsOn origin ok) d' h n := by
  refine hgood.congr (fun m _ => ?_) fun m _ hm => ?_
  · rw [hretouched.children_eq]
    exact List.Subset.refl _
  · by_cases hx : m = x
    · subst hx
      exact ⟨hm.1, hretouched.stems hm.2⟩
    · rwa [hretouched.confined.kind_eq hx]

theorem Retouched.copied {ok : NodeId → Prop} (hretouched : Retouched origin copy d' d'')
    (hcopy : Document.Copied (StemsOn origin ok) h d d' copy) :
    Document.Copied (StemsOn origin ok) h d d'' copy := by
  refine ⟨Document.Confined.trans hcopy.grown (hretouched.confined.mono ?_), hcopy.new,
    hretouched.size_eq ▸ hcopy.lt, (hretouched.parent_eq copy).trans hcopy.parent_eq,
    hretouched.throughout hcopy.throughout⟩
  rintro _ rfl
  exact hcopy.new

theorem retouched_declareMissing {declarations : List (String × String)} (hlinked : d.WellLinked)
    (x : NodeId) (hvalues : ∀ declaration ∈ declarations, Authored origin declaration.2) :
    Retouched origin x d (declareMissing d x declarations) := by
  unfold declareMissing
  refine List.foldlRecOn (motive := Retouched origin x d) _ _ (.refl hlinked) ?_
  intro t ht declaration hdeclaration
  dsimp only
  split
  · exact ht
  · exact ht.trans (retouched_updateElement ht.confined.linked x fun kind hkind =>
      hkind.set _ (hvalues declaration hdeclaration))

end Retouched

theorem isElement_declareMissing (d : Document) (x n : NodeId)
    (declarations : List (String × String)) :
    (declareMissing d x declarations).isElement n = d.isElement n := by
  unfold declareMissing
  refine List.foldlRecOn (motive := fun t : Document => t.isElement n = d.isElement n) _ _ rfl ?_
  intro t ht declaration _
  dsimp only
  split
  · exact ht
  · exact (Document.isElement_updateElement _ _ _ _).trans ht

/-! ## Copies of macros -/

variable (v : Vocabularies) {element : NodeId} {ok : NodeId → Prop}

theorem MacroTable.isElement_copyElement (d : Document) (element : NodeId) :
    (copyElement v d element).1.isElement (copyElement v d element).2 = d.isElement element :=
  (isElement_declareMissing _ _ _ _).trans (Document.isElement_deepCopy d element)

theorem MacroTable.copied_copyElement (hlinked : d.WellLinked)
    (hgood : Document.Throughout (StemsOn origin ok) d h element)
    (habove : ∀ m, d.Below m element → Stems origin (d.kind m)) :
    Document.Copied (StemsOn origin (d.size ≤ ·)) h d (copyElement v d element).1
      (copyElement v d element).2 := by
  have hcopy : Document.Copied (StemsOn origin (d.size ≤ ·)) h d (d.deepCopy element).1
      (d.deepCopy element).2 :=
    hgood.copied hlinked fun n kind hkind new hnew => ⟨hnew, hkind.2⟩
  have hdeclared := v.authored_declarations fun m hm =>
    habove m (Document.below_of_mem_lineage hlinked hm)
  exact (retouched_declareMissing hcopy.grown.linked _ hdeclared).copied hcopy

/-- The copy of a macro is new and has no parent. -/
theorem MacroTable.copied_copyElement_any (hlinked : d.WellLinked) (element : NodeId) :
    Document.Copied (fun _ _ => True) (d.height element) d (copyElement v d element).1
      (copyElement v d element).2 := by
  have hcopy : Document.Copied (fun _ _ => True) (d.height element) d (d.deepCopy element).1
      (d.deepCopy element).2 :=
    Document.copied_graft hlinked (d.tree element) fun _ _ _ _ => trivial
  unfold copyElement declareMissing
  refine List.foldlRecOn (motive := fun d' => Document.Copied _ _ d d' _) _ _ hcopy ?_
  intro d' hd' declaration _
  dsimp only
  split
  · exact hd'
  · exact hd'.updateElement _ fun _ => trivial

theorem MacroTable.copied_importElement (hlinked : d.WellLinked) (library : Document)
    (horigin : ∀ n, origin (library.kind n)) (element : NodeId) :
    Document.Copied (StemsOn origin (d.size ≤ ·)) (library.height element) d
      (importElement v library d element).1 (importElement v library d element).2 := by
  have hcopy : Document.Copied (StemsOn origin (d.size ≤ ·)) (library.height element) d
      (d.importSubtree library element).1 (d.importSubtree library element).2 := by
    refine Document.copied_importSubtree hlinked library element (fun new hnew kind hkind => ?_)
      fun new kind source hkind => ⟨hkind.1, hkind.2.imported source⟩
    obtain ⟨m, rfl⟩ := Document.exists_kind_of_mem_treeTo library library.size element kind hkind
    exact ⟨hnew, stems_of_origin (horigin m)⟩
  have hdeclared : ∀ declaration ∈ v.declarations library element, Authored origin declaration.2 :=
    v.authored_declarations fun m _ => stems_of_origin (horigin m)
  exact (retouched_declareMissing hcopy.grown.linked _ hdeclared).copied hcopy

end PageTemplate
