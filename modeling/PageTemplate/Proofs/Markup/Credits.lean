import PageTemplate.Markup.NamespaceScope
import PageTemplate.Proofs.Markup.FragmentReading

/-! # The sources that elements are said to come from

The top of what was copied from another document remembers the source of that document. Whatever
is done to a document afterwards, an element that is said to come from a source was written in a
library of that name: copies say what their originals say, and no new element says anything.
-/

namespace PageTemplate.Markup

open Document

/-- The elements have one name, and their tags stand at the same places. -/
structure Element.SameMarkup (element other : Element) : Prop where
  name : element.name = other.name
  position : element.position = other.position
  endPosition : element.endPosition = other.endPosition

/-- The markup of the element was written in the document, as far as its name and places tell: two
documents that have tags of one name at the same places have both written the element. -/
def Document.Wrote (d : Document) (element : Element) : Prop :=
  ∃ n written, d.Below root n ∧ d.kind n = .element written ∧ element.SameMarkup written

/-- No element of the document is said to come from elsewhere. -/
def Document.IsOriginal (d : Document) : Prop :=
  ∀ n element, d.kind n = .element element → element.importedFrom = none

/-- If the element is said to come from a source, then a library of that name wrote it. -/
def Element.Credited (libraries : List Document) (element : Element) : Prop :=
  ∀ source, element.importedFrom = some source →
    ∃ library ∈ libraries, library.sourceName = some source ∧ library.Wrote element

/-- A document of the given name whose elements come from where they are said to come from. -/
structure Document.Credits (libraries : List Document) (name : Option String) (d : Document) :
    Prop where
  sourceName_eq : d.sourceName = name
  credited : ∀ n element, d.kind n = .element element → element.Credited libraries

variable {libraries : List Document} {name : Option String} {d d' : Document}
  {element element' : Element} {kind : NodeKind} {x n p new reference : NodeId}

namespace Element

theorem credited_of_none (h : element.importedFrom = none) : element.Credited libraries := by
  intro source hsource
  rw [h] at hsource
  cases hsource

/-- The attributes of an element do not matter. -/
theorem Credited.of_attributes (h : element.Credited libraries) (attributes : List Attribute) :
    { element with attributes }.Credited libraries := by
  intro source hsource
  obtain ⟨library, hlibrary, hname, n, written, hbelow, hwritten, hsame⟩ := h source hsource
  exact ⟨library, hlibrary, hname, n, written, hbelow, hwritten, hsame.1, hsame.2, hsame.3⟩

theorem exists_set_eq (name : QualifiedName) (value : String) (element : Element) :
    ∃ attributes, Element.set name value element = { element with attributes } := by
  unfold Element.set
  split <;> exact ⟨_, rfl⟩

end Element

namespace Document

theorem kind_updateElement_cases (d : Document) (x n : NodeId) (change : Element → Element) :
    (d.updateElement x change).kind n = d.kind n ∨
      n = x ∧ (d.updateElement x change).kind n = (d.kind n).mapElement change := by
  unfold updateElement kind
  rw [node_update]
  split
  next h => exact .inr ⟨h.1, rfl⟩
  next => exact .inl rfl

theorem sourceName_detach (d : Document) (x : NodeId) :
    (d.detach x).sourceName = d.sourceName := by
  unfold detach
  split <;> rfl

theorem sourceName_orphan (d : Document) (children : List NodeId) :
    (d.orphan children).sourceName = d.sourceName := by
  unfold orphan
  induction children generalizing d with
  | nil => rfl
  | cons child children ih =>
      rw [List.foldl_cons, ih]
      rfl

namespace Credits

variable (h : d.Credits libraries name)

include h

/-- Nothing but the links of the nodes has changed. -/
theorem of_kinds (hname : d'.sourceName = d.sourceName) (hkinds : ∀ n, d'.kind n = d.kind n) :
    d'.Credits libraries name :=
  ⟨hname.trans h.sourceName_eq, fun n element hkind =>
    h.credited n element ((hkinds n).symm.trans hkind)⟩

theorem detach (x : NodeId) : (d.detach x).Credits libraries name :=
  h.of_kinds (sourceName_detach d x) (kind_detach d x)

theorem place (p : NodeId) (index : Nat) (x : NodeId) :
    (d.place p index x).Credits libraries name :=
  h.of_kinds rfl (kind_place d p index x)

theorem append (p x : NodeId) : (d.append p x).Credits libraries name := (h.detach x).place p _ x

theorem clearChildren (x : NodeId) : (d.clearChildren x).Credits libraries name :=
  h.of_kinds (sourceName_orphan d _) (kind_clearChildren d x)

theorem replaceChildren (x : NodeId) (nodes : List NodeId) :
    (d.replaceChildren x nodes).Credits libraries name :=
  List.foldlRecOn (motive := fun t : Document => t.Credits libraries name) nodes _
    (h.clearChildren x) fun _ ht node _ => ht.append x node

theorem create (hkind : ∀ element, kind = .element element → element.Credited libraries) :
    (d.create kind).1.Credits libraries name := by
  refine ⟨h.sourceName_eq, fun n element helement => ?_⟩
  unfold Document.kind at helement
  rw [node_create] at helement
  split at helement
  · exact hkind element helement
  · exact h.credited n element helement

/-- One element has changed, its source only to a true one. -/
theorem updateElement {change : Element → Element}
    (hchange : ∀ element, d.kind x = .element element → element.Credited libraries →
      (change element).Credited libraries) : (d.updateElement x change).Credits libraries name := by
  refine ⟨h.sourceName_eq, fun n element hkind => ?_⟩
  rcases kind_updateElement_cases d x n change with heq | ⟨rfl, heq⟩
  · exact h.credited n element (heq.symm.trans hkind)
  · rw [heq] at hkind
    cases hold : d.kind n with
    | element old =>
        rw [hold] at hkind
        cases hkind
        exact hchange old hold (h.credited n old hold)
    | _ =>
        rw [hold] at hkind
        cases hkind

theorem setElement (x : NodeId) (key : QualifiedName) (value : String) :
    (d.updateElement x (Element.set key value)).Credits libraries name := by
  refine h.updateElement fun element _ hcredited => ?_
  obtain ⟨attributes, heq⟩ := Element.exists_set_eq key value element
  rw [heq]
  exact hcredited.of_attributes attributes

theorem eraseAttribute (x : NodeId) (index : Nat) :
    (d.eraseAttribute x index).Credits libraries name :=
  h.updateElement fun _ _ hcredited => hcredited.of_attributes _

theorem removeAttribute (x : NodeId) (raw : String) :
    (d.removeAttribute x raw).1.Credits libraries name := by
  unfold Document.removeAttribute
  split
  · exact h.eraseAttribute x _
  · exact h

theorem removeAttributeBySpec (x : NodeId) (spec : AttributeSpec) :
    (d.removeAttributeBySpec x spec).1.Credits libraries name := by
  unfold Document.removeAttributeBySpec
  split
  · exact h.eraseAttribute x _
  · exact h

end Credits

/-! ## Copies -/

mutual
theorem Credits.graft {d : Document} (h : d.Credits libraries name) (tree : Tree)
    (hkinds : ∀ kind ∈ tree.kinds, ∀ element, kind = .element element →
      element.Credited libraries) : (d.graft tree).1.Credits libraries name := by
  match tree with
  | .node kind children =>
      exact (h.create (hkinds kind List.mem_cons_self)).graftBelow _ children fun kind hkind =>
        hkinds kind (List.mem_cons_of_mem _ hkind)
theorem Credits.graftBelow {d : Document} (h : d.Credits libraries name) (top : NodeId)
    (trees : List Tree) (hkinds : ∀ kind ∈ Tree.kindsAll trees, ∀ element,
      kind = .element element → element.Credited libraries) :
    (d.graftBelow top trees).Credits libraries name := by
  match trees with
  | [] => exact h
  | tree :: trees =>
      exact ((h.graft tree fun kind hkind => hkinds kind (List.mem_append_left _ hkind)).place
        top _ _).graftBelow top trees fun kind hkind => hkinds kind (List.mem_append_right _ hkind)
end

namespace Credits

variable (h : d.Credits libraries name)

include h

theorem deepCopy (n : NodeId) : (d.deepCopy n).1.Credits libraries name := by
  refine h.graft (d.tree n) fun kind hkind element helement => ?_
  obtain ⟨m, rfl⟩ := exists_kind_of_mem_treeTo d d.size n kind hkind
  exact h.credited m element helement

/-- What is copied from the tree of a library comes from there. -/
theorem importSubtree {library : Document} (hlibrary : library ∈ libraries)
    (horiginal : library.IsOriginal) (hbelow : library.Below root n) :
    (d.importSubtree library n).1.Credits libraries name := by
  have hgraft := h.graft (library.tree n) fun kind hkind element helement => by
    obtain ⟨m, rfl⟩ := exists_kind_of_mem_treeTo library library.size n kind hkind
    exact Element.credited_of_none (horiginal m element helement)
  unfold Document.importSubtree
  dsimp only
  split
  · exact hgraft
  next source hsource =>
    refine hgraft.updateElement fun element hkind _ => ?_
    rintro _ ⟨⟩
    rw [kind_graft, kind_tree] at hkind
    exact ⟨library, hlibrary, hsource, n, element, hbelow, hkind, rfl, rfl, rfl⟩

end Credits

/-! ## Edits -/

/-- The property does not depend on how the nodes are linked. -/
def IgnoresLinks (good : Document → Prop) : Prop :=
  ∀ d d', d'.size = d.size → d'.sourceName = d.sourceName → (∀ n, d'.kind n = d.kind n) →
    good d → good d'

theorem ignoresLinks_credits : IgnoresLinks (Credits libraries name) :=
  fun _ _ _ hname hkinds h => h.of_kinds hname hkinds

section Edits

variable {good : Document → Prop}

theorem holds_position (reference : NodeId) : Holds good (position reference) := by
  refine .bind .get fun t => ?_
  split
  · exact .pure _
  · exact .throw _

variable (hgood : IgnoresLinks good)

include hgood

theorem holds_detach (x : NodeId) :
    Holds good (modify (Document.detach · x) : Edit Unit) :=
  .modify fun d h => hgood d _ (size_detach d) (sourceName_detach d x) (kind_detach d x) h

theorem holds_place (index : Nat) (p x : NodeId) :
    Holds good (modify (Document.place · p index x) : Edit Unit) :=
  .modify fun d h => hgood d _ (size_place d index) rfl (kind_place d p index x) h

theorem holds_insertBefore (reference new : NodeId) :
    Holds good (insertBefore reference new) :=
  .bind (holds_detach hgood new) fun _ => .bind (holds_position reference) fun _ =>
    holds_place hgood _ _ new

theorem holds_insertAfter (reference new : NodeId) :
    Holds good (insertAfter reference new) :=
  .bind (holds_detach hgood new) fun _ => .bind (holds_position reference) fun _ =>
    holds_place hgood _ _ new

theorem holds_replace (old : NodeId) (replacements : List NodeId) :
    Holds good (replace old replacements) :=
  .bind (.forM (holds_insertBefore hgood old) _) fun _ => holds_detach hgood old

theorem holds_omitTag (x : NodeId) : Holds good (omitTag x) :=
  .bind .get fun _ => .bind (holds_replace hgood x _) fun _ => .pure _

end Edits

theorem holds_setAttribute (libraries : List Document) (name : Option String) (x : NodeId)
    (raw value : String) : Holds (Credits libraries name) (setAttribute x raw value) := by
  refine .bind .get fun t => ?_
  split
  · exact .modify fun _ h => h.setElement x _ value
  · exact .throw _

/-! ## Reading -/

theorem kind_setKind_cases (d : Document) (x n : NodeId) (kind : NodeKind) :
    (d.setKind x kind).kind n = kind ∨ (d.setKind x kind).kind n = d.kind n := by
  unfold setKind Document.kind
  rw [node_update]
  split
  · exact .inl rfl
  · exact .inr rfl

/-- The document is credited, and the open elements are not said to come from elsewhere. -/
structure ReadsCredited (libraries : List Document) (name : Option String) (d : Document)
    (opened : OpenNodes) : Prop where
  credits : d.Credits libraries name
  opened : ∀ entry ∈ opened, ∀ element, d.kind entry.2 = .element element →
    element.importedFrom = none

namespace ReadsCredited

variable {opened : OpenNodes} (h : ReadsCredited libraries name d opened)

include h

theorem addNode (p : NodeId)
    (hkind : ∀ element, kind = .element element → element.importedFrom = none) :
    ReadsCredited libraries name (Reading.addNode d p kind).1 opened := by
  refine ⟨(h.credits.create fun element helement =>
    Element.credited_of_none (hkind element helement)).append p _, fun entry hentry element => ?_⟩
  rw [Reading.kind_addNode]
  split
  · exact hkind element
  · exact h.opened entry hentry element

theorem addText (p : NodeId) (content : String) :
    ReadsCredited libraries name (Reading.addText d p content) opened := by
  rcases Reading.addText_cases d p content with htext | ⟨last, existing, -, -, htext⟩
  · rw [htext]
    exact h.addNode p nofun
  · have hkinds : ∀ n element,
        (d.setKind last (.text (existing ++ content))).kind n = .element element →
          d.kind n = .element element := by
      intro n element helement
      rcases kind_setKind_cases d last n (.text (existing ++ content)) with heq | heq
      · rw [heq] at helement
        cases helement
      · rwa [heq] at helement
    rw [htext]
    exact ⟨⟨h.credits.sourceName_eq, fun n element helement =>
      h.credits.credited n element (hkinds n element helement)⟩, fun entry hentry element
        helement => h.opened entry hentry element (hkinds _ element helement)⟩

end ReadsCredited

theorem kept_readsCredited (libraries : List Document) (name : Option String)
    (container : NodeId) : Reading.Kept container (ReadsCredited libraries name) := by
  refine ⟨fun hkind h => h.addNode _ hkind, fun {t opened element} name hread h => ?_,
    fun content h => h.addText _ content, fun {t opened name id} place h => ?_⟩
  · have hkind : ∀ other, NodeKind.element element = .element other →
        other.importedFrom = none := by
      rintro _ ⟨⟩
      exact hread
    have hadded := h.addNode (innermost container opened) hkind
    refine ⟨hadded.credits, fun entry hentry other => ?_⟩
    rcases List.mem_cons.mp hentry with rfl | hentry
    · rw [Reading.kind_addNode, if_pos rfl]
      rintro ⟨⟩
      exact hread
    · exact hadded.opened entry hentry other
  · obtain ⟨hid, hrest⟩ := List.forall_mem_cons.mp h.opened
    refine ⟨h.credits.updateElement fun element hkind _ =>
      Element.credited_of_none (hid element hkind), fun entry hentry element hkind => ?_⟩
    rcases kind_updateElement_cases t id entry.2 _ with heq | ⟨hsame, heq⟩
    · exact hrest entry hentry element (heq.symm.trans hkind)
    · rw [heq] at hkind
      cases hold : t.kind entry.2 with
      | element old =>
          rw [hold] at hkind
          cases hkind
          exact hrest entry hentry old hold
      | _ =>
          rw [hold] at hkind
          cases hkind

theorem holds_readInto (libraries : List Document) (name : Option String) (container : NodeId)
    (markup : String) : Holds (Credits libraries name) (readInto container markup) := by
  intro t h
  obtain ⟨opened, hread⟩ := (kept_readsCredited libraries name container).readInto ⟨h, nofun⟩ markup
  exact .of_state hread.credits

theorem holds_parseFragment (libraries : List Document) (name : Option String)
    (markup : String) : Holds (Credits libraries name) (parseFragment markup) := by
  have hholder : ∀ element, NodeKind.element (.named "fragment") = .element element →
      element.Credited libraries := by
    rintro _ ⟨⟩
    exact Element.credited_of_none rfl
  refine .bind (.modifyGet fun _ h => h.create hholder) fun holder => ?_
  exact .bind (holds_readInto libraries name holder markup) fun _ => .bind .get fun t =>
    .bind (.modify fun _ h => h.clearChildren holder) fun _ => .pure _

/-- What was read is said to come from nowhere else. -/
theorem isOriginal_parse {markup : String} {sourceName : Option String}
    (h : parse markup sourceName = .ok d) : d.IsOriginal := by
  have hempty : Credits [] none empty := by
    refine ⟨rfl, fun n element hkind => ?_⟩
    cases n <;> cases hkind
  have hread := (holds_readInto [] none root markup empty hempty).state
  obtain ⟨t, houtcome, rfl⟩ := outcome_of_parse h
  rw [houtcome] at hread
  intro n element helement
  have hcredited := hread.credited n element helement
  cases hsource : element.importedFrom with
  | none => rfl
  | some source =>
      obtain ⟨library, hlibrary, -⟩ := hcredited source hsource
      cases hlibrary

end Document

end PageTemplate.Markup
