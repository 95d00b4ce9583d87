import PageTemplate.Proofs.Markup.Draft
import PageTemplate.Proofs.Markup.Throughout

/-! # Trees with and without their places

What is written twice is read as two trees that differ in where their nodes come from. A view says
whether that counts. Names and attributes count in either view, and what changes nothing but those
keeps elements the same that are the same in a view.
-/

namespace PageTemplate.Markup

/-- Whether it counts where nodes come from. -/
inductive View where
  /-- Everything counts. -/
  | whole
  /-- Places in a source do not count, nor does the source that a copy names. -/
  | bare

/-- Two elements that differ only in where they come from differ only in that after the change. -/
def Element.Blind (change : Element → Element) : Prop :=
  ∀ {e e' : Element}, e'.bare = e.bare → (change e').bare = (change e).bare

namespace Element

variable {e e' : Element}

theorem bare_eq_iff : e'.bare = e.bare ↔ e'.name = e.name ∧ e'.attributes = e.attributes := by
  simp [bare]

/-- Changes of the attributes that look at nothing else. -/
theorem blind_attributes (f : List Attribute → List Attribute) :
    Blind fun e => { e with attributes := f e.attributes } := by
  intro e e' h
  obtain ⟨hname, hattributes⟩ := bare_eq_iff.mp h
  exact bare_eq_iff.mpr ⟨hname, congrArg f hattributes⟩

theorem blind_set (name : QualifiedName) (value : String) : Blind (set name value) := by
  intro e e' h
  obtain ⟨hname, hattributes⟩ := bare_eq_iff.mp h
  unfold set
  rw [hattributes]
  split
  · exact bare_eq_iff.mpr ⟨hname, rfl⟩
  · exact bare_eq_iff.mpr ⟨hname, rfl⟩

end Element

namespace NodeKind

variable {k k' : NodeKind}

theorem element?_bare (kind : NodeKind) : kind.bare.element? = kind.element?.map Element.bare := by
  cases kind <;> rfl

/-- Nodes other than elements do not say where they come from. -/
theorem bare_eq_cases (h : k'.bare = k.bare) :
    k' = k ∨ ∃ e e', k = .element e ∧ k' = .element e' ∧ e'.bare = e.bare := by
  cases k' with
  | element e' =>
      cases k with
      | element e => exact .inr ⟨e, e', rfl, rfl, NodeKind.element.inj h⟩
      | _ => cases h
  | _ =>
      cases k with
      | element e => cases h
      | _ => exact .inl h

theorem isElement_of_bare (h : k'.bare = k.bare) : k'.isElement = k.isElement := by
  obtain rfl | ⟨e, e', rfl, rfl, -⟩ := bare_eq_cases h
  · rfl
  · rfl

end NodeKind

mutual
theorem Tree.height_map (view : NodeKind → NodeKind) (tree : Tree) :
    (tree.map view).height = tree.height := by
  match tree with
  | .node kind children =>
      unfold Tree.map Tree.height
      rw [Tree.heightAll_mapAll]
theorem Tree.heightAll_mapAll (view : NodeKind → NodeKind) (trees : List Tree) :
    Tree.heightAll (Tree.mapAll view trees) = Tree.heightAll trees := by
  match trees with
  | [] => rfl
  | tree :: trees =>
      unfold Tree.mapAll Tree.heightAll
      rw [Tree.height_map, Tree.heightAll_mapAll]
end

namespace View

/-- What is seen of a kind of node. -/
def kind : View → NodeKind → NodeKind
  | whole, kind => kind
  | bare, kind => kind.bare

/-- What is seen of a tree. -/
def tree : View → Tree → Tree
  | whole, tree => tree
  | bare, tree => tree.bare

variable {view : View} {k k' : NodeKind}

theorem bare_eq (h : view.kind k' = view.kind k) : k'.bare = k.bare := by
  cases view with
  | whole => exact congrArg NodeKind.bare h
  | bare => exact h

theorem kind_mapElement (h : view.kind k' = view.kind k) {change : Element → Element}
    (hblind : Element.Blind change) :
    view.kind (k'.mapElement change) = view.kind (k.mapElement change) := by
  cases view with
  | whole => exact congrArg (·.mapElement change) h
  | bare =>
      obtain rfl | ⟨e, e', rfl, rfl, he⟩ := NodeKind.bare_eq_cases h
      · rfl
      · exact congrArg NodeKind.element (hblind he)

@[simp] theorem tree_node (view : View) (k : NodeKind) (children : List Tree) :
    view.tree (.node k children) = .node (view.kind k) (children.map view.tree) := by
  cases view with
  | whole => exact congrArg (Tree.node k) (List.map_id _).symm
  | bare => exact congrArg (Tree.node k.bare) (Tree.mapAll_eq_map NodeKind.bare children)

@[simp] theorem height_tree (view : View) (tree : Tree) :
    (view.tree tree).height = tree.height := by
  cases view with
  | whole => rfl
  | bare => exact Tree.height_map NodeKind.bare tree

end View

end PageTemplate.Markup
