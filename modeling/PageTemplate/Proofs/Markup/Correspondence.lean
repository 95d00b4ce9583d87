import Mathlib.Data.List.Forall2
import PageTemplate.Proofs.Markup.Ancestry
import PageTemplate.Proofs.Markup.Regions
import PageTemplate.Proofs.Markup.Views
import PageTemplate.Render.Vocabulary

/-! # Corresponding nodes

A relation between the nodes of two documents is a correspondence when related nodes are of the
same kind and their parents and children are related in turn. Trees are read off kinds and child
lists alone, namespaces off kinds and parents: so corresponding nodes have the same tree and give
qualifiers the same meaning. For each of the two one direction is enough. Trees are the same in the
view in which kinds are; for namespaces it never counts where nodes come from.
-/

namespace PageTemplate.Markup

namespace Document

variable {view : View} {d d' : Document} {P : NodeId → NodeId → Prop} {n n' : NodeId} {h : Nat}

/-- Related nodes are of the same kind in the view and have related children. -/
structure Downward (view : View) (P : NodeId → NodeId → Prop) (d d' : Document) : Prop where
  kind_eq : ∀ {n n'}, P n n' → view.kind (d'.kind n') = view.kind (d.kind n)
  children : ∀ {n n'}, P n n' → List.Forall₂ P (d.children n) (d'.children n')

/-- Related nodes have the same name, declare the same and have related parents. -/
structure Scoped (P : NodeId → NodeId → Prop) (d d' : Document) : Prop where
  name?_eq : ∀ {n n'}, P n n' → d'.name? n' = d.name? n
  declared?_eq : ∀ {n n'}, P n n' → d'.declared? n' = d.declared? n
  parents : ∀ {n n'}, P n n' → Option.Rel P (d.parent n) (d'.parent n')

/-- Related nodes are of the same kind, wherever they come from, and have related parents. -/
structure Upward (P : NodeId → NodeId → Prop) (d d' : Document) : Prop where
  bare_eq : ∀ {n n'}, P n n' → (d'.kind n').bare = (d.kind n).bare
  parents : ∀ {n n'}, P n n' → Option.Rel P (d.parent n) (d'.parent n')

theorem Grounded.throughout (hn : d.Grounded n) : Throughout (fun _ _ => True) d d.size n := by
  obtain ⟨top, htop, hbelow⟩ := hn.rooted
  exact throughout_of_rooted hn.linked htop hbelow hn.lt fun _ _ => trivial

/-- The table of nodes leaves room for the tree. -/
theorem Grounded.height_le (hn : d.Grounded n) : d.height n ≤ d.size := hn.throughout.height_le

theorem Grounded.exists_top (hn : d.Grounded n) :
    ∃ top, d.parent top = none ∧ top < d.size ∧ d.Below top n := by
  obtain ⟨top, htop, hbelow⟩ := hn.rooted
  exact ⟨top, htop, hn.linked.above_lt hbelow hn.lt, hbelow⟩

/-- The way up is read in full as soon as there are as many steps as nodes. -/
theorem Grounded.lineage_eq (hn : d.Grounded n) {fuel : Nat} (hfuel : d.size ≤ fuel) :
    d.lineage fuel n = d.ancestry n := by
  obtain ⟨top, htop, hlt, hbelow⟩ := hn.exists_top
  obtain ⟨way, hnodup, hway, hlineage⟩ := hn.linked.exists_lineage htop hlt hbelow
  have hlength := length_le_of_nodup hnodup hway
  exact (hlineage fuel (Nat.le_trans hlength hfuel)).trans (hlineage d.size hlength).symm

/-- A tree is read in full as soon as there are as many steps as levels. -/
theorem Throughout.treeTo_eq {good : NodeId → NodeKind → Prop} (hgood : Throughout good d h n)
    {fuel fuel' : Nat} (hfuel : h ≤ fuel) (hfuel' : h ≤ fuel') :
    d.treeTo fuel n = d.treeTo fuel' n := by
  induction h generalizing n fuel fuel' with
  | zero => exact hgood.elim
  | succ h ih =>
      obtain ⟨fuel, rfl⟩ := Nat.exists_eq_add_of_le' (Nat.le_trans (Nat.le_add_left 1 h) hfuel)
      obtain ⟨fuel', rfl⟩ := Nat.exists_eq_add_of_le' (Nat.le_trans (Nat.le_add_left 1 h) hfuel')
      unfold treeTo
      congr 1
      exact List.map_congr_left fun c hc => ih (hgood.2 c hc) (by omega) (by omega)

/-- A tree is its node with the trees of the children. -/
theorem Throughout.tree_eq (hheight : Throughout (fun _ _ => True) d d.size n) :
    d.tree n = .node (d.kind n) ((d.children n).map d.tree) := by
  unfold tree
  rcases hsize : d.size with _ | size
  · rw [hsize] at hheight
    exact hheight.elim
  · rw [hsize] at hheight
    rw [treeTo]
    congr 1
    exact List.map_congr_left fun c hc =>
      (hheight.2 c hc).treeTo_eq (Nat.le_refl _) (Nat.le_succ _)

theorem map_eq_of_forall₂ {α β γ : Type} {R : α → β → Prop} {f : α → γ} {g : β → γ}
    {l : List α} {l' : List β} (hl : List.Forall₂ R l l')
    (hfg : ∀ a ∈ l, ∀ b ∈ l', R a b → g b = f a) : l'.map g = l.map f := by
  induction hl with
  | nil => rfl
  | cons hhead htail ih =>
      rw [List.map_cons, List.map_cons, hfg _ List.mem_cons_self _ List.mem_cons_self hhead,
        ih fun a ha b hb => hfg a (List.mem_cons_of_mem _ ha) b (List.mem_cons_of_mem _ hb)]

/-! ## Trees -/

namespace Downward

variable (hsame : Downward view P d d')

include hsame

theorem childElements (hn : P n n') :
    List.Forall₂ P (d.childElements n) (d'.childElements n') := by
  refine List.rel_filter (fun c c' hc => ?_) (hsame.children hn)
  have helement : d'.isElement c' = d.isElement c :=
    NodeKind.isElement_of_bare (View.bare_eq (hsame.kind_eq hc))
  simp only [helement]

theorem treeTo_eq (hn : P n n') (fuel : Nat) :
    view.tree (d'.treeTo fuel n') = view.tree (d.treeTo fuel n) := by
  induction fuel generalizing n n' with
  | zero =>
      unfold treeTo
      rw [View.tree_node, View.tree_node, hsame.kind_eq hn]
  | succ fuel ih =>
      unfold treeTo
      rw [View.tree_node, View.tree_node, hsame.kind_eq hn, List.map_map, List.map_map]
      exact congrArg _ (map_eq_of_forall₂ (hsame.children hn) fun _ _ _ _ => ih)

theorem throughout (hn : P n n') (hheight : Throughout (fun _ _ => True) d h n) :
    Throughout (fun _ _ => True) d' h n' := by
  induction h generalizing n n' with
  | zero => exact hheight.elim
  | succ h ih =>
      refine ⟨trivial, fun c' hc' => ?_⟩
      obtain ⟨c, hc, hpair⟩ := exists_of_mem_right (hsame.children hn) hc'
      exact ih hpair (hheight.2 c hc)

theorem tree_eq (hn : P n n') (hheight : Throughout (fun _ _ => True) d d.size n)
    (hheight' : Throughout (fun _ _ => True) d' d'.size n') :
    view.tree (d'.tree n') = view.tree (d.tree n) := by
  have hleft := hheight.treeTo_eq (Nat.le_refl _) (Nat.le_max_left d.size d'.size)
  have hright := hheight'.treeTo_eq (Nat.le_refl _) (Nat.le_max_right d.size d'.size)
  unfold tree
  rw [hleft, hright]
  exact hsame.treeTo_eq hn _

end Downward

/-! ## Namespaces -/

section

variable (hlookup : d'.lookupNamespace n' = d.lookupNamespace n) (hname : d'.name? n' = d.name? n)

include hlookup hname

theorem elementNamespace?_of_lookup : d'.elementNamespace? n' = d.elementNamespace? n := by
  have hboth := congrArg (Option.map fun name : QualifiedName =>
    d.namespaceOf n name.qualifier) hname
  unfold Document.name? at hboth
  unfold elementNamespace? namespaceOf at *
  rw [hlookup]
  simpa [Option.map_map, Function.comp_def] using hboth

theorem inNamespace_of_lookup : d'.inNamespace n' = d.inNamespace n := by
  funext vocabulary
  unfold inNamespace
  rw [elementNamespace?_of_lookup hlookup hname]

theorem attributeMatches_of_lookup : d'.attributeMatches n' = d.attributeMatches n := by
  funext attr spec
  unfold attributeMatches namespaceOf
  simp only [hlookup, inNamespace_of_lookup hlookup hname]

theorem attributeInNamespace_of_lookup :
    d'.attributeInNamespace n' = d.attributeInNamespace n := by
  funext attr vocabulary
  unfold attributeInNamespace namespaceOf
  simp only [hlookup, inNamespace_of_lookup hlookup hname]

end

namespace Scoped

variable (hsame : Scoped P d d')

include hsame

theorem lineage (hn : P n n') (fuel : Nat) :
    List.Forall₂ P (d.lineage fuel n) (d'.lineage fuel n') := by
  induction fuel generalizing n n' with
  | zero => exact .nil
  | succ fuel ih =>
      have hparents := hsame.parents hn
      unfold Document.lineage
      generalize d.parent n = parent, d'.parent n' = parent' at hparents
      cases hparents with
      | none => exact .cons hn .nil
      | some hp => exact .cons hn (ih hp)

theorem lookupNamespace_of_ancestry (hway : List.Forall₂ P (d.ancestry n) (d'.ancestry n')) :
    d'.lookupNamespace n' = d.lookupNamespace n := by
  funext qualifier
  have hdeclared := map_eq_of_forall₂ hway
    (f := (d.declared? · qualifier)) (g := (d'.declared? · qualifier)) fun m _ m' _ hm =>
      congrFun (hsame.declared?_eq hm) qualifier
  have hread := congrArg (List.findSome? id) hdeclared
  rwa [List.findSome?_map, List.findSome?_map] at hread

variable (hn : P n n') (hground : d.Grounded n) (hground' : d'.Grounded n')

include hn hground hground'

theorem ancestry : List.Forall₂ P (d.ancestry n) (d'.ancestry n') := by
  have hway := hsame.lineage hn (max d.size d'.size)
  rwa [hground.lineage_eq (Nat.le_max_left ..), hground'.lineage_eq (Nat.le_max_right ..)] at hway

theorem lookupNamespace_eq (qualifier : Option String) :
    d'.lookupNamespace n' qualifier = d.lookupNamespace n qualifier :=
  congrFun (hsame.lookupNamespace_of_ancestry (hsame.ancestry hn hground hground')) qualifier

theorem inNamespace_eq : d'.inNamespace n' = d.inNamespace n :=
  inNamespace_of_lookup (funext (hsame.lookupNamespace_eq hn hground hground'))
    (hsame.name?_eq hn)

theorem attributeMatches_eq : d'.attributeMatches n' = d.attributeMatches n :=
  attributeMatches_of_lookup (funext (hsame.lookupNamespace_eq hn hground hground'))
    (hsame.name?_eq hn)

theorem attributeInNamespace_eq : d'.attributeInNamespace n' = d.attributeInNamespace n :=
  attributeInNamespace_of_lookup (funext (hsame.lookupNamespace_eq hn hground hground'))
    (hsame.name?_eq hn)

end Scoped

namespace Upward

variable (hsame : Upward P d d')

include hsame

/-- What is read off an element without asking where it comes from. -/
theorem read_eq {α : Type} (hn : P n n') (read : Option Element → α)
    (hread : ∀ element, read (element.map Element.bare) = read element) :
    read (d'.element? n') = read (d.element? n) := by
  have hbare := congrArg NodeKind.element? (hsame.bare_eq hn)
  rw [NodeKind.element?_bare, NodeKind.element?_bare] at hbare
  rw [← hread, ← hread (d.element? n)]
  exact congrArg read hbare

theorem attributes_eq (hn : P n n') : d'.attributes n' = d.attributes n :=
  hsame.read_eq hn (·.elim [] (·.attributes)) fun element => by cases element <;> rfl

theorem attribute?_eq (hn : P n n') (raw : String) : d'.attribute? n' raw = d.attribute? n raw :=
  hsame.read_eq hn (·.bind (·.attribute? (QualifiedName.parse raw))) fun element => by
    cases element <;> rfl

theorem scope : Scoped P d d' where
  name?_eq hn := hsame.read_eq hn (Option.map Element.name) fun element => by cases element <;> rfl
  declared?_eq hn := funext fun qualifier =>
    hsame.read_eq hn (·.bind (·.attribute? (QualifiedName.declaration qualifier)))
      fun element => by cases element <;> rfl
  parents := hsame.parents

variable (hn : P n n') (hground : d.Grounded n) (hground' : d'.Grounded n')

include hn hground hground'

theorem attributeMatches_eq : d'.attributeMatches n' = d.attributeMatches n :=
  hsame.scope.attributeMatches_eq hn hground hground'

theorem findAttribute?_eq (spec : AttributeSpec) :
    d'.findAttribute? n' spec = d.findAttribute? n spec := by
  unfold findAttribute?
  rw [hsame.attributes_eq hn, hsame.attributeMatches_eq hn hground hground']

theorem hasAttribute_eq (spec : AttributeSpec) :
    d'.hasAttribute n' spec = d.hasAttribute n spec :=
  congrArg Option.isSome (hsame.findAttribute?_eq hn hground hground' spec)

theorem matchingIndex?_eq (spec : AttributeSpec) :
    d'.matchingIndex? n' spec = d.matchingIndex? n spec := by
  unfold matchingIndex?
  rw [hsame.attributes_eq hn, hsame.attributeMatches_eq hn hground hground']

theorem declarations_eq (v : Vocabularies) : v.declarations d' n' = v.declarations d n := by
  have hdeclarations := map_eq_of_forall₂ (hsame.scope.ancestry hn hground hground')
    (f := d.declarations) (g := d'.declarations) fun m _ m' _ hm => by
      unfold declarations
      rw [hsame.attributes_eq hm]
  unfold Vocabularies.declarations namespacesInScope
  rw [List.flatMap_def, List.flatMap_def, hdeclarations]

end Upward

/-! ## Trees that stay the same -/

/-- The tree of a node stays the same when everything below the node does. -/
theorem tree_eq_of_kept (hheight : Throughout (fun _ _ => True) d d.size n)
    (hsize : d.size ≤ d'.size) (hkept : ∀ m, d.Below n m → d'.node m = d.node m) :
    d'.tree n = d.tree n := by
  have hsame : ∀ fuel m, d.Below n m → d'.treeTo fuel m = d.treeTo fuel m := by
    intro fuel
    induction fuel with
    | zero =>
        intro m hm
        unfold treeTo kind
        rw [hkept m hm]
    | succ fuel ih =>
        intro m hm
        unfold treeTo kind children
        rw [hkept m hm]
        congr 1
        exact List.map_congr_left fun c hc => ih c (hm.child hc)
  exact (hsame _ n .refl).trans (hheight.treeTo_eq hsize (Nat.le_refl _))

/-- Nodes of two documents with the same tree in the view, which is read in full. -/
structure SameTree (view : View) (d d' : Document) (n n' : NodeId) : Prop where
  lt : n < d.size
  lt' : n' < d'.size
  height : Throughout (fun _ _ => True) d d.size n
  height' : Throughout (fun _ _ => True) d' d'.size n'
  tree_eq : view.tree (d'.tree n') = view.tree (d.tree n)

theorem Downward.sameTree (hsame : Downward view P d d') (hn : P n n') (hground : d.Grounded n)
    (hground' : d'.Grounded n') : SameTree view d d' n n' :=
  ⟨hground.lt, hground'.lt, hground.throughout, hground'.throughout,
    hsame.tree_eq hn hground.throughout hground'.throughout⟩

/-- Trees stay the same where nothing is changed. -/
theorem SameTree.confined {R R' : NodeId → Prop} {t t' : Document} (hsame : SameTree view d d' n n')
    (hleft : Confined R d t) (hright : Confined R' d' t') (hout : ∀ m, d.Below n m → ¬ R m)
    (hout' : ∀ m, d'.Below n' m → ¬ R' m) : SameTree view t t' n n' := by
  refine ⟨Nat.lt_of_lt_of_le hsame.lt hleft.size_le, Nat.lt_of_lt_of_le hsame.lt' hright.size_le,
    (hleft.throughout hout hsame.height).mono hleft.size_le,
    (hright.throughout hout' hsame.height').mono hright.size_le, ?_⟩
  rw [tree_eq_of_kept hsame.height hleft.size_le fun m hm => hleft.same m (hout m hm),
    tree_eq_of_kept hsame.height' hright.size_le fun m hm => hright.same m (hout' m hm)]
  exact hsame.tree_eq

end Document

end PageTemplate.Markup
