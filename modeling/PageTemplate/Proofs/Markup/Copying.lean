import PageTemplate.Proofs.Markup.Moves

/-! # Copies

A copy is made of new nodes, has no parent, and holds what the tree held that it was made from.
Nothing that was in the document before is changed by making it.
-/

namespace PageTemplate.Markup.Document

variable {d d' d'' : Document} {x n m p top copy : NodeId} {h k : Nat}
variable {good good' : NodeId → NodeKind → Prop}

/-- A copy was made, with good nodes throughout, that reaches at most `h` levels down. -/
structure Copied (good : NodeId → NodeKind → Prop) (h : Nat) (d d' : Document) (copy : NodeId) :
    Prop where
  grown : Extends d d'
  new : d.size ≤ copy
  lt : copy < d'.size
  parent_eq : d'.parent copy = none
  throughout : Throughout good d' h copy

/-- The nodes that are still to come, seen from a node that is there. -/
theorem region_new (hlinked : d.WellLinked) (hrooted : d.Rooted top) (htop : top < d.size) :
    Region (d.size ≤ ·) top d := by
  refine ⟨hlinked, fun _ hn => hn, fun n c hn hc => ?_, fun n c hn hc => ?_,
    Nat.not_le_of_lt htop, Nat.not_le_of_lt (Nat.lt_of_le_of_lt (Nat.zero_le top) htop), hrooted⟩
  · exact absurd (hlinked.child_lt n c hc).1 (Nat.not_lt_of_le hn)
  · exact absurd (hlinked.child_lt n c hc).2 (Nat.not_lt_of_le hn)

theorem parent_create (d : Document) (kind : NodeKind) :
    (d.create kind).1.parent d.size = none := by
  unfold parent
  rw [node_create, if_pos rfl]

theorem children_create (d : Document) (kind : NodeKind) :
    (d.create kind).1.children d.size = [] := by
  unfold children
  rw [node_create, if_pos rfl]

theorem kind_create (d : Document) (kind : NodeKind) :
    (d.create kind).1.kind d.size = kind := by
  unfold Document.kind
  rw [node_create, if_pos rfl]

/-- A new node with good nodes below it is a copy. -/
theorem Copied.of_create {kind : NodeKind} (hlinked : d.WellLinked) (hkind : good d.size kind)
    (hwithin : Within ((d.create kind).1.size ≤ ·) d.size (d.create kind).1 d')
    (hchildren : ∀ c ∈ d'.children d.size, c ∈ (d.create kind).1.children d.size ∨
      Throughout good d' h c) : Copied good (h + 1) d d' d.size := by
  have hcreate := extends_create hlinked kind
  have hgrown : Extends d d' := by
    refine Confined.trans hcreate (hwithin.toConfined.mono ?_)
    rintro n (hn | rfl)
    · exact Nat.le_trans hcreate.size_le hn
    · exact Nat.le_refl _
  refine ⟨hgrown, Nat.le_refl _, ?_, hwithin.outer_parent.trans (parent_create d kind), ?_, ?_⟩
  · refine Nat.lt_of_lt_of_le ?_ hwithin.size_le
    rw [size_create]
    exact Nat.lt_succ_self _
  · rwa [hwithin.outer_kind, kind_create]
  · intro c hc
    rcases hchildren c hc with hc | hc
    · rw [children_create] at hc
      cases hc
    · exact hc

/-- A copy comes to stand behind the children of a node that is there. -/
theorem Copied.place (hregion : Region (d.size ≤ ·) top d) (hcopy : Copied good h d d' copy) :
    Within (d.size ≤ ·) top d (d'.place top (d'.children top).length copy) ∧
      (∀ c ∈ (d'.place top (d'.children top).length copy).children top,
        c ∈ d.children top ∨ c = copy) ∧
      Throughout good (d'.place top (d'.children top).length copy) h copy := by
  have hgrown := hregion.extends_within hcopy.grown
  have hregion' := hregion.within hgrown
  have hplace := hregion'.place_within hcopy.new hcopy.lt hcopy.parent_eq (.inr rfl) hregion'.lt
    (Nat.le_refl _)
  refine ⟨hgrown.trans hplace, fun c hc => ?_, ?_⟩
  · rw [children_place hregion'.lt, if_pos rfl, List.mem_insertIdx (Nat.le_refl _)] at hc
    rw [← hcopy.grown.children_eq hregion.outer]
    exact hc.symm
  · refine (gathered_place hregion'.lt _ _).throughout ?_ hcopy.throughout
    exact fun hbelow => hregion'.not_above hbelow hcopy.new

mutual
theorem copied_graft {d : Document} (hlinked : d.WellLinked) (tree : Tree)
    (hgood : ∀ n, d.size ≤ n → ∀ kind ∈ tree.kinds, good n kind) :
    Copied good tree.height d (d.graft tree).1 (d.graft tree).2 := by
  match tree with
  | .node kind children =>
      have hcreate := extends_create hlinked kind
      have hlt : d.size < (d.create kind).1.size := by simp
      obtain ⟨hwithin, hchildren⟩ := within_graftBelow (hlinked.create kind)
        (.of_parent (parent_create d kind)) hlt children fun n hn kind' hkind' =>
          hgood n (Nat.le_trans hcreate.size_le hn) kind' (List.mem_cons_of_mem _ hkind')
      exact .of_create hlinked (hgood _ (Nat.le_refl _) kind List.mem_cons_self) hwithin hchildren
theorem within_graftBelow {d : Document} {top : NodeId} (hlinked : d.WellLinked)
    (hrooted : d.Rooted top) (htop : top < d.size) (trees : List Tree)
    (hgood : ∀ n, d.size ≤ n → ∀ kind ∈ Tree.kindsAll trees, good n kind) :
    Within (d.size ≤ ·) top d (d.graftBelow top trees) ∧
      ∀ c ∈ (d.graftBelow top trees).children top, c ∈ d.children top ∨
        Throughout good (d.graftBelow top trees) (Tree.heightAll trees) c := by
  match trees with
  | [] => exact ⟨.refl hlinked, fun c hc => .inl hc⟩
  | tree :: trees =>
      have hregion := region_new hlinked hrooted htop
      have hcopy := copied_graft hlinked tree fun n hn kind hkind =>
        hgood n hn kind (List.mem_append_left _ hkind)
      obtain ⟨hplaced, hplacedChildren, hthroughout⟩ := hcopy.place hregion
      have hregion' := hregion.within hplaced
      obtain ⟨hrest, hrestChildren⟩ := within_graftBelow hregion'.linked hregion'.rooted
        hregion'.lt trees fun n hn kind hkind =>
          hgood n (Nat.le_trans hplaced.size_le hn) kind (List.mem_append_right _ hkind)
      refine ⟨hplaced.trans (hrest.mono fun n hn => Nat.le_trans hplaced.size_le hn),
        fun c hc => ?_⟩
      unfold Tree.heightAll
      rcases hrestChildren c hc with hold | hnew
      · rcases hplacedChildren c hold with hold | rfl
        · exact .inl hold
        · -- later copies do not get below this one
          refine .inr ((hrest.throughout (fun m hm => ?_) hthroughout).mono (Nat.le_max_left ..))
          rintro (hm' | rfl)
          · have hlt := hregion'.linked.child_lt _ _ hold
            exact absurd (hregion'.linked.below_lt hm hlt.2) (Nat.not_lt_of_le hm')
          · exact hregion'.not_above hm hcopy.new
      · exact .inr (hnew.mono (Nat.le_max_right ..))
end

mutual
/-- A graft leaves the nodes that were there as they are. -/
theorem kind_graft_of_lt {d : Document} (tree : Tree) (hn : n < d.size) :
    n < (d.graft tree).1.size ∧ (d.graft tree).1.kind n = d.kind n := by
  match tree with
  | .node kind children =>
      have hlt : n < (d.create kind).1.size := by
        rw [size_create]
        exact Nat.lt_succ_of_lt hn
      obtain ⟨hsize, hkind⟩ := kind_graftBelow_of_lt d.size children hlt
      refine ⟨hsize, hkind.trans ?_⟩
      unfold Document.kind
      rw [node_create, if_neg (Nat.ne_of_lt hn)]
theorem kind_graftBelow_of_lt {d : Document} (top : NodeId) (trees : List Tree)
    (hn : n < d.size) :
    n < (d.graftBelow top trees).size ∧ (d.graftBelow top trees).kind n = d.kind n := by
  match trees with
  | [] => exact ⟨hn, rfl⟩
  | tree :: trees =>
      obtain ⟨hsize, hkind⟩ := kind_graft_of_lt tree hn
      have hplaced : n < ((d.graft tree).1.place top ((d.graft tree).1.children top).length
          (d.graft tree).2).size := by
        rwa [size_place]
      obtain ⟨hsize', hkind'⟩ := kind_graftBelow_of_lt top trees hplaced
      exact ⟨hsize', hkind'.trans ((kind_place ..).trans hkind)⟩
end

/-- A copy is at its top what the tree is. -/
theorem kind_graft (d : Document) (tree : Tree) :
    (d.graft tree).1.kind (d.graft tree).2 = tree.kind := by
  obtain ⟨kind, children⟩ := tree
  have hlt : d.size < (d.create kind).1.size := by simp
  exact (kind_graftBelow_of_lt _ children hlt).2.trans (kind_create d kind)

theorem isElement_deepCopy (d : Document) (n : NodeId) :
    (d.deepCopy n).1.isElement (d.deepCopy n).2 = d.isElement n :=
  congrArg NodeKind.isElement ((kind_graft d _).trans (kind_tree d n))

theorem Copied.mono (hcopy : Copied good h d d' copy) (hle : h ≤ k) : Copied good k d d' copy :=
  { hcopy with throughout := hcopy.throughout.mono hle }

/-- The copy of a node reaches no further down than the node and has good nodes when the node
has. -/
theorem Throughout.copied (hgood : Throughout good d h n) (hlinked : d.WellLinked)
    (himp : ∀ m kind, good m kind → ∀ new, d.size ≤ new → good' new kind) :
    Copied good' h d (d.deepCopy n).1 (d.deepCopy n).2 := by
  refine (copied_graft hlinked (d.tree n) fun new hnew kind hkind => ?_).mono
    (hgood.height_treeTo_le d.size)
  obtain ⟨m, hm⟩ := hgood.exists_of_mem_kinds d.size kind hkind
  exact himp m kind hm new hnew

section UpdateElement

variable (change : Element → Element)

theorem kind_updateElement (d : Document) (x n : NodeId) (hx : x < d.size) :
    (d.updateElement x change).kind n =
      if n = x then (d.kind x).mapElement change else d.kind n := by
  unfold kind
  rw [node_updateElement d hx]
  split <;> rfl

theorem isElement_updateElement (d : Document) (x n : NodeId) :
    (d.updateElement x change).isElement n = d.isElement n := by
  unfold isElement kind updateElement
  rw [node_update]
  split
  · cases h : (d.node n).kind <;> rfl
  · rfl

theorem confined_updateElement (hlinked : d.WellLinked) (x : NodeId) :
    Confined (· = x) d (d.updateElement x change) := by
  refine ⟨hlinked.updateElement x change, Nat.le_of_eq (size_updateElement d change).symm,
    fun n hn => ?_, fun n hn => ?_⟩
  · unfold updateElement
    rw [node_update, if_neg fun h => hn h.1]
  · rw [isElement_updateElement, hn]

/-- Only the kind of the changed node has to be looked at. -/
theorem Throughout.updateElement (hgood : Throughout good d h n)
    (himp : good x (d.kind x) → good x ((d.kind x).mapElement change)) :
    Throughout good (d.updateElement x change) h n := by
  refine hgood.congr (fun m _ => ?_) fun m _ hm => ?_
  · rw [children_updateElement]
    exact List.Subset.refl _
  · by_cases hx : x < d.size
    · rw [kind_updateElement change d x m hx]
      split
      next hmx =>
        subst hmx
        exact himp hm
      next => exact hm
    · have hsame : (d.updateElement x change).kind m = d.kind m := by
        unfold Document.kind Document.updateElement
        rw [node_update, if_neg fun hmx => hx hmx.2]
      rwa [hsame]

theorem Copied.updateElement (hcopy : Copied good h d d' copy)
    (himp : good copy (d'.kind copy) → good copy ((d'.kind copy).mapElement change)) :
    Copied good h d (d'.updateElement copy change) copy := by
  refine ⟨?_, hcopy.new, ?_, ?_, hcopy.throughout.updateElement change himp⟩
  · refine Confined.trans hcopy.grown
      ((confined_updateElement change hcopy.grown.linked copy).mono ?_)
    rintro n rfl
    exact hcopy.new
  · rw [size_updateElement]
    exact hcopy.lt
  · rw [parent_updateElement]
    exact hcopy.parent_eq

end UpdateElement

/-- A node of another document is copied like one of the document itself. -/
theorem copied_importSubtree (hlinked : d.WellLinked) (other : Document) (n : NodeId)
    (hgood : ∀ new, d.size ≤ new → ∀ kind ∈ (other.tree n).kinds, good new kind)
    (himp : ∀ new kind source, good new kind → good new (kind.mapElement fun element =>
      { element with importedFrom := some source })) :
    Copied good (other.height n) d (d.importSubtree other n).1 (d.importSubtree other n).2 := by
  have hcopy := copied_graft hlinked (other.tree n) hgood
  unfold importSubtree
  dsimp only
  split
  · exact hcopy
  next source _ => exact hcopy.updateElement _ (himp _ _ source)

theorem isElement_importSubtree (d other : Document) (n : NodeId) :
    (d.importSubtree other n).1.isElement (d.importSubtree other n).2 = other.isElement n := by
  have hcopy : (d.graft (other.tree n)).1.isElement (d.graft (other.tree n)).2 =
      other.isElement n :=
    congrArg NodeKind.isElement ((kind_graft d _).trans (kind_tree other n))
  unfold importSubtree
  dsimp only
  split
  · exact hcopy
  · exact (isElement_updateElement _ _ _ _).trans hcopy

/-! ## Changes of one element -/

/-- Only what the node itself is was changed. -/
structure Relabeled (x : NodeId) (d d' : Document) : Prop where
  confined : Confined (· = x) d d'
  size_eq : d'.size = d.size
  parent_eq : ∀ n, d'.parent n = d.parent n
  children_eq : ∀ n, d'.children n = d.children n

namespace Relabeled

protected theorem refl (hlinked : d.WellLinked) : Relabeled x d d :=
  ⟨.refl hlinked, rfl, fun _ => rfl, fun _ => rfl⟩

protected theorem trans (h : Relabeled x d d') (h' : Relabeled x d' d'') : Relabeled x d d'' :=
  ⟨h.confined.trans h'.confined, h'.size_eq.trans h.size_eq,
    fun n => (h'.parent_eq n).trans (h.parent_eq n),
    fun n => (h'.children_eq n).trans (h.children_eq n)⟩

theorem within {R : NodeId → Prop} (h : Relabeled x d d') (hregion : Region R p d) (hx : R x) :
    Within R p d d' := by
  refine .of_confined (h.confined.mono ?_) hregion.outer
  rintro _ rfl
  exact hx

end Relabeled

theorem relabeled_updateElement (hlinked : d.WellLinked) (x : NodeId)
    (change : Element → Element) : Relabeled x d (d.updateElement x change) :=
  ⟨confined_updateElement change hlinked x, size_updateElement d change,
    fun _ => parent_updateElement change, fun _ => children_updateElement change⟩

theorem relabeled_removeAttribute (hlinked : d.WellLinked) (x : NodeId) (raw : String) :
    Relabeled x d (d.removeAttribute x raw).1 := by
  unfold removeAttribute
  split
  · exact relabeled_updateElement hlinked x _
  · exact .refl hlinked

/-- Setting an attribute fails only at a node that is no element. -/
theorem ensures_setAttribute (hlinked : d.WellLinked) (hx : d.isElement x = true)
    (raw value : String) :
    Ensures (setAttribute x raw value) d (fun _ => Relabeled x d) (fun _ _ => False) := by
  unfold setAttribute
  refine Ensures.bind (Ensures.get ?_)
  rw [if_pos hx]
  exact Ensures.modify (relabeled_updateElement hlinked x _)

end PageTemplate.Markup.Document
