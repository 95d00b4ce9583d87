import Mathlib.Data.List.Basic
import PageTemplate.Markup.Edit

/-! # What an edit does to the table of nodes

Every edit of a document is a handful of changes to stored nodes. For each of them it is said
here what every node is afterwards; what else is known about edits follows from that.
-/

namespace PageTemplate.Markup.Document

variable (d : Document) {id other parent child : NodeId}

theorem node_of_size_le (h : d.size ≤ id) : d.node id = {} := by
  unfold node
  rw [Array.getD_eq_getD_getElem?, Array.getElem?_eq_none h]
  rfl

theorem kind_tree (id : NodeId) : (d.tree id).kind = d.kind id := by
  unfold tree
  cases d.size <;> rfl

/-- The tree below a node depends on the nodes alone. -/
theorem treeTo_congr (d' : Document) (h : ∀ n, d'.node n = d.node n) (fuel : Nat) (id : NodeId) :
    d'.treeTo fuel id = d.treeTo fuel id := by
  induction fuel generalizing id with
  | zero =>
      unfold treeTo kind
      rw [h]
  | succ fuel ih =>
      unfold treeTo kind children
      rw [h, funext ih]

theorem node_setKind (h : id < d.size) (kind : NodeKind) (other : NodeId) :
    (d.setKind id kind).node other =
      if other = id then { d.node id with kind } else d.node other := by
  unfold setKind
  rw [node_update]
  by_cases hother : other = id
  · simp [hother, h]
  · simp [hother]

@[simp] theorem size_setKind (kind : NodeKind) : (d.setKind id kind).size = d.size :=
  size_update ..

theorem node_updateElement (h : id < d.size) (change : Element → Element) (other : NodeId) :
    (d.updateElement id change).node other =
      if other = id then { d.node id with kind := (d.kind id).mapElement change }
      else d.node other := by
  unfold updateElement
  rw [node_update]
  by_cases hother : other = id
  · simp [hother, h, kind]
  · simp [hother]

@[simp] theorem size_updateElement (change : Element → Element) :
    (d.updateElement id change).size = d.size :=
  size_update ..

/-- Giving a child its place changes the child's parent and the parent's children. -/
theorem node_place (hparent : parent < d.size) (hchild : child < d.size) (hne : parent ≠ child)
    (index : Nat) (other : NodeId) :
    (d.place parent index child).node other =
      if other = parent then
        { d.node parent with children := (d.children parent).insertIdx index child }
      else if other = child then { d.node child with parent := some parent }
      else d.node other := by
  unfold place
  rw [node_update, node_update, size_update]
  by_cases hother : other = parent
  · simp [hother, hparent, hne, children]
  · by_cases hother' : other = child <;> simp_all

@[simp] theorem size_place (index : Nat) : (d.place parent index child).size = d.size := by
  unfold place
  rw [size_update, size_update]

theorem detach_of_parent_eq_none (h : d.parent id = none) : d.detach id = d := by
  unfold detach
  rw [h]

@[simp] theorem size_detach : (d.detach id).size = d.size := by
  unfold detach
  split
  · rfl
  · rw [size_update, size_update]

@[simp] theorem size_append : (d.append parent child).size = d.size := by
  unfold append
  rw [size_place, size_detach]

/-! ## Checking links -/

variable {d}

/-- That links agree is seen from the nodes in the table. -/
theorem wellLinked_iff : d.WellLinked ↔
    (∀ p < d.size, (d.children p).Nodup ∧ ∀ c ∈ d.children p, c < d.size ∧ d.parent c = some p) ∧
      (∀ c < d.size, ∀ p ∈ d.parent c, c ∈ d.children p) ∧ d.parent root = none := by
  have hchildren : ∀ p, d.size ≤ p → d.children p = [] := fun p hp => by
    unfold children
    rw [d.node_of_size_le hp]
  have hparent : ∀ c, d.size ≤ c → d.parent c = none := fun c hc => by
    unfold Document.parent
    rw [d.node_of_size_le hc]
  constructor
  · intro h
    refine ⟨fun p _ => ⟨h.nodup_children p, fun c hc => ?_⟩, fun c _ p hp => ?_, h.parent_root⟩
    · exact ⟨(h.child_lt p c hc).2, (h.mem_children_iff p c).mp hc⟩
    · exact (h.mem_children_iff p c).mpr hp
  · rintro ⟨hdown, hup, hroot⟩
    have hlt : ∀ p c, c ∈ d.children p → p < d.size := by
      intro p c hc
      by_contra hp
      rw [hchildren p (Nat.le_of_not_lt hp)] at hc
      cases hc
    refine ⟨fun p c => ⟨fun hc => ?_, fun hp => ?_⟩, fun p => ?_, fun p c hc => ?_, hroot⟩
    · exact ((hdown p (hlt p c hc)).2 c hc).2
    · refine hup c ?_ p hp
      by_contra hc
      rw [hparent c (Nat.le_of_not_lt hc)] at hp
      cases hp
    · by_cases hp : p < d.size
      · exact (hdown p hp).1
      · rw [hchildren p (Nat.le_of_not_lt hp)]
        exact List.nodup_nil
    · exact ⟨hlt p c hc, ((hdown p (hlt p c hc)).2 c hc).1⟩

instance : Decidable d.WellLinked := decidable_of_iff _ wellLinked_iff.symm

end PageTemplate.Markup.Document
