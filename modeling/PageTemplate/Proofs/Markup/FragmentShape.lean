import PageTemplate.Proofs.Markup.Correspondence
import PageTemplate.Proofs.Markup.Operations
import PageTemplate.Proofs.Markup.ReadingBeside

/-! # Fragments are read as documents are

A fragment is read below an element that is created for it, at the end of the table, as a document
is read below its document node. The nodes that are added are those of the document, as many places
farther back as there were nodes before.
-/

namespace PageTemplate.Markup

open Document

variable {t t' : Document} {k : Nat} {p n : NodeId}

/-- What was read below the document node of `t` stands in `t'` below the node at `k`, with every
number `k` places farther back. -/
structure ReadBehind (k : Nat) (t t' : Document) : Prop where
  root_lt : root < t.size
  size_eq : t'.size = t.size + k
  kind_eq : ∀ n ≠ root, t'.kind (n + k) = t.kind n
  parent_eq : ∀ n, t'.parent (n + k) = (t.parent n).map (· + k)
  children_eq : ∀ n, t'.children (n + k) = (t.children n).map (· + k)
  root_not_mem : ∀ n, root ∉ t.children n

namespace ReadBehind

variable (h : ReadBehind k t t')

include h

theorem addNode (hp : p < t.size) (kind : NodeKind) :
    ReadBehind k (Reading.addNode t p kind).1 (Reading.addNode t' (p + k) kind).1 := by
  have hp' : p + k < t'.size := by
    rw [h.size_eq]
    exact Nat.add_lt_add_right hp _
  have hchildren := Reading.children_addNode hp kind
  have hchildren' := Reading.children_addNode hp' kind
  have hnode := Reading.node_addNode hp kind
  have hnode' := Reading.node_addNode hp' kind
  rw [h.size_eq] at hnode' hchildren'
  refine ⟨?_, ?_, fun n hn => ?_, fun n => ?_, fun n => ?_, fun n hmem => ?_⟩
  · rw [Reading.size_addNode]
    exact Nat.lt_succ_of_lt h.root_lt
  · rw [Reading.size_addNode, Reading.size_addNode, h.size_eq, Nat.add_right_comm]
  · rw [Reading.kind_addNode, Reading.kind_addNode, h.size_eq, h.kind_eq n hn]
    simp only [Nat.add_right_cancel_iff]
  · unfold Document.parent
    rw [hnode, hnode']
    simp only [Nat.add_right_cancel_iff]
    split
    · exact h.parent_eq p
    · split
      · rfl
      · exact h.parent_eq n
  · rw [hchildren, hchildren', h.children_eq, h.children_eq]
    simp only [Nat.add_right_cancel_iff]
    split
    · rw [List.map_append]
      rfl
    · rfl
  · rw [hchildren] at hmem
    split at hmem
    · rcases List.mem_append.mp hmem with hmem | hmem
      · exact h.root_not_mem p hmem
      · exact Nat.ne_of_lt h.root_lt (List.mem_singleton.mp hmem)
    · exact h.root_not_mem n hmem

theorem changeKind (x : NodeId) (change : NodeKind → NodeKind) :
    ReadBehind k (t.update x fun node => { node with kind := change node.kind })
      (t'.update (x + k) fun node => { node with kind := change node.kind }) := by
  refine ⟨?_, ?_, fun n hn => ?_, fun n => ?_, fun n => ?_, fun n => ?_⟩
  · rw [size_update]
    exact h.root_lt
  · rw [size_update, size_update]
    exact h.size_eq
  · unfold kind
    rw [node_update, node_update, h.size_eq]
    simp only [Nat.add_right_cancel_iff, Nat.add_lt_add_iff_right]
    split
    · exact congrArg change (h.kind_eq n hn)
    · exact h.kind_eq n hn
  · rw [parent_update_kind, parent_update_kind, h.parent_eq]
  · rw [children_update_kind, children_update_kind, h.children_eq]
  · rw [children_update_kind]
    exact h.root_not_mem n

theorem addText (hp : p < t.size) (content : String) :
    ReadBehind k (Reading.addText t p content) (Reading.addText t' (p + k) content) := by
  have hnew := h.addNode hp (.text content)
  unfold Reading.addText
  rw [h.children_eq, List.getLast?_map]
  cases hlast : (t.children p).getLast? with
  | none => exact hnew
  | some last =>
      have hne : last ≠ root := fun heq =>
        h.root_not_mem p (heq ▸ List.mem_of_getLast? hlast)
      dsimp only [Option.map_some]
      rw [h.kind_eq last hne]
      split
      next existing _ => exact h.changeKind last fun _ => .text (existing ++ content)
      next => exact hnew

/-- The name of the source is not part of what was read. -/
theorem named (source : Option String) : ReadBehind k { t with sourceName := source } t' :=
  ⟨h.root_lt, h.size_eq, h.kind_eq, h.parent_eq, h.children_eq, h.root_not_mem⟩

/-! ## The nodes at the top -/

theorem children_holder : t'.children k = (t.children root).map (· + k) := by
  have hchildren := h.children_eq root
  rwa [show root + k = k from Nat.zero_add _] at hchildren

theorem children_clearChildren (hn : n ≠ root) :
    (t'.clearChildren k).children (n + k) = (t.children n).map (· + k) := by
  have hlt : k < t'.size := by
    rw [h.size_eq]
    exact Nat.lt_add_of_pos_left h.root_lt
  have hne : n + k ≠ k := mt Nat.add_eq_right.mp hn
  rw [Document.children_clearChildren hlt, if_neg hne, h.children_eq]

/-- Nodes other than the document node keep their kinds and their children. -/
theorem downward_clearChildren :
    Downward .whole (fun n n' => n ≠ root ∧ n' = n + k) t (t'.clearChildren k) := by
  refine ⟨?_, ?_⟩
  · rintro n _ ⟨hn, rfl⟩
    rw [kind_clearChildren, h.kind_eq n hn]
  · rintro n _ ⟨hn, rfl⟩
    rw [h.children_clearChildren hn, List.forall₂_map_right_iff, List.forall₂_same]
    intro c hc
    refine ⟨?_, rfl⟩
    rintro rfl
    exact h.root_not_mem n hc

theorem parent_clearChildren (hlinked : t.Linked) (n : NodeId) :
    (t'.clearChildren k).parent (n + k) =
      if n ∈ t.children root then none else (t.parent n).map (· + k) := by
  have hmem : ∀ n, n + k ∈ t'.children k ↔ n ∈ t.children root := by
    intro n
    rw [h.children_holder, List.mem_map_of_injective fun _ _ => Nat.add_right_cancel]
  rw [Document.parent_clearChildren]
  · simp only [hmem, h.parent_eq]
  · rw [h.children_holder, h.size_eq]
    intro c hc
    obtain ⟨n, hn, rfl⟩ := List.mem_map.mp hc
    exact Nat.add_lt_add_right (hlinked.child_lt root n hn).2 _

/-- What was read behind `k` nodes has the shape of what was read alone. -/
theorem shape (hcoherent : Coherent True t) :
    (∀ n ∈ t.children root, (t'.clearChildren k).parent (n + k) = none ∧
      (t'.clearChildren k).tree (n + k) = t.tree n) ∧
    ∀ n ≠ root, (t'.clearChildren k).kind (n + k) = t.kind n ∧
      (t'.clearChildren k).children (n + k) = (t.children n).map (· + k) ∧
      (n ∉ t.children root →
        (t'.clearChildren k).parent (n + k) = (t.parent n).map (· + k)) := by
  have hdown := h.downward_clearChildren
  have hparent := h.parent_clearChildren hcoherent.linked
  refine ⟨fun n hn => ⟨?_, ?_⟩, fun n hn => ⟨hdown.kind_eq ⟨hn, rfl⟩, ?_, fun hout => ?_⟩⟩
  · rw [hparent, if_pos hn]
  · have hne : n ≠ root := fun heq => h.root_not_mem root (heq ▸ hn)
    have hlt : n < t.size := (hcoherent.linked.child_lt root n hn).2
    have hheight : Throughout (fun _ _ => True) t t.size n :=
      (hcoherent.linked.branching (hcoherent.acyclic trivial) hlt).throughout fun _ _ => trivial
    refine hdown.tree_eq ⟨hne, rfl⟩ hheight ((hdown.throughout ⟨hne, rfl⟩ hheight).mono ?_)
    rw [size_clearChildren, h.size_eq]
    exact Nat.le_add_right _ _
  · exact h.children_clearChildren hn
  · rw [hparent, if_neg hout]

end ReadBehind

/-- Reading has got equally far, with the same elements open. -/
structure ReadAlike (k : Nat) (t : Document) (opened : OpenNodes) (t' : Document)
    (opened' : OpenNodes) : Prop where
  behind : ReadBehind k t t'
  opened_eq : opened' = opened.map fun entry => (entry.1, entry.2 + k)
  opened_lt : ∀ entry ∈ opened, entry.2 < t.size

namespace ReadAlike

variable {opened opened' : OpenNodes} (h : ReadAlike k t opened t' opened')

include h

theorem innermost_lt : innermost root opened < t.size := by
  cases opened with
  | nil => exact h.behind.root_lt
  | cons entry opened => exact h.opened_lt entry List.mem_cons_self

theorem innermost_eq : innermost k opened' = innermost root opened + k := by
  rw [h.opened_eq]
  cases opened with
  | nil => exact (Nat.zero_add _).symm
  | cons entry opened => rfl

omit h in
theorem kept (k : Nat) : Reading.KeptBeside root k (ReadAlike k) := by
  refine ⟨fun h => ?_, fun {t _ _ _} kind h => ?_, fun {t _ _ _} name element h => ?_,
    fun {t _ _ _} content h => ?_, fun place h => ?_⟩
  · rw [h.opened_eq, List.map_map]
    rfl
  · rw [h.innermost_eq]
    refine ⟨h.behind.addNode h.innermost_lt kind, h.opened_eq, fun entry hentry => ?_⟩
    rw [Reading.size_addNode]
    exact Nat.lt_succ_of_lt (h.opened_lt entry hentry)
  · rw [h.innermost_eq]
    refine ⟨h.behind.addNode h.innermost_lt _, ?_, fun entry hentry => ?_⟩
    · rw [h.opened_eq, h.behind.size_eq]
      rfl
    · rw [Reading.size_addNode]
      rcases List.mem_cons.mp hentry with rfl | hentry
      · exact Nat.lt_succ_self _
      · exact Nat.lt_succ_of_lt (h.opened_lt entry hentry)
  · rw [h.innermost_eq]
    refine ⟨h.behind.addText h.innermost_lt content, h.opened_eq, fun entry hentry => ?_⟩
    exact Nat.lt_of_lt_of_le (h.opened_lt entry hentry) (Reading.size_le_addText t _ content)
  · obtain ⟨hbehind, hopened, hlt⟩ := h
    obtain ⟨heq, rfl⟩ := List.cons_eq_cons.mp hopened
    obtain ⟨-, rfl⟩ := Prod.mk.inj heq
    refine ⟨hbehind.changeKind _ (·.mapElement _), rfl, fun entry hentry => ?_⟩
    rw [size_updateElement]
    exact hlt entry (List.mem_cons_of_mem _ hentry)

end ReadAlike

namespace Document

/-- Before anything is read there is the document node alone, and the element in its place. -/
theorem readAlike_empty (d : Document) :
    ReadAlike d.size empty [] (d.createElement "fragment").1 [] := by
  have hempty : ∀ n, empty.node n = {} := fun n => by cases n <;> rfl
  have hnew : ∀ n, (d.createElement "fragment").1.node (n + d.size) =
      { kind := if n = root then .element (.named "fragment") else .root } := by
    intro n
    rw [createElement, node_create]
    simp only [Nat.add_eq_right]
    split
    next heq => rw [if_pos (show n = root from heq)]
    next hne =>
      rw [if_neg (show n ≠ root from hne)]
      exact d.node_of_size_le (Nat.le_add_left _ _)
  refine ⟨⟨by decide, ?_, fun n hn => ?_, fun n => ?_, fun n => ?_, fun n => ?_⟩, rfl,
    List.forall_mem_nil _⟩
  · exact (size_create d _).trans (Nat.add_comm _ _)
  · unfold Document.kind
    rw [hnew, hempty]
    exact if_neg hn
  · unfold Document.parent
    rw [hnew, hempty]
    rfl
  · unfold Document.children
    rw [hnew, hempty]
    rfl
  · unfold Document.children
    rw [hempty]
    exact List.not_mem_nil

theorem outcome_parseFragment (d : Document) (markup : String) :
    outcome (parseFragment markup) d =
      match outcome (readInto d.size markup) (d.createElement "fragment").1 with
      | (.ok (), t) => (.ok (t.children d.size), t.clearChildren d.size)
      | (.error error, t) => (.error error, t) := by
  unfold parseFragment
  rw [outcome_bind, outcome_modifyGet]
  dsimp only
  rw [outcome_bind, show (d.createElement "fragment").2 = d.size from rfl]
  rcases outcome (readInto d.size markup) (d.createElement "fragment").1 with ⟨_ | ⟨⟨⟩⟩, t⟩
  · rfl
  · rfl

/-- A fragment is read as a document is: it is refused with the same error, or its nodes are those
at the top of the document. They have no parent, and what lies below them is what lies below those
of the document, node by node and in order. However reading ends, the nodes that were there before
are as they were. -/
theorem parseFragment_eq_parse (d : Document) (markup : String) (source : Option String) :
    ∃ t, (∀ m < d.size, t.node m = d.node m) ∧
      ((∃ error, parse markup source = .error error ∧
        outcome (parseFragment markup) d = (.error error, t)) ∨
      ∃ whole, parse markup source = .ok whole ∧
        outcome (parseFragment markup) d = (.ok ((whole.children root).map (· + d.size)), t) ∧
        (∀ n ∈ whole.children root, t.parent (n + d.size) = none ∧
          t.tree (n + d.size) = whole.tree n) ∧
        ∀ n ≠ root, t.kind (n + d.size) = whole.kind n ∧
          t.children (n + d.size) = (whole.children n).map (· + d.size) ∧
          (n ∉ whole.children root →
            t.parent (n + d.size) = (whole.parent n).map (· + d.size))) := by
  have hread := (ReadAlike.kept d.size).readInto (readAlike_empty d) markup
  have hparse := parse_eq markup source
  have hfragment := outcome_parseFragment d markup
  have hnode := ensures_parseFragment_node d markup
  generalize outcome (readInto d.size markup) _ = read' at hread hfragment
  generalize outcome (readInto root markup) empty = read at hread hparse
  cases hread with
  | error h =>
      obtain ⟨rfl, -⟩ := h
      exact ⟨_, hnode.bad_of_outcome hfragment, .inl ⟨_, hparse, hfragment⟩⟩
  | @ok _ _ s t h =>
      obtain ⟨opened, opened', halike⟩ := h
      have hbehind := halike.behind.named source
      change parse markup source = .ok { s with sourceName := source } at hparse
      generalize { s with sourceName := source } = whole at hparse hbehind
      change outcome _ d = (.ok (t.children d.size), t.clearChildren d.size) at hfragment
      rw [hbehind.children_holder] at hfragment
      exact ⟨t.clearChildren d.size, hnode.ok_of_outcome hfragment,
        .inr ⟨whole, hparse, hfragment, hbehind.shape (coherent_parse hparse)⟩⟩

end Document

end PageTemplate.Markup
