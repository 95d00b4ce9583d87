import PageTemplate.Proofs.Markup.Rearranging

/-! # Edits that fail

An edit that puts nodes beside another one takes each of them from its old place before it looks up
the new one. So it does not leave the document as it was when the place is not there: the first node
has lost its parent by then. When the place is beside one of the nodes, the edit does away with the
place itself. Kinds, and with them attributes, stay in every case.
-/

namespace PageTemplate.Markup

namespace Document

/-- The ways in which an edit can end that is to put `nodes` beside `r`. -/
inductive Ends (d : Document) (r : NodeId) :
    List NodeId → Except MarkupError Unit × Document → Prop
  | settled {nodes t} (h : nodes = [] ∨ d.parent r ≠ none ∧ r ∉ nodes) : Ends d r nodes (.ok (), t)
  | nowhere {c rest} (hr : d.parent r = none) :
      Ends d r (c :: rest) (.error (.detached r), d.detach c)
  | displaced {nodes t} (hr : d.parent r ≠ none) (hmem : r ∈ nodes) (hlost : t.parent r = none)
      (hsize : t.size = d.size) (hkind : ∀ n, t.kind n = d.kind n) :
      Ends d r nodes (.error (.detached r), t)

variable {d : Document} {r new : NodeId} {nodes : List NodeId}

/-- A node that has a parent keeps it while another one is moved beside it. -/
theorem Linked.exists_kept (hlinked : d.Linked) (hr : d.parent r ≠ none) (hne : new ≠ r)
    (hnew : new < d.size) :
    (∃ t, outcome (insertBefore r new) d = (.ok (), t) ∧ t.Linked ∧ t.parent r ≠ none ∧
      t.size = d.size ∧ ∀ n, t.kind n = d.kind n) ∧
    ∃ t, outcome (insertAfter r new) d = (.ok (), t) := by
  obtain ⟨p, hr⟩ := Option.ne_none_iff_exists'.mp hr
  obtain ⟨front, back, hchildren⟩ := List.append_of_mem ((hlinked.mem_children_iff p r).mpr hr)
  obtain ⟨⟨t, hbefore, ht, hmoved⟩, t', hafter, -, -⟩ := hlinked.exists_beside hchildren hne hnew
  refine ⟨⟨t, hbefore, ht, ?_, hmoved.size_eq, hmoved.kind_eq⟩, t', hafter⟩
  rw [hmoved.parent_eq, if_neg (by simpa using hne.symm), if_neg List.not_mem_nil, hr]
  nofun

/-- A node cannot be put beside itself. -/
theorem Linked.ends_self (hlinked : d.Linked) (hmem : r ∈ nodes) (hr : d.parent r ≠ none) :
    Ends d r nodes (.error (.detached r), d.detach r) := by
  refine .displaced hr hmem ?_ (size_detach d) fun n => kind_detach d r n
  rw [hlinked.parent_detach, if_pos rfl]

theorem Linked.ends_beside (hlinked : d.Linked) (hnew : new < d.size) :
    Ends d r [new] (outcome (insertBefore r new) d) ∧
      Ends d r [new] (outcome (insertAfter r new) d) := by
  by_cases hr : d.parent r = none
  · rw [outcome_insertBefore, outcome_insertAfter, hlinked.positionOf?_detach_eq_none (.inl hr)]
    exact ⟨.nowhere hr, .nowhere hr⟩
  by_cases hne : new = r
  · subst hne
    rw [outcome_insertBefore, outcome_insertAfter, hlinked.positionOf?_detach_eq_none (.inr rfl)]
    have hends := hlinked.ends_self (List.mem_singleton_self new) hr
    exact ⟨hends, hends⟩
  · have hmem : r ∉ [new] := by simpa using Ne.symm hne
    obtain ⟨⟨t, hbefore, -⟩, t', hafter⟩ := hlinked.exists_kept hr hne hnew
    rw [hbefore, hafter]
    exact ⟨.settled (.inr ⟨hr, hmem⟩), .settled (.inr ⟨hr, hmem⟩)⟩

/-- The nodes are moved one after the other, up to `r` itself if it is one of them. -/
theorem Linked.ends_allBefore (hlinked : d.Linked) (hnodes : ∀ n ∈ nodes, n < d.size) :
    Ends d r nodes (outcome (nodes.forM (insertBefore r)) d) := by
  induction nodes generalizing d with
  | nil => exact .settled (.inl rfl)
  | cons c nodes ih =>
      obtain ⟨hc, hrest⟩ := List.forall_mem_cons.mp hnodes
      rw [outcome_forM_cons]
      by_cases hr : d.parent r = none
      · rw [outcome_bind, outcome_insertBefore, hlinked.positionOf?_detach_eq_none (.inl hr)]
        exact .nowhere hr
      by_cases hne : c = r
      · subst hne
        rw [outcome_bind, outcome_insertBefore, hlinked.positionOf?_detach_eq_none (.inr rfl)]
        exact hlinked.ends_self List.mem_cons_self hr
      -- `c` finds its place, so the edit ends as it does with the other nodes in the next document.
      obtain ⟨⟨u, hbefore, hu, hkept, hsize, hkind⟩, -⟩ := hlinked.exists_kept hr hne hc
      rw [outcome_bind_ok hbefore]
      generalize hresult : outcome (nodes.forM (insertBefore r)) u = result
      have hends := ih hu (hsize ▸ hrest)
      rw [hresult] at hends
      cases hends with
      | settled h =>
          refine .settled (.inr ⟨hr, ?_⟩)
          rw [List.mem_cons, not_or]
          exact ⟨Ne.symm hne, h.elim (· ▸ List.not_mem_nil) And.right⟩
      | nowhere hnone => exact absurd hnone hkept
      | displaced _ hmem hlost hsize' hkind' =>
          exact .displaced hr (List.mem_cons_of_mem c hmem) hlost (hsize'.trans hsize)
            fun n => (hkind' n).trans (hkind n)

/-- What comes after the nodes have found their places cannot fail. -/
theorem Ends.andThen {m : Edit Unit} {next : Edit Unit} (h : Ends d r nodes (outcome m d))
    (hnext : ∀ u, ∃ t, outcome next u = (.ok (), t)) :
    Ends d r nodes (outcome (m >>= fun _ => next) d) := by
  rw [outcome_bind]
  generalize outcome m d = result at h ⊢
  cases h with
  | @settled _ u h =>
      obtain ⟨t, ht⟩ := hnext u
      show Ends d r nodes (outcome next u)
      rw [ht]
      exact .settled h
  | nowhere hr => exact .nowhere hr
  | displaced hr hmem hlost hsize hkind => exact .displaced hr hmem hlost hsize hkind

theorem Linked.ends_replace (hlinked : d.Linked) (hnodes : ∀ n ∈ nodes, n < d.size) :
    Ends d r nodes (outcome (replace r nodes) d) :=
  (hlinked.ends_allBefore hnodes).andThen fun u => ⟨u.detach r, rfl⟩

/-! ## The edits that need a place -/

/-- A call of an edit that puts nodes beside another one. -/
inductive Placement where
  | before (reference new : NodeId)
  | after (reference new : NodeId)
  | replacing (old : NodeId) (replacements : List NodeId)
  | omitting (id : NodeId)

namespace Placement

def edit : Placement → Edit Unit
  | before reference new => insertBefore reference new
  | after reference new => insertAfter reference new
  | replacing old replacements => replace old replacements
  | omitting id => do let _ ← omitTag id

/-- The node that shows the place. -/
def reference : Placement → NodeId
  | before reference _ | after reference _ => reference
  | replacing id _ | omitting id => id

/-- The nodes that are to stand there. -/
def placed (d : Document) : Placement → List NodeId
  | before _ new | after _ new => [new]
  | replacing _ replacements => replacements
  | omitting id => d.children id

theorem ends_edit (hlinked : d.Linked) (call : Placement)
    (hplaced : ∀ n ∈ call.placed d, n < d.size) :
    Ends d call.reference (call.placed d) (outcome call.edit d) := by
  cases call with
  | before r new => exact (hlinked.ends_beside (hplaced new List.mem_cons_self)).1
  | after r new => exact (hlinked.ends_beside (hplaced new List.mem_cons_self)).2
  | replacing old replacements => exact hlinked.ends_replace hplaced
  | omitting id =>
      show Ends d id (d.children id) (outcome (omitTag id >>= fun _ => pure ()) d)
      unfold omitTag
      rw [bind_assoc, outcome_bind_ok (outcome_get d), bind_assoc]
      exact (hlinked.ends_replace hplaced).andThen fun u => ⟨u, rfl⟩

/-- An edit that puts nodes beside another one fails when that has no parent, unless there are no
nodes, and when it is one of them. The node that shows the place is named in the error, and every
node is still what it was. All nodes still stand where they stood exactly when the one that shows the
place had no parent and the first of the others had none. -/
theorem failed_placement (hlinked : d.Linked) (call : Placement)
    (hplaced : ∀ n ∈ call.placed d, n < d.size) :
    ((∃ fault t, outcome call.edit d = (.error fault, t)) ↔
      d.parent call.reference = none ∧ call.placed d ≠ [] ∨ call.reference ∈ call.placed d) ∧
    ∀ fault t, outcome call.edit d = (.error fault, t) →
      fault = .detached call.reference ∧ t.size = d.size ∧ (∀ n, t.kind n = d.kind n) ∧
      ((∀ n, t.node n = d.node n) ↔
        d.parent call.reference = none ∧ ∀ n ∈ (call.placed d).head?, d.parent n = none) := by
  have hends := call.ends_edit hlinked hplaced
  generalize call.reference = r, call.placed d = nodes, outcome call.edit d = result at hends ⊢
  cases hends with
  | settled h =>
      refine ⟨⟨nofun, fun hnot => ?_⟩, nofun⟩
      rcases h with rfl | ⟨hr, hmem⟩
      · simp at hnot
      · exact (hnot.elim (fun hnone => hr hnone.1) hmem).elim
  | @nowhere c rest hr =>
      refine ⟨⟨fun _ => .inl ⟨hr, List.cons_ne_nil c rest⟩, fun _ => ⟨_, _, rfl⟩⟩, ?_⟩
      rintro _ _ ⟨⟩
      refine ⟨rfl, size_detach d, kind_detach d c, fun hsame => ⟨hr, ?_⟩, fun hnone n => ?_⟩
      · rintro _ ⟨⟩
        have hparent : (d.detach c).parent c = d.parent c := congrArg Node.parent (hsame c)
        rw [← hparent, hlinked.parent_detach, if_pos rfl]
      · unfold detach
        rw [hnone.2 c rfl]
  | displaced hr hmem hlost hsize hkind =>
      refine ⟨⟨fun _ => .inr hmem, fun _ => ⟨_, _, rfl⟩⟩, ?_⟩
      rintro _ _ ⟨⟩
      refine ⟨rfl, hsize, hkind, fun hsame => ?_, fun hnone => absurd hnone.1 hr⟩
      have hparent : _ = d.parent r := congrArg Node.parent (hsame r)
      exact absurd (hparent.symm.trans hlost) hr

/-- An element with another one in it, and a third one that has no place yet. -/
def pending : Document where
  nodes := #[{ children := [1] },
    { kind := .element (.named "a"), parent := some 0, children := [2] },
    { kind := .element (.named "b"), parent := some 1 },
    { kind := .element (.named "c") }]

theorem linked_pending : pending.Linked :=
  (show pending.WellLinked by decide +kernel).toLinked

/-- The third element can neither stand beside itself nor take the place of the second one together
with that one. Only the first of these edits leaves everything as it was. -/
theorem failed_placement_pending :
    (∃ fault t, outcome (before 3 3).edit pending = (.error fault, t) ∧
      ∀ n, t.node n = pending.node n) ∧
    ∃ fault t, outcome (replacing 2 [3, 2]).edit pending = (.error fault, t) ∧
      (∀ n, t.kind n = pending.kind n) ∧ ¬ ∀ n, t.node n = pending.node n := by
  have hself : ∀ n ∈ (before 3 3).placed pending, n < pending.size := by decide
  have hboth : ∀ n ∈ (replacing 2 [3, 2]).placed pending, n < pending.size := by decide
  obtain ⟨hfails, hleft⟩ := failed_placement linked_pending (before 3 3) hself
  obtain ⟨hfails', hleft'⟩ := failed_placement linked_pending (replacing 2 [3, 2]) hboth
  obtain ⟨fault, t, hfail⟩ := hfails.mpr (by decide +kernel)
  obtain ⟨fault', t', hfail'⟩ := hfails'.mpr (by decide +kernel)
  refine ⟨⟨fault, t, hfail, ?_⟩, fault', t', hfail', ?_, ?_⟩
  · exact (hleft fault t hfail).2.2.2.mpr (by decide +kernel)
  · exact (hleft' fault' t' hfail').2.2.1
  · rw [(hleft' fault' t' hfail').2.2.2]
    decide +kernel

/-- Before the element without a place there is none, but the second element has left its own to look
for it. -/
theorem not_unchanged_of_failed_placement :
    pending.Linked ∧ pending.Acyclic ∧ ∃ fault t,
      outcome (insertBefore 3 2) pending = (.error fault, t) ∧
      pending.parent 2 = some 1 ∧ pending.children 1 = [2] ∧
      t.parent 2 = none ∧ t.children 1 = [] := by
  refine ⟨linked_pending, acyclic_of_parents_before (by decide +kernel), .detached 3,
    pending.detach 2, ?_, ?_⟩
  · rfl
  · decide +kernel

end Placement

end Document

end PageTemplate.Markup
