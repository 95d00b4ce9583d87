import PageTemplate.Proofs.Markup.TwinsBeside
import PageTemplate.Proofs.Walk.Coupled

/-! # Children that are worked on by turns

The children of a node can be worked on in parts, now one child and now another. What is done to one
child leaves the others as they are, and what comes of a child is what would have come of it if
nothing had been done to the others: up to the numbers of nodes, each child gets as far as on its
own, whatever the order of the turns.
-/

namespace PageTemplate

open Markup Document Stage

namespace Walk.Recorded

variable {stage : Stage} {p : NodeId} {δ : Type}

/-- Everything in a region has become part of another one, as it was. -/
def Settles (stage : Stage) (R R' : NodeId → Prop) (r r' : Recording) : Prop :=
  ∀ n, n < r.state.document.size → R n → R' n ∧ stage.Untouched r r' n

/-- An element of a region that is as it was is the same element of the new region. -/
theorem Settles.placed {R R' : NodeId → Prop} {r r' : Recording} {ctx : Context}
    (h : Settles stage R R' r r') (hfield : stage.Field R p r)
    (hplaced : stage.Placed R p r.state.document ctx) :
    stage.Unchanged r r' ctx.node ∧ stage.Placed R' p r'.state.document ctx := by
  have hlt := (hfield.standing hplaced).node_lt
  have hsame : ∀ m, r.state.document.Below ctx.node m → R' m ∧ stage.Untouched r r' m := by
    intro m hm
    exact h m (hfield.region.linked.below_lt hm hlt) (hfield.region.below hplaced.mem hm)
  obtain ⟨hmem, hnode, -, -⟩ := hsame _ .refl
  refine ⟨fun m hm => (hsame m hm).2, hplaced.admits, hmem, ?_, ?_⟩
  · unfold Document.parent
    rw [hnode]
    exact hplaced.parent_eq
  · unfold isElement Document.kind
    rw [hnode]
    exact hplaced.element

/-- Work on the children of `p`, in parts. What is left to do for a child is a value, and each part
of the work leaves another one. A part does the same to twins. -/
structure Routine (stage : Stage) (p : NodeId) (δ : Type) where
  /-- The next part of what is left to do. -/
  next : δ → Recorded δ
  /-- What is left to do concerns elements of the region, and is such that it can be done. -/
  Ready : (NodeId → Prop) → Recording → δ → Prop
  /-- The same is left to do in twins. -/
  Alike : Pairing → δ → δ → Prop
  ensures : ∀ {R r w}, stage.Field R p r → Ready R r w →
    Ensures (next w) r (fun w' r' => stage.Goes R p r r' ∧ Ready R r' w') (stage.Stops R p r)
  steady : ∀ {R R' r r' w}, stage.Field R p r → Ready R r w → Settles stage R R' r r' →
    Ready R' r' w
  coupled : ∀ {P w w'}, P.source' = P.source → Alike P w w' →
    Coupled stage P (Alike P) (next w) (next w')
  alike_self : ∀ {P R r w}, Ready R r w →
    (∀ n, n < r.state.document.size → R n → P.Pairs n n) → Alike P w w
  alike_again : ∀ {P P' R r w w'}, Ready R r w → Alike P w w' →
    (∀ {n n'}, n < r.state.document.size → P.Pairs n n' → P'.Pairs n n') → Alike P' w w'

/-- How far a child has come: what has been done for it on its own, what is left to do there, and
what is left to do for it among its siblings. -/
structure Progress (δ : Type) where
  alone : Recording
  own : δ
  here : δ

/-- The part of the document that belongs to a child, with room for new nodes. -/
def plot (owner : NodeId → NodeId) (t : Recording) (x n : NodeId) : Prop :=
  t.state.document.size ≤ n ∨ owner n = x

/-- A child has come as far among its siblings as on its own. -/
structure Sibling (routine : Routine stage p δ) (start t : Recording) (owner : NodeId → NodeId)
    (blocks : NodeId → List NodeId) (x : NodeId) (l r : List NodeId) (progress : Progress δ)
    (P : Pairing) : Prop where
  field : stage.Field (start.state.document.own x) p progress.alone
  ready : routine.Ready (start.state.document.own x) progress.alone progress.own
  field' : stage.Field (plot owner t x) p t
  ready' : routine.Ready (plot owner t x) t progress.here
  twins : progress.alone.state.Twins P t.state
  alike : routine.Alike P progress.own progress.here
  source : P.source' = P.source
  above_iff : ∀ q q', P.above q q' ↔ q' = q ∧ start.state.document.Below q p
  before : P.before p = l
  after : P.after p = r
  before' : P.before' p = l.flatMap blocks
  after' : P.after' p = r.flatMap blocks
  owned : ∀ {n n'}, P.Pairs n n' → n' < t.state.document.size → owner n' = x

/-- All children of `p` have come as far among one another as on their own, and the nodes that each
has become stand in its place. -/
structure Siblings (routine : Routine stage p δ) (start t : Recording)
    (progress : NodeId → Progress δ) (owner : NodeId → NodeId) (blocks : NodeId → List NodeId) :
    Prop where
  linked : start.state.document.WellLinked
  rooted : start.state.document.Rooted p
  attached : start.state.document.Below root p
  below : ∀ q, start.state.document.Below q p → t.state.document.Below q p
  children_eq : t.state.document.children p = (start.state.document.children p).flatMap blocks
  each : ∀ {x l r}, start.state.document.children p = l ++ x :: r →
    ∃ P, Sibling routine start t owner blocks x l r (progress x) P

variable {routine : Routine stage p δ} {start t u : Recording} {owner : NodeId → NodeId}
  {blocks : NodeId → List NodeId} {x y : NodeId} {l r l' r' nodes : List NodeId}
  {one two three : Progress δ} {P Q : Pairing}

/-- The nodes that a child has become are children of `p`. -/
theorem mem_children_of_mem_block
    (hblocks : t.state.document.children p = (l ++ x :: r).flatMap blocks) {n : NodeId} (hn : n ∈ blocks x) : n ∈ t.state.document.children p := by
  rw [hblocks]
  exact List.mem_flatMap.mpr ⟨x, List.mem_append_right l List.mem_cons_self, hn⟩

namespace Sibling

variable (h : Sibling routine start t owner blocks x l r one P)

include h

theorem above_outer : P.above p p := (h.above_iff p p).mpr ⟨rfl, .refl⟩

/-- What has become of the child is paired with what has become of it on its own. -/
theorem exists_nodes : ∃ nodes nodes', one.alone.state.document.children p = l ++ nodes ++ r ∧
    t.state.document.children p = l.flatMap blocks ++ nodes' ++ r.flatMap blocks ∧
    List.Forall₂ P.Pairs nodes nodes' := by
  have hlists := h.twins.documents.lists (.inr h.above_outer)
  unfold Pairing.Lists at hlists
  rwa [h.before, h.after, h.before', h.after'] at hlists

variable (hblocks : t.state.document.children p = (l ++ x :: r).flatMap blocks)

include hblocks

theorem exists_block : ∃ nodes, one.alone.state.document.children p = l ++ nodes ++ r ∧
    List.Forall₂ P.Pairs nodes (blocks x) := by
  obtain ⟨nodes, nodes', halone, hhere, hnodes⟩ := h.exists_nodes
  rw [hblocks, List.flatMap_append, List.flatMap_cons] at hhere
  obtain rfl : nodes' = blocks x := by simpa using hhere.symm
  exact ⟨nodes, halone, hnodes⟩

/-- The nodes that the child has become belong to it. -/
theorem owner_eq {n : NodeId} (hn : n ∈ blocks x) : owner n = x := by
  obtain ⟨nodes, -, hnodes⟩ := h.exists_block hblocks
  obtain ⟨m, -, hpairs⟩ := exists_of_mem_right hnodes hn
  exact h.owned hpairs (h.field'.region.linked.child_lt p n (mem_children_of_mem_block hblocks hn)).2

/-- The same has become of the child as on its own. -/
theorem trees_eq : ∃ nodes, one.alone.state.document.children p = l ++ nodes ++ r ∧
    (blocks x).map t.state.document.tree = nodes.map one.alone.state.document.tree := by
  obtain ⟨nodes, halone, hnodes⟩ := h.exists_block hblocks
  refine ⟨nodes, halone, map_eq_of_forall₂ hnodes fun n hn n' hn' hpairs => ?_⟩
  have hregion := h.field.region
  have hregion' := h.field'.region
  have hchild : n ∈ one.alone.state.document.children p := by
    rw [halone]
    exact List.mem_append_left r (List.mem_append_right l hn)
  have hsame := h.twins.documents.down.sameTree hpairs
    (.of_parent hregion.linked hregion.rooted (hregion.linked.parent_eq hchild))
    (.of_parent hregion'.linked hregion'.rooted
      (hregion'.linked.parent_eq (mem_children_of_mem_block hblocks hn')))
  exact hsame.tree_eq

end Sibling

/-! ## A turn -/

/-- It is the turn of a child: the next part of the work on it is done. -/
structure Turned (routine : Routine stage p δ) (start t u : Recording) (owner : NodeId → NodeId)
    (x : NodeId) (P : Pairing) (after : Progress δ) : Prop where
  field : stage.Field (start.state.document.own x) p after.alone
  ready : routine.Ready (start.state.document.own x) after.alone after.own
  goes : stage.Goes (plot owner t x) p t u
  ready' : routine.Ready (plot owner t x) u after.here
  twins : after.alone.state.Twins P u.state
  alike : routine.Alike P after.own after.here
  globals : u.state.globals = t.state.globals

/-- New nodes belong to the child whose turn it is. -/
def owning (owner : NodeId → NodeId) (t : Recording) (x n : NodeId) : NodeId :=
  if n < t.state.document.size then owner n else x

namespace Turned

variable (h : Sibling routine start t owner blocks x l r one P)
  (hturn : Turned routine start t u owner x P two)

include hturn

theorem plot_self : plot (owning owner t x) u x = plot owner t x := by
  funext n
  have hsize := hturn.goes.within.size_le
  unfold plot owning
  split
  next hlt =>
    have hold : ¬ u.state.document.size ≤ n :=
      Nat.not_le_of_lt (Nat.lt_of_lt_of_le hlt hsize)
    simp [hold, Nat.not_le_of_lt hlt]
  next hge => simp [Nat.le_of_not_lt hge]

theorem plot_other (hne : x ≠ y) : plot (owning owner t x) u y =
    fun n => n < t.state.document.size ∧ plot owner t y n ∨ u.state.document.size ≤ n := by
  funext n
  have hsize := hturn.goes.within.size_le
  unfold plot owning
  split
  next hlt =>
    have hold : ¬ u.state.document.size ≤ n :=
      Nat.not_le_of_lt (Nat.lt_of_lt_of_le hlt hsize)
    simp [hlt, hold, Nat.not_le_of_lt hlt]
  next hge => simp [hge, hne]

include h

theorem exists_nodes : ∃ nodes nodes', two.alone.state.document.children p = l ++ nodes ++ r ∧
    u.state.document.children p = l.flatMap blocks ++ nodes' ++ r.flatMap blocks ∧
    List.Forall₂ P.Pairs nodes nodes' := by
  have hlists := hturn.twins.documents.lists (.inr h.above_outer)
  unfold Pairing.Lists at hlists
  rwa [h.before, h.after, h.before', h.after'] at hlists

/-- The child whose turn it was has come as far as on its own. -/
theorem sibling {blocks' : NodeId → List NodeId} (hl : l.flatMap blocks' = l.flatMap blocks)
    (hr : r.flatMap blocks' = r.flatMap blocks) :
    Sibling routine start u (owning owner t x) blocks' x l r two P := by
  refine ⟨hturn.field, hturn.ready, ?_, ?_, hturn.twins, hturn.alike, h.source, h.above_iff,
    h.before, h.after, hl ▸ h.before', hr ▸ h.after', fun hpairs _ => ?_⟩
  · rw [hturn.plot_self]
    exact h.field'.next hturn.goes
  · rw [hturn.plot_self]
    exact hturn.ready'
  · unfold owning
    split
    next hlt => exact h.owned hpairs hlt
    next => rfl

/-- The others have come as far as they had. -/
theorem beside (hother : Sibling routine start t owner blocks y l' r' three Q) (hne : x ≠ y)
    {blocks' : NodeId → List NodeId}
    (hbelow : ∀ q, start.state.document.Below q p → t.state.document.Below q p)
    (hblocks : t.state.document.children p = (l' ++ y :: r').flatMap blocks)
    (hblocks' : u.state.document.children p = (l' ++ y :: r').flatMap blocks')
    (hblock : blocks' y = blocks y)
    (howner : ∀ z ∈ l' ++ r', ∀ n ∈ blocks' z, n < t.state.document.size → owner n ≠ y) :
    ∃ Q', Sibling routine start u (owning owner t x) blocks' y l' r' three Q' := by
  have hregion := h.field'.region
  have hregion' := hother.field'.region
  have hwithin := hturn.goes.within
  have hapart : ∀ n, n < t.state.document.size → plot owner t y n → ¬ plot owner t x n := by
    rintro n hlt (hge | hy) (hge' | hx)
    · exact Nat.not_le_of_lt hlt hge
    · exact Nat.not_le_of_lt hlt hge
    · exact Nat.not_le_of_lt hlt hge'
    · exact hne (hx.symm.trans hy)
  have hkept : ∀ n, n < t.state.document.size → plot owner t y n →
      u.state.document.node n = t.state.document.node n := fun n hlt hn =>
    hwithin.same n fun hor => hor.elim (hapart n hlt hn) fun heq => hregion'.outer (heq ▸ hn)
  have hsettles : Settles stage (plot owner t y) (plot (owning owner t x) u y) t u := by
    intro n hlt hn
    refine ⟨?_, hkept n hlt hn, hturn.goes.not_output hlt, hturn.goes.not_note hlt⟩
    rw [hturn.plot_other hne]
    exact .inl ⟨hlt, hn⟩
  have hbeside : Beside Q three.alone.state.document t.state.document u.state.document p
      (l'.flatMap blocks') (r'.flatMap blocks') := by
    refine ⟨hother.twins.documents, hother.field.region.linked, ⟨p, hother.above_outer⟩,
      hwithin.size_le, ?_, fun hpairs hlt => ?_, fun hq hqp => ?_,
      hwithin.outer_kind, hwithin.outer_parent, ⟨blocks y, ?_, ?_⟩, fun n hn => ⟨?_, ?_⟩⟩
    · exact hturn.twins.documents.source'.trans h.twins.documents.source'.symm
    · exact hkept _ hlt (.inr (hother.owned hpairs hlt))
    · refine hwithin.same _ fun hor => hor.elim ?_ hqp
      obtain ⟨rfl, hq⟩ := (hother.above_iff _ _).mp hq
      exact hregion.not_above (hbelow _ hq)
    · rw [hother.before', hother.after', hblocks, List.flatMap_append, List.flatMap_cons,
        List.append_assoc]
    · rw [hblocks', List.flatMap_append, List.flatMap_cons, hblock, List.append_assoc]
    · refine (hwithin.linked.child_lt p n ?_).2
      rw [hblocks', List.flatMap_append, List.flatMap_cons]
      rcases List.mem_append.mp hn with hn | hn
      · exact List.mem_append_left _ hn
      · exact List.mem_append_right _ (List.mem_append_right _ hn)
    · intro m hpairs
      by_contra hlt
      rw [← List.flatMap_append] at hn
      obtain ⟨z, hz, hn⟩ := List.mem_flatMap.mp hn
      replace hlt := Nat.lt_of_not_le hlt
      exact howner z hz n hn hlt (hother.owned hpairs hlt)
  refine ⟨hbeside.pairing, hother.field, hother.ready, ?_, ?_, ?_, ?_, hother.source,
    hother.above_iff, hother.before, hother.after, if_pos rfl, if_pos rfl, fun hpairs hlt => ?_⟩
  · rw [hturn.plot_other hne]
    refine ⟨hregion'.beside hregion hwithin hapart, h.field'.region.below_outer hwithin
      h.field'.attached, hturn.goes.logged, ?_⟩
    rintro n ((⟨hlt, hn⟩ | hn) | rfl)
    · exact hother.field'.inside n (.inl hn)
    · exact hother.field'.inside n (.inl (.inl (Nat.le_trans hwithin.size_le hn)))
    · exact hother.field'.inside n (.inr rfl)
  · exact routine.steady hother.field' hother.ready' hsettles
  · exact ⟨hbeside.twins_pairing, hturn.globals.trans hother.twins.globals, hother.twins.cache,
      hturn.twins.cache'⟩
  · exact routine.alike_again hother.ready hother.alike fun hlt hpairs =>
      hbeside.pairs hpairs hlt
  · rcases hpairs with ⟨hpairs, -, hold⟩ | hnew
    · unfold owning
      rw [if_pos hold]
      exact hother.owned hpairs hold
    · exact absurd hlt (Nat.not_lt_of_le hnew.le_right)

end Turned

theorem allAllowed_of_ensures {α : Type} {m : Recorded α} {r : Recording} {R : NodeId → Prop}
    {done : α → Recording → Prop}
    (h : Ensures m r (fun a r' => stage.Goes R p r r' ∧ done a r') (stage.Stops R p r)) :
    stage.AllAllowed (outcome m r).2.steps := by
  rcases hout : outcome m r with ⟨stop | a, r'⟩
  · exact (h.bad_of_outcome hout).2.logged.allowed
  · exact (h.ok_of_outcome hout).1.logged.allowed

namespace Siblings

variable {progress : NodeId → Progress δ}
  (h : Siblings routine start t progress owner blocks)

include h

theorem amid (hx : start.state.document.children p = l ++ x :: r) :
    start.state.document.Amid p x l r := ⟨h.linked, h.rooted, hx⟩

theorem blocks_eq (hx : start.state.document.children p = l ++ x :: r) :
    t.state.document.children p = (l ++ x :: r).flatMap blocks := hx ▸ h.children_eq

theorem owner_eq (hx : x ∈ start.state.document.children p) {n : NodeId} (hn : n ∈ blocks x) :
    owner n = x := by
  obtain ⟨l, r, hchildren⟩ := List.append_of_mem hx
  obtain ⟨P, hsibling⟩ := h.each hchildren
  exact hsibling.owner_eq (h.blocks_eq hchildren) hn

/-- A turn brings a child as far as it would have come on its own, and leaves the others where they
were. -/
theorem turned (hx : start.state.document.children p = l ++ x :: r)
    (hsibling : Sibling routine start t owner blocks x l r (progress x) P)
    (hturn : Turned routine start t u owner x P two) :
    ∃ owner' nodes', Siblings routine start u (Function.update progress x two) owner'
      (Function.update blocks x nodes') := by
  obtain ⟨nodes, nodes', -, hhere, hnodes⟩ := hturn.exists_nodes hsibling
  let blocks' := Function.update blocks x nodes'
  have hother : ∀ z, z ≠ x → blocks' z = blocks z := fun z hz => Function.update_of_ne hz ..
  have hself : blocks' x = nodes' := Function.update_self ..
  have hkept : ∀ l : List NodeId, x ∉ l → l.flatMap blocks' = l.flatMap blocks := fun l hl =>
    List.flatMap_congr fun z hz => hother z (ne_of_mem_of_not_mem hz hl)
  have hnot := (h.amid hx).not_mem
  rw [List.mem_append, not_or] at hnot
  have hchildren : u.state.document.children p =
      (start.state.document.children p).flatMap blocks' := by
    rw [hx, List.flatMap_append, List.flatMap_cons, hkept l hnot.1, hkept r hnot.2, hself, hhere,
      List.append_assoc]
  refine ⟨owning owner t x, nodes', h.linked, h.rooted, h.attached, fun q hq =>
    hsibling.field'.region.below_outer hturn.goes.within (h.below q hq), hchildren,
    fun {y l' r'} hy => ?_⟩
  by_cases hne : x = y
  · subst hne
    have hnot' := (h.amid hy).not_mem
    rw [List.mem_append, not_or] at hnot'
    obtain ⟨rfl, -, rfl⟩ := (List.append_cons_inj_of_notMem hnot'.1 hnot'.2).mp (hy.symm.trans hx)
    rw [Function.update_self]
    exact ⟨P, hturn.sibling hsibling (hkept l' hnot.1) (hkept r' hnot.2)⟩
  · rw [Function.update_of_ne (Ne.symm hne)]
    obtain ⟨Q, hsibling'⟩ := h.each hy
    refine hturn.beside hsibling hsibling' hne h.below (h.blocks_eq hy) (hy ▸ hchildren)
      (hother y (Ne.symm hne)) fun z hz n (hn : n ∈ blocks' z) hlt heq => ?_
    -- Everything among the siblings belongs to one of them, and not to `y`.
    by_cases hzx : z = x
    · rw [hzx, hself] at hn
      obtain ⟨m, -, hpairs⟩ := exists_of_mem_right hnodes hn
      exact hne ((hsibling.owned hpairs hlt).symm.trans heq)
    · rw [hother z hzx] at hn
      refine ne_of_mem_of_not_mem hz (h.amid hy).not_mem ?_
      exact (h.owner_eq ((h.amid hy).mem_children_of_mem hz) hn).symm.trans heq

/-- A turn of a child goes as it would have gone if the child had been worked on on its own. -/
theorem next (hx : start.state.document.children p = l ++ x :: r) :
    EndAlike (fun w a w' u => u.state.globals = a.state.globals ∧
        (u.state.globals = t.state.globals → ∃ owner' nodes',
          Siblings routine start u (Function.update progress x ⟨a, w, w'⟩) owner'
            (Function.update blocks x nodes')))
      (fun stop _ stop' _ => stop' = stop)
      (outcome (routine.next (progress x).own) (progress x).alone)
      (outcome (routine.next (progress x).here) t) := by
  obtain ⟨P, hsibling⟩ := h.each hx
  have halone := routine.ensures hsibling.field hsibling.ready
  have hhere := routine.ensures hsibling.field' hsibling.ready'
  have hends := routine.coupled hsibling.source
    hsibling.alike _ _ (allAllowed_of_ensures halone) (allAllowed_of_ensures hhere) hsibling.twins
  refine (hends.and halone hhere).mono ?_ fun _ _ _ _ herror => herror.1
  rintro w a w' u ⟨⟨halike, htwins⟩, ⟨hgoes, hready⟩, hgoes', hready'⟩
  exact ⟨htwins.globals, fun hglobals => h.turned hx hsibling
    ⟨hsibling.field.next hgoes, hready, hgoes', hready', htwins, halike, hglobals⟩⟩

end Siblings

/-! ## Before the first turn -/

open Classical in
/-- The child of `p` that is `n` or above `n`, if there is one. -/
noncomputable def childAbove (d : Document) (p n : NodeId) : NodeId :=
  if h : ∃ x ∈ d.children p, d.Below x n then h.choose else p

theorem childAbove_eq_iff {d : Document} {n : NodeId} (h : d.Amid p x l r) :
    childAbove d p n = x ↔ d.Below x n := by
  unfold childAbove
  split
  next hex =>
    obtain ⟨hchild, hbelow⟩ := hex.choose_spec
    refine ⟨fun heq => heq ▸ hbelow, fun hx => ?_⟩
    by_contra hne
    obtain ⟨top, htop, hp⟩ := h.rooted
    exact h.linked.not_below_sibling htop (hp.child hchild) (hp.child h.mem_children)
      (h.linked.parent_eq hchild) h.parent_eq hne hbelow hx
  next hnone =>
    refine ⟨?_, fun hx => absurd ⟨x, h.mem_children, hx⟩ hnone⟩
    rintro rfl
    exact absurd .refl (h.not_below_above .refl)

theorem plot_childAbove (h : start.state.document.Amid p x l r) :
    plot (childAbove start.state.document p) start x = start.state.document.own x := by
  funext n
  unfold plot own
  rw [childAbove_eq_iff h, or_comm]

/-- Children of one document are where they are on their own, with whatever was recorded there. -/
theorem siblings_begin (routine : Routine stage p δ) {progress : NodeId → Progress δ}
    (hlogged : stage.Logged start) (hattached : start.state.document.Below root p)
    (hcache : start.state.cache.IsFaithful)
    (halone : ∀ x ∈ start.state.document.children p,
      (progress x).alone.state = start.state ∧ stage.Logged (progress x).alone)
    (hready : ∀ x ∈ start.state.document.children p,
      routine.Ready (start.state.document.own x) (progress x).alone (progress x).own ∧
        routine.Ready (start.state.document.own x) start (progress x).here)
    (halike : ∀ x ∈ start.state.document.children p, ∀ P : Pairing,
      (∀ n, start.state.document.Below x n → P.Pairs n n) →
        routine.Alike P (progress x).own (progress x).here) :
    Siblings routine start start progress (childAbove start.state.document p) fun x => [x] := by
  have hlinked := hlogged.sound.kept.linked
  have hrooted : start.state.document.Rooted p := ⟨root, hlinked.parent_root, hattached⟩
  refine ⟨hlinked, hrooted, hattached, fun _ => id, (List.flatMap_singleton' _).symm,
    fun {x l r} hx => ?_⟩
  have hamid : start.state.document.Amid p x l r := ⟨hlinked, hrooted, hx⟩
  have hfield : stage.Field (start.state.document.own x) p start := by
    refine ⟨region_own hlinked hrooted hamid.parent_eq, hattached, hlogged, fun n hn => ?_⟩
    have hkept := hlogged.sound.kept
    rcases hn with (hn | hn) | rfl
    · exact hkept.own_below stage.linked (own_self _ _)
        ((hattached.child hamid.mem_children).trans hn)
    · exact .inr (Nat.le_trans hkept.size_le hn)
    · exact hkept.own_below stage.linked (own_self _ _) hattached
  obtain ⟨hstate, hlogged'⟩ := halone x hamid.mem_children
  have hfield' : stage.Field (start.state.document.own x) p (progress x).alone := by
    refine ⟨?_, ?_, hlogged', hfield.inside⟩
    · rw [hstate]
      exact hfield.region
    · rw [hstate]
      exact hfield.attached
  obtain ⟨hown, hhere⟩ := hready x hamid.mem_children
  have hbefore : hamid.before p = l := if_pos rfl
  have hafter : hamid.after p = r := if_pos rfl
  have htwins : (progress x).alone.state.Twins hamid.pairing start.state := by
    rw [hstate]
    exact ⟨hamid.twins, rfl, hcache, hcache⟩
  refine ⟨hamid.pairing, hfield', hown, ?_, ?_, htwins, ?_, rfl,
    fun _ _ => Iff.rfl, hbefore, hafter, ?_, ?_, ?_⟩
  · rwa [plot_childAbove hamid]
  · rwa [plot_childAbove hamid]
  · exact halike x hamid.mem_children _ fun n hn => hamid.shares_of_below hn
  · exact hbefore.trans (List.flatMap_singleton' l).symm
  · exact hafter.trans (List.flatMap_singleton' r).symm
  · rintro n n' (⟨rfl, hn⟩ | hn) hlt
    · exact (childAbove_eq_iff hamid).mpr hn
    · exact absurd hlt (Nat.not_lt_of_le hn.le_right)

/-- Before anything is done, every child is where it is on its own. -/
theorem siblings_start (routine : Routine stage p δ) (works : NodeId → δ)
    (hlogged : stage.Logged start) (hattached : start.state.document.Below root p) (hcache : start.state.cache.IsFaithful)
    (hready : ∀ x ∈ start.state.document.children p,
      routine.Ready (start.state.document.own x) start (works x)) :
    Siblings routine start start (fun x => ⟨start, works x, works x⟩)
      (childAbove start.state.document p) fun x => [x] := by
  apply siblings_begin routine hlogged hattached hcache (fun _ _ => ⟨rfl, hlogged⟩)
    fun x hx => ⟨hready x hx, hready x hx⟩
  intro x hx P hpairs
  apply routine.alike_self (hready x hx)
  intro n hlt hn
  exact hpairs n (hn.resolve_right (Nat.not_le_of_lt hlt))

end Walk.Recorded

end PageTemplate
