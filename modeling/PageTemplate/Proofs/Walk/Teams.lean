import PageTemplate.Proofs.Walk.Progress

/-! # Elements that are rendered side by side

The contexts that directives hand on are about different elements of one region. What is done to
one of them leaves the others as they are, and what comes of it joins the others.
-/

namespace PageTemplate

open Markup Document

namespace Stage

open Walk

variable {stage : Stage} {R : NodeId → Prop} {p n m : NodeId} {r r' : Recording}
  {ctx c z : Context} {level : Nat}

/-- No value has become the node, and it is no note. -/
def Clean (stage : Stage) (r : Recording) (n : NodeId) : Prop :=
  ¬ IsOutput r.steps n ∧ ¬ stage.IsNote r.steps n

/-- What is clean was clean after fewer steps. -/
theorem Clean.of_append {steps : List Step} (h : stage.Clean r' n)
    (hsteps : r'.steps = r.steps ++ steps) : stage.Clean r n := by
  unfold Clean IsOutput IsNote notesOf at h ⊢
  rw [hsteps, List.flatMap_append] at h
  refine ⟨fun ⟨step, hstep, hout⟩ => h.1 ⟨step, List.mem_append_left _ hstep, hout⟩, ?_⟩
  exact fun ⟨hvisitors, hn⟩ => h.2 ⟨hvisitors, List.mem_append_left _ hn⟩

/-- A region of the tree, in a walk that has gone well. -/
structure Field (stage : Stage) (R : NodeId → Prop) (p : NodeId) (r : Recording) : Prop where
  region : Region R p r.state.document
  attached : r.state.document.Below root p
  logged : stage.Logged r
  inside : ∀ n, R n ∨ n = p → stage.base.own root n

namespace Field

variable (h : stage.Field R p r)

include h

theorem next (hgoes : stage.Goes R p r r') : stage.Field R p r' :=
  ⟨h.region.within hgoes.within, h.region.below_outer hgoes.within h.attached, hgoes.logged,
    h.inside⟩

theorem standing (hplaced : stage.Placed R p r.state.document c) :
    stage.Standing p r.state c :=
  ⟨h.region.linked, h.region.rooted, hplaced.parent_eq, hplaced.element, h.logged.sound.globals,
    hplaced.admits⟩

/-- What is done to an element of a region is done in a smaller region. -/
theorem narrow (hplaced : stage.Placed R p r.state.document c) :
    stage.Field (r.state.document.own c.node) p r :=
  ⟨(h.standing hplaced).region, h.attached, h.logged, fun _ hn =>
    h.inside _ (hn.imp_left (h.region.own_subset hplaced.mem))⟩

theorem widen (hplaced : stage.Placed R p r.state.document c)
    (hgoes : stage.Goes (r.state.document.own c.node) p r r') : stage.Goes R p r r' :=
  hgoes.mono fun _ => h.region.own_subset hplaced.mem

theorem widen_stops (hplaced : stage.Placed R p r.state.document c) {stop : Stop}
    (hstops : stage.Stops (r.state.document.own c.node) p r stop r') :
    stage.Stops R p r stop r' :=
  ⟨hstops.1, h.widen hplaced hstops.2⟩

theorem enter (hplaced : stage.Placed R p r.state.document c) (hclean : stage.Clean r c.node) :
    stage.At (r.state.document.own c.node) p r c :=
  ⟨⟨(h.standing hplaced).works, h.attached, h.logged, (h.narrow hplaced).inside, hclean.1⟩,
    hplaced.parent_eq⟩

end Field

/-! ## What stays as it is -/

/-- The node is as it was. -/
structure Untouched (stage : Stage) (r r' : Recording) (n : NodeId) : Prop where
  node : r'.state.document.node n = r.state.document.node n
  output : ¬ IsOutput r.steps n → ¬ IsOutput r'.steps n
  note : ¬ stage.IsNote r.steps n → ¬ stage.IsNote r'.steps n

/-- Nothing below the node has changed. -/
def Unchanged (stage : Stage) (r r' : Recording) (n : NodeId) : Prop :=
  ∀ m, r.state.document.Below n m → stage.Untouched r r' m

theorem Unchanged.clean (h : stage.Unchanged r r' n) (hm : r.state.document.Below n m)
    (hclean : stage.Clean r m) : stage.Clean r' m :=
  ⟨(h m hm).output hclean.1, (h m hm).note hclean.2⟩

/-- Holds of a context as long as nothing below its element changes. -/
def Steady (stage : Stage) (good : Recording → Context → Prop) : Prop :=
  ∀ r r' ctx, stage.Unchanged r r' ctx.node → good r ctx → good r' ctx

theorem steady_pending (stage : Stage) (level : Nat) :
    stage.Steady fun r ctx => stage.Pending (stage.Clean r) level r.state.document ctx :=
  fun _ _ _ hsame hpending => hpending.congr (fun m hm => (hsame m hm).1) fun _ => hsame.clean

theorem steady_open (stage : Stage) (level : Nat) :
    stage.Steady fun r ctx => stage.Open (stage.Clean r) level r.state.document ctx := by
  intro r r' ctx hsame hopen
  refine hopen.congr (hsame.clean .refl) ?_ (fun c hc m hm => ?_) fun c hc m hm =>
    hsame.clean (.of_child hc hm)
  · unfold Document.children
    rw [(hsame _ .refl).1]
    exact List.Subset.refl _
  · unfold Document.children Document.kind
    rw [(hsame m (.of_child hc hm)).1]
    exact ⟨List.Subset.refl _, rfl⟩

/-- What is done to one element leaves its sibling as it is. -/
theorem unchanged_sibling (hregion : Region R p r.state.document)
    (hc : r.state.document.parent n = some p) (hz : r.state.document.parent m = some p)
    (hne : n ≠ m) (hgoes : stage.Goes (r.state.document.own n) p r r') :
    stage.Unchanged r r' m := by
  intro k hk
  have hlt := hregion.linked.below_lt hk (hregion.linked.lt_of_parent hz).2
  exact ⟨hgoes.within.same k (hregion.not_own_sibling hc hz hne hk), hgoes.not_output hlt,
    hgoes.not_note hlt⟩

/-! ## Teams -/

/-- Contexts of different elements of a region: those that come next, and those that have been
handed on or exposed. -/
structure Team (stage : Stage) (R : NodeId → Prop) (p : NodeId)
    (before after : Recording → Context → Prop) (level : Nat) (r : Recording)
    (rest : List Context) (handed : Outcome) : Prop where
  waiting : ∀ ctx ∈ rest, stage.Placed R p r.state.document ctx ∧ before r ctx
  contexts : ∀ ctx ∈ handed.contexts, stage.Placed R p r.state.document ctx ∧ after r ctx
  exposed : ∀ ctx ∈ handed.exposed, stage.Placed R p r.state.document ctx ∧
    stage.Pending (stage.Clean r) level r.state.document ctx
  nodup : ((rest ++ handed.contexts ++ handed.exposed).map (·.node)).Nodup

variable {before after after' : Recording → Context → Prop} {rest : List Context}
  {handed : Outcome}

theorem perm_join {α : Type} [DecidableEq α] (a b c b' c' : List α) :
    (a ++ (b ++ b') ++ (c ++ c')).Perm ((a ++ b ++ c) ++ (b' ++ c')) := by
  rw [List.perm_iff_count]
  intro x
  simp only [List.count_append]
  omega

/-- One element of a team after something was done to another one. -/
theorem Placed.kept {good : Recording → Context → Prop} (hsteady : stage.Steady good)
    (hregion : Region R p r.state.document) (hc : stage.Placed R p r.state.document c)
    (hgoes : stage.Goes (r.state.document.own c.node) p r r') (hne : c.node ≠ z.node)
    (hz : stage.Placed R p r.state.document z ∧ good r z) :
    stage.Placed R p r'.state.document z ∧ good r' z := by
  have hsame := unchanged_sibling hregion hc.parent_eq hz.1.parent_eq hne hgoes
  obtain ⟨hadmits, hmem, hparent, helement⟩ := hz.1
  refine ⟨⟨hadmits, hmem, ?_, hgoes.within.elements _ helement⟩, hsteady r r' z hsame hz.2⟩
  unfold Document.parent
  rw [(hsame _ .refl).1]
  exact hparent

/-- What is handed on for the first context joins what has been handed on. -/
theorem Team.step (h : stage.Team R p before after level r (c :: rest) handed)
    (hregion : Region R p r.state.document) (hbefore : stage.Steady before)
    (hafter : stage.Steady after)
    (hgoes : stage.Goes (r.state.document.own c.node) p r r') (outcome : Outcome)
    (houtcome : stage.Hands (fun _ => after r') (stage.Clean r') level (r.state.document.own c.node) p
      r'.state.document outcome) :
    stage.Team R p before after level r' rest
      { contexts := handed.contexts ++ outcome.contexts
        exposed := handed.exposed ++ outcome.exposed } := by
  obtain ⟨⟨hc, -⟩, hrest⟩ := List.forall_mem_cons.mp h.waiting
  let others := rest ++ handed.contexts ++ handed.exposed
  obtain ⟨hfirst, hnodup⟩ : c.node ∉ others.map (·.node) ∧ (others.map (·.node)).Nodup :=
    List.nodup_cons.mp h.nodup
  have hne : ∀ z ∈ others, c.node ≠ z.node := fun z hz heq =>
    hfirst (List.mem_map.mpr ⟨z, hz, heq.symm⟩)
  have hwide : ∀ z, stage.Placed (r.state.document.own c.node) p r'.state.document z →
      stage.Placed R p r'.state.document z := fun z hz =>
    ⟨hz.admits, hregion.own_subset hc.mem hz.mem, hz.parent_eq, hz.element⟩
  refine ⟨fun z hz => ?_, fun z hz => ?_, fun z hz => ?_, ?_⟩
  · exact hc.kept hbefore hregion hgoes (hne z (by simp [others, hz])) (hrest z hz)
  · rcases List.mem_append.mp hz with hz | hz
    · exact hc.kept hafter hregion hgoes (hne z (by simp [others, hz])) (h.contexts z hz)
    · exact (houtcome.contexts z hz).imp_left (hwide z)
  · rcases List.mem_append.mp hz with hz | hz
    · exact hc.kept (steady_pending stage level) hregion hgoes (hne z (by simp [others, hz]))
        (h.exposed z hz)
    · exact (houtcome.exposed z hz).imp_left (hwide z)
  · simp only [others, List.map_append] at hnodup ⊢
    rw [(perm_join _ _ _ _ _).nodup_iff, List.nodup_append]
    refine ⟨hnodup, houtcome.nodup, ?_⟩
    -- The new elements lie in the region of the one that was worked on, the others do not.
    rintro x hx _ hy rfl
    obtain ⟨z, hz, rfl⟩ : ∃ z ∈ others, z.node = x := by
      simpa only [others, ← List.map_append, List.mem_map] using hx
    have hplaced : stage.Placed R p r.state.document z := by
      rcases List.mem_append.mp hz with hz | hz
      · rcases List.mem_append.mp hz with hz | hz
        · exact (hrest z hz).1
        · exact (h.contexts z hz).1
      · exact (h.exposed z hz).1
    refine hregion.not_own_sibling hc.parent_eq hplaced.parent_eq (hne z hz) .refl (.inl ?_)
    rcases List.mem_append.mp hy with hy | hy
    · obtain ⟨y, hy, heq⟩ := List.mem_map.mp hy
      exact heq ▸ (houtcome.contexts y hy).1.mem
    · obtain ⟨y, hy, heq⟩ := List.mem_map.mp hy
      exact heq ▸ (houtcome.exposed y hy).1.mem

end Stage

end PageTemplate
