import PageTemplate.Proofs.Render.CleaningUp
import PageTemplate.Proofs.Render.Publishing
import PageTemplate.Proofs.Render.Remarks
import PageTemplate.Proofs.Walk.Phases
import PageTemplate.Proofs.Walk.Running

/-! # The course of a whole walk

Rendering an element is rendering it below a certain level. The macro that the element uses, its
directives, its children and the elements that were exposed in its place are done one after the
other, each within the region of the element that it is about. So a walk with enough levels for
the element it begins with never runs out of them.
-/

namespace PageTemplate

open Markup Document Stage

namespace Markup.Document

variable {d d' : Document} {x p : NodeId}

/-- What lies below an element is a region below the element. -/
theorem region_below (hlinked : d.WellLinked) (hrooted : d.Rooted x) (hlt : x < d.size) :
    Region (fun n => d.own x n ∧ n ≠ x) x d := by
  obtain ⟨top, htop, hx⟩ := hrooted
  refine ⟨hlinked, fun n hn => ⟨.inr hn, ?_⟩, ?_, ?_, fun h => h.2 rfl, ?_, top, htop, hx⟩
  · rintro rfl
    exact absurd hlt (Nat.not_lt_of_le hn)
  · rintro n c ⟨hn, -⟩ hc
    refine ⟨hlinked.own_child hn hc, ?_⟩
    rintro rfl
    rcases hn with hback | hsize
    · exact hlinked.not_below_parent htop hx (hlinked.parent_eq hc) hback
    · exact absurd (hlinked.child_lt n c hc).1 (Nat.not_lt_of_le hsize)
  · rintro n c ⟨hc, hne⟩ hchild
    by_cases hn : n = x
    · exact .inr hn
    refine .inl ⟨?_, hn⟩
    rcases hc with hc | hsize
    · rcases hlinked.below_cases hc with heq | ⟨q, hq, hbelow⟩
      · exact absurd heq hne
      · obtain rfl := Option.some.inj ((hlinked.parent_eq hchild).symm.trans hq)
        exact .inl hbelow
    · exact absurd (hlinked.child_lt n c hchild).2 (Nat.not_lt_of_le hsize)
  · rintro ⟨hback | hsize, hne⟩
    · rcases hlinked.below_cases hback with heq | ⟨q, hq, -⟩
      · exact hne heq
      · rw [hlinked.parent_root] at hq
        cases hq
    · exact absurd (Nat.lt_of_le_of_lt (Nat.zero_le x) hlt) (Nat.not_lt_of_le hsize)

/-- What is done below an element is done to the element. -/
theorem Within.of_below (hx : d.own x p → False)
    (h : Within (fun n => d.own x n ∧ n ≠ x) x d d') : Within (d.own x) p d d' := by
  refine .of_confined (h.toConfined.mono ?_) hx
  rintro n (⟨hn, -⟩ | rfl)
  · exact hn
  · exact d.own_self n

end Markup.Document

namespace Stage

open Walk

variable {stage : Stage} {R : NodeId → Prop} {p : NodeId} {r r' : Recording} {ctx c : Context}
  {ok : NodeId → Prop} {level : Nat} {d : Document}

/-- An element that is to be rendered is to be rendered at the level it has, which is not 0. -/
theorem Pending.at_level (h : stage.Pending ok level d ctx) (hlinked : d.WellLinked)
    (hrooted : d.Rooted ctx.node) (hlt : ctx.node < d.size) :
    stage.level d ctx ≤ level ∧
      ∃ l, stage.level d ctx = l + 1 ∧ stage.Pending ok (l + 1) d ctx := by
  obtain ⟨hrenders, hwritten, k, hgood, hlevel⟩ := h
  obtain ⟨top, htop, hbelow⟩ := hrooted
  have hheight := hgood.at_height hlinked htop hbelow hlt
  have hle : stage.level d ctx ≤ level :=
    Nat.le_trans (Nat.add_le_add_right hgood.height_le _) hlevel
  obtain ⟨l, hl⟩ : ∃ l, d.height ctx.node = l + 1 := by
    cases hk : d.height ctx.node with
    | zero =>
        rw [hk] at hheight
        exact hheight.elim
    | succ l => exact ⟨l, rfl⟩
  have hsum : stage.level d ctx = l + stage.reserve ctx + 1 := by
    unfold Stage.level
    omega
  exact ⟨hle, l + stage.reserve ctx, hsum, hrenders, hwritten, _, hheight, Nat.le_of_eq hsum⟩

/-- An element that is to be rendered is to be rendered at the level that it has. -/
theorem Pending.lowered (hfield : stage.Field R p r)
    (hplaced : stage.Placed R p r.state.document c)
    (hpending : stage.Pending (stage.Clean r) level r.state.document c) :
    ∃ l, l + 1 ≤ level ∧ stage.level r.state.document c = l + 1 ∧
      stage.Pending (stage.Clean r) (l + 1) r.state.document c := by
  have hchild := hfield.region.linked.mem_children hplaced.parent_eq
  obtain ⟨hle, l, hl, hpending⟩ := hpending.at_level hfield.region.linked
    (hfield.region.rooted.below (.child .refl hchild)) (hfield.standing hplaced).node_lt
  exact ⟨l, hl ▸ hle, hl, hpending⟩

/-- The children of an element are worked on below the element. -/
theorem Field.below (h : stage.Field R p r) (hplaced : stage.Placed R p r.state.document c) :
    stage.Field (fun n => r.state.document.own c.node n ∧ n ≠ c.node) c.node r := by
  have hstanding := h.standing hplaced
  have hchild := h.region.linked.mem_children hplaced.parent_eq
  refine ⟨region_below h.region.linked (h.region.rooted.below (.child .refl hchild))
    hstanding.node_lt, h.attached.child hchild, h.logged,
    fun n hn => (h.narrow hplaced).inside n (.inl ?_)⟩
  rcases hn with ⟨hn, -⟩ | rfl
  · exact hn
  · exact own_self _ _

theorem Goes.of_below (hregion : Region (r.state.document.own c.node) p r.state.document)
    (h : stage.Goes (fun n => r.state.document.own c.node n ∧ n ≠ c.node) c.node r r') :
    stage.Goes (r.state.document.own c.node) p r r' :=
  ⟨.of_below hregion.outer h.within, h.logged, h.output, h.notes⟩

/-- Removing the directives at the end changes the tree alone. -/
theorem Logged.cleaned (h : stage.Logged r) (v : Vocabularies) :
    stage.Logged { r with state := { r.state with
      document := Cleanup.removeDirectives v r.state.document root } } := by
  have hkept := h.sound.kept
  have hcleaned := Cleanup.confined_removeDirectives (v := v) hkept.linked
  refine ⟨⟨hkept.trans (hcleaned.mono ?_), h.sound.globals⟩, fun step hstep => ?_, h.allowed⟩
  · rintro n (hn | hn)
    · exact hkept.own_below stage.linked (own_self _ _) hn
    · exact .inr (Nat.le_trans hkept.size_le hn)
  · exact Nat.le_trans (h.made step hstep) hcleaned.size_le

end Stage

namespace Walk.Recorded

variable {stage : Stage} {R : NodeId → Prop} {p : NodeId} {r r' : Recording}
  {ctx c entry : Context} {path : List Enclosure} {level fuel : Nat}

/-! ## One after the other -/

/-- Something is done to each element of a team in turn, within the region of the element. -/
theorem ensures_each {ι : Type} (ctxOf : ι → Context) {items : List ι} {one : ι → Recorded Unit}
    {before after : Recording → Context → Prop} {handed : Outcome} (hfield : stage.Field R p r)
    (hbefore : stage.Steady before) (hafter : stage.Steady after)
    (hteam : stage.Team R p before after level r (items.map ctxOf) handed)
    (hone : ∀ i r', stage.Field R p r' → stage.Placed R p r'.state.document (ctxOf i) →
      before r' (ctxOf i) →
      Ensures (one i) r' (fun _ => stage.Goes (r'.state.document.own (ctxOf i).node) p r')
        (stage.Stops (r'.state.document.own (ctxOf i).node) p r')) :
    Ensures (items.forM one) r
      (fun _ r' => stage.Goes R p r r' ∧ stage.Team R p before after level r' [] handed)
      (stage.Stops R p r) := by
  refine Ensures.forM (fun rest r' => stage.Goes R p r r' ∧
    stage.Team R p before after level r' (rest.map ctxOf) handed) ⟨.refl hfield.logged, hteam⟩ ?_
  rintro i rest r₁ ⟨hgoes, hteam⟩
  have hfield₁ := hfield.next hgoes
  obtain ⟨hplaced, hready⟩ := hteam.waiting (ctxOf i) (by simp)
  refine (hone i r₁ hfield₁ hplaced hready).mono (fun _ r₂ hgoes₂ => ?_) fun stop r₂ hstops =>
    hgoes.stops (hfield₁.widen_stops hplaced hstops)
  refine ⟨hgoes.trans (hfield₁.widen hplaced hgoes₂), ?_⟩
  simpa [Outcome.removed] using
    hteam.step hfield₁.region hbefore hafter hgoes₂ .removed hands_removed

/-! ## The children of an element -/

theorem ensures_unrecorded {α : Type} {step : Rendering α} {ok : α → Recording → Prop}
    {bad : Stop → Recording → Prop}
    (h : Ensures step r.state (fun a t => ok a { r with state := t })
      fun stop t => bad stop { r with state := t }) : Ensures (unrecorded step) r ok bad := by
  unfold Ensures at h ⊢
  rw [outcome_unrecorded]
  generalize outcome step r.state = result at h ⊢
  obtain ⟨_ | _, t⟩ := result
  · exact h
  · exact h

theorem ensures_document {ok : Document → Recording → Prop} {bad : Stop → Recording → Prop}
    (h : ok r.state.document r) : Ensures (unrecorded Rendering.document) r ok bad :=
  ensures_unrecorded (Rendering.ensures_document h)

/-- The context is that of a child of `c`, and the child is to be rendered. -/
def ChildOf (stage : Stage) (c : Context) (level : Nat) (r : Recording) (z : Context) : Prop :=
  stage.Pending (stage.Clean r) level r.state.document z ∧ z = c.child r.state.document z.node

theorem steady_childOf : stage.Steady (ChildOf stage c level) := by
  rintro r r' z hsame ⟨hpending, hz⟩
  refine ⟨steady_pending stage level r r' z hsame hpending, hz.trans ?_⟩
  unfold Context.child Context.ofNode Document.attributes Document.element? Document.kind
  rw [(hsame z.node .refl).1]

/-- The child elements of an element, when they are to be rendered. -/
theorem team_children (hfield : stage.Field R p r) (hplaced : stage.Placed R p r.state.document c)
    (hopen : StandsIn stage false level r c) (hc : c.rendersChildren = true) :
    stage.Team (fun n => r.state.document.own c.node n ∧ n ≠ c.node) c.node
      (ChildOf stage c level) (ChildOf stage c level) level r
      ((r.state.document.childElements c.node).map (c.child r.state.document)) {} := by
  have hlinked := hfield.region.linked
  have hne : c.node ≠ p := fun heq =>
    hfield.region.outer (heq ▸ hplaced.mem)
  refine ⟨fun z hz => ?_, by simp, by simp, ?_⟩
  · obtain ⟨n, hn, rfl⟩ := List.mem_map.mp hz
    obtain ⟨hchild, helement⟩ := List.mem_filter.mp hn
    have hparent : r.state.document.parent n = some c.node := hlinked.parent_eq hchild
    obtain ⟨hadmits, hpending⟩ := Open.child hopen.stands hc hplaced.admits hchild
      fun _ _ => ⟨List.Subset.refl _, rfl⟩
    refine ⟨⟨hadmits, ⟨.inl (.of_child hchild .refl), ?_⟩, hparent, helement⟩, hpending, rfl⟩
    rintro (rfl : n = c.node)
    exact hne (Option.some.inj (hparent.symm.trans hplaced.parent_eq))
  · have hnodup := (hlinked.nodup_children c.node).filter (r.state.document.isElement ·)
    simpa [Function.comp_def, Context.child, Context.ofNode, childElements] using hnodup

/-- Every element that is to be rendered is rendered within its region when there are as many
levels left as it takes, and the rendering around it began at a higher level. -/
def Renders (stage : Stage) (fuel : Nat) : Prop :=
  ∀ (R : NodeId → Prop) (p : NodeId) (r : Recording) (path : List Enclosure) (entry : Context)
    (level : Nat), stage.Field R p r → stage.Placed R p r.state.document entry →
    stage.Pending (stage.Clean r) level r.state.document entry → level ≤ fuel →
    (∀ head ∈ path.head?, level < stage.level head.start.document head.entry) →
    Ensures (render stage.settings fuel path entry) r
      (fun _ => stage.Goes (r.state.document.own entry.node) p r)
      (stage.Stops (r.state.document.own entry.node) p r)

theorem ensures_eachChild (hrenders : Renders stage fuel) (hfield : stage.Field R p r)
    {children : List NodeId} {handed : Outcome}
    (hteam : stage.Team R p (ChildOf stage c level) (ChildOf stage c level) level r
      (children.map (c.child r.state.document)) handed)
    (hlevel : level ≤ fuel)
    (hpath : ∀ head ∈ path.head?, level < stage.level head.start.document head.entry) :
    Ensures (children.forM (renderChild (render stage.settings fuel path) c)) r
      (fun _ r' => stage.Goes R p r r' ∧
        stage.Team R p (ChildOf stage c level) (ChildOf stage c level) level r' [] handed)
      (stage.Stops R p r) := by
  refine ensures_each (c.child r.state.document) hfield steady_childOf steady_childOf hteam ?_
  rintro n r' hfield' hplaced' ⟨hpending, hchild⟩
  refine Ensures.bind (ensures_document ?_)
  have hcontext : c.child r'.state.document n = c.child r.state.document n := hchild.symm
  rw [hcontext]
  exact hrenders _ _ _ _ _ level hfield' hplaced' hpending hlevel hpath

theorem ensures_renderChildren (hrenders : Renders stage fuel) (hfield : stage.Field R p r)
    (hplaced : stage.Placed R p r.state.document c) (hopen : StandsIn stage false level r c)
    (hc : c.rendersChildren = true) (hlevel : level ≤ fuel)
    (hpath : ∀ head ∈ path.head?, level < stage.level head.start.document head.entry) :
    Ensures (renderChildren (render stage.settings fuel path) c) r
      (fun _ => stage.Goes (r.state.document.own c.node) p r)
      fun stop r' => stage.Stops (r.state.document.own c.node) p r stop r' ∧
        r'.state.document.parent c.node = r.state.document.parent c.node := by
  have hregion := (hfield.standing hplaced).region
  refine Ensures.bind (ensures_document ?_)
  exact (ensures_eachChild hrenders (hfield.below hplaced) (team_children hfield hplaced hopen hc)
    hlevel hpath).mono (fun _ r' h => h.1.of_below hregion)
    fun stop r' h => ⟨⟨h.1, h.2.of_below hregion⟩, h.2.within.outer_parent⟩

/-! ## The rendering of an element -/

/-- What an element is annotated with stands beside the element, among the children of `p`. -/
theorem notes_prepare {s : RenderState} {ok : NodeId → Prop} (path : List Enclosure)
    (hsound : stage.Sound s) (hstanding : stage.Standing p s entry)
    (hpending : stage.Pending ok level s.document entry)
    (hfresh : ∀ n, s.document.size ≤ n → ok n) :
    ∀ n ∈ (taken .prepare path entry (prepare stage.settings entry) s).notes stage.settings,
      s.document.size ≤ n ∧ (stage.settings.visitors = [] →
        (outcome (prepare stage.settings entry) s).2.document.parent n = some p ∧
        (outcome (prepare stage.settings entry) s).2.document.isElement n = false) := by
  intro n hn
  unfold Step.notes at hn
  split at hn
  next c u _ hexpanded =>
    replace hexpanded : outcome (Expansion.handle stage.settings entry) s = (.ok c, u) := hexpanded
    have hprepared := (Expansion.ensures_handle hsound hstanding hpending hfresh).ok_of_outcome
      hexpanded
    obtain ⟨hle, hlt⟩ := mem_range'_sub.mp hn
    refine ⟨Nat.le_trans hprepared.turn.within.size_le hle, fun hvisitors => ?_⟩
    replace hlt : n < (outcome (prepare stage.settings entry) s).2.document.size := hlt
    rw [state_prepare hvisitors hexpanded] at hlt ⊢
    split at hlt
    next hcomments =>
      obtain ⟨d, houtcome, hremarks⟩ := SourceComment.annotates_annotate
        stage.settings.vocabularies stage.settings.commentRoot
        hprepared.turn.within.linked hprepared.placed.parent_eq
      rw [if_pos hcomments, houtcome]
      rw [houtcome] at hlt
      obtain ⟨hparent, text, hkind⟩ := hremarks.new hle hlt
      refine ⟨hparent, ?_⟩
      show d.isElement n = false
      unfold isElement
      rw [hkind]
      rfl
    next => exact absurd hlt (Nat.not_lt_of_le hle)
  next => cases hn

/-- When the rendering of an element begins, the element may become the expansion of a macro,
which takes its place. -/
theorem ensures_begin (hfield : stage.Field R p r)
    (hplaced : stage.Placed R p r.state.document entry)
    (hpending : stage.Pending (stage.Clean r) level r.state.document entry)
    (hpath : ∀ head ∈ path.head?,
      stage.level r.state.document entry < stage.level head.start.document head.entry) :
    Ensures (guarded stage.settings path entry
        (record .prepare path entry (prepare stage.settings entry))) r
      (fun found r' => stage.Goes (r.state.document.own entry.node) p r r' ∧
        ∀ c, found = some c → stage.Placed (r.state.document.own entry.node) p r'.state.document c ∧
          stage.Pending (stage.Clean r') level r'.state.document c)
      (stage.Stops (r.state.document.own entry.node) p r) := by
  have hstanding := hfield.standing hplaced
  have hgood : ∀ n, r.state.document.Below entry.node n →
      StemsOn stage.origin (stage.Clean r) n (r.state.document.kind n) := by
    intro n hn
    obtain ⟨-, -, k, hgood, -⟩ := hpending
    exact (hgood.below hn).self
  have hat := hfield.enter hplaced (hgood _ .refl).1
  have hfresh : ∀ n, r.state.document.size ≤ n → stage.Clean r n := fun n hn =>
    ⟨hfield.logged.not_output hn, hfield.logged.not_note hn⟩
  have hnotes := notes_prepare path hfield.logged.sound hstanding hpending hfresh
  have hfinds : Task.prepare.recovers = false →
      stage.Finds r.steps Task.prepare.needsTemplate r.state.document entry := fun _ => by
    obtain ⟨hrenders, hwritten, k, hgood', hlevel⟩ := hpending
    refine ⟨⟨level, hrenders, hwritten, k, hgood'.congr (fun _ _ => List.Subset.refl _)
      fun _ _ h => ⟨trivial, h.2⟩, Nat.le_succ_of_le hlevel⟩, fun n hn => (hgood n hn).1.2⟩
  have hstep : Ensures (prepare stage.settings entry) r.state
      (fun c t => stage.Turn (r.state.document.own entry.node) p r.state t ∧
        stage.Placed (r.state.document.own entry.node) p t.document c ∧
        stage.Pending (stage.Clean r) level t.document c ∧
        (outcome (prepare stage.settings entry) r.state).2 = t)
      (stage.FailsAt (r.state.document.own entry.node) p .prepare entry r.state) :=
    (ensures_prepare hfield.logged.sound hstanding hpending hfresh).traced.mono
      (fun _ _ h => ⟨h.1.1.turn, h.1.1.placed, h.1.1.pending, congrArg Prod.snd h.2⟩)
      fun _ _ h => h.1.elim (·.2.at _) (·.at)
  have hreplaced : Task.prepare = .prepare → ∀ c t,
      outcome (Expansion.handle stage.settings entry) r.state = (.ok c, t) →
        Expansion.TakesPlace r.state entry c (outcome (prepare stage.settings entry) r.state).2 :=
    fun _ _ _ => takesPlace_prepare hfield.logged.sound hstanding hpending hfresh
  refine ensures_guarded hat ((ensures_record hat.toNear (hat.lies _)
    (fun _ n hn => (hgood n hn).imp_left And.left) hfinds (fun _ => hpath)
    (fun n hn => (hnotes n hn).1) hreplaced hstep).mono ?_ fun _ _ => id)
  rintro c r' ⟨hgoes, ⟨hplaced', hpending', hafter⟩, hsteps⟩
  refine ⟨hgoes, hplaced', hpending'.congr (fun _ _ => rfl) fun m hm hclean => ?_⟩
  unfold Clean
  rw [hsteps]
  refine ⟨fun hout => hclean.1 (hout.of_concat rfl), fun hnote => ?_⟩
  rcases hnote.concat with hold | hnew
  · exact hclean.2 hold
  -- A new note is beside the element that the macro was expanded to, so it is not below it.
  obtain ⟨hparent, hother⟩ := (hnotes m hnew).2 hnote.1
  rw [hafter] at hparent hother
  have hne : c.node ≠ m := by
    rintro rfl
    exact absurd (hplaced'.element.symm.trans hother) nofun
  exact ((hfield.narrow hplaced).next hgoes).region.not_own_sibling hplaced'.parent_eq hparent hne
    .refl (.inl (.inl hm))

/-- One context is a team. -/
theorem team_single {before after : Recording → Context → Prop}
    (hplaced : stage.Placed R p r.state.document c) (hready : before r c) :
    stage.Team R p before after level r [c] {} :=
  ⟨by simp [hplaced, hready], by simp, by simp, by simp⟩

/-- The contexts that were exposed, on their own. -/
theorem team_exposed {before after : Recording → Context → Prop} {exposed : List Context}
    (hteam : stage.Team R p before after level r [] { exposed }) :
    let pending := fun r ctx => stage.Pending (stage.Clean r) level r.state.document ctx
    stage.Team R p pending pending level r exposed {} :=
  ⟨hteam.exposed, by simp, by simp, by simpa using hteam.nodup⟩

/-- The directives of an element that was prepared. -/
theorem ensures_handlers (hfield : stage.Field R p r)
    (hplaced : stage.Placed R p r.state.document ctx)
    (hpending : stage.Pending (stage.Clean r) (level + 1) r.state.document ctx) :
    Ensures (runHandlers stage.settings path { contexts := [ctx] } Handler.order) r
      (fun handed r' => stage.Goes R p r r' ∧
        stage.Team R p (StandsIn stage false level) (StandsIn stage false level) level r'
          handed.contexts { exposed := handed.exposed.map (·.2) })
      (stage.Stops R p r) := by
  have hfirst : ∀ handler ∈ Handler.order.head?, handler.takes = true := by
    rintro _ ⟨⟩
    rfl
  exact ensures_runHandlers Handler.isChain_order hfirst hfield
    (team_single hplaced (standsIn_of_pending hpending))

section Phases

variable {start : RenderState} {origin : Context} {contexts : List Context} {handed : Outcome}

/-- The children of a context that the directives have left. -/
theorem ensures_renderWithin (hrenders : Renders stage fuel) (hfield : stage.Field R p r)
    (hplaced : stage.Placed R p r.state.document c) (hopen : StandsIn stage false level r c)
    (hlevel : level ≤ fuel) (hlow : level < stage.level start.document entry) :
    Ensures (renderWithin stage.settings fuel path entry start c) r
      (fun _ => stage.Goes (r.state.document.own c.node) p r)
      (stage.Stops (r.state.document.own c.node) p r) := by
  unfold renderWithin
  split
  next hc =>
    have hpath : ∀ head ∈ (⟨entry, start, c, false⟩ :: path : List Enclosure).head?,
        level < stage.level head.start.document head.entry := by
      rintro _ ⟨⟩
      exact hlow
    have hchildren := ensures_renderChildren hrenders hfield hplaced hopen hc hlevel hpath
    have hat := hfield.enter hplaced hopen.stands.1
    exact Ensures.bind ((ensures_guarded hat
      (hchildren.mono (fun _ _ h => ⟨h, trivial⟩) fun _ _ h => ⟨h.1, .inl h.2⟩)).mono
      (fun _ _ h => Ensures.pure h.1) fun _ _ => id)
  next => exact Ensures.pure (.refl hfield.logged)

theorem ensures_within (hrenders : Renders stage fuel) (hfield : stage.Field R p r)
    (hteam : stage.Team R p (StandsIn stage false level) (StandsIn stage false level) level r
      contexts handed)
    (hlevel : level ≤ fuel) (hlow : level < stage.level start.document entry) :
    Ensures (contexts.forM (renderWithin stage.settings fuel path entry start)) r
      (fun _ r' => stage.Goes R p r r' ∧
        stage.Team R p (StandsIn stage false level) (StandsIn stage false level) level r' [] handed)
      (stage.Stops R p r) :=
  ensures_each id hfield steady_standsIn steady_standsIn (by simpa using hteam)
    fun _ _ hfield' hplaced hopen =>
      ensures_renderWithin hrenders hfield' hplaced hopen hlevel hlow

/-- The elements that were exposed. -/
theorem ensures_exposed (hrenders : Renders stage fuel) (hfield : stage.Field R p r)
    {exposed : List (Context × Context)}
    (hteam : stage.Team R p (fun r ctx => stage.Pending (stage.Clean r) level r.state.document ctx)
      (fun r ctx => stage.Pending (stage.Clean r) level r.state.document ctx) level r
      (exposed.map (·.2)) handed)
    (hlevel : level ≤ fuel) (hlow : level < stage.level start.document entry) :
    Ensures (exposed.forM (renderExposed stage.settings fuel path entry start)) r
      (fun _ r' => stage.Goes R p r r' ∧
        stage.Team R p (fun r ctx => stage.Pending (stage.Clean r) level r.state.document ctx)
          (fun r ctx => stage.Pending (stage.Clean r) level r.state.document ctx) level r' [] handed)
      (stage.Stops R p r) := by
  refine ensures_each (·.2) hfield (steady_pending stage level) (steady_pending stage level) hteam ?_
  rintro ⟨origin, c⟩ r' hfield' hplaced hpending
  refine hrenders _ _ _ _ _ level hfield' hplaced hpending hlevel ?_
  rintro _ ⟨⟩
  exact hlow

theorem ensures_renderHanded (hrenders : Renders stage fuel) (hfield : stage.Field R p r)
    {handed : Handed}
    (hteam : stage.Team R p (StandsIn stage false level) (StandsIn stage false level) level r
      handed.contexts { exposed := handed.exposed.map (·.2) })
    (hlevel : level ≤ fuel) (hlow : level < stage.level start.document entry) :
    Ensures (renderHanded stage.settings fuel path entry start handed) r
      (fun _ => stage.Goes R p r) (stage.Stops R p r) := by
  unfold renderHanded
  refine Ensures.bind ((ensures_within hrenders hfield hteam hlevel hlow).mono ?_ fun _ _ => id)
  rintro _ r₁ ⟨hgoes, hteam₁⟩
  exact (ensures_exposed hrenders (hfield.next hgoes) (team_exposed hteam₁) hlevel hlow).mono
    (fun _ _ h => hgoes.trans h.1) fun _ _ => hgoes.stops

/-- The directives of an element that was prepared, with all that follows on them. -/
theorem ensures_renderPrepared (hrenders : Renders stage fuel) (hfield : stage.Field R p r)
    (hplaced : stage.Placed R p r.state.document ctx)
    (hpending : stage.Pending (stage.Clean r) (level + 1) r.state.document ctx)
    (hlevel : level ≤ fuel) (hlow : level < stage.level start.document entry) :
    Ensures (renderPrepared stage.settings fuel path entry start ctx) r
      (fun _ => stage.Goes R p r) (stage.Stops R p r) := by
  unfold renderPrepared
  refine Ensures.bind ((ensures_handlers hfield hplaced hpending).mono ?_ fun _ _ => id)
  rintro handed r₁ ⟨hgoes, hteam⟩
  exact (ensures_renderHanded hrenders (hfield.next hgoes) hteam hlevel hlow).mono
    (fun _ _ => hgoes.trans) fun _ _ => hgoes.stops

end Phases

/-- Every element that is to be rendered is rendered within its region. -/
theorem renders (fuel : Nat) : Renders stage fuel := by
  induction fuel with
  | zero =>
      -- An element has at least one level, so without fuel there is nothing to render.
      rintro R p r path entry level - - ⟨-, -, k, hgood, hk⟩ hlevel
      cases k with
      | zero => exact hgood.elim
      | succ k => omega
  | succ fuel ih =>
      intro R p r path entry level hfield hplaced hpending hlevel hpath
      obtain ⟨l, hle, hl, hpending⟩ := hpending.lowered hfield hplaced
      have hpath' : ∀ head ∈ path.head?,
          stage.level r.state.document entry < stage.level head.start.document head.entry :=
        fun head hhead => hl ▸ Nat.lt_of_le_of_lt hle (hpath head hhead)
      rw [render_succ]
      refine Ensures.bind (Ensures.get (Ensures.bind ?_))
      refine (ensures_begin hfield hplaced hpending hpath').mono ?_ fun _ _ => id
      rintro found r₁ ⟨hgoes, hfound⟩
      cases found with
      | none => exact Ensures.pure hgoes
      | some ctx =>
          obtain ⟨hplaced', hpending'⟩ := hfound ctx rfl
          -- What is rendered in the course of this rendering is below its level.
          exact (ensures_renderPrepared ih ((hfield.narrow hplaced).next hgoes) hplaced' hpending'
            (by omega) (hl ▸ Nat.lt_succ_self l)).mono (fun _ _ => hgoes.trans)
            fun _ _ => hgoes.stops

/-! ## From publishing to cleaning up -/

/-- A rendering that can begin: the node is an element in the tree of a document whose links
agree, visitors leave the tree and the values alone, and neither the host nor the data bring
macros along. -/
structure Begins (settings : Settings) (node : NodeId) (s : RenderState) : Prop where
  linked : s.document.WellLinked
  kind_root : s.document.kind root = .root
  attached : s.document.isAttached node = true
  element : s.document.isElement node = true
  tame : ∀ visitor ∈ settings.visitors, visitor.IsTame
  faithful : settings.IsFaithful
  globals : s.globals.AllMacros fun _ => False

/-- A rendering that can begin without visitors besides source comments. -/
structure Ready (settings : Settings) (node : NodeId) (s : RenderState) : Prop where
  linked : s.document.WellLinked
  kind_root : s.document.kind root = .root
  attached : s.document.isAttached node = true
  element : s.document.isElement node = true
  visitors : settings.visitors = []
  faithful : settings.IsFaithful
  globals : s.globals.AllMacros fun _ => False

variable {settings : Settings} {libraries : List Document} {node : NodeId} {s : RenderState}

theorem Ready.begins (h : Ready settings node s) : Begins settings node s :=
  ⟨h.linked, h.kind_root, h.attached, h.element, by simp [h.visitors], h.faithful, h.globals⟩

namespace Begins

variable (h : Begins settings node s)

include h

theorem below : s.document.Below root node :=
  below_of_mem_lineage h.linked (List.contains_iff_mem.mp h.attached)

theorem pos : 0 < s.document.size := by
  by_contra hsize
  have hzero : s.document.size = 0 := by omega
  have hattached := h.attached
  unfold isAttached ancestry at hattached
  rw [hzero] at hattached
  cases hattached

theorem exists_parent : ∃ p, s.document.parent node = some p ∧ s.document.Below root p := by
  rcases h.linked.below_cases h.below with rfl | hparent
  · have helement := h.element
    unfold isElement at helement
    rw [h.kind_root] at helement
    cases helement
  · exact hparent

end Begins

/-- The stage of a rendering: `t` is the state in which the macros have been published. -/
structure Opens (stage : Stage) (settings : Settings) (libraries : List Document)
    (s t : RenderState) : Prop where
  published : outcome (Renderer.publishMacros settings libraries) s = (.ok (), t)
  settings_eq : stage.settings = settings
  origin_eq : stage.origin = Origin s.document libraries
  base_eq : stage.base = t.document
  grown : Extends s.document t.document
  sound : stage.Sound t

variable {t : RenderState}

/-- Publishing the macros sets the stage for the walk. -/
theorem Begins.exists_opens (h : Begins settings node s) (libraries : List Document) :
    ∃ stage t, Opens stage settings libraries s t := by
  obtain ⟨_, t, houtcome, hgrown, hhoard, hglobals⟩ :=
    (Renderer.ensures_publishMacros h.linked h.pos h.globals).exists_ok
  let stage : Stage := ⟨settings, Origin s.document libraries, t.document, hhoard.linked,
    hhoard.stems, h.faithful, h.tame⟩
  exact ⟨stage, t, houtcome, rfl, rfl, rfl, hgrown, .refl hhoard.linked, hglobals⟩

/-- The walk has room for the levels of the tree and of all macros that may be entered. -/
theorem le_bound (settings : Settings) (size : Nat) :
    size + settings.maxMacroDepth * (settings.maxMacroDepth * size) ≤ bound settings size := by
  have hsquare : settings.maxMacroDepth * settings.maxMacroDepth + 1 ≤
      (settings.maxMacroDepth + 2) ^ 2 := by
    rw [Nat.pow_two, Nat.add_mul, Nat.mul_add]
    omega
  calc size + settings.maxMacroDepth * (settings.maxMacroDepth * size)
      = (settings.maxMacroDepth * settings.maxMacroDepth + 1) * size := by
        rw [Nat.add_mul, Nat.one_mul, Nat.mul_assoc, Nat.add_comm]
    _ ≤ (settings.maxMacroDepth + 2) ^ 2 * (size + 2) :=
        Nat.mul_le_mul hsquare (Nat.le_add_right size 2)
    _ ≤ bound settings size := Nat.le_mul_of_pos_right _ (Nat.succ_pos _)

/-- The first context of a walk, at a level for which the walk has room. -/
theorem Opens.first (hopens : Opens stage settings libraries s t) (h : Begins settings node s) :
    ∃ p, stage.Field (t.document.own node) p ⟨t, []⟩ ∧
      stage.Placed (t.document.own node) p t.document (.ofNode t.document node {}) ∧
      stage.Pending (stage.Clean ⟨t, []⟩) (bound settings t.document.size) t.document
        (.ofNode t.document node {}) := by
  obtain ⟨p, hp, hbelow⟩ := h.exists_parent
  have hlinked := hopens.grown.linked
  have hlt := (h.linked.lt_of_parent hp).2
  have hparent : t.document.parent node = some p := by
    rw [hopens.grown.parent_eq (Nat.not_le_of_lt hlt), hp]
  have hpbelow : t.document.Below root p := (hopens.grown.below_old h.linked h.pos).mpr hbelow
  have hnode : t.document.Below root node := hpbelow.child (hlinked.mem_children hparent)
  -- Nothing is output yet, and the document consists of what its author wrote.
  have hstems : ∀ n, t.document.Below root n → Stems stage.origin (t.document.kind n) := by
    rw [← hopens.base_eq]
    exact stage.stems
  have hgood :
      Throughout (StemsOn stage.origin (stage.Clean ⟨t, []⟩)) t.document t.document.size node :=
    throughout_of_rooted hlinked hlinked.parent_root hnode
      (Nat.lt_of_lt_of_le hlt hopens.grown.size_le) fun n hn =>
        ⟨⟨by rintro ⟨_, ⟨⟩, _⟩, by rintro ⟨-, ⟨⟩⟩⟩, hstems n (hnode.trans hn)⟩
  refine ⟨p, ⟨region_own hlinked ⟨root, hlinked.parent_root, hpbelow⟩ hparent, hpbelow,
    ⟨hopens.sound, by simp, by simp⟩, ?_⟩, ⟨⟨.empty, ?_, Nat.zero_le _⟩, own_self _ _, hparent,
    hopens.grown.elements _ h.element⟩, rfl, rfl, _, hgood, ?_⟩
  · rw [hopens.base_eq]
    rintro n ((hn | hn) | rfl)
    · exact .inl (hnode.trans hn)
    · exact .inr hn
    · exact .inl hpbelow
  · exact (hstems node hnode).attributes
  · have hreserve : stage.reserve (.ofNode t.document node {}) =
        settings.maxMacroDepth * (settings.maxMacroDepth * t.document.size) := by
      unfold reserve
      rw [hopens.settings_eq, hopens.base_eq]
      rfl
    rw [hreserve]
    exact le_bound settings t.document.size

/-- A walk never runs out of levels, fails only as walks may fail, and takes only steps that the
stage allows. -/
theorem ensures_walk (hopens : Opens stage settings libraries s t) (h : Begins settings node s) :
    Ensures (render settings (bound settings t.document.size) [] (.ofNode t.document node {}))
      ⟨t, []⟩ (fun _ r => stage.Logged r) (fun stop r => stage.Expects stop ∧ stage.Logged r) := by
  obtain ⟨p, hfield, hplaced, hpending⟩ := hopens.first h
  have hrenders : Renders stage (bound settings t.document.size) := renders _
  have hrender := hrenders _ p _ [] _ _ hfield hplaced hpending (Nat.le_refl _) nofun
  rw [hopens.settings_eq] at hrender
  exact hrender.mono (fun _ _ hgoes => hgoes.logged) fun _ _ hstops =>
    ⟨hstops.1, hstops.2.logged⟩

/-- So does a rendering. -/
theorem ensures_renderNode (hopens : Opens stage settings libraries s t)
    (h : Begins settings node s) :
    Ensures (renderNode settings libraries node) ⟨s, []⟩ (fun _ r => stage.Logged r)
      (fun stop r => stage.Expects stop ∧ stage.Logged r) := by
  unfold renderNode
  refine Ensures.bind (ensures_unrecorded (.of_eq _ hopens.published ?_))
  refine Ensures.bind (ensures_document (Ensures.bind ?_))
  refine (ensures_walk hopens h).mono (fun _ r hlogged => ?_) fun _ _ => id
  split
  · exact ensures_unrecorded (Rendering.ensures_changeDocument (hlogged.cleaned _))
  · exact Ensures.pure hlogged

/-- However a rendering ends, it has gone well up to its end. -/
theorem Opens.logged (hopens : Opens stage settings libraries s t)
    (h : Begins settings node s) :
    stage.Logged (outcome (renderNode settings libraries node) ⟨s, []⟩).2 := by
  have hensures := ensures_renderNode hopens h
  rcases houtcome : outcome (renderNode settings libraries node) ⟨s, []⟩ with ⟨stop | _, r⟩
  · exact (hensures.bad_of_outcome houtcome).2
  · exact hensures.ok_of_outcome houtcome

/-- Every step of a rendering is one that the stage allows after the steps before it. -/
theorem Opens.allows (hopens : Opens stage settings libraries s t) (h : Begins settings node s)
    {earlier later : List Step} {step : Step}
    (hsteps : stepsOf settings libraries node s = earlier ++ step :: later) :
    stage.Allows earlier step :=
  (hopens.logged h).allowed earlier step later hsteps

end Walk.Recorded

end PageTemplate
