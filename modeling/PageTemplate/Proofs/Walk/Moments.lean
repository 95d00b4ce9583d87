import PageTemplate.Proofs.Walk.Course
import PageTemplate.Proofs.Walk.Invariants

/-! # The moments of a walk

A walk comes to the elements that it renders one after the other, and to the children of those that
are left by their directives. What the stage demands of the first element holds of every element
that the walk comes to.
-/

namespace PageTemplate

open Markup Document Stage

namespace Walk.Recorded

/-- A part of a walk: the rendering of an element, or of the children of one. -/
inductive Part where
  | element (fuel : Nat) (path : List Enclosure) (entry : Context)
  | children (fuel : Nat) (path : List Enclosure) (ctx : Context)

/-- Rendering the node, the walk comes to the part with what is recorded up to then. -/
inductive ComesTo (settings : Settings) (libraries : List Document) (node : NodeId)
    (s : RenderState) : Part → Recording → Prop
  | walk {t : RenderState}
      (hpublished : outcome (Renderer.publishMacros settings libraries) s = (.ok (), t)) :
      ComesTo settings libraries node s
        (.element (bound settings t.document.size) [] (.ofNode t.document node {})) ⟨t, []⟩
  | within {fuel : Nat} {path : List Enclosure} {entry ctx c : Context}
      {r r₁ r₂ r₃ : Recording} {handed : Handed} {before after : List Context}
      (h : ComesTo settings libraries node s (.element (fuel + 1) path entry) r)
      (hprepared : outcome (guarded settings path entry
        (record .prepare path entry (prepare settings entry))) r = (.ok (some ctx), r₁))
      (hhanded : outcome (runHandlers settings path { contexts := [ctx] } Handler.order) r₁ =
        (.ok handed, r₂))
      (hcontexts : handed.contexts = before ++ c :: after)
      (hbefore : outcome (before.forM (renderWithin settings fuel path entry r.state)) r₂ =
        (.ok (), r₃))
      (hrenders : c.rendersChildren = true) :
      ComesTo settings libraries node s (.children fuel (⟨entry, r.state, c, false⟩ :: path) c) r₃
  | exposed {fuel : Nat} {path : List Enclosure} {entry ctx origin c : Context}
      {r r₁ r₂ r₃ r₄ : Recording} {handed : Handed} {before after : List (Context × Context)}
      (h : ComesTo settings libraries node s (.element (fuel + 1) path entry) r)
      (hprepared : outcome (guarded settings path entry
        (record .prepare path entry (prepare settings entry))) r = (.ok (some ctx), r₁))
      (hhanded : outcome (runHandlers settings path { contexts := [ctx] } Handler.order) r₁ =
        (.ok handed, r₂))
      (hwithin : outcome (handed.contexts.forM (renderWithin settings fuel path entry r.state)) r₂ =
        (.ok (), r₃))
      (hexposed : handed.exposed = before ++ (origin, c) :: after)
      (hbefore : outcome (before.forM (renderExposed settings fuel path entry r.state)) r₃ =
        (.ok (), r₄)) :
      ComesTo settings libraries node s
        (.element fuel (⟨entry, r.state, origin, true⟩ :: path) c) r₄
  | child {fuel : Nat} {path : List Enclosure} {ctx : Context} {r r' : Recording} {x : NodeId}
      {before after : List NodeId}
      (h : ComesTo settings libraries node s (.children fuel path ctx) r)
      (hchildren : r.state.document.childElements ctx.node = before ++ x :: after)
      (hbefore : outcome (before.forM (renderChild (render settings fuel path) ctx)) r =
        (.ok (), r')) :
      ComesTo settings libraries node s (.element fuel path (ctx.child r'.state.document x)) r'

variable {stage : Stage} {R : NodeId → Prop} {p : NodeId} {r r' : Recording}
  {ctx c entry : Context} {path : List Enclosure} {level fuel : Nat}

/-- An element of a region is come to with the fuel that its level takes, below the renderings in
the course of which it is come to. -/
structure Seated (stage : Stage) (R : NodeId → Prop) (p : NodeId) (level fuel : Nat)
    (path : List Enclosure) (r : Recording) (ctx : Context) : Prop where
  field : stage.Field R p r
  placed : stage.Placed R p r.state.document ctx
  enough : level ≤ fuel
  lower : ∀ head ∈ path.head?, level < stage.level head.start.document head.entry

/-- What holds of a part of a walk when the walk comes to it. -/
def Part.Fits (stage : Stage) (r : Recording) : Part → Prop
  | .element fuel path entry => ∃ R p level, Seated stage R p level fuel path r entry ∧
      stage.Pending (stage.Clean r) level r.state.document entry
  | .children fuel path c => ∃ R p level, Seated stage R p level fuel path r c ∧
      StandsIn stage false level r c ∧ c.rendersChildren = true

/-! ## In the course of the rendering of an element -/

/-- An element on its own level, before anything is done to it. -/
structure Entered (stage : Stage) (R : NodeId → Prop) (p : NodeId) (level fuel : Nat)
    (path : List Enclosure) (r : Recording) (entry : Context) : Prop where
  field : stage.Field R p r
  placed : stage.Placed R p r.state.document entry
  pending : stage.Pending (stage.Clean r) (level + 1) r.state.document entry
  level_eq : stage.level r.state.document entry = level + 1
  enough : level ≤ fuel
  lower : ∀ head ∈ path.head?,
    stage.level r.state.document entry < stage.level head.start.document head.entry

theorem Part.Fits.entered (h : Part.Fits stage r (.element (fuel + 1) path entry)) :
    ∃ R p level, Entered stage R p level fuel path r entry := by
  obtain ⟨R, p, level, ⟨hfield, hplaced, henough, hlower⟩, hpending⟩ := h
  obtain ⟨l, hle, hl, hpending⟩ := hpending.lowered hfield hplaced
  exact ⟨R, p, l, hfield, hplaced, hpending, hl, by omega, fun head hhead =>
    hl ▸ Nat.lt_of_le_of_lt hle (hlower head hhead)⟩

namespace Entered

variable (h : Entered stage R p level fuel path r entry)

include h

/-- What the directives of the element hand on. -/
theorem handed {r₁ r₂ : Recording} {handed : Handed}
    (hprepared : outcome (guarded stage.settings path entry
      (record .prepare path entry (prepare stage.settings entry))) r = (.ok (some ctx), r₁))
    (hhanded : outcome (runHandlers stage.settings path { contexts := [ctx] } Handler.order) r₁ =
      (.ok handed, r₂)) :
    stage.Field (r.state.document.own entry.node) p r₂ ∧
      stage.Team (r.state.document.own entry.node) p (StandsIn stage false level)
        (StandsIn stage false level) level r₂ handed.contexts
        { exposed := handed.exposed.map (·.2) } := by
  obtain ⟨hgoes₁, hfound⟩ :=
    (ensures_begin h.field h.placed h.pending h.lower).ok_of_outcome hprepared
  obtain ⟨hplaced, hpending⟩ := hfound ctx rfl
  have hfield := (h.field.narrow h.placed).next hgoes₁
  obtain ⟨hgoes₂, hteam⟩ := (ensures_handlers hfield hplaced hpending).ok_of_outcome hhanded
  exact ⟨hfield.next hgoes₂, hteam⟩

theorem low : level < stage.level r.state.document entry := by
  rw [h.level_eq]
  exact Nat.lt_succ_self level

theorem lower_inner (ctx : Context) (stripped : Bool) :
    ∀ head ∈ (⟨entry, r.state, ctx, stripped⟩ :: path : List Enclosure).head?,
      level < stage.level head.start.document head.entry := by
  rintro _ ⟨⟩
  exact h.low

end Entered

/-- Those of a team that come later wait until the others are done with. -/
theorem team_split {good : Recording → Context → Prop} {before after : List Context}
    {exposed : List Context}
    (hteam : stage.Team R p good good level r (before ++ after) { exposed }) :
    stage.Team R p good good level r before { contexts := after, exposed } :=
  ⟨fun ctx hctx => hteam.waiting ctx (List.mem_append_left after hctx),
    fun ctx hctx => hteam.waiting ctx (List.mem_append_right before hctx), hteam.exposed, by
    simpa using hteam.nodup⟩

variable {settings : Settings} {libraries : List Document} {node : NodeId} {s t : RenderState}

/-- What the stage demands holds of every part that the walk comes to. -/
theorem ComesTo.fits {part : Part} (hopens : Opens stage settings libraries s t)
    (hready : Ready settings node s) (h : ComesTo settings libraries node s part r) :
    part.Fits stage r := by
  have hsettings := hopens.settings_eq
  subst hsettings
  induction h with
  | walk hpublished =>
      obtain ⟨-, rfl⟩ := Prod.mk.inj (hopens.published.symm.trans hpublished)
      obtain ⟨p, hfield, hplaced, hpending⟩ := hopens.first hready.begins
      exact ⟨_, p, _, ⟨hfield, hplaced, Nat.le_refl _, nofun⟩, hpending⟩
  | @within fuel path entry ctx c r r₁ r₂ r₃ handed before after h hprepared hhanded hcontexts
      hbefore hrenders ih =>
      obtain ⟨R, p, level, hentered⟩ := Part.Fits.entered ih
      obtain ⟨hfield, hteam⟩ := hentered.handed hprepared hhanded
      rw [hcontexts] at hteam
      obtain ⟨hgoes, hteam⟩ := (ensures_within (renders fuel) hfield (team_split hteam)
        hentered.enough hentered.low).ok_of_outcome hbefore
      obtain ⟨hplaced, hopen⟩ := hteam.contexts c List.mem_cons_self
      exact ⟨_, p, level, ⟨hfield.next hgoes, hplaced, hentered.enough,
        hentered.lower_inner c false⟩, hopen, hrenders⟩
  | @exposed fuel path entry ctx origin c r r₁ r₂ r₃ r₄ handed before after h hprepared hhanded
      hwithin hexposed hbefore ih =>
      obtain ⟨R, p, level, hentered⟩ := Part.Fits.entered ih
      obtain ⟨hfield, hteam⟩ := hentered.handed hprepared hhanded
      obtain ⟨hgoes, hteam⟩ := (ensures_within (renders fuel) hfield hteam hentered.enough
        hentered.low).ok_of_outcome hwithin
      have hteam := team_exposed hteam
      rw [hexposed, List.map_append, List.map_cons] at hteam
      obtain ⟨hgoes', hteam⟩ := (ensures_exposed (renders fuel) (hfield.next hgoes)
        (team_split hteam) hentered.enough hentered.low).ok_of_outcome hbefore
      obtain ⟨hplaced, hpending⟩ := hteam.contexts c List.mem_cons_self
      exact ⟨_, p, level, ⟨(hfield.next hgoes).next hgoes', hplaced, hentered.enough,
        hentered.lower_inner origin true⟩, hpending⟩
  | @child fuel path ctx r r' x before after h hchildren hbefore ih =>
      obtain ⟨R, p, level, ⟨hfield, hplaced, henough, hlower⟩, hopen, hrenders⟩ := ih
      have hteam := team_children hfield hplaced hopen hrenders
      rw [hchildren, List.map_append, List.map_cons] at hteam
      obtain ⟨hgoes, hteam⟩ := (ensures_eachChild (renders fuel) (hfield.below hplaced)
        (team_split hteam) henough hlower).ok_of_outcome hbefore
      obtain ⟨hplaced', hpending, hcontext⟩ := hteam.contexts _ List.mem_cons_self
      have hcontext : ctx.child r.state.document x = ctx.child r'.state.document x := hcontext
      rw [hcontext] at hplaced' hpending
      exact ⟨_, _, level, ⟨(hfield.below hplaced).next hgoes, hplaced', henough, hlower⟩, hpending⟩

/-- What every step keeps holds when the walk comes to a part. -/
theorem ComesTo.holds {inv : Recording → Prop} {part : Part}
    (hinv : ∀ r step, Genuine settings step → step.before = r.state → inv r →
      inv ⟨step.after, r.steps ++ [step]⟩)
    (hpublished : inv ⟨(outcome (Renderer.publishMacros settings libraries) s).2, []⟩)
    (h : ComesTo settings libraries node s part r) : inv r := by
  induction h with
  | walk houtcome =>
      rw [houtcome] at hpublished
      exact hpublished
  | within h hprepared hhanded hcontexts hbefore hrenders ih =>
      have h₁ := (holds_guarded hinv (holds_record hinv (.prepare _ _)) _ ih).ok_of_outcome hprepared
      have h₂ := (holds_runHandlers hinv _ _ _ _ h₁).ok_of_outcome hhanded
      exact (Holds.forM (holds_renderWithin hinv (holds_render hinv _)) _ _ h₂).ok_of_outcome hbefore
  | exposed h hprepared hhanded hwithin hexposed hbefore ih =>
      have h₁ := (holds_guarded hinv (holds_record hinv (.prepare _ _)) _ ih).ok_of_outcome hprepared
      have h₂ := (holds_runHandlers hinv _ _ _ _ h₁).ok_of_outcome hhanded
      have h₃ := (Holds.forM (holds_renderWithin hinv (holds_render hinv _)) _ _ h₂).ok_of_outcome
        hwithin
      exact (Holds.forM (fun _ => holds_render hinv _ _ _) _ _ h₃).ok_of_outcome hbefore
  | child h hchildren hbefore ih =>
      exact (Holds.forM (holds_renderChild (holds_render hinv _) _) _ _ ih).ok_of_outcome hbefore

/-- The cache is faithful whenever the walk comes to a part. -/
theorem ComesTo.isFaithful_cache {part : Part} (hready : Ready settings node s)
    (hcache : s.cache.IsFaithful) (h : ComesTo settings libraries node s part r) :
    r.state.cache.IsFaithful := by
  have hheld : Held (fun t => t.cache.IsFaithful) r :=
    h.holds (held_taken (isFaithful_of_genuine hready.visitors))
      (held_start (isFaithful_cache_published hcache))
  exact hheld.now

/-! ## Global bindings -/

/-- No step so far has changed the global bindings. -/
def BindsNoGlobal (r : Recording) : Prop :=
  ∀ step ∈ r.steps, step.after.globals = step.before.globals

theorem globals_taken {globals : Globals} (r : Recording) (step : Step)
    (_ : Genuine settings step) (hbefore : step.before = r.state)
    (h : BindsNoGlobal r → r.state.globals = globals)
    (hquiet : BindsNoGlobal ⟨step.after, r.steps ++ [step]⟩) : step.after.globals = globals := by
  obtain ⟨hearlier, hstep⟩ := List.forall_mem_append.mp hquiet
  rw [List.forall_mem_singleton.mp hstep, hbefore, h hearlier]

/-- As long as no step changes the global bindings, they stay the same. -/
theorem globals_renderChild {x : NodeId}
    (h : outcome (renderChild (render settings fuel path) c x) r = (.ok (), r'))
    (hquiet : BindsNoGlobal r') : r'.state.globals = r.state.globals := by
  have hholds : Holds (fun t => BindsNoGlobal t → t.state.globals = r.state.globals)
      (renderChild (render settings fuel path) c x) :=
    holds_renderChild (holds_render globals_taken fuel) c x
  exact (hholds r fun _ => rfl).ok_of_outcome h hquiet

end Walk.Recorded

end PageTemplate
