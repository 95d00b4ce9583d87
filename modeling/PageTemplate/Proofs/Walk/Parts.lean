import PageTemplate.Proofs.Walk.Turns

/-! # The parts of a rendering

The rendering of an element is cut into parts: its preparation, one part for each directive, the
children of what the directives leave, and one part for each element that was exposed. What is left
to do between two parts is a value, so that other elements can be worked on in between.
-/

namespace PageTemplate

open Markup Document Stage

namespace Walk.Recorded

/-- What follows on the preparation of an element, up to the elements that were exposed. -/
inductive Phase where
  | handle (handler : Handler)
  /-- The children of the contexts that the directives have left are rendered. -/
  | within

namespace Phase

/-- The phase needs markup of the template. -/
def takes : Phase → Bool
  | .handle handler => handler.takes
  | .within => false

/-- The phase leaves markup of the template. -/
def leaves : Phase → Bool
  | .handle handler => handler.leaves
  | .within => false

/-- Some directives, and then the children. -/
def following (handlers : List Handler) : List Phase := handlers.map .handle ++ [.within]

theorem isChain_order : (following Handler.order).IsChain fun a b => a.leaves = b.takes := by
  simp only [following, Handler.order, List.map_cons, List.map_nil, List.cons_append,
    List.nil_append]
  decide

end Phase

/-- Whether the first phase needs markup of the template. -/
def firstTakes (todo : List Phase) : Bool := todo.head?.any Phase.takes

/-- A rendering, for what is rendered in the course of it. -/
structure Frame where
  path : List Enclosure
  /-- The element with which the rendering began. -/
  entry : Context
  /-- The state in which it began. -/
  start : RenderState

/-- What is left to do for an element. -/
inductive Work where
  /-- Nothing has been done yet. -/
  | fresh (path : List Enclosure) (entry : Context)
  /-- The phases that are still to come, for what has been handed on. -/
  | underway (frame : Frame) (todo : List Phase) (handed : Handed)

namespace Work

/-- Does the next part. -/
def next (settings : Settings) (fuel : Nat) : Work → Recorded Work
  | .fresh path entry => do
    let start ← get
    let found ← guarded settings path entry
      (record .prepare path entry (prepare settings entry))
    return .underway ⟨path, entry, start.state⟩ (Phase.following Handler.order)
      { contexts := found.toList }
  | .underway frame (.handle handler :: todo) handed => do
    let next ← runHandler settings frame.path handler handed.contexts
    return .underway frame todo
      { contexts := next.contexts, exposed := handed.exposed ++ next.exposed }
  | .underway frame (.within :: todo) handed => do
    handed.contexts.forM (renderWithin settings fuel frame.path frame.entry frame.start)
    return .underway frame todo { exposed := handed.exposed }
  | .underway frame [] ⟨contexts, exposed :: rest⟩ => do
    renderExposed settings fuel frame.path frame.entry frame.start exposed
    return .underway frame [] ⟨contexts, rest⟩
  | .underway frame [] ⟨contexts, []⟩ => return .underway frame [] ⟨contexts, []⟩

/-- What is left to do concerns elements of the region, with levels enough for it. -/
def Ready (stage : Stage) (p : NodeId) (fuel : Nat) (R : NodeId → Prop) (r : Recording) :
    Work → Prop
  | .fresh path entry => ∃ level ≤ fuel, stage.Placed R p r.state.document entry ∧
      stage.Pending (stage.Clean r) (level + 1) r.state.document entry ∧
      ∀ head ∈ path.head?, level + 1 < stage.level head.start.document head.entry
  | .underway frame todo handed => ∃ level ≤ fuel,
      level < stage.level frame.start.document frame.entry ∧
      todo.IsChain (fun a b => a.leaves = b.takes) ∧
      stage.Team R p (StandsIn stage (firstTakes todo) level) (StandsIn stage false level) level r
        handed.contexts { exposed := handed.exposed.map (·.2) }

/-- The same is left to do in twins. -/
inductive Alike (P : Pairing) : Work → Work → Prop
  | fresh {path path' : List Enclosure} {entry entry' : Context} (h : entry.Twins P entry') :
    Alike P (.fresh path entry) (.fresh path' entry')
  | underway {frame frame' : Frame} {todo : List Phase} {handed handed' : Handed}
      (h : handed.Twins P handed') :
    Alike P (.underway frame todo handed) (.underway frame' todo handed')

end Work

variable {stage : Stage} {R R' : NodeId → Prop} {p : NodeId} {r r' : Recording} {level fuel : Nat}
  {settings : Settings} {frame : Frame} {todo : List Phase} {handed : Handed} {work work' : Work}

/-! ## What the parts do -/

/-- A team stays together when everything in its region becomes part of another one. -/
theorem team_settled {before after : Recording → Context → Prop} {rest : List Context}
    {outcome : Outcome} (hfield : stage.Field R p r) (hbefore : stage.Steady before)
    (hafter : stage.Steady after) (hteam : stage.Team R p before after level r rest outcome)
    (hsettles : Settles stage R R' r r') : stage.Team R' p before after level r' rest outcome := by
  have hkept : ∀ {good : Recording → Context → Prop}, stage.Steady good → ∀ c,
      stage.Placed R p r.state.document c ∧ good r c →
        stage.Placed R' p r'.state.document c ∧ good r' c := by
    intro good hsteady c hc
    obtain ⟨hsame, hplaced⟩ := hsettles.placed hfield hc.1
    exact ⟨hplaced, hsteady r r' c hsame hc.2⟩
  exact ⟨fun c hc => hkept hbefore c (hteam.waiting c hc),
    fun c hc => hkept hafter c (hteam.contexts c hc),
    fun c hc => hkept (steady_pending stage level) c (hteam.exposed c hc), hteam.nodup⟩

theorem Work.Ready.settled (hfield : stage.Field R p r) (h : work.Ready stage p fuel R r)
    (hsettles : Settles stage R R' r r') : work.Ready stage p fuel R' r' := by
  cases work with
  | fresh path entry =>
      obtain ⟨level, hlevel, hplaced, hpending, hpath⟩ := h
      obtain ⟨hsame, hplaced'⟩ := hsettles.placed hfield hplaced
      exact ⟨level, hlevel, hplaced', steady_pending stage (level + 1) r r' entry hsame hpending,
        hpath⟩
  | underway frame todo handed =>
      obtain ⟨level, hlevel, hlow, hchain, hteam⟩ := h
      exact ⟨level, hlevel, hlow, hchain,
        team_settled hfield steady_standsIn steady_standsIn hteam hsettles⟩

/-- What a phase leaves is what the next one takes. -/
theorem team_next {before : Recording → Context → Prop} {phase : Phase} {exposed : List Context}
    (hchain : (phase :: todo).IsChain fun a b => a.leaves = b.takes)
    (hteam : stage.Team R p before (StandsIn stage phase.leaves level) level r []
      (handed.after exposed)) :
    stage.Team R p (StandsIn stage (firstTakes todo) level) (StandsIn stage false level) level r
      handed.contexts { exposed := exposed ++ handed.exposed.map (·.2) } := by
  apply turned hteam
  intro ctx hctx
  cases todo with
  | nil => exact StandsIn.open hctx
  | cons next todo =>
      have hleaves : phase.leaves = next.takes := (List.isChain_cons_cons.mp hchain).1
      rwa [hleaves] at hctx

theorem Work.ensures_next (hfield : stage.Field R p r) (h : work.Ready stage p fuel R r) :
    Ensures (work.next stage.settings fuel) r
      (fun work' r' => stage.Goes R p r r' ∧ work'.Ready stage p fuel R r') (stage.Stops R p r) := by
  cases work with
  | fresh path entry =>
      obtain ⟨level, hlevel, hplaced, hpending, hpath⟩ := h
      obtain ⟨l, hle, hl, hpending⟩ := hpending.lowered hfield hplaced
      have hpath' : ∀ head ∈ path.head?,
          stage.level r.state.document entry < stage.level head.start.document head.entry := by
        intro head hhead
        exact hl ▸ Nat.lt_of_le_of_lt hle (hpath head hhead)
      refine Ensures.bind (Ensures.get (Ensures.bind ?_))
      refine (ensures_begin hfield hplaced hpending hpath').mono ?_ fun _ _ =>
        hfield.widen_stops hplaced
      rintro found r₁ ⟨hgoes, hfound⟩
      have hgoes₁ := hfield.widen hplaced hgoes
      refine Ensures.pure ⟨hgoes₁, l, by omega, hl ▸ Nat.lt_succ_self l, Phase.isChain_order, ?_⟩
      cases found with
      | none => exact ⟨by simp, by simp, by simp, by simp⟩
      | some c =>
          obtain ⟨hplaced₁, hpending₁⟩ := hfound c rfl
          have hwide : stage.Placed R p r₁.state.document c :=
            ⟨hplaced₁.admits, hfield.region.own_subset hplaced.mem hplaced₁.mem,
              hplaced₁.parent_eq, hplaced₁.element⟩
          exact team_single hwide (standsIn_of_pending hpending₁)
  | underway frame todo handed =>
      obtain ⟨level, hlevel, hlow, hchain, hteam⟩ := h
      match todo with
      | .handle handler :: todo =>
          have hteam₀ : stage.Team R p (StandsIn stage handler.takes level)
              (StandsIn stage handler.leaves level) level r handed.contexts
              { exposed := handed.exposed.map (·.2) } :=
            ⟨hteam.waiting, by simp, hteam.exposed, hteam.nodup⟩
          refine Ensures.bind ((ensures_runHandler hfield hteam₀).mono ?_ fun _ _ => id)
          rintro next r₁ ⟨hgoes, hteam₁⟩
          refine Ensures.pure ⟨hgoes, level, hlevel, hlow, hchain.tail, ?_⟩
          rw [List.map_append]
          exact team_next hchain hteam₁
      | .within :: todo =>
          have hteam₀ : stage.Team R p (StandsIn stage false level) (StandsIn stage false level)
              level r handed.contexts { exposed := handed.exposed.map (·.2) } := hteam
          refine Ensures.bind ((ensures_within (renders fuel) hfield hteam₀ hlevel hlow).mono ?_
            fun _ _ => id)
          rintro _ r₁ ⟨hgoes, hteam₁⟩
          refine Ensures.pure ⟨hgoes, level, hlevel, hlow, hchain.tail, ?_⟩
          exact ⟨by simp, by simp, hteam₁.exposed, hteam₁.nodup⟩
      | [] =>
          obtain ⟨contexts, _ | ⟨exposed, rest⟩⟩ := handed
          · exact Ensures.pure ⟨.refl hfield.logged, level, hlevel, hlow, hchain, hteam⟩
          · -- The first of the exposed elements is rendered, and the others wait.
            have hteam₀ : stage.Team R p
                (fun r ctx => stage.Pending (stage.Clean r) level r.state.document ctx)
                (StandsIn stage false level) level r ([exposed].map (·.2))
                { contexts, exposed := rest.map (·.2) } := by
              refine ⟨?_, hteam.waiting, fun c hc => hteam.exposed c (List.mem_cons_of_mem _ hc), ?_⟩
              · intro c hc
                obtain rfl := List.mem_singleton.mp hc
                exact hteam.exposed _ List.mem_cons_self
              · have hnodup := hteam.nodup
                simp only [List.append_nil, List.map_append, List.map_cons, List.map_nil,
                  List.cons_append, List.nil_append] at hnodup ⊢
                exact List.nodup_middle.mp hnodup
            obtain ⟨hplaced, hpending⟩ := hteam₀.waiting exposed.2 (by simp)
            have hpath : ∀ head ∈ (⟨frame.entry, frame.start, exposed.1, true⟩ ::
                frame.path : List Enclosure).head?,
                  level < stage.level head.start.document head.entry := by
              rintro _ ⟨⟩
              exact hlow
            refine Ensures.bind ((renders fuel R p r _ exposed.2 level hfield hplaced hpending hlevel
              hpath).mono ?_ fun _ _ => hfield.widen_stops hplaced)
            intro _ r₁ hgoes
            have hteam₁ := hteam₀.step hfield.region (steady_pending stage level) steady_standsIn
              hgoes .removed hands_removed
            simp only [Outcome.removed, List.append_nil] at hteam₁
            refine Ensures.pure ⟨hfield.widen hplaced hgoes, level, hlevel, hlow, hchain,
              hteam₁.contexts, by simp, hteam₁.exposed, ?_⟩
            simpa using hteam₁.nodup

/-! ## Twins -/

theorem Handed.twins_self {P : Pairing} {before after : Recording → Context → Prop}
    (hteam : stage.Team R p before after level r handed.contexts
      { exposed := handed.exposed.map (·.2) })
    (hpairs : ∀ n, n < r.state.document.size → R n → P.Pairs n n) : handed.Twins P handed := by
  have hself : ∀ c, stage.Placed R p r.state.document c → c.Twins P c := fun c hc =>
    ⟨c.node, hpairs _ (lt_size_of_isElement hc.element) hc.mem, rfl⟩
  refine ⟨List.forall₂_same.mpr fun c hc => hself c (hteam.waiting c hc).1,
    List.forall₂_same.mpr fun entry hentry => hself _ (hteam.exposed _ ?_).1⟩
  exact List.mem_map_of_mem hentry

theorem Handed.Twins.again {P P' : Pairing} {handed' : Handed}
    {before after : Recording → Context → Prop} (h : handed.Twins P handed')
    (hteam : stage.Team R p before after level r handed.contexts
      { exposed := handed.exposed.map (·.2) })
    (hpairs : ∀ {n n'}, n < r.state.document.size → P.Pairs n n' → P'.Pairs n n') :
    handed.Twins P' handed' := by
  have hagain : ∀ c c' : Context, stage.Placed R p r.state.document c → c.Twins P c' →
      c.Twins P' c' := by
    rintro c c' hc ⟨node, hnode, rfl⟩
    exact ⟨node, hpairs (lt_size_of_isElement hc.element) hnode, rfl⟩
  constructor
  · have hplaced := List.forall₂_and_left _ _ |>.mpr
      ⟨fun c hc => (hteam.waiting c hc).1, h.contexts⟩
    exact hplaced.imp fun c c' hc => hagain c c' hc.1 hc.2
  · have hplaced := List.forall₂_and_left _ _ |>.mpr
      ⟨fun entry hentry => (hteam.exposed _ (List.mem_map_of_mem hentry)).1, h.exposed⟩
    exact hplaced.imp fun entry entry' hentry => hagain _ _ hentry.1 hentry.2

theorem grows_runHandler (settings : Settings) (path : List Enclosure) (handler : Handler)
    (contexts : List Context) : Grows (runHandler settings path handler contexts) := by
  apply Grows.andThen _ fun _ => grows_pure _
  apply Grows.mapM
  intro ctx
  exact (unwinding_guarded settings (unwinding_record (.handle handler path ctx)).map).grows

theorem grows_within (settings : Settings) (fuel : Nat) (frame : Frame) (contexts : List Context) :
    Grows (contexts.forM (renderWithin settings fuel frame.path frame.entry frame.start)) :=
  (unwinding_forM (unwinding_renderWithin settings fuel frame.path frame.entry frame.start)
    contexts).grows

theorem Work.grows_next (settings : Settings) (fuel : Nat) (work : Work) :
    Grows (work.next settings fuel) := by
  cases work with
  | fresh path entry =>
      have hget : Grows (get : Recorded Recording) := fun r => ⟨[], (List.append_nil _).symm⟩
      refine hget.andThen fun _ => Grows.andThen ?_ fun _ => grows_pure _
      exact (unwinding_guarded _ (unwinding_record (.prepare path entry))).grows
  | underway frame todo handed =>
      match todo with
      | .handle handler :: todo =>
          exact (grows_runHandler settings _ _ _).andThen fun _ => grows_pure _
      | .within :: todo => exact (grows_within settings fuel frame _).andThen fun _ => grows_pure _
      | [] =>
          obtain ⟨contexts, _ | ⟨exposed, rest⟩⟩ := handed
          · exact grows_pure _
          · exact (unwinding_renderExposed settings fuel _ _ _ exposed).grows.andThen
              fun _ => grows_pure _

theorem Work.coupled_next {P : Pairing} (hvisitors : stage.settings.visitors = [])
    (hsource : P.source' = P.source) (h : work.Alike P work') :
    Coupled stage P (Work.Alike P) (work.next stage.settings fuel)
      (work'.next stage.settings fuel) := by
  have hrender : ∀ {path path' : List Enclosure} {ctx ctx' : Context}, ctx.Twins P ctx' →
      Coupled stage P (fun _ _ => True) (render stage.settings fuel path ctx)
        (render stage.settings fuel path' ctx') := coupled_render hvisitors hsource fuel
  cases h with
  | @fresh path path' entry entry' hentry =>
      have hprepare : ∀ (path : List Enclosure) (entry : Context),
          Grows (guarded stage.settings path entry
            (record .prepare path entry (prepare stage.settings entry))) := fun path entry =>
        (unwinding_guarded _ (unwinding_record (.prepare path entry))).grows
      refine coupled_get.bind (fun r r' _ => ?_)
        (fun r => (hprepare path entry).andThen fun _ => grows_pure _)
        fun r => (hprepare path' entry').andThen fun _ => grows_pure _
      refine (coupled_guarded hvisitors hentry
        (coupled_prepare hvisitors hentry hsource)).bind (fun found found' hfound =>
          coupled_pure (.underway ⟨?_, .nil⟩)) (fun _ => grows_pure _) fun _ => grows_pure _
      cases hfound with
      | none => exact .nil
      | some hc => exact .cons hc .nil
  | @underway frame frame' todo handed handed' hhanded =>
      match todo with
      | .handle handler :: todo =>
          exact (coupled_runHandler hvisitors handler hhanded.contexts).bind
            (fun next next' hnext => coupled_pure
              (.underway ⟨hnext.contexts, List.rel_append hhanded.exposed hnext.exposed⟩))
            (fun _ => grows_pure _) fun _ => grows_pure _
      | .within :: todo =>
          exact (Coupled.forM hhanded.contexts
            (fun c c' hc => coupled_renderWithin hvisitors hrender hc)
            (grows_within _ _ frame) (grows_within _ _ frame')).bind
            (fun _ _ _ => coupled_pure (.underway ⟨.nil, hhanded.exposed⟩))
            (fun _ => grows_pure _) fun _ => grows_pure _
      | [] =>
          obtain ⟨contexts, exposed⟩ := handed
          obtain ⟨contexts', exposed'⟩ := handed'
          obtain ⟨hcontexts, hexposed⟩ := hhanded
          cases hexposed with
          | nil => exact coupled_pure (.underway ⟨hcontexts, .nil⟩)
          | cons hfirst hrest =>
              exact (hrender hfirst).bind
                (fun _ _ _ => coupled_pure (.underway ⟨hcontexts, hrest⟩))
                (fun _ => grows_pure _) fun _ => grows_pure _

/-- Work on the children of `p` in the parts of their renderings. -/
def parts (stage : Stage) (p : NodeId) (fuel : Nat) (hvisitors : stage.settings.visitors = []) :
    Routine stage p Work where
  next := Work.next stage.settings fuel
  Ready := Work.Ready stage p fuel
  Alike := Work.Alike
  ensures hfield hready := Work.ensures_next hfield hready
  steady hfield hready hsettles := hready.settled hfield hsettles
  coupled hsource halike := Work.coupled_next hvisitors hsource halike
  alike_self {P R r work} hready hpairs := by
    cases work with
    | fresh path entry =>
        obtain ⟨level, -, hplaced, -⟩ := hready
        exact .fresh ⟨entry.node, hpairs _ (lt_size_of_isElement hplaced.element) hplaced.mem, rfl⟩
    | underway frame todo handed =>
        obtain ⟨level, -, -, -, hteam⟩ := hready
        exact .underway (Handed.twins_self hteam hpairs)
  alike_again {P P' R r work work'} hready halike hpairs := by
    cases halike with
    | fresh hentry =>
        obtain ⟨level, -, hplaced, -⟩ := hready
        obtain ⟨node, hnode, rfl⟩ := hentry
        exact .fresh ⟨node, hpairs (lt_size_of_isElement hplaced.element) hnode, rfl⟩
    | underway hhanded =>
        obtain ⟨level, -, -, -, hteam⟩ := hready
        exact .underway (hhanded.again hteam hpairs)

theorem Work.holds_next {inv : Recording → Prop} (hinv : ∀ r step, Genuine settings step →
    step.before = r.state → inv r → inv ⟨step.after, r.steps ++ [step]⟩) :
    Holds inv (work.next settings fuel) := by
  cases work with
  | fresh path entry =>
      refine Holds.bind (fun _ hr => Ensures.get hr) fun start => ?_
      exact (holds_guarded hinv (holds_record hinv (.prepare path entry))).bind fun _ => .pure _
  | underway frame todo handed =>
      match todo with
      | .handle handler :: todo =>
          exact (holds_runHandler hinv _ _ _).bind fun _ => .pure _
      | .within :: todo =>
          exact (Holds.forM (holds_renderWithin hinv (holds_render hinv fuel)) _).bind
            fun _ => .pure _
      | [] =>
          obtain ⟨contexts, _ | ⟨exposed, rest⟩⟩ := handed
          · exact .pure _
          · exact (holds_render hinv fuel _ _).bind fun _ => .pure _

theorem records_parts (hvisitors : stage.settings.visitors = []) :
    (parts stage p fuel hvisitors).Records := by
  intro w r w' r' hnext hquiet
  have hholds : Holds (fun t => BindsNoGlobal t → t.state.globals = r.state.globals)
      (w.next stage.settings fuel) := Work.holds_next globals_taken
  exact (hholds r fun _ => rfl).ok_of_outcome hnext hquiet

end Walk.Recorded

end PageTemplate
