import PageTemplate.Proofs.Walk.Teams

/-! # A walk keeps to its limits

Rendering an element stays within the region of the element and never runs out of levels. The
directives of an element leave contexts of different elements, whose children take fewer levels
than the element did; so do the elements that were exposed.
-/

namespace PageTemplate

open Markup Document Stage

namespace Handler

/-- The directive needs markup of the template at its element. -/
def takes (handler : Handler) : Bool := (Walk.Task.handle handler).needsTemplate

/-- The directive leaves markup of the template at the elements that it hands on. -/
def leaves (handler : Handler) : Bool :=
  handler.takes && !(Walk.Task.handle handler).writesOutput

/-- Every directive leaves what the next one takes. -/
theorem isChain_order : order.IsChain fun handler next => handler.leaves = next.takes := by
  decide

end Handler

namespace Stage

variable {stage : Stage} {p : NodeId} {s : RenderState} {ctx : Context} {ok ok' : NodeId → Prop}
  {level : Nat} {d : Document} {template : Bool}

theorem Stands.open (h : stage.Stands template ok level d ctx) : stage.Open ok level d ctx := by
  cases template with
  | true => exact Pending.open h
  | false => exact h

/-- What is good only has to be better at the element and below. -/
theorem Stands.imp (h : stage.Stands template ok level d ctx)
    (himp : ∀ m, d.Below ctx.node m → ok m → ok' m) : stage.Stands template ok' level d ctx := by
  cases template with
  | true => exact Pending.congr h (fun _ _ => rfl) himp
  | false =>
      exact Open.congr h (himp _ .refl) (List.Subset.refl _)
        (fun _ _ _ _ => ⟨List.Subset.refl _, rfl⟩) fun c hc m hm => himp m (.of_child hc hm)

end Stage

variable {stage : Stage} {p : NodeId} {s : RenderState} {ctx : Context} {ok : NodeId → Prop}
  {level : Nat}

/-- Every directive does what it does within the region of its element. -/
theorem Handler.carries_handle (handler : Handler) (hstanding : stage.Standing p s ctx)
    (hstands : stage.Stands handler.takes ok level s.document ctx)
    (hfresh : handler ≠ .content → ∀ n, s.document.size ≤ n → ok n) :
    Carries stage p s ctx (stage.Stands handler.leaves ok level) ok level
      (handler.handle stage.settings ctx) := by
  cases handler with
  | define => exact Define.carries_handle hstanding hstands
  | condition => exact Condition.carries_handle hstanding hstands
  | repetition => exact Repeat.carries_handle hstanding hstands (hfresh nofun)
  | content => exact Content.carries_handle hstanding hstands
  | attributes => exact Attributes.carries_handle hstanding hstands
  | omitTag => exact OmitTag.carries_handle hstanding hstands

namespace Walk.Recorded

variable {R : NodeId → Prop} {r r' : Recording} {c : Context} {path : List Enclosure}
  {handler : Handler} {template : Bool}

/-- What holds at an element with the nodes that are good in a recording. Whatever has been done to
the element, there are no notes below it. -/
structure StandsIn (stage : Stage) (template : Bool) (level : Nat) (r : Recording)
    (ctx : Context) : Prop where
  stands : stage.Stands template (stage.Clean r) level r.state.document ctx
  clear : ∀ n, r.state.document.Below ctx.node n → ¬ stage.IsNote r.steps n

/-- An element that is to be rendered has no notes below it. -/
theorem standsIn_of_pending (h : stage.Pending (stage.Clean r) (level + 1) r.state.document c) :
    StandsIn stage true level r c := by
  obtain ⟨-, -, k, hgood, -⟩ := id h
  exact ⟨h, fun n hn => (hgood.below hn).self.1.2⟩

theorem StandsIn.open (h : StandsIn stage template level r c) : StandsIn stage false level r c :=
  ⟨h.stands.open, h.clear⟩

theorem steady_standsIn : stage.Steady (StandsIn stage template level) := by
  rintro r r' ctx hsame ⟨hstands, hclear⟩
  refine ⟨?_, fun n hn => ?_⟩
  · cases template with
    | true => exact steady_pending stage (level + 1) r r' ctx hsame hstands
    | false => exact steady_open stage level r r' ctx hsame hstands
  · have hbelow : r.state.document.Below ctx.node n := hn.of_congr fun m hm => by
      unfold Document.children
      rw [(hsame m hm).1]
      exact List.Subset.refl _
    exact (hsame n hbelow).note (hclear n hbelow)

/-! ## One directive -/

/-- What is good for a directive: nodes that no value has become and that are no notes, and for a
content directive only those that are there when it begins. -/
def GoodFor (stage : Stage) (handler : Handler) (r : Recording) (n : NodeId) : Prop :=
  stage.Clean r n ∧ (handler = .content → n < r.state.document.size)

section Directive

variable {step : Step} (hsteps : r'.steps = r.steps ++ [step])
  (htask : step.task = .handle handler)

include hsteps htask

/-- A directive makes no notes. -/
theorem not_note_of_handled {n : NodeId} (hn : ¬ stage.IsNote r.steps n) :
    ¬ stage.IsNote r'.steps n := by
  intro hnote
  rw [hsteps] at hnote
  rcases hnote.concat with hnote | hnote
  · exact hn hnote
  · rw [Step.notes_eq_nil (by rw [htask]; exact nofun)] at hnote
    cases hnote

theorem clean_of_goodFor {n : NodeId} (hgoes : stage.Goes R p r r')
    (hn : GoodFor stage handler r n) : stage.Clean r' n := by
  refine ⟨?_, not_note_of_handled hsteps htask hn.1.2⟩
  by_cases hcontent : handler = .content
  · exact hgoes.not_output (hn.2 hcontent) hn.1.1
  · rw [hsteps]
    refine fun hout => hn.1.1 (hout.of_concat ?_)
    rw [htask]
    cases handler <;> first | rfl | exact absurd rfl hcontent

/-- Whatever a directive leaves in the place of its element, there are no notes below it. -/
theorem clear_of_handled {z : Context} (hregion : Region (r.state.document.own c.node) p
      r.state.document) (hgoes : stage.Goes (r.state.document.own c.node) p r r')
    (hlogged : stage.Logged r)
    (hclear : ∀ n, r.state.document.Below c.node n → ¬ stage.IsNote r.steps n)
    (hz : r.state.document.own c.node z.node) (n : NodeId)
    (hn : r'.state.document.Below z.node n) : ¬ stage.IsNote r'.steps n := by
  refine not_note_of_handled hsteps htask ?_
  rcases (hregion.within hgoes.within).own_subset hz (.inl hn) with hold | hnew
  · exact hclear n hold
  · exact hlogged.not_note hnew

end Directive

/-- One directive on one element of a region, under the protection of its error handler. -/
theorem ensures_directive (hfield : stage.Field R p r)
    (hplaced : stage.Placed R p r.state.document c)
    (hstands : StandsIn stage handler.takes level r c) :
    Ensures (guarded stage.settings path c
        ((c, ·) <$> record (.handle handler) path c (handler.handle stage.settings c))) r
      (fun found r' => stage.Goes (r.state.document.own c.node) p r r' ∧
        ∀ handed, found = some handed → handed.1 = c ∧
          stage.Hands (fun _ => StandsIn stage handler.leaves level r') (stage.Clean r') level
            (r.state.document.own c.node) p r'.state.document handed.2)
      (stage.Stops (r.state.document.own c.node) p r) := by
  have hstanding := hfield.standing hplaced
  have hat := hfield.enter hplaced hstands.stands.open.1
  have hlt : ∀ m, r.state.document.Below c.node m → m < r.state.document.size := fun m hm =>
    hstanding.linked.below_lt hm hstanding.node_lt
  have hgood : stage.Stands handler.takes (GoodFor stage handler r) level r.state.document c :=
    hstands.stands.imp fun m hm hclean => ⟨hclean, fun _ => hlt m hm⟩
  -- New nodes are no output, unless the handler is the one that writes values.
  have hcarries := handler.carries_handle hstanding hgood fun hcontent n hn =>
    ⟨⟨hfield.logged.not_output hn, hfield.logged.not_note hn⟩, fun h => absurd h hcontent⟩
  have htemplate : (Task.handle handler).needsTemplate = true → ∀ n,
      r.state.document.Below c.node n →
      ¬ IsOutput r.steps n ∧ Stems stage.origin (r.state.document.kind n) := by
    intro htakes n hn
    have hpending : StandsIn stage true level r c := htakes ▸ hstands
    obtain ⟨-, -, k, hgood, -⟩ := hpending.stands
    exact (hgood.below hn).self.imp_left And.left
  have hfinds : (Task.handle handler).recovers = false →
      stage.Finds r.steps (Task.handle handler).needsTemplate r.state.document c := fun _ =>
    ⟨⟨level, hstands.stands.imp fun _ _ _ => trivial⟩, hstands.clear⟩
  have hstep := hcarries.mono (fun _ _ => id) fun _ _ h => h.at (.handle handler)
  refine ensures_guarded hat (Ensures.map
    ((ensures_record hat.toNear (hat.lies _) htemplate hfinds nofun nofun nofun hstep).mono ?_
      fun _ _ => id))
  rintro outcome r' ⟨hgoes, hhands, hsteps⟩
  have hclear : ∀ z, stage.Placed (r.state.document.own c.node) p r'.state.document z →
      ∀ n, r'.state.document.Below z.node n → ¬ stage.IsNote r'.steps n := fun z hz =>
    clear_of_handled hsteps rfl hstanding.region hgoes hfield.logged hstands.clear hz.mem
  refine ⟨hgoes, rfl, ⟨fun z hz => ?_, fun z hz => ?_, hhands.nodup⟩⟩
  · obtain ⟨hz, hstands'⟩ := hhands.contexts z hz
    exact ⟨hz, hstands'.imp fun m _ => clean_of_goodFor hsteps rfl hgoes, hclear z hz⟩
  · obtain ⟨hz, hpending⟩ := hhands.exposed z hz
    exact ⟨hz, hpending.congr (fun _ _ => rfl) fun m _ => clean_of_goodFor hsteps rfl hgoes⟩

/-! ## All directives -/

/-- What the directive has handed on for the contexts so far. -/
def handedBy (results : List (Option (Context × Outcome))) : Handed where
  contexts := (results.filterMap id).flatMap (·.2.contexts)
  exposed := (results.filterMap id).flatMap fun (ctx, outcome) => outcome.exposed.map (ctx, ·)

/-- What a directive hands on, added to what had been exposed before. -/
def Handed.after (exposed : List Context) (handed : Handed) : Outcome where
  contexts := handed.contexts
  exposed := exposed ++ handed.exposed.map (·.2)

theorem after_handedBy_none (results : List (Option (Context × Outcome)))
    (exposed : List Context) :
    (handedBy (results ++ [none])).after exposed = (handedBy results).after exposed := by
  simp [handedBy, Handed.after]

theorem after_handedBy_some (results : List (Option (Context × Outcome)))
    (handed : Context × Outcome) (exposed : List Context) :
    (handedBy (results ++ [some handed])).after exposed =
      { contexts := ((handedBy results).after exposed).contexts ++ handed.2.contexts
        exposed := ((handedBy results).after exposed).exposed ++ handed.2.exposed } := by
  simp [handedBy, Handed.after, Function.comp_def]

/-- One directive on each of several elements. -/
theorem ensures_runHandler {contexts exposed : List Context} (hfield : stage.Field R p r)
    (hteam : stage.Team R p (StandsIn stage handler.takes level)
      (StandsIn stage handler.leaves level) level r contexts { exposed }) :
    Ensures (runHandler stage.settings path handler contexts) r
      (fun handed r' => stage.Goes R p r r' ∧
        stage.Team R p (StandsIn stage handler.takes level) (StandsIn stage handler.leaves level)
          level r' [] (handed.after exposed))
      (stage.Stops R p r) := by
  unfold runHandler
  refine Ensures.bind ((Ensures.mapM [] (fun rest results r' => stage.Goes R p r r' ∧
    stage.Team R p (StandsIn stage handler.takes level) (StandsIn stage handler.leaves level) level
      r' rest ((handedBy results).after exposed)) ?_ ?_).mono ?_ fun _ _ => id)
  · refine ⟨.refl hfield.logged, ?_⟩
    simpa [handedBy, Handed.after] using hteam
  · rintro c rest results r₁ ⟨hgoes, hteam⟩
    have hfield₁ := hfield.next hgoes
    obtain ⟨hplaced, hstands⟩ := hteam.waiting c List.mem_cons_self
    refine (ensures_directive hfield₁ hplaced hstands).mono ?_ fun stop r₂ hstops =>
      hgoes.stops (hfield₁.widen_stops hplaced hstops)
    rintro found r₂ ⟨hgoes₂, hhands⟩
    refine ⟨hgoes.trans (hfield₁.widen hplaced hgoes₂), ?_⟩
    have hstep := fun outcome => hteam.step hfield₁.region steady_standsIn steady_standsIn hgoes₂
      outcome
    -- An element that was recovered is done with: it hands nothing on.
    cases found with
    | none =>
        rw [after_handedBy_none]
        simpa [Outcome.removed] using hstep .removed hands_removed
    | some handed =>
        rw [after_handedBy_some]
        exact hstep handed.2 (hhands handed rfl).2
  · rintro results r' ⟨hgoes, hteam⟩
    exact Ensures.pure ⟨hgoes, hteam⟩

/-- What is waiting and what has been handed on change places. -/
theorem turned {before after before' : Recording → Context → Prop} {handed : Handed}
    {exposed : List Context} (hteam : stage.Team R p before after level r [] (handed.after exposed))
    (himp : ∀ ctx, after r ctx → before' r ctx) {after' : Recording → Context → Prop} :
    stage.Team R p before' after' level r handed.contexts
      { exposed := exposed ++ handed.exposed.map (·.2) } := by
  refine ⟨fun ctx hctx => (hteam.contexts ctx hctx).imp_right (himp ctx), by simp,
    hteam.exposed, ?_⟩
  simpa [Handed.after] using hteam.nodup

/-- All directives, each on the elements that the one before has handed on. -/
theorem ensures_runHandlers {start : Handed} {handlers : List Handler}
    (hchain : handlers.IsChain fun handler next => handler.leaves = next.takes)
    (hfirst : ∀ handler ∈ handlers.head?, handler.takes = template)
    (hfield : stage.Field R p r)
    (hteam : stage.Team R p (StandsIn stage template level) (StandsIn stage false level) level r
      start.contexts { exposed := start.exposed.map (·.2) }) :
    Ensures (runHandlers stage.settings path start handlers) r
      (fun handed r' => stage.Goes R p r r' ∧
        stage.Team R p (StandsIn stage false level) (StandsIn stage false level) level r'
          handed.contexts { exposed := handed.exposed.map (·.2) })
      (stage.Stops R p r) := by
  induction handlers generalizing start r template with
  | nil =>
      refine Ensures.pure ⟨.refl hfield.logged, ?_, by simp, hteam.exposed, hteam.nodup⟩
      exact fun ctx hctx => (hteam.waiting ctx hctx).imp_right StandsIn.open
  | cons handler handlers ih =>
      -- What one handler leaves is what the next one takes.
      obtain rfl := hfirst handler rfl
      unfold runHandlers
      rw [List.foldlM_cons]
      have hstart : stage.Team R p (StandsIn stage handler.takes level)
          (StandsIn stage handler.leaves level) level r start.contexts
          { exposed := start.exposed.map (·.2) } :=
        ⟨hteam.waiting, by simp, hteam.exposed, hteam.nodup⟩
      refine Ensures.bind (Ensures.bind ((ensures_runHandler hfield hstart).mono ?_ fun _ _ => id))
      rintro handed r₁ ⟨hgoes, hteam₁⟩
      let next : Handed := ⟨handed.contexts, start.exposed ++ handed.exposed⟩
      obtain ⟨hhead, htail⟩ := List.isChain_cons.mp hchain
      have hteam₂ : stage.Team R p (StandsIn stage handler.leaves level)
          (StandsIn stage false level) level r₁ next.contexts
          { exposed := next.exposed.map (·.2) } := by
        rw [List.map_append]
        exact turned hteam₁ fun _ => id
      have hnext := ih htail (fun last hlast => (hhead last hlast).symm) (hfield.next hgoes) hteam₂
      refine Ensures.pure (hnext.mono ?_ fun _ _ => hgoes.stops)
      exact fun final r' h => ⟨hgoes.trans h.1, h.2⟩

end Walk.Recorded

end PageTemplate
