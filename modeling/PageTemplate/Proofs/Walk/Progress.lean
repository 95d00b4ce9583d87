import PageTemplate.Proofs.Render.Expanding
import PageTemplate.Proofs.Render.Handlers
import PageTemplate.Proofs.Walk.Recorded

/-! # What every step of a walk keeps

A node is output when it was made by a content directive or an error handler: such nodes are what
values became. Notes are the comments that elements were annotated with. Every step of a walk is
taken on an element that is no output and has no notes below it, in a context that keeps to the
limits, and every rendering of an element begins at a lower level than the one in the course of
which it begins.
-/

namespace PageTemplate

open Markup Document

namespace Walk

/-- The step makes nodes out of values. -/
def Task.writesOutput : Task → Bool
  | .handle .content => true
  | .recover _ => true
  | _ => false

/-- The task is carried out on markup of the template that nothing has been done to. -/
def Task.needsTemplate : Task → Bool
  | .handle .attributes => false
  | .handle .omitTag => false
  | .recover _ => false
  | _ => true

/-- The task is to recover from an error. -/
def Task.recovers : Task → Bool
  | .recover _ => true
  | _ => false

/-- What was made for the element of a step after its macro had been expanded. Without visitors
these are the comments that the element was annotated with. -/
def Step.notes (settings : Settings) (step : Step) : List NodeId :=
  match step.task, outcome (Expansion.handle settings step.ctx) step.before with
  | .prepare, (.ok _, t) => List.range' t.document.size (step.after.document.size - t.document.size)
  | _, _ => []

/-- The comments that elements were annotated with in the steps. -/
def notesOf (settings : Settings) (steps : List Step) : List NodeId :=
  steps.flatMap (·.notes settings)

theorem notesOf_concat (settings : Settings) (steps : List Step) (step : Step) :
    notesOf settings (steps ++ [step]) = notesOf settings steps ++ step.notes settings := by
  simp [notesOf]

theorem mem_range'_sub {n lo hi : Nat} : n ∈ List.range' lo (hi - lo) ↔ lo ≤ n ∧ n < hi := by
  rw [List.mem_range'_1]
  omega

theorem Step.lt_of_mem_notes {settings : Settings} {step : Step} {n : NodeId}
    (hn : n ∈ step.notes settings) : n < step.after.document.size := by
  unfold Step.notes at hn
  split at hn
  · exact (mem_range'_sub.mp hn).2
  · cases hn

theorem Step.notes_eq_nil {settings : Settings} {step : Step} (htask : step.task ≠ .prepare) :
    step.notes settings = [] := by
  unfold Step.notes
  split
  next h _ => exact absurd h htask
  next => rfl

/-- The node was made out of a value in one of the steps. -/
def IsOutput (steps : List Step) (n : NodeId) : Prop :=
  ∃ step ∈ steps, step.task.writesOutput = true ∧ step.before.document.size ≤ n ∧
    n < step.after.document.size

/-- Only steps that write output add to it. -/
theorem IsOutput.of_concat {steps : List Step} {step : Step} {n : NodeId}
    (h : IsOutput (steps ++ [step]) n) (hstep : step.task.writesOutput = false) :
    IsOutput steps n := by
  obtain ⟨next, hnext, hwrites, hrange⟩ := h
  rcases List.mem_append.mp hnext with hnext | hnext
  · exact ⟨next, hnext, hwrites, hrange⟩
  · obtain rfl := List.mem_singleton.mp hnext
    exact absurd (hwrites.symm.trans hstep) nofun

end Walk

/-- The walk has come to the failure of a visitor, after the expansion of a macro had taken the
place of the element. -/
def Walk.Displaces (settings : Settings) (ctx : Context) (steps : List Step) : Prop :=
  ∃ last ∈ steps.getLast?, last.task = .prepare ∧ last.ctx = ctx ∧ last.failure.isSome ∧
    ∃ c t, outcome (Expansion.handle settings ctx) last.before = (.ok c, t) ∧ c.node ≠ ctx.node

namespace Stage

open Walk

variable (stage : Stage)

/-- The level of an element: the levels below it in the tree, and those that macros may add. -/
def level (d : Document) (ctx : Context) : Nat := d.height ctx.node + stage.reserve ctx

/-- How a walk may stop: for a reason that is to be expected of directives and macros, or because
a visitor failed. -/
def Expects (stop : Stop) : Prop := stop.IsExpected ∨ stage.Objects stop

/-- How a step at an element may stop: with a failure that arises there, with the one that is to be
recovered from, or because a visitor failed. -/
def Ends (task : Task) (ctx : Context) (d : Document) (stop : Stop) : Prop :=
  stop.ArisesAt stage.settings ctx d ∨
    (∃ error, task = .recover error ∧ stop = .failed error ∧ stage.Expects stop) ∨
    task = .prepare ∧ stage.Objects stop

/-- What holds at an element as long as it is markup of the template with everything below it,
and from then on. -/
def Stands (template : Bool) (ok : NodeId → Prop) (level : Nat) (d : Document) (ctx : Context) :
    Prop :=
  match template with
  | true => stage.Pending ok (level + 1) d ctx
  | false => stage.Open ok level d ctx

/-- The node is a comment that an element was annotated with, in a walk without visitors. -/
def IsNote (steps : List Step) (n : NodeId) : Prop :=
  stage.settings.visitors = [] ∧ n ∈ notesOf stage.settings steps

/-- What a step finds at its element after the steps `earlier`, unless it recovers from an error. -/
structure Finds (earlier : List Step) (template : Bool) (d : Document) (ctx : Context) : Prop where
  stands : ∃ level, stage.Stands template (fun _ => True) level d ctx
  clear : ∀ n, d.Below ctx.node n → ¬ stage.IsNote earlier n

/-- What holds of a step that was taken after the steps `earlier`. -/
structure Allows (earlier : List Step) (step : Step) : Prop where
  sound : stage.Sound step.before
  after : stage.Sound step.after
  admits : stage.Admits step.ctx
  node : ¬ IsOutput earlier step.ctx.node
  template : step.task.needsTemplate = true → ∀ n, step.before.document.Below step.ctx.node n →
    ¬ IsOutput earlier n ∧ Stems stage.origin (step.before.document.kind n)
  finds : step.task.recovers = false →
    stage.Finds earlier step.task.needsTemplate step.before.document step.ctx
  descends : step.task = .prepare → ∀ head ∈ step.path.head?,
    stage.level step.before.document step.ctx < stage.level head.start.document head.entry
  attached : step.before.document.Below root step.ctx.node ∨
    stage.settings.visitors ≠ [] ∧ (∃ error, step.task = .recover error) ∧
      Displaces stage.settings step.ctx earlier
  ne_root : step.ctx.node ≠ root
  replaced : step.task = .prepare → ∀ c t,
    outcome (Expansion.handle stage.settings step.ctx) step.before = (.ok c, t) →
      Expansion.TakesPlace step.before step.ctx c step.after
  element : step.before.document.isElement step.ctx.node = true
  ends : ∀ stop, step.failure = some stop → stage.Ends step.task step.ctx step.before.document stop

/-- A walk that has gone well so far. -/
structure Logged (r : Recording) : Prop where
  sound : stage.Sound r.state
  made : ∀ step ∈ r.steps, step.after.document.size ≤ r.state.document.size
  allowed : ∀ earlier step later, r.steps = earlier ++ step :: later → stage.Allows earlier step

/-- The walk has gone on within a region. -/
structure Goes (R : NodeId → Prop) (p : NodeId) (r r' : Recording) : Prop where
  within : Within R p r.state.document r'.state.document
  logged : stage.Logged r'
  output : ∀ n, IsOutput r'.steps n → IsOutput r.steps n ∨ r.state.document.size ≤ n
  notes : ∀ n, stage.IsNote r'.steps n → stage.IsNote r.steps n ∨ r.state.document.size ≤ n

/-- A walk that does not end well fails as walks may fail. -/
def Stops (R : NodeId → Prop) (p : NodeId) (r : Recording) (stop : Stop) (r' : Recording) : Prop :=
  stage.Expects stop ∧ stage.Goes R p r r'

variable {stage} {R R' : NodeId → Prop} {p n m x z : NodeId} {r r' r'' : Recording}
  {ctx c : Context} {level : Nat} {α : Type}

theorem Ends.expects {task : Task} {d : Document} {stop : Stop}
    (h : stage.Ends task ctx d stop) : stage.Expects stop := by
  rcases h with h | ⟨error, -, -, h⟩ | ⟨-, h⟩
  · exact .inl h.isExpected
  · exact h
  · exact .inr h

/-- Without visitors, walks stop as is to be expected. -/
theorem Expects.isExpected {stop : Stop} (h : stage.Expects stop)
    (hvisitors : stage.settings.visitors = []) : stop.IsExpected :=
  h.resolve_right fun hobjects => hobjects.1 hvisitors

/-- Without visitors, every step is taken on an element in its place. -/
theorem Allows.below {earlier : List Step} {step : Step} (h : stage.Allows earlier step)
    (hvisitors : stage.settings.visitors = []) : step.before.document.Below root step.ctx.node :=
  h.attached.resolve_right fun hdisplaced => hdisplaced.1 hvisitors

theorem Allows.grounded {earlier : List Step} {step : Step} (h : stage.Allows earlier step)
    (hvisitors : stage.settings.visitors = []) :
    step.before.document.Grounded step.ctx.node :=
  ⟨h.sound.kept.linked, lt_size_of_isElement h.element,
    root, h.sound.kept.linked.parent_root, h.below hvisitors⟩

/-- The element of a step stands below another node. -/
theorem Allows.exists_standing {earlier : List Step} {step : Step} (h : stage.Allows earlier step)
    (hvisitors : stage.settings.visitors = []) : ∃ p, stage.Standing p step.before step.ctx := by
  have hlinked := h.sound.kept.linked
  rcases hlinked.below_cases (h.below hvisitors) with heq | ⟨p, hparent, hbelow⟩
  · exact absurd heq h.ne_root
  · exact ⟨p, hlinked, ⟨root, hlinked.parent_root, hbelow⟩, hparent, h.element,
      h.sound.globals, h.admits⟩

/-- When the rendering of an element begins, there is nothing there but markup of the template. -/
theorem Allows.exists_throughout {earlier : List Step} {step : Step}
    (h : stage.Allows earlier step) (hvisitors : stage.settings.visitors = [])
    (htask : step.task = .prepare) :
    ∃ f, Throughout (StemsOn stage.origin fun _ => True) step.before.document (f + 1)
      step.ctx.node := by
  have hground := h.grounded hvisitors
  obtain ⟨top, htop, hbelow⟩ := hground.rooted
  have htemplate := h.template (by rw [htask]; rfl)
  have hgood : Throughout (StemsOn stage.origin fun _ => True) step.before.document
      step.before.document.size step.ctx.node :=
    throughout_of_rooted hground.linked htop hbelow hground.lt fun m hm =>
      ⟨trivial, (htemplate m hm).2⟩
  obtain ⟨f, hf⟩ := Nat.exists_eq_add_of_lt hground.lt
  refine ⟨f + step.ctx.node, ?_⟩
  rwa [hf, Nat.add_comm step.ctx.node f] at hgood

/-- A new note is one of the step that was taken last. -/
theorem IsNote.concat {steps : List Step} {step : Step}
    (h : stage.IsNote (steps ++ [step]) n) :
    stage.IsNote steps n ∨ n ∈ step.notes stage.settings := by
  obtain ⟨hvisitors, hn⟩ := h
  rw [notesOf_concat, List.mem_append] at hn
  exact hn.imp_left fun hn => ⟨hvisitors, hn⟩

theorem Logged.not_note (h : stage.Logged r) (hn : r.state.document.size ≤ n) :
    ¬ stage.IsNote r.steps n := by
  rintro ⟨-, hmem⟩
  obtain ⟨step, hstep, hmem⟩ := List.mem_flatMap.mp hmem
  exact absurd (Nat.lt_of_lt_of_le (Step.lt_of_mem_notes hmem) (h.made step hstep))
    (Nat.not_lt_of_le hn)

theorem Logged.not_output (h : stage.Logged r) (hn : r.state.document.size ≤ n) :
    ¬ IsOutput r.steps n := by
  rintro ⟨step, hstep, -, -, hlt⟩
  exact absurd (Nat.lt_of_lt_of_le hlt (h.made step hstep)) (Nat.not_lt_of_le hn)

namespace Goes

protected theorem refl (hlogged : stage.Logged r) : stage.Goes R p r r :=
  ⟨.refl hlogged.sound.kept.linked, hlogged, fun _ => .inl, fun _ => .inl⟩

protected theorem trans (h : stage.Goes R p r r') (h' : stage.Goes R p r' r'') :
    stage.Goes R p r r'' := by
  refine ⟨h.within.trans h'.within, h'.logged, fun n hn => ?_, fun n hn => ?_⟩
  · rcases h'.output n hn with hn | hn
    · exact h.output n hn
    · exact .inr (Nat.le_trans h.within.size_le hn)
  · rcases h'.notes n hn with hn | hn
    · exact h.notes n hn
    · exact .inr (Nat.le_trans h.within.size_le hn)

theorem mono (h : stage.Goes R p r r') (himp : ∀ n, R n → R' n) : stage.Goes R' p r r' :=
  ⟨h.within.mono himp, h.logged, h.output, h.notes⟩

theorem stops {stop : Stop} (h : stage.Goes R p r r') (h' : stage.Stops R p r' stop r'') :
    stage.Stops R p r stop r'' :=
  ⟨h'.1, h.trans h'.2⟩

/-- What was no output is none later. -/
theorem not_output (h : stage.Goes R p r r') (hn : n < r.state.document.size)
    (hok : ¬ IsOutput r.steps n) : ¬ IsOutput r'.steps n := by
  intro hn'
  rcases h.output n hn' with hout | hsize
  · exact hok hout
  · exact absurd hn (Nat.not_lt_of_le hsize)

/-- What was no note is none later. -/
theorem not_note (h : stage.Goes R p r r') (hn : n < r.state.document.size)
    (hok : ¬ stage.IsNote r.steps n) : ¬ stage.IsNote r'.steps n := fun hn' =>
  (h.notes n hn').elim hok (Nat.not_le_of_lt hn)

end Goes

/-- An element of a region is worked on, in a walk that has gone well. -/
structure Near (stage : Stage) (R : NodeId → Prop) (p : NodeId) (r : Recording) (ctx : Context) :
    Prop where
  works : stage.Works R p r.state ctx
  attached : r.state.document.Below root p
  logged : stage.Logged r
  inside : ∀ n, R n ∨ n = p → stage.base.own root n
  node : ¬ IsOutput r.steps ctx.node

/-- An element of a region is worked on in its place. -/
structure At (stage : Stage) (R : NodeId → Prop) (p : NodeId) (r : Recording) (ctx : Context) :
    Prop extends Near stage R p r ctx where
  parent_eq : r.state.document.parent ctx.node = some p

/-- The element stands in the tree, unless an expansion has taken its place and the task is to
recover from the failure of a visitor. -/
def Lies (stage : Stage) (task : Task) (ctx : Context) (r : Recording) : Prop :=
  r.state.document.Below root ctx.node ∨
    stage.settings.visitors ≠ [] ∧ (∃ error, task = .recover error) ∧
      Displaces stage.settings ctx r.steps

/-- The element stays where it was, unless an expansion has taken its place and a visitor failed. -/
def Stays (stage : Stage) (ctx : Context) (r r' : Recording) : Prop :=
  r'.state.document.parent ctx.node = r.state.document.parent ctx.node ∨
    stage.settings.visitors ≠ [] ∧ Displaces stage.settings ctx r'.steps

namespace Near

variable (h : stage.Near R p r ctx)

include h

theorem next (hgoes : stage.Goes R p r r') : stage.Near R p r' ctx :=
  ⟨h.works.next ⟨hgoes.within, hgoes.logged.sound.globals⟩,
    h.works.region.below_outer hgoes.within h.attached, hgoes.logged, h.inside,
    hgoes.not_output h.works.lt h.node⟩

/-- What is done within the region leaves the state sound. -/
theorem sound {t : RenderState} (hturn : stage.Turn R p r.state t) : stage.Sound t :=
  ⟨h.logged.sound.kept.trans (hturn.within.toConfined.mono h.inside), hturn.globals⟩

end Near

namespace At

variable (h : stage.At R p r ctx)

include h

theorem lies (task : Task) : stage.Lies task ctx r :=
  .inl (h.attached.child (h.works.region.linked.mem_children h.parent_eq))

theorem lies_next (hgoes : stage.Goes R p r r') (hstays : stage.Stays ctx r r')
    (error : RenderError) : stage.Lies (.recover error) ctx r' := by
  rcases hstays with hparent | ⟨hvisitors, hdisplaced⟩
  · exact lies ⟨h.toNear.next hgoes, hparent.trans h.parent_eq⟩ _
  · exact .inr ⟨hvisitors, ⟨error, rfl⟩, hdisplaced⟩

end At

/-! ## One recorded step -/

theorem allowed_append {steps : List Step} {step : Step}
    (hsteps : ∀ earlier step later, steps = earlier ++ step :: later → stage.Allows earlier step)
    (hstep : stage.Allows steps step) (earlier : List Step) (next : Step) (later : List Step)
    (h : steps ++ [step] = earlier ++ next :: later) : stage.Allows earlier next := by
  -- The step in question is the new one, or nothing was added before it.
  rcases List.eq_nil_or_concat later with rfl | ⟨later, last, rfl⟩
  · obtain ⟨rfl, heq⟩ := List.append_inj' h rfl
    obtain rfl := List.singleton_inj.mp heq
    exact hstep
  · rw [List.concat_eq_append, ← List.cons_append, ← List.append_assoc] at h
    exact hsteps earlier next later (List.append_inj' h rfl).1

/-- A step that was taken keeps the walk going well. -/
theorem goes_taken {task : Task} {path : List Enclosure} {step : Rendering α} {t : RenderState}
    (hnear : stage.Near R p r ctx) (hturn : stage.Turn R p r.state t)
    (ht : t = (outcome step r.state).2)
    (hallows : stage.Allows r.steps (Recorded.taken task path ctx step r.state))
    (hnotes : ∀ n ∈ (Recorded.taken task path ctx step r.state).notes stage.settings,
      r.state.document.size ≤ n) :
    stage.Goes R p r ⟨t, r.steps ++ [Recorded.taken task path ctx step r.state]⟩ := by
  subst ht
  refine ⟨hturn.within, ⟨hnear.sound hturn, fun next hnext => ?_,
    allowed_append hnear.logged.allowed hallows⟩, fun n hn => ?_,
    fun n hn => hn.concat.imp_right (hnotes n)⟩
  · rcases List.mem_append.mp hnext with hnext | hnext
    · exact Nat.le_trans (hnear.logged.made next hnext) hturn.within.size_le
    · obtain rfl := List.mem_singleton.mp hnext
      exact Nat.le_refl _
  · obtain ⟨next, hnext, hwrites, hle, hlt⟩ := hn
    rcases List.mem_append.mp hnext with hnext | hnext
    · exact .inl ⟨next, hnext, hwrites, hle, hlt⟩
    · obtain rfl := List.mem_singleton.mp hnext
      exact .inr hle

/-- A step that fails as steps may fail. -/
structure FailsAt (stage : Stage) (R : NodeId → Prop) (p : NodeId) (task : Task) (ctx : Context)
    (s : RenderState) (stop : Stop) (t : RenderState) : Prop where
  ends : stage.Ends task ctx s.document stop
  turn : stage.Turn R p s t
  place : t.document.parent ctx.node = s.document.parent ctx.node ∨
    stage.settings.visitors ≠ [] ∧ task = .prepare ∧
      ∃ c u, outcome (Expansion.handle stage.settings ctx) s = (.ok c, u) ∧ c.node ≠ ctx.node

theorem Fails.at {s t : RenderState} {stop : Stop} (h : stage.Fails R p ctx s stop t)
    (task : Task) : stage.FailsAt R p task ctx s stop t :=
  ⟨.inl h.stop, h.turn, .inl h.parent_eq⟩

theorem Rejects.at {s t : RenderState} {stop : Stop} (h : stage.Rejects p ctx s stop t) :
    stage.FailsAt (s.document.own ctx.node) p .prepare ctx s stop t := by
  obtain ⟨c, u, hexpanded, hplace⟩ := h.expanded
  refine ⟨.inr (.inr ⟨rfl, h.objects⟩), h.turn, ?_⟩
  rcases hplace with ⟨-, hparent⟩ | ⟨hne, -⟩
  · exact .inl hparent
  · exact .inr ⟨h.objects.1, rfl, c, u, hexpanded, hne⟩

/-- Recording a step that keeps to a region. -/
theorem ensures_record {task : Task} {path : List Enclosure} {step : Rendering α}
    {done : α → RenderState → Prop} (hnear : stage.Near R p r ctx) (hlies : stage.Lies task ctx r)
    (htemplate : task.needsTemplate = true → ∀ n, r.state.document.Below ctx.node n →
      ¬ IsOutput r.steps n ∧ Stems stage.origin (r.state.document.kind n))
    (hfinds : task.recovers = false →
      stage.Finds r.steps task.needsTemplate r.state.document ctx)
    (hdescends : task = .prepare → ∀ head ∈ path.head?,
      stage.level r.state.document ctx < stage.level head.start.document head.entry)
    (hnotes : ∀ n ∈ (Recorded.taken task path ctx step r.state).notes stage.settings,
      r.state.document.size ≤ n)
    (hreplaced : task = .prepare → ∀ c t,
      outcome (Expansion.handle stage.settings ctx) r.state = (.ok c, t) →
        Expansion.TakesPlace r.state ctx c (outcome step r.state).2)
    (hstep : Ensures step r.state (fun a t => stage.Turn R p r.state t ∧ done a t)
      (stage.FailsAt R p task ctx r.state)) :
    Ensures (Recorded.record task path ctx step) r
      (fun a r' => stage.Goes R p r r' ∧ done a r'.state ∧
        r'.steps = r.steps ++ [Recorded.taken task path ctx step r.state])
      (fun stop r' => stage.Stops R p r stop r' ∧ stage.Stays ctx r r') := by
  have hallows : ∀ t, stage.Turn R p r.state t → t = (outcome step r.state).2 →
      stage.Allows r.steps (Recorded.taken task path ctx step r.state) := by
    rintro _ hturn rfl
    refine ⟨hnear.logged.sound, hnear.sound hturn, hnear.works.admits, hnear.node, htemplate,
      hfinds, hdescends, hlies, fun heq => hnear.works.region.not_root (heq ▸ hnear.works.mem),
      hreplaced, hnear.works.element, fun stop hstop => ?_⟩
    replace hstop : Recorded.failure? (outcome step r.state).1 = some stop := hstop
    rcases houtcome : outcome step r.state with ⟨failed | a, t⟩
    · rw [houtcome] at hstop
      exact Option.some.inj hstop ▸ (hstep.bad_of_outcome houtcome).ends
    · rw [houtcome] at hstop
      cases hstop
  rcases houtcome : outcome step r.state with ⟨stop | a, t⟩
  · have hfails := hstep.bad_of_outcome houtcome
    have ht : t = (outcome step r.state).2 := by rw [houtcome]
    have hgoes := goes_taken hnear hfails.turn ht (hallows t hfails.turn ht) hnotes
    refine .of_eq (.error stop, ⟨t, _⟩) ?_ ⟨⟨hfails.ends.expects, hgoes⟩, ?_⟩
    · rw [Recorded.outcome_record, houtcome]
    · rcases hfails.place with hparent | ⟨hvisitors, rfl, hexpanded⟩
      · exact .inl hparent
      · refine .inr ⟨hvisitors, _, List.getLast?_concat, rfl, rfl, ?_, hexpanded⟩
        show (Recorded.failure? (outcome step r.state).1).isSome = true
        rw [houtcome]
        rfl
  · have hdone := hstep.ok_of_outcome houtcome
    have ht : t = (outcome step r.state).2 := by rw [houtcome]
    refine .of_eq (.ok a, ⟨t, _⟩) ?_
      ⟨goes_taken hnear hdone.1 ht (hallows t hdone.1 ht) hnotes, hdone.2, rfl⟩
    rw [Recorded.outcome_record, houtcome]

/-- Steps under the protection of an element's error handler: a failure is recovered from or handed
on, within the same region. -/
theorem ensures_guarded {path : List Enclosure} {steps : Recorded α}
    {done : α → Recording → Prop} (hat : stage.At R p r ctx)
    (hsteps : Ensures steps r (fun a r' => stage.Goes R p r r' ∧ done a r')
      fun stop r' => stage.Stops R p r stop r' ∧ stage.Stays ctx r r') :
    Ensures (Recorded.guarded stage.settings path ctx steps) r
      (fun found r' => stage.Goes R p r r' ∧ ∀ a, found = some a → done a r')
      (stage.Stops R p r) := by
  unfold Recorded.guarded
  refine Ensures.tryCatch (Ensures.map (hsteps.mono ?_ ?_))
  · rintro a r' ⟨hgoes, hdone⟩
    refine ⟨hgoes, ?_⟩
    rintro _ ⟨⟩
    exact hdone
  · rintro stop r' ⟨⟨hstop, hgoes⟩, hstays⟩
    have hnear := hat.toNear.next hgoes
    split
    next error =>
      have hstep : Ensures (OnError.recover stage.settings ctx error) r'.state
          (fun _ t => stage.Turn R p r'.state t ∧ True)
          (stage.FailsAt R p (.recover error) ctx r'.state) := by
        refine (OnError.ensures_recover hnear.works error).mono (fun _ _ h => ⟨h, trivial⟩) ?_
        rintro stop t (hfails | ⟨rfl, rfl⟩)
        · exact hfails.at _
        · exact ⟨.inr (.inl ⟨error, rfl, rfl, hstop⟩), hnear.works.turn, .inl rfl⟩
      have htemplate : (Task.recover error).needsTemplate = true → ∀ n,
          r'.state.document.Below ctx.node n →
            ¬ IsOutput r'.steps n ∧ Stems stage.origin (r'.state.document.kind n) := nofun
      refine Ensures.bind ((ensures_record hnear (hat.lies_next hgoes hstays error) htemplate nofun
        nofun nofun nofun hstep).mono ?_ ?_)
      · exact fun _ _ h => Ensures.pure ⟨hgoes.trans h.1, nofun⟩
      · exact fun _ _ h => hgoes.stops h.1
    next => exact (hstop.elim id fun hobjects => hobjects.2 rfl).elim

end Stage

end PageTemplate
