import PageTemplate.Proofs.Render.Repeating
import PageTemplate.Proofs.Walk.ByTurns

/-! # Copies together and one after the other

The copies of a repeated element go through the directives that follow side by side, then through
the renderings of their children, and then what they have exposed is rendered. Rendering the copies
one after the other leaves the same: each copy gets its turns, and what comes of it does not depend
on those of the others.
-/

namespace PageTemplate

open Markup Document Stage

namespace Walk.Recorded

variable {settings : Settings} {fuel : Nat} {path : List Enclosure} {p : NodeId} {entry : Context}
  {r r' t u : Recording}

/-- What stands in the place of a child of `p` afterwards has these trees. -/
def Leaves (p : NodeId) (r : Recording) (x : NodeId) (r' : Recording) (trees : List Tree) : Prop :=
  ∃ before nodes after, r.state.document.children p = before ++ x :: after ∧
    r'.state.document.children p = before ++ nodes ++ after ∧
    trees = nodes.map r'.state.document.tree

/-- The elements are rendered one after the other, and each leaves trees in its place. -/
inductive OneByOne (settings : Settings) (fuel : Nat) (path : List Enclosure) (p : NodeId) :
    List Context → Recording → List (List Tree) → Recording → Prop
  | nil {r : Recording} : OneByOne settings fuel path p [] r [] r
  | cons {c : Context} {rest : List Context} {r r' u : Recording} {trees : List Tree}
      {others : List (List Tree)} (hrun : outcome (render settings fuel path c) r = (.ok (), r'))
      (hleaves : Leaves p r c.node r' trees)
      (hrest : OneByOne settings fuel path p rest r' others u) :
      OneByOne settings fuel path p (c :: rest) r (trees :: others) u

/-! ## The directives before the repetition -/

section

variable {c : Context} {s : RenderState} {handler : Handler}

/-- What one directive hands on goes to the next. -/
theorem outcome_runHandlers_cons {next : Handed} (handed : Handed) (handlers : List Handler)
    (k : Handed → Recorded Unit)
    (h : outcome (runHandler settings path handler handed.contexts) r = (.ok next, r')) :
    outcome (runHandlers settings path handed (handler :: handlers) >>= k) r =
      outcome (runHandlers settings path
        { contexts := next.contexts, exposed := handed.exposed ++ next.exposed } handlers >>= k)
          r' := by
  unfold runHandlers
  rw [List.foldlM_cons, bind_assoc, bind_assoc, outcome_bind_ok h]
  rfl

/-- One directive on one element. -/
theorem outcome_runHandler_singleton {made : Outcome} (path : List Enclosure)
    (h : outcome (handler.handle settings c) r.state = (.ok made, s)) :
    outcome (runHandler settings path handler [c]) r =
      (.ok { contexts := made.contexts, exposed := made.exposed.map (c, ·) },
        ⟨s, r.steps ++ [taken (.handle handler) path c (handler.handle settings c) r.state]⟩) := by
  have hrecord : outcome ((c, ·) <$> record (.handle handler) path c (handler.handle settings c)) r =
      (.ok (c, made),
        ⟨s, r.steps ++ [taken (.handle handler) path c (handler.handle settings c) r.state]⟩) := by
    rw [outcome_map, outcome_record, h]
  unfold runHandler
  rw [List.mapM_cons, List.mapM_nil]
  simp only [bind_assoc, pure_bind]
  rw [outcome_bind_ok (outcome_guarded_ok settings hrecord)]
  simp

/-- An element without a macro, definitions and a condition is as it was when the rendering comes to
the repetition. -/
theorem outcome_prepare_of_idle (hvisitors : settings.visitors = [])
    (hplain : settings.sourceComments = false) (hidle : Repeat.Idle settings c r.state.document) :
    outcome (guarded settings path c (record .prepare path c (prepare settings c))) r =
      (.ok (some c),
        ⟨r.state, r.steps ++ [taken .prepare path c (prepare settings c) r.state]⟩) := by
  have hexpansion : outcome (Expansion.handle settings c) r.state = (.ok c, r.state) := by
    unfold Expansion.handle
    rw [outcome_bind, Rendering.outcome_document]
    dsimp only
    rw [hidle.useMacro]
    rfl
  have hprepare : outcome (prepare settings c) r.state = (.ok c, r.state) := by
    unfold prepare visitors
    rw [hplain, hvisitors, if_neg Bool.false_ne_true, outcome_bind_ok hexpansion]
    rfl
  apply outcome_guarded_ok
  rw [outcome_record, hprepare]

theorem outcome_define_of_idle (hidle : Repeat.Idle settings c s.document) :
    outcome (Handler.define.handle settings c) s = (.ok (.keep c), s) := by
  unfold Handler.handle Define.handle
  dsimp only
  rw [outcome_bind, Rendering.outcome_document]
  dsimp only
  rw [hidle.define]
  rfl

theorem outcome_condition_of_idle (hidle : Repeat.Idle settings c s.document) :
    outcome (Handler.condition.handle settings c) s = (.ok (.keep c), s) := by
  unfold Handler.handle Condition.handle
  dsimp only
  rw [outcome_bind, Rendering.outcome_document]
  dsimp only
  rw [hidle.condition]
  rfl

theorem outcome_repetition_of_none
    (hnone : c.directive? s.document settings.vocabularies.repetition = none) :
    outcome (Handler.repetition.handle settings c) s = (.ok (.keep c), s) := by
  unfold Handler.handle Repeat.handle
  dsimp only
  rw [outcome_bind, Rendering.outcome_document]
  dsimp only
  rw [hnone]
  rfl

variable {stage : Stage} (fuel) (path) (p) (hvisitors : stage.settings.visitors = [])

/-- A directive on one element is one part of its rendering. -/
theorem reaches_handle {made : Outcome} (frame : Frame) (todo : List Phase)
    (h : outcome (handler.handle stage.settings c) r.state = (.ok made, s))
    (hglobals : s.globals = r.state.globals) (hexposed : made.exposed = []) :
    ∃ r', r'.state = s ∧
      outcome (runHandler stage.settings frame.path handler [c]) r =
        (.ok { contexts := made.contexts }, r') ∧
      Reaches (parts stage p fuel hvisitors)
        (.underway frame (.handle handler :: todo) { contexts := [c] }) r
        (.underway frame todo { contexts := made.contexts }) r' := by
  have hrun := outcome_runHandler_singleton frame.path h
  rw [hexposed, List.map_nil] at hrun
  refine ⟨_, rfl, hrun, .part ?_ hglobals .refl⟩
  show outcome (runHandler stage.settings frame.path handler [c] >>= _) r = _
  rw [outcome_bind_ok hrun]
  rfl

/-- A rendering that comes to the repetition has changed nothing so far. -/
theorem exists_reaches_repetition (hplain : stage.settings.sourceComments = false)
    (hidle : Repeat.Idle stage.settings c r.state.document) :
    ∃ r', r'.state = r.state ∧
      Reaches (parts stage p fuel hvisitors) (.fresh path c) r
        (.underway ⟨path, c, r.state⟩
          (Phase.following [.repetition, .content, .attributes, .omitTag]) { contexts := [c] }) r' ∧
      outcome (render stage.settings (fuel + 1) path c) r = outcome (do
        renderHanded stage.settings fuel path c r.state (← runHandlers stage.settings path
          { contexts := [c] } [.repetition, .content, .attributes, .omitTag])) r' := by
  let frame : Frame := ⟨path, c, r.state⟩
  obtain ⟨r₁, hstate₁, hprepare⟩ : ∃ r₁, r₁.state = r.state ∧ outcome (guarded stage.settings path c
      (record .prepare path c (prepare stage.settings c))) r = (.ok (some c), r₁) :=
    ⟨_, rfl, outcome_prepare_of_idle hvisitors hplain hidle⟩
  have hreaches₁ : Reaches (parts stage p fuel hvisitors) (.fresh path c) r
      (.underway frame (Phase.following Handler.order) { contexts := [c] }) r₁ := by
    have hnext : outcome ((parts stage p fuel hvisitors).next (.fresh path c)) r =
        outcome (do
          let found ← guarded stage.settings path c
            (record .prepare path c (prepare stage.settings c))
          return Work.underway frame (Phase.following Handler.order)
            { contexts := found.toList }) r := rfl
    refine .part ?_ (congrArg _ hstate₁) .refl
    rw [hnext, outcome_bind_ok hprepare]
    rfl
  rw [← hstate₁] at hidle
  obtain ⟨r₂, hstate₂, hdefine, hreaches₂⟩ := reaches_handle fuel p hvisitors frame
    (Phase.following [.condition, .repetition, .content, .attributes, .omitTag])
    (outcome_define_of_idle hidle) rfl rfl
  rw [← hstate₂] at hidle
  obtain ⟨r₃, hstate₃, hcondition, hreaches₃⟩ := reaches_handle fuel p hvisitors frame
    (Phase.following [.repetition, .content, .attributes, .omitTag])
    (outcome_condition_of_idle hidle) rfl rfl
  refine ⟨r₃, hstate₃.trans (hstate₂.trans hstate₁), hreaches₁.trans (hreaches₂.trans hreaches₃), ?_⟩
  rw [outcome_render_succ, outcome_bind_ok hprepare]
  have hfirst := outcome_runHandlers_cons { contexts := [c] }
    [.condition, .repetition, .content, .attributes, .omitTag]
    (renderHanded stage.settings fuel path c r.state) hdefine
  have hsecond := outcome_runHandlers_cons { contexts := [c] }
    [.repetition, .content, .attributes, .omitTag]
    (renderHanded stage.settings fuel path c r.state) hcondition
  exact hfirst.trans hsecond

/-- The directives that follow on the repetition. -/
def laterHandlers : List Handler := [.content, .attributes, .omitTag]

/-- After the repetition the rendering goes on with what the repetition has handed on. -/
theorem exists_reaches_later {made : Outcome} (hplain : stage.settings.sourceComments = false)
    (hidle : Repeat.Idle stage.settings c r.state.document)
    (hrepetition : outcome (Handler.repetition.handle stage.settings c) r.state = (.ok made, s))
    (hglobals : s.globals = r.state.globals) (hexposed : made.exposed = []) :
    ∃ r', r'.state = s ∧
      Reaches (parts stage p fuel hvisitors) (.fresh path c) r
        (.underway ⟨path, c, r.state⟩ (Phase.following laterHandlers)
          { contexts := made.contexts }) r' ∧
      outcome (render stage.settings (fuel + 1) path c) r = outcome (do
        renderHanded stage.settings fuel path c r.state
          (← runHandlers stage.settings path { contexts := made.contexts } laterHandlers)) r' := by
  obtain ⟨r₁, hstate, hreaches, hrender⟩ := exists_reaches_repetition fuel path p hvisitors hplain hidle
  rw [← hstate] at hrepetition hglobals
  obtain ⟨r₂, hstate', hrun, hreaches'⟩ := reaches_handle fuel p hvisitors ⟨path, c, r.state⟩
    (Phase.following laterHandlers) hrepetition hglobals hexposed
  have hcons := outcome_runHandlers_cons { contexts := [c] } laterHandlers
    (renderHanded stage.settings fuel path c r.state) hrun
  exact ⟨r₂, hstate', hreaches.trans hreaches', hrender.trans hcons⟩

end

/-! ## The copies at their places -/

/-- The copies stand side by side and wait for the directives that follow on the repetition. In `t`
the record does not say yet how they were made. -/
structure CopiesWait (stage : Stage) (R : NodeId → Prop) (p : NodeId) (level fuel : Nat)
    (frame : Frame) (copies : List Context) (t r : Recording) : Prop where
  state_eq : r.state = t.state
  steps_eq : ∃ more, r.steps = t.steps ++ more
  plain : stage.settings.sourceComments = false
  field : stage.Field R p r
  team : stage.Team R p (StandsIn stage true level) (StandsIn stage false level) level r copies {}
  enough : level ≤ fuel
  low : level < stage.level frame.start.document frame.entry
  lower : ∀ head ∈ frame.path.head?, level + 1 < stage.level head.start.document head.entry
  idle : ∀ c ∈ copies, Repeat.Idle stage.settings c t.state.document ∧
    c.directive? t.state.document stage.settings.vocabularies.repetition = none
  cache : t.state.cache.IsFaithful

/-- The copy that stands at a place. -/
def copyAt (copies : List Context) (x : NodeId) : Option Context := copies.find? (·.node = x)

theorem copyAt_eq {copies : List Context} (hnodup : (copies.map (·.node)).Nodup) {c : Context}
    (hc : c ∈ copies) : copyAt copies c.node = some c := by
  obtain ⟨front, back, rfl⟩ := List.append_of_mem hc
  rw [List.map_append, List.map_cons, List.nodup_middle, List.nodup_cons, List.mem_append,
    not_or] at hnodup
  unfold copyAt
  rw [List.find?_append, List.find?_eq_none.mpr, Option.none_or, List.find?_cons_of_pos (by simp)]
  intro c' hc' heq
  exact hnodup.1.1 (List.mem_map.mpr ⟨c', hc', by simpa using heq⟩)

theorem mem_of_copyAt {copies : List Context} {x : NodeId} {c : Context}
    (h : copyAt copies x = some c) : c ∈ copies ∧ c.node = x :=
  ⟨List.mem_of_find?_eq_some h, by simpa using List.find?_some h⟩

/-- What is left to do at a place when nothing has been done to the copies. -/
def freshWork (frame : Frame) (copies : List Context) (x : NodeId) : Work :=
  (copyAt copies x).elim (.underway frame [] {}) (.fresh frame.path ·)

/-- What is left to do at a place when the copies have just been made. -/
def laterWork (frame : Frame) (copies : List Context) (x : NodeId) : Work :=
  (copyAt copies x).elim (.underway frame [] {}) fun c =>
    .underway frame (Phase.following laterHandlers) { contexts := [c] }

/-- What is owed to a place of a copy is what comes of the copy when it is rendered there. -/
def Owes (stage : Stage) (p : NodeId) (fuel : Nat) (hvisitors : stage.settings.visitors = [])
    (frame : Frame) (copies : List Context) (t : Recording) (x : NodeId) (a : Recording) : Prop :=
  Completes (parts stage p fuel hvisitors) (freshWork frame copies x) t a

namespace CopiesWait

variable {stage : Stage} {R : NodeId → Prop} {level : Nat} {frame : Frame} {copies : List Context}
  {c : Context} (h : CopiesWait stage R p level fuel frame copies t r)
  (hvisitors : stage.settings.visitors = [])

include h

theorem logged : stage.Logged t := by
  obtain ⟨more, hsteps⟩ := h.steps_eq
  have hlogged := h.field.logged
  refine ⟨h.state_eq ▸ hlogged.sound, fun step hstep => ?_, fun earlier step later hsplit => ?_⟩
  · rw [← h.state_eq]
    apply hlogged.made step
    rw [hsteps]
    exact List.mem_append_left more hstep
  · apply hlogged.allowed earlier step (later ++ more)
    rw [hsteps, hsplit, List.append_assoc, List.cons_append]

theorem nodup : (copies.map (·.node)).Nodup := by
  simpa using h.team.nodup

theorem field_own (hc : c ∈ copies) : stage.Field (t.state.document.own c.node) p t := by
  have hfield := h.field.narrow (h.team.waiting c hc).1
  rw [h.state_eq] at hfield
  exact ⟨h.state_eq ▸ hfield.region, h.state_eq ▸ hfield.attached, h.logged, hfield.inside⟩

/-- Every copy can be rendered from the start. -/
theorem ready_fresh (hc : c ∈ copies) :
    Work.Ready stage p fuel (t.state.document.own c.node) t (.fresh frame.path c) := by
  obtain ⟨more, hsteps⟩ := h.steps_eq
  obtain ⟨hplaced, hpending⟩ := h.team.waiting c hc
  rw [h.state_eq] at hplaced
  refine ⟨level, h.enough, ⟨hplaced.admits, own_self _ _, hplaced.parent_eq, hplaced.element⟩, ?_,
    h.lower⟩
  have hpending : stage.Pending (stage.Clean r) (level + 1) r.state.document c := hpending.stands
  rw [h.state_eq] at hpending
  exact hpending.congr (fun _ _ => rfl) fun n _ hclean => hclean.of_append hsteps

theorem ready_later (hc : c ∈ copies) : Work.Ready stage p fuel (t.state.document.own c.node) r
    (.underway frame (Phase.following laterHandlers) { contexts := [c] }) := by
  obtain ⟨hplaced, hpending⟩ := h.team.waiting c hc
  have hchain : (Phase.following laterHandlers).IsChain fun a b => a.leaves = b.takes :=
    Phase.isChain_order.tail.tail.tail
  exact ⟨level, h.enough, h.low, hchain, team_single ⟨hplaced.admits, own_self _ _,
    hplaced.parent_eq, hplaced.element⟩ hpending⟩

theorem ready_done {R' : NodeId → Prop} {r' : Recording} :
    Work.Ready stage p fuel R' r' (.underway frame [] {}) :=
  ⟨level, h.enough, h.low, .nil, by simp, by simp, by simp, by simp⟩

/-- On its own a copy comes to the directives that follow on the repetition without a change. -/
theorem exists_reaches (hc : c ∈ copies) : ∃ a, a.state = t.state ∧ stage.Logged a ∧
    Reaches (parts stage p fuel hvisitors) (.fresh frame.path c) t
      (.underway ⟨frame.path, c, t.state⟩ (Phase.following laterHandlers) { contexts := [c] }) a ∧
    Work.Ready stage p fuel (t.state.document.own c.node) a
      (.underway ⟨frame.path, c, t.state⟩ (Phase.following laterHandlers)
        { contexts := [c] }) := by
  obtain ⟨hidle, hnone⟩ := h.idle c hc
  obtain ⟨a, hstate, hreaches, -⟩ := exists_reaches_later fuel frame.path p hvisitors h.plain hidle
    (outcome_repetition_of_none hnone) rfl rfl
  obtain ⟨hfield, hready⟩ := hreaches.ready (h.field_own hc) (h.ready_fresh hc)
  exact ⟨a, hstate, hfield.logged, hreaches, hready⟩

/-- Before any copy is rendered from the start. -/
theorem advanced_fresh : Advanced (parts stage p fuel hvisitors) t
    (Owes stage p fuel hvisitors frame copies t) t
    (fun x => ⟨t, freshWork frame copies x, freshWork frame copies x⟩) fun x => [x] := by
  refine ⟨⟨_, siblings_start (parts stage p fuel hvisitors) (freshWork frame copies) h.logged
    (h.state_eq ▸ h.field.attached) h.cache fun x _ => ?_⟩, fun _ _ => Iff.rfl⟩
  unfold freshWork
  cases hx : copyAt copies x with
  | none => exact h.ready_done
  | some c =>
      obtain ⟨hc, rfl⟩ := mem_of_copyAt hx
      exact h.ready_fresh hc

/-- Before anything else is done to the copies that have just been made. -/
theorem advanced_later : ∃ progress : NodeId → Progress Work,
    Advanced (parts stage p fuel hvisitors) r (Owes stage p fuel hvisitors frame copies t) r
      progress (fun x => [x]) ∧
    (∀ x, (progress x).here = laterWork frame copies x) ∧
    ∀ x, copyAt copies x = none → (progress x).alone = t := by
  have hall : ∀ x, ∃ one : Progress Work, one.here = laterWork frame copies x ∧
      one.alone.state = t.state ∧ stage.Logged one.alone ∧
      Reaches (parts stage p fuel hvisitors) (freshWork frame copies x) t one.own one.alone ∧
      Work.Ready stage p fuel (t.state.document.own x) one.alone one.own ∧
      Work.Ready stage p fuel (t.state.document.own x) r one.here ∧
      (∀ P : Pairing, P.Pairs x x → Work.Alike P one.own one.here) ∧
      (copyAt copies x = none → one.alone = t) := by
    intro x
    unfold freshWork laterWork
    cases hx : copyAt copies x with
    | none =>
        exact ⟨⟨t, .underway frame [] {}, .underway frame [] {}⟩, rfl, rfl, h.logged, .refl,
          h.ready_done, h.ready_done, fun _ _ => .underway ⟨.nil, .nil⟩, fun _ => rfl⟩
    | some c =>
        obtain ⟨hc, rfl⟩ := mem_of_copyAt hx
        obtain ⟨a, hstate, hlogged, hreaches, hready⟩ :=
          h.exists_reaches hvisitors hc
        exact ⟨⟨a, _, _⟩, rfl, hstate, hlogged, hreaches, hready, h.ready_later hc,
          fun P hpairs => .underway ⟨.cons ⟨c.node, hpairs, rfl⟩ .nil, .nil⟩, nofun⟩
  choose progress hhere hstate hlogged hreaches hready hready' halike halone using hall
  refine ⟨progress, ⟨⟨_, siblings_begin (parts stage p fuel hvisitors) h.field.logged
    h.field.attached (h.state_eq ▸ h.cache) (fun x _ => ⟨(hstate x).trans h.state_eq.symm, hlogged x⟩)
    (fun x _ => ?_) fun x _ P hpairs => halike x P (hpairs x .refl)⟩,
    fun x a => (hreaches x).completes_iff.symm⟩, hhere, halone⟩
  rw [h.state_eq]
  exact ⟨hready x, hready' x⟩

end CopiesWait

/-! ## The two runs -/

section

variable {stage : Stage} {hvisitors : stage.settings.visitors = []} {start : Recording}
  {owes : NodeId → Recording → Prop} {progress : NodeId → Progress Work}
  {blocks : NodeId → List NodeId}

/-- What a child has become stands in its place. -/
theorem leaves_of_advanced {v : Recording} {blocks' : NodeId → List NodeId} {x : NodeId}
    {progress' : NodeId → Progress Work}
    (h : Advanced (parts stage p fuel hvisitors) start owes u progress blocks)
    (h' : Advanced (parts stage p fuel hvisitors) start owes v progress' blocks')
    (hx : x ∈ start.state.document.children p) (hself : blocks x = [x])
    (hothers : ∀ y, y ≠ x → blocks' y = blocks y) :
    Leaves p u x v ((blocks' x).map v.state.document.tree) := by
  obtain ⟨owner, hsiblings⟩ := h.siblings
  have hnodup := hsiblings.linked.nodup_children p
  obtain ⟨l, l', hsplit⟩ := List.append_of_mem hx
  rw [hsplit, List.nodup_middle, List.nodup_cons, List.mem_append, not_or] at hnodup
  have hkept : ∀ l : List NodeId, x ∉ l → l.flatMap blocks' = l.flatMap blocks := by
    intro l hl
    apply List.flatMap_congr
    intro y hy
    exact hothers y (ne_of_mem_of_not_mem hy hl)
  refine ⟨l.flatMap blocks, blocks' x, l'.flatMap blocks, ?_, ?_, rfl⟩
  · rw [h.children_eq, hsplit, List.flatMap_append, List.flatMap_cons, hself]
    rfl
  · rw [h'.children_eq, hsplit, List.flatMap_append, List.flatMap_cons, hkept l hnodup.1.1,
      hkept l' hnodup.1.2, List.append_assoc]

/-- Elements that nothing has been done to are rendered one after the other. -/
theorem Advanced.oneByOne (path : List Enclosure) {todo : List Context}
    (h : Advanced (parts stage p fuel hvisitors) start owes u progress blocks)
    (hnodup : (todo.map (·.node)).Nodup)
    (hwait : ∀ c ∈ todo, c.node ∈ start.state.document.children p ∧
      (progress c.node).here = .fresh path c ∧ blocks c.node = [c.node]) :
    Fares owes (start.state.document.children p)
      (todo.forM (Recorded.render stage.settings (fuel + 1) path)) u fun _ v =>
        ∃ progress' blocks' trees,
          Advanced (parts stage p fuel hvisitors) start owes v progress' blocks' ∧
          (∀ y ∉ todo.map (·.node), progress' y = progress y ∧ blocks' y = blocks y) ∧
          (∀ c ∈ todo, ∃ frame, (progress' c.node).here = .underway frame [] {}) ∧
          OneByOne stage.settings (fuel + 1) path p todo u trees v ∧
          trees.flatten = todo.flatMap fun c => (blocks' c.node).map v.state.document.tree := by
  induction todo generalizing u progress blocks with
  | nil => exact .pure ⟨progress, blocks, [], h, fun _ _ => ⟨rfl, rfl⟩, nofun, .nil, rfl⟩
  | cons c todo ih =>
      obtain ⟨hnot, hnodup⟩ := List.nodup_cons.mp hnodup
      obtain ⟨⟨hx, hhere, hself⟩, hrest⟩ := List.forall_mem_cons.mp hwait
      have hne : ∀ c' ∈ todo, c'.node ≠ c.node := fun c' hc' heq =>
        hnot (List.mem_map.mpr ⟨c', hc', heq⟩)
      change Fares owes (start.state.document.children p) (do
        Recorded.render stage.settings (fuel + 1) path c
        todo.forM (Recorded.render stage.settings (fuel + 1) path)) u _
      apply (h.render hx hhere).traced.bind
      · intro _
        exact (unwinding_forM (unwinding_render stage.settings (fuel + 1) path) todo).grows
      rintro _ v ⟨harrived, hrun⟩
      obtain ⟨progress₁, blocks₁, hadvanced₁, hothers₁, hdone₁⟩ := harrived.done
      have hkept₁ : ∀ y, y ≠ c.node → progress₁ y = progress y ∧ blocks₁ y = blocks y := fun y hy =>
        hothers₁ y (by simpa using hy)
      have hwait₁ : ∀ c' ∈ todo, c'.node ∈ start.state.document.children p ∧
          (progress₁ c'.node).here = .fresh path c' ∧ blocks₁ c'.node = [c'.node] := by
        intro c' hc'
        obtain ⟨hprogress, hblocks⟩ := hkept₁ c'.node (hne c' hc')
        rw [hprogress, hblocks]
        exact hrest c' hc'
      apply (ih hadvanced₁ hnodup hwait₁).mono
      rintro _ w ⟨progress', blocks', trees, hadvanced', hothers', hdone', hone, htrees⟩
      obtain ⟨hprogress, hblocks⟩ := hothers' c.node hnot
      have hleaves := leaves_of_advanced h hadvanced₁ hx hself fun y hy => (hkept₁ y hy).2
      refine ⟨progress', blocks', _ :: trees, hadvanced', fun y hy => ?_, ?_,
        .cons hrun hleaves hone, ?_⟩
      · rw [List.map_cons, List.mem_cons, not_or] at hy
        rw [(hothers' y hy.2).1, (hothers' y hy.2).2]
        exact hkept₁ y hy.1
      · have hdone : (progress' c.node).here = .underway ⟨path, c, u.state⟩ [] {} := by
          rw [hprogress]
          exact hdone₁ c.node (by simp)
        exact List.forall_mem_cons.mpr ⟨⟨_, hdone⟩, hdone'⟩
      · rw [List.flatten_cons, List.flatMap_cons, htrees]
        congr 1
        exact (hadvanced₁.trees_eq hadvanced' rfl hx (congrArg Progress.alone hprogress)).symm

namespace CopiesWait

variable {R : NodeId → Prop} {level : Nat} {frame : Frame} {copies : List Context}

/-- Where no copy stands nothing is left to do. -/
theorem owes_other (frame : Frame) (t : Recording) {x : NodeId}
    (hx : x ∉ copies.map (·.node)) : Owes stage p fuel hvisitors frame copies t x t := by
  have hnone : copyAt copies x = none := by
    cases hat : copyAt copies x with
    | none => rfl
    | some c =>
        obtain ⟨hc, rfl⟩ := mem_of_copyAt hat
        exact absurd (List.mem_map_of_mem hc) hx
  unfold Owes freshWork
  rw [hnone]
  exact .done rfl

/-- When both runs have come to their ends, the copies have become the same. -/
theorem same_of_ends (h : CopiesWait stage R p level fuel frame copies t r) {front back : List NodeId}
    (hchildren : t.state.document.children p = front ++ copies.map (·.node) ++ back)
    {progress' : NodeId → Progress Work} {blocks' : NodeId → List NodeId}
    (htogether : Advanced (parts stage p fuel hvisitors) r
      (Owes stage p fuel hvisitors frame copies t) r' progress' blocks')
    (hothers : ∀ y ∉ copies.map (·.node), blocks' y = [y])
    (hdone' : ∀ c ∈ copies, (progress' c.node).here = .underway frame [] {})
    (hsingly : Advanced (parts stage p fuel hvisitors) t
      (Owes stage p fuel hvisitors frame copies t) u progress blocks)
    (hdone : ∀ c ∈ copies, ∃ frame, (progress c.node).here = .underway frame [] {}) :
    ∃ nodes, r'.state.document.children p = front ++ nodes ++ back ∧
      (copies.flatMap fun c => (blocks c.node).map u.state.document.tree) =
        nodes.map r'.state.document.tree := by
  have hsame : t.state.document.children p = r.state.document.children p := by rw [h.state_eq]
  have hnodup := h.logged.sound.kept.linked.nodup_children p
  rw [hchildren] at hnodup
  obtain ⟨hleft, -, hback⟩ := List.nodup_append.mp hnodup
  obtain ⟨-, -, hfront⟩ := List.nodup_append.mp hleft
  have hkept : ∀ l : List NodeId, (∀ y ∈ l, y ∉ copies.map (·.node)) → l.flatMap blocks' = l := by
    intro l hl
    rw [List.flatMap_congr fun y hy => hothers y (hl y hy)]
    exact List.flatMap_singleton' l
  refine ⟨copies.flatMap fun c => blocks' c.node, ?_, ?_⟩
  · rw [htogether.children_eq, ← hsame, hchildren, List.flatMap_append, List.flatMap_append,
      List.flatMap_map, hkept front fun y hy hcopy => hfront y hy y hcopy rfl,
      hkept back fun y hy hcopy => hback y (List.mem_append_right front hcopy) y hy rfl]
  · rw [List.map_flatMap]
    apply List.flatMap_congr
    intro c hc
    have hx : c.node ∈ t.state.document.children p := by
      rw [hchildren]
      exact List.mem_append_left back (List.mem_append_right front (List.mem_map_of_mem hc))
    obtain ⟨frame', hdone⟩ := hdone c hc
    have howes := (htogether.owes_iff_of_done (hsame ▸ hx) (hdone' c hc)).mpr rfl
    have halone := (hsingly.owes_iff_of_done hx hdone).mp howes
    exact htogether.trees_eq hsingly hsame (hsame ▸ hx) halone.symm

/-- Going on with all copies together and rendering them one after the other succeed alike, and what
they leave between the nodes around the copies has the same trees. -/
theorem unrolls (h : CopiesWait stage R p level fuel frame copies t r)
    (hvisitors : stage.settings.visitors = []) {front back : List NodeId}
    (hchildren : t.state.document.children p = front ++ copies.map (·.node) ++ back) :
    let together : Recorded Unit := do
      renderHanded stage.settings fuel frame.path frame.entry frame.start
        (← runHandlers stage.settings frame.path { contexts := copies } laterHandlers)
    let same := fun r' : Recording => ∃ trees u nodes,
      OneByOne stage.settings (fuel + 1) frame.path p copies t trees u ∧
      outcome (copies.forM (render stage.settings (fuel + 1) frame.path)) t = (.ok (), u) ∧
      r'.state.document.children p = front ++ nodes ++ back ∧
      trees.flatten = nodes.map r'.state.document.tree
    (∀ r', outcome together r = (.ok (), r') → BindsNoGlobal r' → same r') ∧
    ∀ u, outcome (copies.forM (render stage.settings (fuel + 1) frame.path)) t = (.ok (), u) →
      BindsNoGlobal u → ∃ r', outcome together r = (.ok (), r') ∧ same r' := by
  intro together same
  let xs := copies.map (·.node)
  have hnodup : xs.Nodup := h.nodup
  have hmem : ∀ x ∈ xs, x ∈ t.state.document.children p := by
    intro x hx
    rw [hchildren]
    exact List.mem_append_left back (List.mem_append_right front hx)
  have hat : ∀ c ∈ copies, copyAt copies c.node = some c := fun c hc => copyAt_eq h.nodup hc
  obtain ⟨progress, hadvanced, hhere, halone⟩ := h.advanced_later hvisitors
  have htogether : Arrived stage p fuel hvisitors r (Owes stage p fuel hvisitors frame copies t) xs
      progress (fun x => [x]) frame (Phase.following laterHandlers) { contexts := copies } r := by
    refine ⟨progress, _, hadvanced, fun _ _ => ⟨rfl, rfl⟩, fun x => (copyAt copies x).toList, [],
      fun x hx => ?_, ?_, rfl, nofun⟩
    · obtain ⟨c, hc, rfl⟩ := List.mem_map.mp hx
      rw [hhere, laterWork, hat c hc]
      rfl
    · rw [List.flatMap_map]
      refine (List.flatMap_singleton' copies).symm.trans (List.flatMap_congr fun c hc => ?_)
      rw [hat c hc]
      rfl
  have hJ := htogether.run hnodup (h.state_eq ▸ hmem)
  have hS := (h.advanced_fresh hvisitors).oneByOne frame.path h.nodup
    fun c hc => ⟨hmem _ (List.mem_map_of_mem hc), by rw [freshWork, hat c hc]; rfl, rfl⟩
  constructor
  · intro r' hrun hquiet
    obtain ⟨progress', blocks', hadvanced', hothers', hdone'⟩ :=
      (hJ.good_of_ok hrun hquiet).done
    obtain ⟨_, u, hsingly, progress₁, blocks₁, trees, hadvanced₁, -, hdone₁, hone, htrees⟩ :=
      hS.exists_ok fun x hx => by
        by_cases hcopy : x ∈ xs
        · exact ⟨_, (hadvanced'.owes_iff_of_done (h.state_eq ▸ hx) (hdone' x hcopy)).mpr rfl⟩
        · exact ⟨t, owes_other frame t hcopy⟩
    obtain ⟨nodes, hnodes, hsame⟩ := h.same_of_ends hchildren hadvanced'
      (fun y hy => (hothers' y hy).2) (fun c hc => hdone' _ (List.mem_map_of_mem hc)) hadvanced₁ hdone₁
    exact ⟨trees, u, nodes, hone, hsingly, hnodes, htrees.trans hsame⟩
  · intro u hsingly hquiet
    obtain ⟨progress₁, blocks₁, trees, hadvanced₁, -, hdone₁, hone, htrees⟩ :=
      hS.good_of_ok hsingly hquiet
    obtain ⟨_, r', hrun, harrived⟩ := hJ.exists_ok fun x hx => by
      by_cases hcopy : x ∈ xs
      · obtain ⟨c, hc, rfl⟩ := List.mem_map.mp hcopy
        obtain ⟨frame', hdone⟩ := hdone₁ c hc
        exact ⟨_, (hadvanced₁.owes_iff_of_done (hmem _ hcopy) hdone).mpr rfl⟩
      · exact ⟨t, owes_other frame t hcopy⟩
    obtain ⟨progress', blocks', hadvanced', hothers', hdone'⟩ := harrived.done
    obtain ⟨nodes, hnodes, hsame⟩ := h.same_of_ends hchildren hadvanced'
      (fun y hy => (hothers' y hy).2) (fun c hc => hdone' _ (List.mem_map_of_mem hc)) hadvanced₁ hdone₁
    exact ⟨r', hrun, trees, u, nodes, hone, hsingly, hnodes, htrees.trans hsame⟩

end CopiesWait

end

end Walk.Recorded

end PageTemplate
