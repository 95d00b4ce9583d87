import PageTemplate.Proofs.Walk.Parts

/-! # Several renderings by turns

When several elements are handed on to a directive together, each gets its turn; then each gets a
turn at the next directive, and so on up to their children and the elements that were exposed. So
what the directives of several elements do is made of turns, and so is the rendering of one element
after the other.
-/

namespace PageTemplate

open Markup Document Stage

namespace Walk.Recorded

variable {settings : Settings} {path : List Enclosure} {handler : Handler}

/-! ## What is handed on for several elements -/

theorem runHandler_append (first rest : List Context) :
    runHandler settings path handler (first ++ rest) = do
      let a ← runHandler settings path handler first
      let b ← runHandler settings path handler rest
      return { contexts := a.contexts ++ b.contexts, exposed := a.exposed ++ b.exposed } := by
  unfold runHandler
  rw [List.mapM_append]
  simp [List.filterMap_append, List.flatMap_append]

theorem runHandler_flatMap (contexts : NodeId → List Context) (xs : List NodeId) :
    runHandler settings path handler (xs.flatMap contexts) =
      (fun results : List Handed => {
        contexts := results.flatMap (·.contexts)
        exposed := results.flatMap (·.exposed) }) <$>
        xs.mapM fun x => runHandler settings path handler (contexts x) := by
  induction xs with
  | nil => rfl
  | cons x xs ih =>
      rw [List.flatMap_cons, runHandler_append, ih, List.mapM_cons]
      simp [List.flatMap_cons]

theorem forM_flatMap {ι : Type} (items : NodeId → List ι) (step : ι → Recorded Unit)
    (xs : List NodeId) : (xs.flatMap items).forM step =
      (fun _ => ()) <$> xs.mapM fun x => (items x).forM step := by
  have happend : ∀ first rest : List ι,
      (first ++ rest).forM step = (do first.forM step; rest.forM step) :=
    fun _ _ => List.forM_append
  induction xs with
  | nil => rfl
  | cons x xs ih =>
      rw [List.flatMap_cons, List.mapM_cons, happend, ih]
      simp

/-- Of several exposed contexts those that belong to one element. -/
def exposedOf (tagged : List (NodeId × Context × Context)) (x : NodeId) :
    List (Context × Context) :=
  (tagged.filter (·.1 = x)).map (·.2)

theorem exposedOf_append (first rest : List (NodeId × Context × Context)) (x : NodeId) :
    exposedOf (first ++ rest) x = exposedOf first x ++ exposedOf rest x := by
  simp [exposedOf]

theorem exposedOf_cons_self (x : NodeId) (exposed : Context × Context)
    (rest : List (NodeId × Context × Context)) :
    exposedOf ((x, exposed) :: rest) x = exposed :: exposedOf rest x := by
  simp [exposedOf]

theorem exposedOf_cons_of_ne {x y : NodeId} (hne : x ≠ y) (exposed : Context × Context)
    (rest : List (NodeId × Context × Context)) :
    exposedOf ((x, exposed) :: rest) y = exposedOf rest y := by
  simp [exposedOf, hne]

theorem exposedOf_map (exposed : List (Context × Context)) (x y : NodeId) :
    exposedOf (exposed.map (x, ·)) y = if x = y then exposed else [] := by
  induction exposed with
  | nil => simp [exposedOf]
  | cons first rest ih =>
      by_cases hne : x = y
      · subst hne
        rw [if_pos rfl] at ih ⊢
        rw [List.map_cons, exposedOf_cons_self, ih]
      · rw [if_neg hne] at ih ⊢
        rw [List.map_cons, exposedOf_cons_of_ne hne, ih]

/-- Each element has its own. -/
theorem exposedOf_flatMap {xs : List NodeId} (exposed : NodeId → List (Context × Context))
    (hnodup : xs.Nodup) {x : NodeId} (hx : x ∈ xs) :
    exposedOf (xs.flatMap fun y => (exposed y).map (y, ·)) x = exposed x := by
  have hother : ∀ ys : List NodeId, x ∉ ys →
      exposedOf (ys.flatMap fun y => (exposed y).map (y, ·)) x = [] := by
    intro ys hys
    induction ys with
    | nil => rfl
    | cons y ys ih =>
        rw [List.mem_cons, not_or] at hys
        rw [List.flatMap_cons, exposedOf_append, exposedOf_map, if_neg (Ne.symm hys.1), ih hys.2]
        rfl
  obtain ⟨before, after, rfl⟩ := List.append_of_mem hx
  rw [List.nodup_middle, List.nodup_cons, List.mem_append, not_or] at hnodup
  rw [List.flatMap_append, List.flatMap_cons, exposedOf_append, exposedOf_append, exposedOf_map,
    hother before hnodup.1.1, hother after hnodup.1.2, if_pos rfl, List.append_nil,
    List.nil_append]

/-- Without contexts the directives have nothing to do. -/
theorem runHandlers_empty (handlers : List Handler) :
    runHandlers settings path {} handlers = pure {} := by
  induction handlers with
  | nil => rfl
  | cons handler handlers ih =>
      unfold runHandlers at ih ⊢
      rw [List.foldlM_cons]
      exact ih

/-- After an error to recover from, nothing is left to do. -/
theorem renderFound_eq (fuel : Nat) (entry : Context) (start : RenderState)
    (found : Option Context) : renderFound settings fuel path entry start found = (do
      renderHanded settings fuel path entry start
        (← runHandlers settings path { contexts := found.toList } Handler.order)) := by
  cases found with
  | none =>
      rw [Option.toList_none, runHandlers_empty]
      rfl
  | some ctx => rfl

/-! ## Elements at the same phase -/

/-- The elements are at the same phase, with contexts of their own, and what has been handed on for
all of them is what has been handed on for each: contexts one element after the other, and exposed
ones in some order. -/
structure InLine (xs : List NodeId) (frame : Frame) (todo : List Phase)
    (progress : NodeId → Progress Work) (contexts : NodeId → List Context)
    (tagged : List (NodeId × Context × Context)) (handed : Handed) : Prop where
  here : ∀ x ∈ xs, (progress x).here = .underway frame todo ⟨contexts x, exposedOf tagged x⟩
  contexts_eq : handed.contexts = xs.flatMap contexts
  exposed_eq : handed.exposed = tagged.map (·.2)
  mem : ∀ entry ∈ tagged, entry.1 ∈ xs

section

variable {stage : Stage} {p : NodeId} {fuel : Nat} {hvisitors : stage.settings.visitors = []}
  {start t : Recording} {owes : NodeId → Recording → Prop} {xs : List NodeId}
  {progress : NodeId → Progress Work} {blocks : NodeId → List NodeId} {frame : Frame}
  {todo : List Phase} {handed : Handed}

/-- The elements have arrived at the phase, and no other element has had a turn. -/
def Arrived (stage : Stage) (p : NodeId) (fuel : Nat) (hvisitors : stage.settings.visitors = [])
    (start : Recording) (owes : NodeId → Recording → Prop) (xs : List NodeId)
    (progress : NodeId → Progress Work) (blocks : NodeId → List NodeId) (frame : Frame)
    (todo : List Phase) (handed : Handed) (t : Recording) : Prop :=
  ∃ progress' blocks', Advanced (parts stage p fuel hvisitors) start owes t progress' blocks' ∧
    (∀ y ∉ xs, progress' y = progress y ∧ blocks' y = blocks y) ∧
    ∃ contexts tagged, InLine xs frame todo progress' contexts tagged handed

variable (hnodup : xs.Nodup) (hxs : xs ⊆ start.state.document.children p)

include hnodup hxs

theorem Arrived.handle {handler : Handler}
    (h : Arrived stage p fuel hvisitors start owes xs progress blocks frame
      (.handle handler :: todo) handed t) :
    Fares owes (start.state.document.children p) (do
        let next ← runHandler stage.settings frame.path handler handed.contexts
        return { contexts := next.contexts, exposed := handed.exposed ++ next.exposed }) t
      (Arrived stage p fuel hvisitors start owes xs progress blocks frame todo) := by
  obtain ⟨progress', blocks', hadvanced, hothers, contexts, tagged, hline⟩ := h
  have hnext : ∀ x ∈ xs, (parts stage p fuel hvisitors).next (progress' x).here =
      (fun next : Handed => Work.underway frame todo
        ⟨next.contexts, exposedOf tagged x ++ next.exposed⟩) <$>
        runHandler stage.settings frame.path handler (contexts x) := by
    intro x hx
    rw [hline.here x hx, map_eq_pure_bind]
    rfl
  have : Nonempty Handed := ⟨{}⟩
  have hturns := hadvanced.mapM (records_parts hvisitors)
    (fun x => grows_runHandler stage.settings frame.path handler (contexts x)) hnodup hxs hnext
  rw [hline.contexts_eq, runHandler_flatMap, bind_map_left]
  apply hturns.bind fun _ => grows_pure _
  rintro results u ⟨progress₁, blocks₁, hadvanced₁, hothers₁, result, rfl, hhere⟩
  refine .pure ⟨progress₁, blocks₁, hadvanced₁, fun y hy => ?_, fun x => (result x).contexts,
    tagged ++ xs.flatMap fun x => (result x).exposed.map (x, ·), fun x hx => ?_, ?_, ?_, ?_⟩
  · obtain ⟨hprogress, hblocks⟩ := hothers₁ y hy
    rw [hprogress, hblocks]
    exact hothers y hy
  · rw [hhere x hx, exposedOf_append, exposedOf_flatMap _ hnodup hx]
  · rw [List.flatMap_map]
  · show handed.exposed ++ (xs.map result).flatMap (·.exposed) = _
    rw [List.map_append, hline.exposed_eq, List.flatMap_map, List.map_flatMap]
    congr 1
    apply List.flatMap_congr
    intro x _
    rw [List.map_map]
    exact (List.map_id _).symm
  · intro entry hentry
    rcases List.mem_append.mp hentry with hentry | hentry
    · exact hline.mem entry hentry
    · obtain ⟨x, hx, hentry⟩ := List.mem_flatMap.mp hentry
      obtain ⟨exposed, -, rfl⟩ := List.mem_map.mp hentry
      exact hx

theorem Arrived.runHandlers {handlers : List Handler}
    (h : Arrived stage p fuel hvisitors start owes xs progress blocks frame
      (handlers.map .handle ++ todo) handed t) :
    Fares owes (start.state.document.children p)
      (runHandlers stage.settings frame.path handed handlers) t
      (Arrived stage p fuel hvisitors start owes xs progress blocks frame todo) := by
  induction handlers generalizing handed t with
  | nil => exact .pure h
  | cons handler handlers ih =>
      unfold Recorded.runHandlers
      rw [List.foldlM_cons]
      apply (h.handle hnodup hxs).bind
      · intro next
        exact (unwinding_runHandlers stage.settings frame.path next handlers).grows
      · intro next u hnext
        exact ih hnext

theorem Arrived.within
    (h : Arrived stage p fuel hvisitors start owes xs progress blocks frame (.within :: todo)
      handed t) :
    Fares owes (start.state.document.children p) (handed.contexts.forM
        (renderWithin stage.settings fuel frame.path frame.entry frame.start)) t
      fun _ => Arrived stage p fuel hvisitors start owes xs progress blocks frame todo
        { exposed := handed.exposed } := by
  obtain ⟨progress', blocks', hadvanced, hothers, contexts, tagged, hline⟩ := h
  have hnext : ∀ x ∈ xs, (parts stage p fuel hvisitors).next (progress' x).here =
      (fun _ => Work.underway frame todo { exposed := exposedOf tagged x }) <$>
        (contexts x).forM (renderWithin stage.settings fuel frame.path frame.entry frame.start) := by
    intro x hx
    rw [hline.here x hx, map_eq_pure_bind]
    rfl
  have hturns := hadvanced.mapM (records_parts hvisitors)
    (fun x => grows_within stage.settings fuel frame (contexts x)) hnodup hxs hnext
  rw [hline.contexts_eq, forM_flatMap, map_eq_pure_bind]
  apply hturns.bind fun _ => grows_pure _
  rintro results u ⟨progress₁, blocks₁, hadvanced₁, hothers₁, result, -, hhere⟩
  refine .pure ⟨progress₁, blocks₁, hadvanced₁, fun y hy => ?_, fun _ => [], tagged,
    hhere, by simp, hline.exposed_eq, hline.mem⟩
  obtain ⟨hprogress, hblocks⟩ := hothers₁ y hy
  rw [hprogress, hblocks]
  exact hothers y hy

omit hnodup in
/-- What the elements have exposed, in whatever order. -/
theorem Arrived.exposed
    (h : Arrived stage p fuel hvisitors start owes xs progress blocks frame [] handed t)
    (hnone : handed.contexts = []) :
    Fares owes (start.state.document.children p) (handed.exposed.forM
        (renderExposed stage.settings fuel frame.path frame.entry frame.start)) t
      fun _ => Arrived stage p fuel hvisitors start owes xs progress blocks frame [] {} := by
  obtain ⟨progress', blocks', hadvanced, hothers, contexts, tagged, hline⟩ := h
  have hempty : ∀ x ∈ xs, contexts x = [] := by
    have hflat := hline.contexts_eq.symm.trans hnone
    simpa using hflat
  have hhere : ∀ x ∈ xs, (progress' x).here = .underway frame [] ⟨[], exposedOf tagged x⟩ := by
    intro x hx
    rw [hline.here x hx, hempty x hx]
  have hmem := hline.mem
  rw [hline.exposed_eq]
  clear hline hempty
  induction tagged generalizing t progress' blocks' with
  | nil =>
      exact .pure ⟨progress', blocks', hadvanced, hothers, fun _ => [], [], hhere, by simp, rfl,
        nofun⟩
  | cons entry tagged ih =>
      obtain ⟨x, first⟩ := entry
      obtain ⟨hx, hmem⟩ := List.forall_mem_cons.mp hmem
      have hturn := hadvanced.turn (records_parts hvisitors) (hxs hx)
      have hnext : (parts stage p fuel hvisitors).next (progress' x).here =
          (fun _ => Work.underway frame [] ⟨[], exposedOf tagged x⟩) <$>
            renderExposed stage.settings fuel frame.path frame.entry frame.start first := by
        rw [hhere x hx, exposedOf_cons_self, map_eq_pure_bind]
        rfl
      rw [hnext] at hturn
      change Fares owes (start.state.document.children p) (do
        renderExposed stage.settings fuel frame.path frame.entry frame.start first
        (tagged.map (·.2)).forM
          (renderExposed stage.settings fuel frame.path frame.entry frame.start)) t _
      apply hturn.of_map.bind
      · intro _
        exact (unwinding_forM (unwinding_renderExposed stage.settings fuel frame.path frame.entry
          frame.start) _).grows
      rintro _ u ⟨alone, own, nodes, hadvanced'⟩
      refine ih _ _ hadvanced' (fun y hy => ?_) (fun y hy => ?_) hmem
      · have hne : y ≠ x := fun heq => hy (heq ▸ hx)
        rw [Function.update_of_ne hne, Function.update_of_ne hne]
        exact hothers y hy
      · by_cases hne : y = x
        · subst hne
          rw [Function.update_self]
        · rw [Function.update_of_ne hne, hhere y hy, exposedOf_cons_of_ne (Ne.symm hne)]

/-- From some directive on, several elements are rendered by turns. -/
theorem Arrived.run {handlers : List Handler}
    (h : Arrived stage p fuel hvisitors start owes xs progress blocks frame
      (Phase.following handlers) handed t) :
    Fares owes (start.state.document.children p) (do
        renderHanded stage.settings fuel frame.path frame.entry frame.start
          (← Recorded.runHandlers stage.settings frame.path handed handlers)) t
      fun _ => Arrived stage p fuel hvisitors start owes xs progress blocks frame [] {} := by
  apply (Arrived.runHandlers hnodup hxs h).bind
  · intro next
    exact (unwinding_renderHanded _ _ _ _ _ next).grows
  intro next u hnext
  apply (hnext.within hnodup hxs).bind
  · intro _
    exact (unwinding_forM (unwinding_renderExposed _ _ _ _ _) _).grows
  · intro _ v hrest
    have hexposed := hrest.exposed hxs rfl
    exact hexposed

omit hnodup hxs in
/-- When everything has been done, nothing is left to do for any of the elements. -/
theorem Arrived.done
    (h : Arrived stage p fuel hvisitors start owes xs progress blocks frame [] {} t) :
    ∃ progress' blocks', Advanced (parts stage p fuel hvisitors) start owes t progress' blocks' ∧
      (∀ y ∉ xs, progress' y = progress y ∧ blocks' y = blocks y) ∧
      ∀ x ∈ xs, (progress' x).here = .underway frame [] {} := by
  obtain ⟨progress', blocks', hadvanced, hothers, contexts, tagged, hline⟩ := h
  refine ⟨progress', blocks', hadvanced, hothers, fun x hx => ?_⟩
  have hcontexts : contexts x = [] := by
    have hflat := hline.contexts_eq.symm
    rw [List.flatMap_eq_nil_iff] at hflat
    exact hflat x hx
  obtain rfl : tagged = [] := List.map_eq_nil_iff.mp hline.exposed_eq.symm
  rw [hline.here x hx, hcontexts]
  rfl

omit hnodup hxs in
/-- When nothing is left to do for an element, what it is owed is what has come of it. -/
theorem Advanced.owes_iff_of_done {x : NodeId} {a : Recording}
    (h : Advanced (parts stage p fuel hvisitors) start owes t progress blocks)
    (hx : x ∈ start.state.document.children p)
    (hdone : (progress x).here = .underway frame [] {}) :
    owes x a ↔ a = (progress x).alone := by
  obtain ⟨owner, hsiblings⟩ := h.siblings
  obtain ⟨l, l', hsplit⟩ := List.append_of_mem hx
  obtain ⟨P, hsibling⟩ := hsiblings.each hsplit
  have halike : Work.Alike P (progress x).own (progress x).here := hsibling.alike
  rw [hdone] at halike
  have hnext : (parts stage p fuel hvisitors).next (progress x).own = pure (progress x).own := by
    generalize (progress x).own = own at halike
    cases halike with
    | @underway _ _ _ handed _ hhanded =>
        obtain ⟨contexts, exposed⟩ := handed
        obtain ⟨hcontexts, hexposed⟩ := hhanded
        cases hcontexts
        cases hexposed
        rfl
  rw [← h.owes_iff x a]
  constructor
  · intro hcompletes
    exact hcompletes.eq_of_done hnext
  · rintro rfl
    exact .done hnext

end

/-! ## One element -/

section

variable {stage : Stage} {p : NodeId} {fuel : Nat} {hvisitors : stage.settings.visitors = []}
  {start t : Recording} {owes : NodeId → Recording → Prop} {x : NodeId} {entry : Context}
  {progress : NodeId → Progress Work} {blocks : NodeId → List NodeId}

/-- An element that nothing has been done to is rendered by turns of its own. -/
theorem Advanced.render (h : Advanced (parts stage p fuel hvisitors) start owes t progress blocks)
    (hx : x ∈ start.state.document.children p) (hhere : (progress x).here = .fresh path entry) :
    Fares owes (start.state.document.children p)
      (Recorded.render stage.settings (fuel + 1) path entry) t
      fun _ => Arrived stage p fuel hvisitors start owes [x] progress blocks ⟨path, entry, t.state⟩
        [] {} := by
  let frame : Frame := ⟨path, entry, t.state⟩
  let begin := guarded stage.settings path entry
    (record .prepare path entry (prepare stage.settings entry))
  have hturn := h.turn (records_parts hvisitors) hx
  have hnext : outcome ((fun found : Option Context =>
        Work.underway frame (Phase.following Handler.order) { contexts := found.toList }) <$> begin)
      t = outcome ((parts stage p fuel hvisitors).next (progress x).here) t := by
    rw [hhere, map_eq_pure_bind]
    rfl
  refine Fares.congr ?_ (outcome_render_succ stage.settings fuel path entry t)
  apply (hturn.congr hnext).of_map.bind
  · intro found
    exact (unwinding_renderFound stage.settings fuel path entry t.state found).grows
  rintro found u ⟨alone, own, nodes, hadvanced⟩
  have harrived : Arrived stage p fuel hvisitors start owes [x] progress blocks frame
      (Phase.following Handler.order) { contexts := found.toList } u := by
    refine ⟨_, _, hadvanced, fun y hy => ?_, fun _ => found.toList, [], fun y hy => ?_, ?_, rfl,
      nofun⟩
    · have hne : y ≠ x := fun heq => hy (List.mem_singleton.mpr heq)
      rw [Function.update_of_ne hne, Function.update_of_ne hne]
      exact ⟨rfl, rfl⟩
    · rw [List.mem_singleton.mp hy, Function.update_self]
      rfl
    · simp
  rw [renderFound_eq]
  exact harrived.run (List.nodup_singleton x) (List.cons_subset.mpr ⟨hx, List.nil_subset _⟩)

end

end Walk.Recorded

end PageTemplate
