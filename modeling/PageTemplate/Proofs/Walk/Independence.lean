import PageTemplate.Proofs.Walk.Moments
import PageTemplate.Proofs.Walk.Siblings
import PageTemplate.Proofs.Walk.Termination

/-! # The children of an element are rendered independently

Each child of an element comes to what it would come to if its siblings were left alone. So nothing
that is bound or caught below one child is seen below another one, and the order in which the
children are rendered does not matter. Only global bindings go from one child to the next.
-/

namespace PageTemplate

open Markup Document Stage

namespace Walk.Recorded

variable {stage : Stage} {R R' : NodeId → Prop} {p : NodeId} {r r' start t u : Recording}
  {c : Context} {path : List Enclosure} {level fuel : Nat} {settings : Settings}

/-- What a child of an element yields on its own: a child that is no element stays as it is, and
an element is rendered while its siblings are left as they are. -/
def Yields (settings : Settings) (fuel : Nat) (path : List Enclosure) (c : Context)
    (r : Recording) (x : NodeId) (trees : List Tree) : Prop :=
  if r.state.document.isElement x then
    ∃ r' before nodes after,
      outcome (renderChild (render settings fuel path) c x) r = (.ok (), r') ∧
      r.state.document.children c.node = before ++ x :: after ∧
      r'.state.document.children c.node = before ++ nodes ++ after ∧
      trees = nodes.map r'.state.document.tree
  else trees = [r.state.document.tree x]

/-- There is only one thing that a child yields. -/
theorem Yields.unique {x : NodeId} {trees trees' : List Tree}
    (hnodup : (r.state.document.children c.node).Nodup) (h : Yields settings fuel path c r x trees)
    (h' : Yields settings fuel path c r x trees') : trees = trees' := by
  unfold Yields at h h'
  split at h
  next helement =>
    rw [if_pos helement] at h'
    obtain ⟨a, l, nodes, l', hout, hchildren, hafter, rfl⟩ := h
    obtain ⟨a', k, nodes', k', hout', hchildren', hafter', rfl⟩ := h'
    obtain ⟨-, rfl⟩ := Prod.mk.inj (hout.symm.trans hout')
    rw [hchildren, List.nodup_middle, List.nodup_cons, List.mem_append, not_or] at hnodup
    obtain ⟨⟨hl, hl'⟩, -⟩ := hnodup
    rw [hchildren] at hchildren'
    obtain ⟨rfl, -, rfl⟩ := (List.append_cons_inj_of_notMem hl hl').mp hchildren'
    obtain rfl : nodes = nodes' := by simpa using hafter.symm.trans hafter'
    rfl
  next helement =>
    rw [if_neg helement] at h'
    exact h.trans h'.symm

theorem BindsNoGlobal.of_walk {order : List NodeId} (h : BindsNoGlobal r')
    (hwalk : outcome (order.forM (renderChild (render settings fuel path) c)) r = (.ok (), r')) :
    BindsNoGlobal r := by
  obtain ⟨steps, hsteps⟩ := (unwinding_forM (unwinding_renderChild settings fuel path c) order).grows r
  rw [hwalk] at hsteps
  intro step hstep
  refine h step ?_
  rw [hsteps]
  exact List.mem_append_left steps hstep

/-! ## The children as a routine -/

/-- What is left to do for a child waits for it. -/
def Waits (stage : Stage) (c : Context) (level : Nat) (R : NodeId → Prop) (r : Recording)
    (work : Option Context) : Prop :=
  ∀ ctx ∈ work, stage.Placed R c.node r.state.document ctx ∧ ChildOf stage c level r ctx

theorem Waits.settled {work : Option Context} (hfield : stage.Field R c.node r)
    (h : Waits stage c level R r work) (hsettles : Settles stage R R' r r') :
    Waits stage c level R' r' work := by
  intro ctx hctx
  obtain ⟨hplaced, hchild⟩ := h ctx hctx
  obtain ⟨hsame, hplaced'⟩ := hsettles.placed hfield hplaced
  exact ⟨hplaced', steady_childOf r r' ctx hsame hchild⟩

/-- Each child is rendered at one go. -/
def wholly (stage : Stage) (c : Context) (path : List Enclosure)
    (hvisitors : stage.settings.visitors = []) (henough : level ≤ fuel)
    (hlower : ∀ head ∈ path.head?, level < stage.level head.start.document head.entry) :
    Routine stage c.node (Option Context) where
  next
    | none => pure none
    | some ctx => (fun _ => none) <$> render stage.settings fuel path ctx
  Ready := Waits stage c level
  Alike P := Option.Rel (Context.Twins P)
  ensures {R r work} hfield hwaits := by
    cases work with
    | none => exact Ensures.pure ⟨.refl hfield.logged, nofun⟩
    | some ctx =>
        obtain ⟨hplaced, hpending, -⟩ := hwaits ctx rfl
        refine Ensures.map ((renders fuel _ _ _ path _ _ hfield hplaced hpending henough
          hlower).mono (fun _ r' hgoes => ?_) fun stop r' => hfield.widen_stops hplaced)
        exact ⟨hfield.widen hplaced hgoes, nofun⟩
  steady hfield hwaits hsettles := hwaits.settled hfield hsettles
  coupled {P work work'} hsource halike := by
    cases halike with
    | none => exact coupled_pure .none
    | some hctx => exact (coupled_render hvisitors hsource fuel hctx).map fun _ _ _ => .none
  alike_self {P R r work} hwaits hpairs := by
    cases work with
    | none => exact .none
    | some ctx =>
        obtain ⟨hplaced, -⟩ := hwaits ctx rfl
        exact .some ⟨ctx.node, hpairs _ (lt_size_of_isElement hplaced.element) hplaced.mem, rfl⟩
  alike_again {P P' R r work work'} hwaits halike hpairs := by
    cases halike with
    | none => exact .none
    | some hctx =>
        obtain ⟨hplaced, -⟩ := hwaits _ rfl
        obtain ⟨node, hnode, rfl⟩ := hctx
        exact .some ⟨node, hpairs (lt_size_of_isElement hplaced.element) hnode, rfl⟩

/-! ## In any order -/

section Orders

variable {hvisitors : stage.settings.visitors = []} {henough : level ≤ fuel}
  {hlower : ∀ head ∈ path.head?, level < stage.level head.start.document head.entry}
  {progress : NodeId → Progress (Option Context)} {owner : NodeId → NodeId}
  {blocks : NodeId → List NodeId} {x : NodeId} {l l' : List NodeId}

/-- Nothing has been done for the child yet. -/
def untouched (start : Recording) (c : Context) (x : NodeId) : Progress (Option Context) :=
  ⟨start, c.child start.state.document x, c.child start.state.document x⟩

/-- The child has been rendered, with this result on its own. -/
def rendered (alone : Recording) : Progress (Option Context) := ⟨alone, none, none⟩

theorem outcome_renderChild (d : Document) (hd : c.child r.state.document x = c.child d x) :
    outcome (renderChild (render stage.settings fuel path) c x) r =
      outcome (render stage.settings fuel path (c.child d x)) r := by
  rw [← hd]
  rfl

variable (h : Siblings (wholly stage c path hvisitors henough hlower) start t progress owner blocks)

include h

/-- A child is rendered as it would be on its own. -/
theorem Siblings.nextChild (hx : start.state.document.children c.node = l ++ x :: l')
    (hprogress : progress x = untouched start c x) :
    EndAlike (fun _ a _ u => u.state.globals = a.state.globals ∧
        (u.state.globals = t.state.globals → ∃ owner' nodes',
          Siblings (wholly stage c path hvisitors henough hlower) start u
            (Function.update progress x (rendered a)) owner' (Function.update blocks x nodes')))
      (fun _ _ _ _ => True)
      (outcome (renderChild (render stage.settings fuel path) c x) start)
      (outcome (renderChild (render stage.settings fuel path) c x) t) := by
  have hnext := h.next hx
  obtain ⟨P, hsibling⟩ := h.each hx
  have hwaits : Waits stage c level (plot owner t x) t (progress x).here := hsibling.ready'
  rw [hprogress] at hnext hwaits
  obtain ⟨-, -, hchild⟩ := hwaits (c.child start.state.document x) rfl
  replace hchild : c.child t.state.document x = c.child start.state.document x := hchild.symm
  rw [outcome_renderChild start.state.document rfl, outcome_renderChild _ hchild]
  change EndAlike _ _ (outcome (_ <$> render stage.settings fuel path _) start)
    (outcome (_ <$> render stage.settings fuel path _) t) at hnext
  rw [outcome_map, outcome_map] at hnext
  generalize outcome (render stage.settings fuel path _) start = alone,
    outcome (render stage.settings fuel path _) t = among at hnext ⊢
  obtain ⟨_ | _, a⟩ := alone <;> obtain ⟨_ | _, u⟩ := among <;> cases hnext
  case error => exact .error trivial
  case ok hnext => exact .ok hnext

/-- Children that were rendered among their siblings can be rendered on their own. -/
theorem Siblings.alone {order : List NodeId}
    (hglobals : t.state.globals = start.state.globals)
    (hwalk : outcome (order.forM (renderChild (render stage.settings fuel path) c)) t = (.ok (), u))
    (hquiet : BindsNoGlobal u) (hnodup : order.Nodup)
    (horder : ∀ x ∈ order, x ∈ start.state.document.children c.node ∧
      progress x = untouched start c x) :
    ∀ x ∈ order, ∃ a, outcome (renderChild (render stage.settings fuel path) c x) start =
      (.ok (), a) ∧ a.state.globals = start.state.globals := by
  induction order generalizing t progress owner blocks with
  | nil => exact nofun
  | cons x order ih =>
      obtain ⟨hnot, hnodup⟩ := List.nodup_cons.mp hnodup
      obtain ⟨⟨hchild, hprogress⟩, hrest⟩ := List.forall_mem_cons.mp horder
      obtain ⟨l, l', hx⟩ := List.append_of_mem hchild
      have hnext := h.nextChild hx hprogress
      rw [outcome_forM_cons, outcome_bind] at hwalk
      rcases hout : outcome (renderChild (render stage.settings fuel path) c x) t with ⟨_ | _, v⟩
      · rw [hout] at hwalk
        cases hwalk
      · rw [hout] at hwalk hnext
        have hquiet' : BindsNoGlobal v := hquiet.of_walk hwalk
        have hkept := globals_renderChild hout hquiet'
        rcases halone : outcome (renderChild (render stage.settings fuel path) c x) start with
          ⟨_ | _, a⟩
        · rw [halone] at hnext
          cases hnext
        · rw [halone] at hnext
          cases hnext with
          | ok hnext =>
              obtain ⟨owner', nodes', hsiblings⟩ := hnext.2 hkept
              refine List.forall_mem_cons.mpr ⟨⟨a, halone, ?_⟩, ?_⟩
              · rw [← hnext.1, hkept, hglobals]
              · refine ih hsiblings (hkept.trans hglobals) hwalk hnodup fun y hy => ?_
                rw [Function.update_of_ne (ne_of_mem_of_not_mem hy hnot)]
                exact hrest y hy

/-- Children that can be rendered on their own can be rendered one after the other, in any order. -/
theorem Siblings.together {order : List NodeId} {alone : NodeId → Recording}
    (hglobals : t.state.globals = start.state.globals) (hnodup : order.Nodup)
    (horder : ∀ x ∈ order, x ∈ start.state.document.children c.node ∧
      progress x = untouched start c x)
    (halone : ∀ x ∈ order, outcome (renderChild (render stage.settings fuel path) c x) start =
      (.ok (), alone x) ∧ (alone x).state.globals = start.state.globals) :
    ∃ u progress' owner' blocks',
      outcome (order.forM (renderChild (render stage.settings fuel path) c)) t = (.ok (), u) ∧
      Siblings (wholly stage c path hvisitors henough hlower) start u progress' owner' blocks' ∧
      (∀ x ∈ order, progress' x = rendered (alone x)) ∧ ∀ x ∉ order, progress' x = progress x := by
  induction order generalizing t progress owner blocks with
  | nil => exact ⟨t, progress, owner, blocks, rfl, h, nofun, fun _ _ => rfl⟩
  | cons x order ih =>
      obtain ⟨hnot, hnodup⟩ := List.nodup_cons.mp hnodup
      obtain ⟨⟨hchild, hprogress⟩, hrest⟩ := List.forall_mem_cons.mp horder
      obtain ⟨⟨hout, hkept⟩, halone⟩ := List.forall_mem_cons.mp halone
      obtain ⟨l, l', hx⟩ := List.append_of_mem hchild
      have hnext := h.nextChild hx hprogress
      rw [hout] at hnext
      rcases hfirst : outcome (renderChild (render stage.settings fuel path) c x) t with ⟨_ | _, v⟩
      · rw [hfirst] at hnext
        cases hnext
      · rw [hfirst] at hnext
        cases hnext with
        | ok hnext =>
            have hv : v.state.globals = start.state.globals := hnext.1.trans hkept
            obtain ⟨owner₁, nodes₁, hsiblings⟩ := hnext.2 (hv.trans hglobals.symm)
            have hwaiting : ∀ y ∈ order, y ∈ start.state.document.children c.node ∧
                Function.update progress x (rendered (alone x)) y = untouched start c y := by
              intro y hy
              rw [Function.update_of_ne (ne_of_mem_of_not_mem hy hnot)]
              exact hrest y hy
            obtain ⟨u, progress', owner', blocks', hwalk, hsiblings', hdone, hothers⟩ :=
              ih hsiblings hv hnodup hwaiting halone
            refine ⟨u, progress', owner', blocks', ?_, hsiblings', ?_, fun y hy => ?_⟩
            · rw [outcome_forM_cons, outcome_bind_ok hfirst]
              exact hwalk
            · refine List.forall_mem_cons.mpr ⟨?_, hdone⟩
              rw [hothers x hnot, Function.update_self]
            · rw [List.mem_cons, not_or] at hy
              obtain ⟨hne, hy⟩ := hy
              rw [hothers y hy, Function.update_of_ne hne]

/-- What has become of a child is what it yields on its own. -/
theorem Siblings.yields {alone : NodeId → Recording} {order : List NodeId}
    (horder : order.Perm (start.state.document.childElements c.node))
    (hdone : ∀ x ∈ order, progress x = rendered (alone x) ∧
      outcome (renderChild (render stage.settings fuel path) c x) start = (.ok (), alone x))
    (hothers : ∀ x ∉ order, (progress x).alone = start)
    (hx : x ∈ start.state.document.children c.node) :
    Yields stage.settings fuel path c start x ((blocks x).map t.state.document.tree) := by
  obtain ⟨l, l', hchildren⟩ := List.append_of_mem hx
  obtain ⟨P, hsibling⟩ := h.each hchildren
  obtain ⟨nodes, halone, htrees⟩ := hsibling.trees_eq (h.blocks_eq hchildren)
  have hmem : x ∈ order ↔ start.state.document.isElement x = true := by
    rw [horder.mem_iff, childElements, List.mem_filter]
    exact and_iff_right hx
  rw [htrees]
  unfold Yields
  split
  next helement =>
    obtain ⟨hprogress, hout⟩ := hdone x (hmem.mpr helement)
    rw [hprogress] at halone ⊢
    exact ⟨alone x, l, nodes, l', hout, hchildren, halone, rfl⟩
  next helement =>
    rw [hothers x (mt hmem.mp helement)] at halone ⊢
    rw [hchildren, List.append_assoc, List.append_right_inj, ← List.singleton_append,
      List.append_left_inj] at halone
    rw [← halone]
    rfl

/-- Children that can be rendered on their own yield the same in any order. -/
theorem Siblings.exists_yields {alone : NodeId → Recording} {order : List NodeId}
    (hprogress : progress = fun x => if start.state.document.isElement x then untouched start c x
      else rendered start)
    (hglobals : t.state.globals = start.state.globals)
    (horder : order.Perm (start.state.document.childElements c.node))
    (halone : ∀ x ∈ start.state.document.childElements c.node,
      outcome (renderChild (render stage.settings fuel path) c x) start = (.ok (), alone x) ∧
        (alone x).state.globals = start.state.globals) :
    ∃ u, ∃ yields : NodeId → List Tree,
      outcome (order.forM (renderChild (render stage.settings fuel path) c)) t = (.ok (), u) ∧
      (∀ x ∈ start.state.document.children c.node,
        Yields stage.settings fuel path c start x (yields x)) ∧
      (u.state.document.children c.node).map u.state.document.tree =
        (start.state.document.children c.node).flatMap yields := by
  have hnodup : order.Nodup :=
    horder.nodup_iff.mpr ((h.linked.nodup_children c.node).filter _)
  have hwaiting : ∀ x ∈ order, x ∈ start.state.document.children c.node ∧
      progress x = untouched start c x := by
    intro x hx
    obtain ⟨hchild, helement⟩ := List.mem_filter.mp (horder.mem_iff.mp hx)
    rw [hprogress]
    exact ⟨hchild, if_pos helement⟩
  have hdone : ∀ x ∈ order, _ := fun x hx => halone x (horder.mem_iff.mp hx)
  obtain ⟨u, progress', owner', blocks', hwalk, hsiblings, hrendered, hothers⟩ :=
    h.together hglobals hnodup hwaiting hdone
  refine ⟨u, fun x => (blocks' x).map u.state.document.tree, hwalk, fun x hx => ?_, ?_⟩
  · refine hsiblings.yields horder (fun y hy => ⟨hrendered y hy, (hdone y hy).1⟩)
      (fun y hy => ?_) hx
    rw [hothers y hy, hprogress]
    dsimp only
    split <;> rfl
  · rw [hsiblings.children_eq, List.map_flatMap]

end Orders

variable {libraries : List Document} {node : NodeId} {s : RenderState}

/-- When the children of an element are rendered and no global variable is bound, every child
yields what it yields on its own, in its place and in whatever order the children are rendered. -/
theorem children_yield_independently (hready : Ready settings node s)
    (hcache : s.cache.IsFaithful)
    (hcomes : ComesTo settings libraries node s (.children fuel path c) r)
    (hwalk : outcome (renderChildren (render settings fuel path) c) r = (.ok (), r'))
    (hquiet : BindsNoGlobal r') :
    ∃ yields : NodeId → List Tree,
      (∀ x ∈ r.state.document.children c.node, Yields settings fuel path c r x (yields x)) ∧
      (r'.state.document.children c.node).map r'.state.document.tree =
        (r.state.document.children c.node).flatMap yields ∧
      ∀ order : List NodeId, order.Perm (r.state.document.childElements c.node) →
        ∃ t, outcome (order.forM (renderChild (render settings fuel path) c)) r = (.ok (), t) ∧
          (t.state.document.children c.node).map t.state.document.tree =
            (r.state.document.children c.node).flatMap yields := by
  obtain ⟨stage, t, hopens⟩ := hready.begins.exists_opens libraries
  obtain ⟨R, p, level, ⟨hfield, hplaced, henough, hlower⟩, hopen, hrenders⟩ :=
    hcomes.fits hopens hready
  obtain rfl := hopens.settings_eq
  have hvisitors := hready.visitors
  have hbelow := hfield.below hplaced
  have hteam := team_children hfield hplaced hopen hrenders
  let works : NodeId → Option Context := fun x =>
    if r.state.document.isElement x then some (c.child r.state.document x) else none
  have hstart := siblings_start (wholly stage c path hvisitors henough hlower) works hfield.logged
    hbelow.attached (hcomes.isFaithful_cache hready hcache) fun x hx => by
      rintro ctx hctx
      obtain ⟨helement, rfl⟩ := Option.ite_some_none_eq_some.mp hctx
      obtain ⟨hplaced', hchild⟩ := hteam.waiting _
        (List.mem_map.mpr ⟨x, List.mem_filter.mpr ⟨hx, helement⟩, rfl⟩)
      exact ⟨⟨hplaced'.admits, own_self _ _, hplaced'.parent_eq, hplaced'.element⟩, hchild⟩
  have hprogress : (fun x => Progress.mk r (works x) (works x)) = fun x =>
      if r.state.document.isElement x then untouched r c x else rendered r := by
    funext x
    unfold works untouched rendered
    split <;> rfl
  have hnodup := hfield.region.linked.nodup_children c.node
  have hwaiting : ∀ x ∈ r.state.document.childElements c.node,
      x ∈ r.state.document.children c.node ∧ Progress.mk r (works x) (works x) =
        untouched r c x := fun x hx => by
    obtain ⟨hchild, helement⟩ := List.mem_filter.mp hx
    exact ⟨hchild, (congrFun hprogress x).trans (if_pos helement)⟩
  have : Nonempty Recording := ⟨r⟩
  choose! alone halone using hstart.alone rfl hwalk hquiet (hnodup.filter _) hwaiting
  obtain ⟨u, yields, hwalk', hyields, htrees⟩ :=
    hstart.exists_yields hprogress rfl (.refl _) halone
  obtain ⟨-, rfl⟩ := Prod.mk.inj (hwalk.symm.trans hwalk')
  refine ⟨yields, hyields, htrees, fun order horder => ?_⟩
  obtain ⟨v, yields', hwalk'', hyields', htrees'⟩ :=
    hstart.exists_yields hprogress rfl horder halone
  exact ⟨v, hwalk'', htrees'.trans (List.flatMap_congr fun x hx =>
    (hyields' x hx).unique hnodup (hyields x hx))⟩

/-! ## Two pages -/

section Examples

/-- The first context that the directives of an element hand on, with what is recorded by then. -/
def firstHanded? (settings : Settings) (path : List Enclosure) (entry : Context) (r : Recording) :
    Option (Context × Recording) :=
  match outcome (guarded settings path entry
      (record .prepare path entry (prepare settings entry))) r with
  | (.ok (some ctx), r₁) =>
    match outcome (runHandlers settings path { contexts := [ctx] } Handler.order) r₁ with
    | (.ok handed, r₂) => handed.contexts.head?.map (·, r₂)
    | _ => none
  | _ => none

theorem ComesTo.firstHanded {entry : Context} (hcomes : ComesTo settings libraries node s
      (.element (fuel + 1) path entry) r)
    (h : firstHanded? settings path entry r = some (c, r')) (hrenders : c.rendersChildren) :
    ComesTo settings libraries node s (.children fuel (⟨entry, r.state, c, false⟩ :: path) c) r' := by
  unfold firstHanded? at h
  split at h
  next ctx r₁ hprepared =>
    split at h
    next handed r₂ hhanded =>
      obtain ⟨first, hfirst, heq⟩ := Option.map_eq_some_iff.mp h
      obtain ⟨rfl, rfl⟩ := Prod.mk.inj heq
      obtain ⟨rest, hrest⟩ := List.head?_eq_some_iff.mp hfirst
      have hcontexts : handed.contexts = [] ++ first :: rest := hrest
      exact .within hcomes hprepared hhanded hcontexts rfl hrenders
    next => cases h
  next => cases h

/-- Renders a page up to the children of its root element and these in turn, and checks what is
recorded before and after. -/
def checkChildren (settings : Settings) (s : RenderState)
    (check : Nat → List Enclosure → Context → Recording → Recording → Bool) : Bool :=
  match outcome (Renderer.publishMacros settings []) s with
  | (.ok _, t) =>
    match bound settings t.document.size with
    | fuel + 1 =>
      match firstHanded? settings [] (.ofNode t.document 1 {}) ⟨t, []⟩ with
      | some (c, r) =>
        let path := [⟨.ofNode t.document 1 {}, t, c, false⟩]
        c.rendersChildren && match outcome (renderChildren (render settings fuel path) c) r with
        | (.ok _, r') => check fuel path c r r'
        | _ => false
      | none => false
    | 0 => false
  | _ => false

theorem exists_of_checkChildren
    {check : Nat → List Enclosure → Context → Recording → Recording → Bool}
    (h : checkChildren settings s check = true) :
    ∃ fuel path c r r', ComesTo settings [] 1 s (.children fuel path c) r ∧
      outcome (renderChildren (render settings fuel path) c) r = (.ok (), r') ∧
      check fuel path c r r' = true := by
  unfold checkChildren at h
  split at h
  next t hpublished =>
    split at h
    next fuel hfuel =>
      split at h
      next c r hfirst =>
        obtain ⟨hrenders, h⟩ := Bool.and_eq_true_iff.mp h
        split at h
        next r' hchildren =>
          have hwalk := @ComesTo.walk settings [] 1 s t hpublished
          rw [hfuel] at hwalk
          exact ⟨fuel, _, c, r, r', hwalk.firstHanded hfirst hrenders, hchildren, h⟩
        next => cases h
      next => cases h
    next => cases h
  next => cases h

/-- The bindings of a page without macros that is rendered against a list of one text. -/
def plainGlobals : Globals := { root := .list [.string "x"], bindings := [("macros", .map [])] }

def isPlain : Globals → Bool
  | ⟨.list [.string "x"], [("macros", .map [])]⟩ => true
  | _ => false

theorem eq_of_isPlain {globals : Globals} (h : isPlain globals) : globals = plainGlobals := by
  unfold isPlain at h
  split at h
  · rfl
  · cases h

/-- The bindings are the same before and after each step. -/
def isQuiet (r : Recording) : Bool :=
  r.steps.all fun step => isPlain step.before.globals && isPlain step.after.globals

theorem bindsNoGlobal_of_isQuiet (h : isQuiet r) : BindsNoGlobal r := by
  intro step hstep
  have hplain := List.all_eq_true.mp h step hstep
  rw [Bool.and_eq_true] at hplain
  rw [eq_of_isPlain hplain.1, eq_of_isPlain hplain.2]

/-- A page with a paragraph that is repeated, a text and an element that recovers from an error. -/
def repeatingPage : Document where
  nodes := #[
    { kind := .root, children := [1] },
    { kind := .element (.named "r"), parent := some 0, children := [2, 3, 4] },
    { kind := .element {
        name := .parse "p"
        attributes := [⟨.parse "tal:repeat", "i here"⟩, ⟨.parse "tal:content", "i"⟩] },
      parent := some 1 },
    { kind := .text "and", parent := some 1 },
    { kind := .element {
        name := .parse "b"
        attributes := [⟨.parse "tal:on-error", "string:none"⟩, ⟨.parse "tal:content", "missing"⟩] },
      parent := some 1 }]

theorem children_yield_independently_repeatingPage :
    let s := Renderer.start repeatingPage (.list [.string "x"]) {}
    Ready {} 1 s ∧ ∃ fuel path c r r', ComesTo {} [] 1 s (.children fuel path c) r ∧
      outcome (renderChildren (render {} fuel path) c) r = (.ok (), r') ∧ BindsNoGlobal r' ∧
      ∃ yields : NodeId → List Tree,
        (∀ x ∈ r.state.document.children c.node, Yields {} fuel path c r x (yields x)) ∧
        (r'.state.document.children c.node).map r'.state.document.tree =
          (r.state.document.children c.node).flatMap yields ∧
        ∀ order : List NodeId, order.Perm (r.state.document.childElements c.node) →
          ∃ t, outcome (order.forM (renderChild (render {} fuel path) c)) r = (.ok (), t) ∧
            (t.state.document.children c.node).map t.state.document.tree =
              (r.state.document.children c.node).flatMap yields := by
  intro s
  have hready : Ready {} 1 s := by
    refine ⟨by decide +kernel, rfl, by decide +kernel, by decide +kernel, rfl,
      Settings.isFaithful_of_builtin (fun _ => rfl) rfl nofun, .list ?_, nofun⟩
    simp [Value.AllMacros.string]
  have hcheck : checkChildren {} s (fun _ _ _ _ r' => isQuiet r') = true := by decide +kernel
  obtain ⟨fuel, path, c, r, r', hcomes, hwalk, hquiet⟩ := exists_of_checkChildren hcheck
  exact ⟨hready, fuel, path, c, r, r', hcomes, hwalk, bindsNoGlobal_of_isQuiet hquiet,
    children_yield_independently hready ExpressionCache.isFaithful_empty hcomes hwalk
      (bindsNoGlobal_of_isQuiet hquiet)⟩

/-- A page with an element that shows its child when it is a copy, and one that uses the macro `m`
unless it lies in a copy already. -/
def copyingPage : Document where
  nodes := #[
    { kind := .root, children := [1] },
    { kind := .element {
        name := .parse "r", attributes := [⟨.parse "tal:define", "k j | string:m; j string:z"⟩] },
      parent := some 0, children := [2, 4] },
    { kind := .element { name := .parse "a", attributes := [⟨.parse "tal:repeat", "i here"⟩] },
      parent := some 1, children := [3] },
    { kind := .element {
        name := .parse "b", attributes := [⟨.parse "tal:condition", "i | not:here"⟩] },
      parent := some 2 },
    { kind := .element {
        name := .parse "p"
        attributes := [⟨.parse "metal:use-macro", "options/?k | default"⟩] },
      parent := some 1 }]

/-- The host brings along a macro that is the page itself. -/
def copyingSettings : Settings := { options := [("m", .macroRef ⟨"m", root⟩)] }

/-- Rendered on its own, the last element comes to a tree of another size. -/
def lastDiffers (fuel : Nat) (path : List Enclosure) (c : Context) (r r' : Recording) : Bool :=
  match outcome (renderChild (render copyingSettings fuel path) c 4) r with
  | (.ok _, alone) =>
    let last := fun r : Recording => ((r.state.document.children c.node).map
      r.state.document.tree).getLast?.map Tree.size
    r.state.document.children c.node == [2, 4] && r.state.document.isElement 4 &&
      (alone.state.document.children c.node).length == 2 && last r' != last alone
  | _ => false

/-- What a macro from elsewhere copies of the page depends on how far its other elements have been
rendered. -/
theorem not_children_yield_independently_copyingPage :
    let s := Renderer.start copyingPage (.list [.string "x"]) {}
    copyingSettings.visitors = [] ∧
      ∃ fuel path c r r', ComesTo copyingSettings [] 1 s (.children fuel path c) r ∧
        outcome (renderChildren (render copyingSettings fuel path) c) r = (.ok (), r') ∧
        BindsNoGlobal r' ∧
        ¬ ∃ yields : NodeId → List Tree,
          (∀ x ∈ r.state.document.children c.node,
            Yields copyingSettings fuel path c r x (yields x)) ∧
          (r'.state.document.children c.node).map r'.state.document.tree =
            (r.state.document.children c.node).flatMap yields := by
  intro s
  have hcheck : checkChildren copyingSettings s (fun fuel path c r r' =>
      isQuiet r' && lastDiffers fuel path c r r') = true := by
    decide +kernel
  obtain ⟨fuel, path, c, r, r', hcomes, hwalk, hcheck⟩ := exists_of_checkChildren hcheck
  obtain ⟨hquiet, hdiffers⟩ := Bool.and_eq_true_iff.mp hcheck
  refine ⟨rfl, fuel, path, c, r, r', hcomes, hwalk, bindsNoGlobal_of_isQuiet hquiet, ?_⟩
  rintro ⟨yields, hyields, htrees⟩
  unfold lastDiffers at hdiffers
  split at hdiffers
  next alone hout =>
    simp only [Bool.and_eq_true, beq_iff_eq, bne_iff_ne] at hdiffers
    obtain ⟨⟨⟨hchildren, helement⟩, hlength⟩, hlast⟩ := hdiffers
    have hfour := hyields 4 (by simp [hchildren])
    unfold Yields at hfour
    rw [if_pos helement] at hfour
    obtain ⟨alone', before, nodes, after, hout', hsplit, hnodes, hfour⟩ := hfour
    obtain ⟨-, rfl⟩ := Prod.mk.inj (hout.symm.trans hout')
    obtain ⟨rfl, rfl⟩ : before = [2] ∧ after = [] := by
      rw [hchildren, ← List.singleton_append] at hsplit
      obtain ⟨hbefore, -, hafter⟩ := (List.append_cons_inj_of_notMem (by simp) (by simp)).mp hsplit
      exact ⟨hbefore.symm, hafter.symm⟩
    rw [hnodes, List.append_nil, List.singleton_append, List.length_cons, Nat.add_right_cancel_iff,
      List.length_eq_one_iff] at hlength
    obtain ⟨n, rfl⟩ := hlength
    rw [htrees, hchildren, hnodes] at hlast
    simp [hfour] at hlast
  next => cases hdiffers

end Examples

end Walk.Recorded

end PageTemplate
