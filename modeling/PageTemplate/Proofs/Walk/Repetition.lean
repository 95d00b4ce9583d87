import PageTemplate.Proofs.Walk.Independence
import PageTemplate.Proofs.Walk.Unrolling

/-! # A repetition is unrolled

Rendering an element that is repeated is rendering a copy of it for each item, one copy after the
other. Only a macro that is the page itself tells the difference, for it copies what it finds: by the
time the children of the first copy are rendered, all copies have gone through their directives.
-/

namespace PageTemplate

open Markup Document Stage

namespace Walk.Recorded

variable {settings : Settings} {fuel : Nat} {path : List Enclosure} {p : NodeId} {entry : Context}
  {r r' t u : Recording}

section

variable {libraries : List Document} {node : NodeId} {s : RenderState} {name : String}
  {items : List Value}

/-- Rendering a repeated element comes to its copies, which wait for the directives that follow. -/
theorem exists_copiesWait {stage : Stage} {R : NodeId → Prop} {level : Nat}
    (hentered : Entered stage R p level fuel path r entry)
    (hvisitors : stage.settings.visitors = []) (hplain : stage.settings.sourceComments = false)
    (hcache : r.state.cache.IsFaithful)
    (hrepeats : Repeat.Repeats stage.settings entry r.state name items) :
    ∃ copies t r₁ level', outcome (unrecorded (Repeat.handle stage.settings entry)) r =
        (.ok { contexts := copies }, t) ∧ t.state.globals = r.state.globals ∧
      Repeat.Unrolled stage.settings.vocabularies entry p r.state.document
        (Repeat.roundsOf name items) copies t.state.document ∧
      CopiesWait stage R p level' fuel ⟨path, entry, r.state⟩ copies t r₁ ∧
      outcome (render stage.settings (fuel + 1) path entry) r = outcome (do
        renderHanded stage.settings fuel path entry r.state
          (← runHandlers stage.settings path { contexts := copies } laterHandlers)) r₁ := by
  have hstanding := hentered.field.standing hentered.placed
  have hx := hentered.placed.parent_eq
  have hground : r.state.document.Grounded entry.node :=
    .of_parent hentered.field.region.linked hentered.field.region.rooted hx
  obtain ⟨-, hwritten, -⟩ := hentered.pending
  obtain ⟨copies, d', cache, hhandle, hunrolled⟩ := hrepeats.exists_copies hground hx
  let after : RenderState := { r.state with document := d', cache }
  obtain ⟨r₁, hstate, hreaches, hrender⟩ := exists_reaches_later fuel path p hvisitors hplain
    (hrepeats.idle hwritten) (s := after) hhandle rfl rfl
  have hready : Work.Ready stage p fuel R r (.fresh path entry) :=
    ⟨level, hentered.enough, hentered.placed, hentered.pending, fun head hhead =>
      hentered.level_eq ▸ hentered.lower head hhead⟩
  obtain ⟨hfield, hready'⟩ := hreaches.ready hentered.field hready
  obtain ⟨level', henough, hlow, -, hteam⟩ := hready'
  have hle : level' + 1 ≤ level + 1 := hentered.level_eq ▸ hlow
  have hcache' : after.cache.IsFaithful := by
    have hstep := isFaithful_of_genuine hvisitors _
      (.handle .repetition path entry r.state) hcache
    have hafter : outcome (Handler.repetition.handle stage.settings entry) r.state =
        (.ok { contexts := copies }, after) := hhandle
    rwa [taken, hafter] at hstep
  refine ⟨copies, { r with state := after }, r₁, level', ?_, rfl, hunrolled, ?_, hrender⟩
  · rw [outcome_unrecorded, hhandle]
  · refine ⟨hstate, hreaches.grows (Work.grows_next stage.settings fuel), hplain, hfield, hteam,
      henough, hlow, fun head hhead => ?_, fun c hc => ?_, hcache'⟩
    · exact Nat.lt_of_le_of_lt hle (hentered.level_eq ▸ hentered.lower head hhead)
    · obtain ⟨round, -, hcopy⟩ := exists_of_mem_right hunrolled.copies hc
      exact hrepeats.idle_copy hground hx hunrolled hcopy

/-- Repetition is unrolling: rendering a repeated element succeeds when rendering its copies one
after the other does, and leaves what they leave. -/
theorem repeat_unrolls (hready : Ready settings node s) (hcache : s.cache.IsFaithful)
    (hplain : settings.sourceComments = false)
    (hcomes : ComesTo settings libraries node s (.element (fuel + 1) path entry) r)
    (hrepeats : Repeat.Repeats settings entry r.state name items) :
    ∃ p copies t, r.state.document.parent entry.node = some p ∧
      outcome (unrecorded (Repeat.handle settings entry)) r = (.ok { contexts := copies }, t) ∧
      t.state.globals = r.state.globals ∧
      Repeat.Unrolled settings.vocabularies entry p r.state.document
        (Repeat.roundsOf name items) copies t.state.document ∧
      (∀ r', outcome (render settings (fuel + 1) path entry) r = (.ok (), r') → BindsNoGlobal r' →
        ∃ trees u, OneByOne settings (fuel + 1) path p copies t trees u ∧
          outcome (copies.forM (render settings (fuel + 1) path)) t = (.ok (), u) ∧
          Leaves p r entry.node r' trees.flatten) ∧
      ∀ u, outcome (copies.forM (render settings (fuel + 1) path)) t = (.ok (), u) →
        BindsNoGlobal u →
        ∃ r' trees, outcome (render settings (fuel + 1) path entry) r = (.ok (), r') ∧
          OneByOne settings (fuel + 1) path p copies t trees u ∧
          Leaves p r entry.node r' trees.flatten := by
  obtain ⟨stage, t₀, hopens⟩ := hready.begins.exists_opens libraries
  obtain ⟨R, p, level, hentered⟩ := Part.Fits.entered (hcomes.fits hopens hready)
  obtain rfl := hopens.settings_eq
  obtain ⟨copies, t, r₁, _, hhandle, hglobals, hunrolled, hwait, hrender⟩ :=
    exists_copiesWait hentered hready.visitors hplain (hcomes.isFaithful_cache hready hcache) hrepeats
  obtain ⟨front, back, hold, hnew⟩ := hunrolled.children_outer
  obtain ⟨htogether, hsingly⟩ := hwait.unrolls hready.visitors hnew
  rw [hrender]
  refine ⟨p, copies, t, hentered.placed.parent_eq, hhandle, hglobals, hunrolled,
    fun r' hrun hquiet => ?_, fun u hrun hquiet => ?_⟩
  · obtain ⟨trees, u, nodes, hone, hruns, hnodes, htrees⟩ := htogether r' hrun hquiet
    exact ⟨trees, u, hone, hruns, front, nodes, back, hold, hnodes, htrees⟩
  · obtain ⟨r', hrun', trees, u', nodes, hone, hruns, hnodes, htrees⟩ := hsingly u hrun hquiet
    obtain rfl : u' = u := (Prod.mk.inj (hruns.symm.trans hrun)).2
    exact ⟨r', trees, hrun', hone, front, nodes, back, hold, hnodes, htrees⟩

end

/-! ## Two pages -/

section Examples

/-- The items of the pages: a text, and a map with an entry `t`. -/
def rowSettings : Settings where
  options := [("m", .macroRef ⟨"m", root⟩),
    ("l", .list [.string "x", .map [("t", .string "y")]])]

/-- Without the macro that the host brings along. -/
def plainRowSettings : Settings where
  options := [("l", .list [.string "x", .map [("t", .string "y")]])]

/-- A page whose root element is repeated. The first copy recovers from an error. -/
def rowsPage : Document where
  nodes := #[
    { kind := .root, children := [1] },
    { kind := .element {
        name := .parse "a"
        attributes := [⟨.parse "tal:repeat", "i options/l"⟩,
          ⟨.parse "tal:on-error", "string:none"⟩, ⟨.parse "tal:content", "i/t"⟩] },
      parent := some 0 }]

/-- The element has one repetition, which yields items, and none of the other directives. -/
def isRepeated (settings : Settings) (entry : Context) (s : RenderState) : Bool :=
  ((s.document.attributes entry.node).filter
      (s.document.attributeMatches entry.node · settings.vocabularies.repetition)).length == 1 &&
    [settings.vocabularies.useMacro, settings.vocabularies.define,
      settings.vocabularies.condition].all (!s.document.hasAttribute entry.node ·) &&
    (Repeat.items? settings entry s).isSome

theorem exists_repeats_of_isRepeated {s : RenderState} (h : isRepeated settings entry s = true) :
    ∃ name items, Repeat.Repeats settings entry s name items := by
  unfold isRepeated at h
  rw [Bool.and_eq_true, Bool.and_eq_true, beq_iff_eq, List.all_eq_true] at h
  obtain ⟨⟨honce, halone⟩, hitems⟩ := h
  obtain ⟨⟨name, items⟩, hitems⟩ := Option.isSome_iff_exists.mp hitems
  exact ⟨name, items, honce, fun spec hspec => by simpa using halone spec hspec, hitems⟩

/-- Renders the root element of a page, and checks that it is repeated and what is recorded. -/
def checkRepeated (settings : Settings) (s : RenderState) (check : Recording → Bool) : Bool :=
  match outcome (Renderer.publishMacros settings []) s with
  | (.ok _, t) =>
    match bound settings t.document.size with
    | fuel + 1 =>
      let entry := Context.ofNode t.document 1 {}
      isRepeated settings entry t &&
        match outcome (render settings (fuel + 1) [] entry) ⟨t, []⟩ with
        | (.ok _, r') => check r'
        | _ => false
    | 0 => false
  | _ => false

theorem exists_of_checkRepeated {s : RenderState} {check : Recording → Bool}
    (h : checkRepeated settings s check = true) : ∃ fuel path entry r r' name items,
      ComesTo settings [] 1 s (.element (fuel + 1) path entry) r ∧
      Repeat.Repeats settings entry r.state name items ∧
      outcome (render settings (fuel + 1) path entry) r = (.ok (), r') ∧ check r' = true := by
  unfold checkRepeated at h
  split at h
  next t hpublished =>
    split at h
    next fuel hfuel =>
      obtain ⟨hrepeated, h⟩ := Bool.and_eq_true_iff.mp h
      obtain ⟨name, items, hrepeats⟩ := exists_repeats_of_isRepeated hrepeated
      have hwalk := @ComesTo.walk settings [] 1 s t hpublished
      rw [hfuel] at hwalk
      split at h
      next r' hrun => exact ⟨fuel, [], _, _, r', name, items, hwalk, hrepeats, hrun, h⟩
      next => cases h
    next => cases h
  next => cases h

theorem repeat_unrolls_rowsPage :
    let s := Renderer.start rowsPage (.list [.string "x"]) {}
    Ready plainRowSettings 1 s ∧ ∃ fuel path entry r r' name items,
      ComesTo plainRowSettings [] 1 s (.element (fuel + 1) path entry) r ∧
      Repeat.Repeats plainRowSettings entry r.state name items ∧
      outcome (render plainRowSettings (fuel + 1) path entry) r = (.ok (), r') ∧
      BindsNoGlobal r' ∧
      ∃ p copies t trees u, OneByOne plainRowSettings (fuel + 1) path p copies t trees u ∧
        Leaves p r entry.node r' trees.flatten := by
  intro s
  have hready : Ready plainRowSettings 1 s := by
    refine ⟨by decide +kernel, rfl, by decide +kernel, by decide +kernel, rfl,
      Settings.isFaithful_of_builtin (fun _ => rfl) rfl ?_, .list ?_, nofun⟩
    · intro option hoption
      obtain rfl := List.mem_singleton.mp hoption
      refine .list fun item hitem => ?_
      rcases List.mem_pair.mp hitem with rfl | rfl
      · exact .string "x"
      · exact .map fun value hvalue => List.mem_singleton.mp hvalue ▸ .string "y"
    · simp [Value.AllMacros.string]
  have hcheck : checkRepeated plainRowSettings s isQuiet = true := by decide +kernel
  obtain ⟨fuel, path, entry, r, r', name, items, hcomes, hrepeats, hrun, hquiet⟩ :=
    exists_of_checkRepeated hcheck
  have hquiet := bindsNoGlobal_of_isQuiet hquiet
  obtain ⟨p, copies, t, -, -, -, -, htogether, -⟩ :=
    repeat_unrolls hready ExpressionCache.isFaithful_empty rfl hcomes hrepeats
  obtain ⟨trees, u, hone, -, hleaves⟩ := htogether r' hrun hquiet
  exact ⟨hready, fuel, path, entry, r, r', name, items, hcomes, hrepeats, hrun, hquiet, p, copies,
    t, trees, u, hone, hleaves⟩

/-- A page with an element that is repeated. Its child uses the macro `m`, unless it lies in a copy
already. -/
def gatheringPage : Document where
  nodes := #[
    { kind := .root, children := [1] },
    { kind := .element {
        name := .parse "r", attributes := [⟨.parse "tal:define", "k j | string:m; j string:z"⟩] },
      parent := some 0, children := [2] },
    { kind := .element {
        name := .parse "a"
        attributes := [⟨.parse "tal:repeat", "i options/l"⟩,
          ⟨.parse "tal:content", "i/t | default"⟩] },
      parent := some 1, children := [3] },
    { kind := .element {
        name := .parse "p"
        attributes := [⟨.parse "metal:use-macro", "options/?k | default"⟩] },
      parent := some 2, children := [4] },
    { kind := .element { name := .parse "b" }, parent := some 3 }]

/-- The size of the first tree below a node. -/
def firstSize? (p : NodeId) (r : Recording) : Option Nat :=
  ((r.state.document.children p).map r.state.document.tree).head?.map Tree.size

/-- The only child of an element is repeated, and together with the second copy the first one comes
to a tree of another size than on its own. -/
def firstDiffers (fuel : Nat) (path : List Enclosure) (c : Context) (r : Recording) : Bool :=
  let entry := c.child r.state.document 2
  r.state.document.children c.node == [2] && r.state.document.isElement 2 &&
    r.state.document.parent 2 == some c.node && isRepeated rowSettings entry r.state &&
    match outcome (unrecorded (Repeat.handle rowSettings entry)) r with
    | (.ok ⟨[first, second], []⟩, t) =>
      match outcome (render rowSettings fuel path entry) r,
        outcome (render rowSettings fuel path first) t with
      | (.ok _, r'), (.ok _, t') =>
        isQuiet r' && t.state.document.children c.node == [first.node, second.node] &&
          t'.state.document.children c.node == [first.node, second.node] &&
          first.node != second.node && firstSize? c.node r' != firstSize? c.node t'
      | _, _ => false
    | _ => false

theorem Leaves.children_eq_of_singleton {x : NodeId} {trees : List Tree} (h : Leaves p r x r' trees)
    (hchildren : r.state.document.children p = [x]) :
    (r'.state.document.children p).map r'.state.document.tree = trees := by
  obtain ⟨before, nodes, after, hsplit, hnodes, rfl⟩ := h
  obtain ⟨rfl, rfl⟩ : before = [] ∧ after = [] := by
    rw [hchildren] at hsplit
    cases before <;> simp_all
  rw [hnodes, List.nil_append, List.append_nil]

/-- What the first copy leaves when it is rendered on its own. -/
theorem OneByOne.head_eq {first second : Context} {rest : List Context} {trees : List (List Tree)}
    (h : OneByOne settings fuel path p (first :: rest) t trees u) (hne : first.node ≠ second.node)
    (hrun : outcome (render settings fuel path first) t = (.ok (), r))
    (hbefore : t.state.document.children p = [first.node, second.node])
    (hafter : r.state.document.children p = [first.node, second.node]) :
    trees.flatten.head? = some (r.state.document.tree first.node) := by
  cases h with
  | cons hrun' hleaves hrest =>
      obtain ⟨-, rfl⟩ := Prod.mk.inj (hrun.symm.trans hrun')
      obtain ⟨before, nodes, after, hsplit, hnodes, rfl⟩ := hleaves
      obtain ⟨rfl, rfl⟩ : before = [] ∧ after = [second.node] := by
        rw [hbefore, ← List.nil_append [_, _]] at hsplit
        obtain ⟨hnil, -, hrest⟩ :=
          (List.append_cons_inj_of_notMem (by simp) (by simpa using hne)).mp hsplit
        exact ⟨hnil.symm, hrest.symm⟩
      obtain rfl : nodes = [first.node] := by
        have hboth : nodes ++ [second.node] = [first.node] ++ [second.node] := by
          rw [← List.nil_append nodes, ← hnodes, hafter]
          rfl
        exact List.append_cancel_right hboth
      rfl

/-- A macro from elsewhere that is the page itself tells the copies together from the copies one
after the other. -/
theorem not_repeat_unrolls_gatheringPage :
    let s := Renderer.start gatheringPage (.list [.string "x"]) {}
    rowSettings.visitors = [] ∧ rowSettings.sourceComments = false ∧
      ∃ fuel path entry p r r' name items,
        ComesTo rowSettings [] 1 s (.element (fuel + 1) path entry) r ∧
        Repeat.Repeats rowSettings entry r.state name items ∧
        r.state.document.parent entry.node = some p ∧
        outcome (render rowSettings (fuel + 1) path entry) r = (.ok (), r') ∧ BindsNoGlobal r' ∧
        ¬ ∃ copies t trees u,
          outcome (unrecorded (Repeat.handle rowSettings entry)) r =
            (.ok { contexts := copies }, t) ∧
          OneByOne rowSettings (fuel + 1) path p copies t trees u ∧
          Leaves p r entry.node r' trees.flatten := by
  intro s
  have hcheck : checkChildren rowSettings s (fun fuel path c r _ => firstDiffers fuel path c r) =
      true := by
    decide +kernel
  obtain ⟨fuel, path, c, r, _, hcomes, -, hcheck⟩ := exists_of_checkChildren hcheck
  unfold firstDiffers at hcheck
  simp only [Bool.and_eq_true, beq_iff_eq] at hcheck
  obtain ⟨⟨⟨⟨hchildren, helement⟩, hparent⟩, hrepeated⟩, hcheck⟩ := hcheck
  obtain ⟨name, items, hrepeats⟩ := exists_repeats_of_isRepeated hrepeated
  have hchildElements : r.state.document.childElements c.node = [] ++ 2 :: [] := by
    simp [childElements, hchildren, helement]
  have hcomes' := ComesTo.child hcomes hchildElements rfl
  split at hcheck
  next first second t hhandle =>
    split at hcheck
    next _ r' _ t' hrun hfirst =>
      simp only [Bool.and_eq_true, beq_iff_eq, bne_iff_ne] at hcheck
      obtain ⟨⟨⟨⟨hquiet, hbefore⟩, hafter⟩, hne⟩, hdiffers⟩ := hcheck
      cases fuel with
      | zero => cases hrun
      | succ fuel =>
          refine ⟨rfl, rfl, fuel, path, _, c.node, r, r', name, items, hcomes', hrepeats, hparent,
            hrun, bindsNoGlobal_of_isQuiet hquiet, ?_⟩
          rintro ⟨copies, t₀, trees, u, hhandle', hone, hleaves⟩
          obtain ⟨hcopies, rfl⟩ := Prod.mk.inj (hhandle.symm.trans hhandle')
          cases hcopies
          have hhead := hone.head_eq hne hfirst hbefore hafter
          refine hdiffers ?_
          rw [firstSize?, Leaves.children_eq_of_singleton hleaves hchildren, hhead, firstSize?, hafter]
          rfl
    next => cases hcheck
  next => cases hcheck

end Examples

end Walk.Recorded

end PageTemplate
