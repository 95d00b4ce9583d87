import PageTemplate.Proofs.Render.Steps
import PageTemplate.Proofs.Markup.FragmentReading
import PageTemplate.Render.Walk

/-! # What directives do

Every directive changes only the part of the document that belongs to its element. The first four
take an element that is good markup of the template with everything below it; after the content
directive the element itself no longer has to be, but its children are as long as they are to be
rendered. Nothing that a value became is handed on or exposed.
-/

namespace PageTemplate

open Markup Document Stage

variable {stage : Stage} {p : NodeId} {s : RenderState} {ctx : Context} {ok : NodeId → Prop}
  {level : Nat}

/-- A directive at an element does what it does within the element's region and hands contexts
on. -/
def Carries (stage : Stage) (p : NodeId) (s : RenderState) (ctx : Context)
    (next : Document → Context → Prop) (ok : NodeId → Prop) (level : Nat)
    (step : Rendering Outcome) : Prop :=
  Ensures step s
    (fun outcome t => stage.Turn (s.document.own ctx.node) p s t ∧
      stage.Hands next ok level (s.document.own ctx.node) p t.document outcome)
    (stage.Fails (s.document.own ctx.node) p ctx s)

/-! ## Definitions -/

namespace Define

theorem ensures_defineItem {t : RenderState}
    (hglobals : t.globals.AllMacros stage.Known)
    (hadmits : stage.Admits ctx) (item : String) :
    Ensures (defineItem stage.settings ctx item) t
      (fun c u => (∃ scope, c = { ctx with scope }) ∧ stage.Admits c ∧
        u.document = t.document ∧ u.globals.AllMacros stage.Known)
      (fun stop u => stop.SparesTree ∧ u.document = t.document ∧
        u.globals.AllMacros stage.Known) := by
  have hfailed : ∀ error : RenderError, ¬ error.IsTree → (Stop.failed error).SparesTree ∧
      t.document = t.document ∧ t.globals.AllMacros stage.Known :=
    fun error herror => ⟨herror, rfl, hglobals⟩
  unfold defineItem
  refine Ensures.bind (ctx.ensures_readDirective _ _ _ (fun definition _ => ?_) hfailed)
  refine Ensures.bind (ctx.ensures_readDirective _ _ _ (fun target _ => ?_) hfailed)
  refine Ensures.bind (ctx.ensures_evaluateDirective hadmits hglobals _ _
    (fun value cache hvalue => ?_) fun error cache => hfailed error)
  split
  · exact Ensures.pure ⟨⟨ctx.scope, rfl⟩, hadmits, rfl, hglobals⟩
  · split
    · refine Ensures.pure ⟨⟨_, rfl⟩,
        ⟨hadmits.scope.bind hvalue, hadmits.written, hadmits.depth⟩, rfl, hglobals⟩
    · refine Ensures.bind (Rendering.ensures_bindGlobal (Ensures.pure ?_))
      exact ⟨⟨ctx.scope, rfl⟩, hadmits, rfl, hglobals.bind hvalue⟩

/-- The definitions of a list change the scope and the global bindings. -/
theorem ensures_defineItems (hglobals : s.globals.AllMacros stage.Known)
    (hadmits : stage.Admits ctx) (items : List String) :
    Ensures (items.foldlM (defineItem stage.settings) ctx) s
      (fun c u => (∃ scope, c = { ctx with scope }) ∧ stage.Admits c ∧
        u.document = s.document ∧ u.globals.AllMacros stage.Known)
      (fun stop u => stop.SparesTree ∧ u.document = s.document ∧
        u.globals.AllMacros stage.Known) := by
  refine Ensures.foldlM (fun _ c u => (∃ scope, c = { ctx with scope }) ∧ stage.Admits c ∧
    RenderState.document u = s.document ∧
      u.globals.AllMacros stage.Known) ?_ ?_
  · exact ⟨⟨ctx.scope, rfl⟩, hadmits, rfl, hglobals⟩
  · rintro item _ c u ⟨hc, hadmits, hdocument, hglobals⟩
    refine (ensures_defineItem hglobals hadmits item).mono ?_ ?_
    · rintro c' w ⟨⟨scope', rfl⟩, hadmits', hdocument', hglobals'⟩
      obtain ⟨scope, rfl⟩ := hc
      exact ⟨⟨scope', rfl⟩, hadmits', hdocument'.trans hdocument, hglobals'⟩
    · rintro stop w ⟨hstop, hdocument', hglobals'⟩
      exact ⟨hstop, hdocument'.trans hdocument, hglobals'⟩

theorem carries_handle (hstanding : stage.Standing p s ctx)
    (hpending : stage.Pending ok (level + 1) s.document ctx) :
    Carries stage p s ctx (stage.Pending ok (level + 1)) ok level (handle stage.settings ctx) := by
  have hsame : ∀ t : RenderState, t.document = s.document →
      t.globals.AllMacros stage.Known →
      stage.Turn (s.document.own ctx.node) p s t := by
    intro t hdocument hglobals
    refine ⟨?_, hglobals⟩
    rw [hdocument]
    exact .refl hstanding.linked
  unfold handle
  refine Ensures.bind (Rendering.ensures_document ?_)
  split
  · exact Ensures.pure ⟨hstanding.turn, hands_keep hstanding.placed hpending⟩
  next value _ =>
    refine Ensures.bind ((ensures_defineItems hstanding.globals hstanding.admits _).mono ?_ ?_)
    · rintro c t ⟨⟨scope, rfl⟩, hadmits, hdocument, hglobals⟩
      refine Ensures.pure ⟨hsame t hdocument hglobals, ?_⟩
      rw [hdocument]
      exact hands_keep ⟨hadmits, hstanding.placed.mem, hstanding.parent_eq, hstanding.element⟩
        hpending
    · exact fun stop t h => ⟨h.1.arisesAt, hsame t h.2.1 h.2.2, by rw [h.2.1]⟩

end Define

/-! ## Conditions -/

theorem Condition.carries_handle (hstanding : stage.Standing p s ctx)
    (hpending : stage.Pending ok (level + 1) s.document ctx) :
    Carries stage p s ctx (stage.Pending ok (level + 1)) ok level
      (handle stage.settings ctx) := by
  unfold handle
  refine Ensures.bind (Rendering.ensures_document ?_)
  split
  · exact Ensures.pure ⟨hstanding.turn, hands_keep hstanding.placed hpending⟩
  · refine Ensures.bind (ctx.ensures_evaluateDirective hstanding.admits hstanding.globals _ _
      (fun value cache _ => ?_) hstanding.fails)
    have hturn := hstanding.turn.cached cache
    split
    · exact Ensures.pure ⟨hturn, hands_keep hstanding.placed hpending⟩
    · refine Ensures.bind (Rendering.ensures_changeDocument (Ensures.pure ?_))
      have hwithin := hstanding.region.detach_within (own_self s.document ctx.node)
      exact ⟨hturn.change hwithin, hands_removed⟩

/-! ## Repetition -/

namespace Repeat

/-- Copies of the element stand before it, made for the items so far. -/
structure Copies (stage : Stage) (ok : NodeId → Prop) (level : Nat) (p : NodeId) (s : RenderState)
    (ctx : Context) (copies : List Context) (t : RenderState) : Prop where
  turn : stage.Turn (s.document.own ctx.node) p s t
  original : t.document.parent ctx.node = some p ∧ stage.Pending ok level t.document ctx
  made : ∀ c ∈ copies, stage.Placed (s.document.own ctx.node) p t.document c ∧
    stage.Pending ok level t.document c ∧ c.node ≠ ctx.node
  nodup : (copies.map (·.node)).Nodup

/-- The document after one more copy was made. -/
theorem brought_copy {R : NodeId → Prop} {d d₁ d₂ d₃ : Document} {copy : NodeId} {k : Nat}
    (hregion : Region R p d) (hcopy : Copied (StemsOn stage.origin ok) k d d₁ copy)
    (hbrought : Brought R p copy d₁ d₂) (hretouched : Retouched stage.origin copy d₂ d₃) :
    Within R p d d₃ ∧
      (∀ z, z < d.size → d₃.parent z = d.parent z) ∧ d₃.parent copy = some p ∧
      (∀ z, z < d.size → d₃.attributes z = d.attributes z) ∧
      (∀ z h, R z → z < d.size → Throughout (StemsOn stage.origin ok) d h z →
        Throughout (StemsOn stage.origin ok) d₃ h z) ∧
      Throughout (StemsOn stage.origin ok) d₃ k copy := by
  have hgrown := hregion.extends_within hcopy.grown
  have hregion₁ := hregion.within hgrown
  have hcopyR := hregion.fresh copy hcopy.new
  have hregion₂ := hregion₁.within hbrought.toWithin
  refine ⟨hgrown.trans (hbrought.toWithin.trans (hretouched.within hregion₂ hcopyR)),
    fun z hz => ?_, ?_, fun z hz => ?_, fun z h hRz hz hgood => ?_, ?_⟩
  · have hne : z ≠ copy := Nat.ne_of_lt (Nat.lt_of_lt_of_le hz hcopy.new)
    rw [hretouched.parent_eq, hbrought.parents, if_neg hne,
      hcopy.grown.parent_eq (Nat.not_le_of_lt hz)]
  · rw [hretouched.parent_eq, hbrought.parents, if_pos rfl]
  · have hne : z ≠ copy := Nat.ne_of_lt (Nat.lt_of_lt_of_le hz hcopy.new)
    rw [attributes_congr (hretouched.confined.kind_eq hne),
      attributes_congr (hbrought.toGathered.kind_eq z),
      attributes_congr (hcopy.grown.kind_eq (Nat.not_le_of_lt hz))]
  · have hgood₁ := hcopy.grown.throughout_old hregion.linked hz hgood
    exact hretouched.throughout (hbrought.toGathered.throughout
      (fun hback => hregion₁.not_above hback hRz) hgood₁)
  · exact hretouched.throughout (hbrought.toGathered.throughout
      (fun hback => hregion₁.not_above hback hcopyR) hcopy.throughout)

theorem copies_copyFor {copies : List Context} {t : RenderState}
    (hstanding : stage.Standing p s ctx) (hfresh : ∀ n, s.document.size ≤ n → ok n)
    (h : Copies stage ok level p s ctx copies t) (name : String) (count : Nat) {item : Value}
    (hitem : item.AllMacros stage.Known) (index : Nat) :
    Ensures (copyFor stage.settings ctx name count item index) t
      (fun c u => Copies stage ok level p s ctx (copies ++ [c]) u)
      (stage.Fails (s.document.own ctx.node) p ctx s) := by
  have hregion := hstanding.region.within h.turn.within
  have hR := own_self s.document ctx.node
  obtain ⟨hparent, hrenders, hwritten, k, hgood, hlevel⟩ := h.original
  have hlt := (hregion.linked.lt_of_parent hparent).2
  have hcopy : Copied (StemsOn stage.origin ok) k t.document (t.document.deepCopy ctx.node).1
      (t.document.deepCopy ctx.node).2 :=
    hgood.copied hregion.linked fun _ kind hkind new hnew =>
      ⟨hfresh new (Nat.le_trans h.turn.within.size_le hnew), hkind.2⟩
  have helement : (t.document.deepCopy ctx.node).1.isElement (t.document.deepCopy ctx.node).2 =
      true :=
    (isElement_deepCopy _ _).trans (h.turn.within.elements _ hstanding.element)
  unfold copyFor
  refine Ensures.bind (Rendering.ensures_createIn ?_)
  dsimp only
  -- From here on only what `hcopy` and `helement` say of the copy matters.
  generalize (t.document.deepCopy ctx.node).2 = copy at hcopy helement ⊢
  generalize (t.document.deepCopy ctx.node).1 = d₁ at hcopy helement ⊢
  have hne : copy ≠ ctx.node := Nat.ne_of_gt (Nat.lt_of_lt_of_le hlt hcopy.new)
  have hparent₁ : d₁.parent ctx.node = some p := by
    rw [hcopy.grown.parent_eq (Nat.not_le_of_lt hlt), hparent]
  have hinsert := ((hregion.within (hregion.extends_within hcopy.grown)).brought_beside hparent₁
    (hregion.fresh copy hcopy.new) hcopy.lt hne).1
  refine Ensures.bind (Rendering.ensures_edit_ok hinsert fun _ d₂ hbrought => ?_)
  refine Ensures.bind (Rendering.ensures_changeDocument ?_)
  refine Ensures.bind (Rendering.ensures_document (Ensures.pure ?_))
  dsimp only
  have hretouched : Retouched stage.origin copy d₂ _ :=
    retouched_removeAttributeBySpec hbrought.linked copy stage.settings.vocabularies.repetition
  generalize (d₂.removeAttributeBySpec copy stage.settings.vocabularies.repetition).1 = d₃
    at hretouched ⊢
  obtain ⟨hwithin, hparents, hnewParent, hattributes, hold, hnew⟩ :=
    brought_copy hregion hcopy hbrought hretouched
  have hscope := (hstanding.admits.scope.sibling).bindRepetition (r := { name, index, count, item })
    hitem
  refine ⟨h.turn.trans ⟨hwithin, h.turn.globals⟩, ⟨?_, hrenders,
    hwritten.trans (hattributes _ hlt).symm, k, hold _ _ hR hlt hgood, hlevel⟩,
    fun c hc => ?_, ?_⟩
  · rw [hparents _ hlt, hparent]
  · rcases List.mem_append.mp hc with hc | hc
    · obtain ⟨hplaced, ⟨hrenders', hwritten', k', hgood', hlevel'⟩, hnode⟩ := h.made c hc
      have hclt := (hregion.linked.lt_of_parent hplaced.parent_eq).2
      exact ⟨⟨hplaced.admits, hplaced.mem, (hparents _ hclt).trans hplaced.parent_eq,
        hwithin.elements _ hplaced.element⟩, ⟨hrenders', hwritten'.trans (hattributes _ hclt).symm,
        k', hold _ _ hplaced.mem hclt hgood', hlevel'⟩, hnode⟩
    · obtain rfl := List.mem_singleton.mp hc
      exact ⟨⟨⟨hscope, hnew.self.2.attributes, hstanding.admits.depth⟩,
        hregion.fresh copy hcopy.new, hnewParent, hretouched.confined.elements _
          (hbrought.elements _ helement)⟩, ⟨rfl, rfl, k, hnew, hlevel⟩, hne⟩
  -- The new copy is not among the earlier ones, for these are older.
  · rw [List.map_append, List.nodup_append]
    refine ⟨h.nodup, List.nodup_singleton _, ?_⟩
    rintro n hn m hm rfl
    obtain ⟨c, hc, rfl⟩ := List.mem_map.mp hn
    have hclt := (hregion.linked.lt_of_parent (h.made c hc).1.parent_eq).2
    have hcopy' : c.node = copy := List.mem_singleton.mp hm
    exact absurd hclt (Nat.not_lt_of_le (hcopy' ▸ hcopy.new))

/-- When the element is taken out, its copies stay. -/
theorem hands_copies {copies : List Context} {t : RenderState} (hstanding : stage.Standing p s ctx)
    (h : Copies stage ok (level + 1) p s ctx copies t) :
    stage.Turn (s.document.own ctx.node) p s
        { t with document := t.document.detach ctx.node } ∧
      stage.Hands (stage.Pending ok (level + 1)) ok level (s.document.own ctx.node) p
        (t.document.detach ctx.node) { contexts := copies } := by
  have hregion := hstanding.region.within h.turn.within
  have hdetached := hregion.detached (own_self s.document ctx.node)
  refine ⟨h.turn.change hdetached.toWithin, fun c hc => ?_, by simp, by simpa using h.nodup⟩
  obtain ⟨hplaced, ⟨hrenders, hwritten, k, hgood, hlevel⟩, hne⟩ := h.made c hc
  refine ⟨⟨hplaced.admits, hplaced.mem, ?_, hdetached.elements _ hplaced.element⟩, hrenders,
    hwritten.trans (attributes_congr (hdetached.toGathered.kind_eq _)).symm, k, ?_, hlevel⟩
  · rw [hdetached.parents, if_neg hne, if_neg List.not_mem_nil, hplaced.parent_eq]
  · exact hdetached.toGathered.throughout (fun hback => hregion.not_above hback hplaced.mem) hgood

theorem carries_handle (hstanding : stage.Standing p s ctx)
    (hpending : stage.Pending ok (level + 1) s.document ctx)
    (hfresh : ∀ n, s.document.size ≤ n → ok n) :
    Carries stage p s ctx (stage.Pending ok (level + 1)) ok level (handle stage.settings ctx) := by
  unfold handle
  refine Ensures.bind (Rendering.ensures_document ?_)
  split
  · exact Ensures.pure ⟨hstanding.turn, hands_keep hstanding.placed hpending⟩
  refine Ensures.bind (ctx.ensures_readDirective _ _ _ (fun read hread => ?_) fun error =>
    hstanding.fails error s.cache)
  refine Ensures.bind (ctx.ensures_evaluateDirective hstanding.admits hstanding.globals _ _
    (fun value cache hvalue => ?_) hstanding.fails)
  have hturn := hstanding.turn.cached cache
  split
  · exact Ensures.pure ⟨hturn, hands_keep hstanding.placed hpending⟩
  split
  · exact Ensures.bind (Rendering.ensures_document (Rendering.ensures_fail
      (hstanding.fails _ cache id)))
  next items hitems =>
    have hfaithful := hvalue.items hitems
    refine Ensures.bind ((Ensures.mapM [] (fun rest copies t =>
      (∀ entry ∈ rest, entry.1.AllMacros stage.Known) ∧
        Copies stage ok (level + 1) p s ctx copies t) ?_ ?_).mono ?_ fun _ _ => id)
    · refine ⟨fun entry hentry => hfaithful _ (List.fst_mem_of_mem_zipIdx hentry), hturn,
        ⟨hstanding.parent_eq, hpending⟩, by simp, by simp⟩
    · rintro ⟨item, index⟩ rest copies t ⟨hrest, hcopies⟩
      obtain ⟨hitem, hrest⟩ := List.forall_mem_cons.mp hrest
      exact (copies_copyFor hstanding hfresh hcopies _ _ hitem index).mono
        (fun _ _ h => ⟨hrest, h⟩) fun _ _ => id
    · rintro copies t ⟨-, hcopies⟩
      exact Ensures.bind (Rendering.ensures_changeDocument (Ensures.pure
        (hands_copies hstanding hcopies)))

end Repeat

/-! ## Elements that lose their tags -/

/-- The children of an element that has lost its tag are exposed as they were below it. -/
theorem hands_exposeChildren {next : Document → Context → Prop} {d : Document}
    (hstanding : stage.Standing p s ctx) (hopen : stage.Open ok level s.document ctx)
    (hrenders : ctx.rendersChildren = true)
    (hreplaced : Replaced (s.document.own ctx.node) p ctx.node (s.document.children ctx.node)
      s.document d) :
    stage.Hands next ok level (s.document.own ctx.node) p d
      { exposed := exposeChildren d ctx (s.document.children ctx.node) } := by
  have hregion := hstanding.region
  refine ⟨by simp, fun c hc => ?_, ?_⟩
  · obtain ⟨n, hn, rfl⟩ := List.mem_map.mp hc
    obtain ⟨hchild, helement⟩ := List.mem_filter.mp hn
    have hR := hregion.closed _ n (own_self _ _) hchild
    have hne : n ≠ ctx.node := by
      rintro rfl
      have hself := (hregion.linked.parent_eq hchild).symm.trans hstanding.parent_eq
      exact hregion.ne_outer hR (Option.some.inj hself)
    obtain ⟨hadmits, hpending⟩ := hopen.child hrenders hstanding.admits hchild fun m hm =>
      ⟨hreplaced.children_subset m (hregion.ne_outer (hregion.below hR hm)), hreplaced.kind_eq m⟩
    refine ⟨⟨hadmits, hR, ?_, helement⟩, hpending⟩
    show d.parent n = some p
    rw [hreplaced.parents, if_neg hne, if_pos hchild]
  · have hnodes : (exposeChildren d ctx (s.document.children ctx.node)).map Context.node =
        (s.document.children ctx.node).filter (d.isElement ·) := by
      unfold exposeChildren
      rw [List.map_map]
      exact List.map_id _
    show ([] ++ (exposeChildren d ctx (s.document.children ctx.node)).map Context.node).Nodup
    rw [List.nil_append, hnodes]
    exact (hstanding.linked.nodup_children _).filter _

namespace OmitTag

theorem carries_handle (hstanding : stage.Standing p s ctx)
    (hopen : stage.Open ok level s.document ctx) :
    Carries stage p s ctx (stage.Open ok level) ok level (handle stage.settings ctx) := by
  have homitted := hstanding.region.omitted (own_self _ _) hstanding.parent_eq
  have homit : ∀ cache, Ensures (Rendering.edit (Document.omitTag ctx.node)) { s with cache }
      (fun promoted t => promoted = s.document.children ctx.node ∧
        stage.Turn (s.document.own ctx.node) p s t ∧
        Replaced (s.document.own ctx.node) p ctx.node (s.document.children ctx.node)
          s.document t.document) (stage.Fails (s.document.own ctx.node) p ctx s) := fun cache =>
    Rendering.ensures_edit_ok homitted fun promoted d h =>
      ⟨h.1, (hstanding.turn.cached cache).change h.2.toWithin, h.2⟩
  have hstrip : ∀ cache, Ensures (do
      let promoted ← Rendering.edit (Document.omitTag ctx.node)
      let d ← Rendering.document
      return { exposed := if ctx.rendersChildren then exposeChildren d ctx promoted else [] })
      { s with cache }
      (fun outcome t => stage.Turn (s.document.own ctx.node) p s t ∧
        stage.Hands (stage.Open ok level) ok level (s.document.own ctx.node) p t.document outcome)
      (stage.Fails (s.document.own ctx.node) p ctx s) := by
    intro cache
    refine Ensures.bind ((homit cache).mono ?_ fun _ _ => id)
    rintro _ t ⟨rfl, hturn, hreplaced⟩
    refine Ensures.bind (Rendering.ensures_document (Ensures.pure ⟨hturn, ?_⟩))
    cases hrenders : ctx.rendersChildren with
    | true => exact hands_exposeChildren hstanding hopen hrenders hreplaced
    | false => exact hands_removed
  unfold handle
  refine Ensures.bind (Rendering.ensures_document ?_)
  split
  · exact Ensures.pure ⟨hstanding.turn, hands_keep hstanding.placed hopen⟩
  next expression _ =>
    unfold omits
    split
    · exact Ensures.bind (Ensures.pure (hstrip s.cache))
    · refine Ensures.bind (Ensures.bind (ctx.ensures_evaluateDirective hstanding.admits
        hstanding.globals _ _ (fun value cache _ => Ensures.pure ?_) hstanding.fails))
      split
      · exact hstrip cache
      · exact Ensures.pure ⟨hstanding.turn.cached cache, hands_keep hstanding.placed hopen⟩

end OmitTag

/-! ## Content and replacement -/

/-- Making the nodes of a content adds nodes and does nothing else. -/
theorem ensures_contentNodes (hlinked : s.document.WellLinked) (mode : Directive.ContentMode)
    (value : Value) :
    Ensures (contentNodes mode value) s
      (fun nodes t => t.globals = s.globals ∧ Extends s.document t.document ∧ nodes.Nodup ∧
        ∀ n ∈ nodes, s.document.size ≤ n ∧ n < t.document.size)
      (fun stop t => (mode = .markup ∧ ∃ error, stop = .failed (.tree error) ∧
          (outcome (parseFragment value.text) s.document).1 = .error error) ∧
        t.globals = s.globals ∧ Extends s.document t.document) := by
  unfold contentNodes
  cases mode with
  | text =>
      refine Ensures.bind (Rendering.ensures_createIn (Ensures.pure
        ⟨rfl, extends_create hlinked _, List.nodup_singleton _, fun n hn => ?_⟩))
      obtain rfl := List.mem_singleton.mp hn
      exact ⟨Nat.le_refl _, by simp [Document.create, Document.size]⟩
  | markup =>
      refine Rendering.ensures_edit ((ensures_parseFragment hlinked _).traced.mono ?_ ?_)
      · exact fun nodes d h => ⟨rfl, h.1.1, h.1.2⟩
      · exact fun error d h => ⟨⟨rfl, error, rfl, congrArg Prod.fst h.2⟩, rfl, h.1⟩

section Works

variable {R : NodeId → Prop} (hworks : stage.Works R p s ctx)

include hworks

/-- New nodes become the children of an element: it keeps its place. -/
theorem turn_replaceChildren {t : RenderState} {nodes : List NodeId}
    (hglobals : t.globals = s.globals) (hgrown : Extends s.document t.document)
    (hnodes : ∀ n ∈ nodes, s.document.size ≤ n ∧ n < t.document.size) :
    stage.Turn R p s { t with document := t.document.replaceChildren ctx.node nodes } ∧
      (s.document.parent ctx.node = some p →
        (t.document.replaceChildren ctx.node nodes).parent ctx.node = some p) := by
  have hwithin := hworks.region.extends_within hgrown
  have hinside : ∀ n ∈ nodes, R n ∧ n < t.document.size := fun n hn =>
    ⟨hworks.region.fresh n (hnodes n hn).1, (hnodes n hn).2⟩
  have hrefilled := (hworks.region.within hwithin).refilled hworks.mem
    (Nat.lt_of_lt_of_le hworks.lt hgrown.size_le) hinside
  refine ⟨⟨hwithin.trans hrefilled.toWithin, ?_⟩, fun hp => ?_⟩
  · rw [hglobals]
    exact hworks.globals
  · have hparent : t.document.parent ctx.node = some p := by
      rw [hgrown.parent_eq (Nat.not_le_of_lt hworks.lt), hp]
    rw [hrefilled.parents ctx.node, hparent]
    rw [List.mem_append, not_or]
    refine ⟨fun hself => ?_, fun hnew =>
      absurd hworks.lt (Nat.not_lt_of_le (hnodes _ hnew).1)⟩
    have hself := (hgrown.linked.parent_eq hself).symm.trans hparent
    exact hworks.region.ne_outer hworks.mem (Option.some.inj hself)

theorem turn_clearChildren (cache : ExpressionCache) :
    stage.Turn R p s { s with document := s.document.clearChildren ctx.node, cache } ∧
      (s.document.parent ctx.node = some p →
        (s.document.clearChildren ctx.node).parent ctx.node = some p) := by
  have hnone : ∀ n ∈ ([] : List NodeId), s.document.size ≤ n ∧ n < s.document.size := nofun
  exact turn_replaceChildren (t := { s with cache }) hworks rfl (.refl hworks.region.linked) hnone

/-- The nodes of a content, made while an element is worked on that writes it. -/
theorem Stage.Works.ensures_contentNodes (cache : ExpressionCache) {mode : Directive.ContentMode}
    (hwrites : ctx.Writes stage.settings s.document mode) (value : Value)
    {ok : List NodeId → RenderState → Prop}
    (hok : ∀ nodes t, t.globals = s.globals → Extends s.document t.document →
      (∀ n ∈ nodes, s.document.size ≤ n ∧ n < t.document.size) → ok nodes t) :
    Ensures (contentNodes mode value) { s with cache } ok (stage.Fails R p ctx s) := by
  have hmade := PageTemplate.ensures_contentNodes (s := { s with cache }) hworks.region.linked mode
    value
  refine hmade.mono ?_ ?_
  · exact fun nodes t h => hok nodes t h.1 h.2.1 h.2.2.2
  · rintro _ t ⟨⟨rfl, error, rfl, herror⟩, hglobals, hgrown⟩
    refine ⟨⟨hwrites, value.text, herror⟩, ⟨hworks.region.extends_within hgrown, ?_⟩,
      hgrown.parent_eq (Nat.not_le_of_lt hworks.lt)⟩
    rw [hglobals]
    exact hworks.globals

end Works

namespace Content

theorem carries_handleContent (hstanding : stage.Standing p s ctx)
    (hopen : stage.Open ok level s.document ctx) {value : String}
    (hvalue : ctx.directive? s.document stage.settings.vocabularies.content = some value) :
    Carries stage p s ctx (stage.Open ok level) ok level
      (handleContent stage.settings ctx value) := by
  have hdone : ∀ t : RenderState, stage.Turn (s.document.own ctx.node) p s t →
      t.document.parent ctx.node = some p →
      stage.Hands (stage.Open ok level) ok level (s.document.own ctx.node) p t.document
        (.keep { ctx with rendersChildren := false }) := fun t hturn hparent =>
    hands_keep ⟨⟨hstanding.admits.scope, hstanding.admits.written, hstanding.admits.depth⟩,
      own_self _ _, hparent, hturn.within.elements _ hstanding.element⟩ ⟨hopen.1, nofun⟩
  unfold handleContent
  refine Ensures.bind (ctx.ensures_readDirective _ _ _ (fun read hread => ?_) fun error =>
    hstanding.fails error s.cache)
  refine Ensures.bind (ctx.ensures_evaluateDirective hstanding.admits hstanding.globals _ _
    (fun result cache _ => ?_) hstanding.fails)
  split
  · exact Ensures.pure ⟨hstanding.turn.cached cache, hands_keep hstanding.placed hopen⟩
  split
  · obtain ⟨hturn, hparent⟩ := turn_clearChildren hstanding.works cache
    exact Ensures.bind (Rendering.ensures_changeDocument (Ensures.pure
      ⟨hturn, hdone _ hturn (hparent hstanding.parent_eq)⟩))
  · have hwrites : ctx.Writes stage.settings s.document read.1 :=
      ⟨_, by simp, value, read.2, hvalue, hread⟩
    refine Ensures.bind (hstanding.works.ensures_contentNodes cache hwrites _ ?_)
    intro nodes t hglobals hgrown hnodes
    obtain ⟨hturn, hparent⟩ := turn_replaceChildren hstanding.works hglobals hgrown hnodes
    exact Ensures.bind (Rendering.ensures_changeDocument (Ensures.pure
      ⟨hturn, hdone _ hturn (hparent hstanding.parent_eq)⟩))

theorem carries_handleReplace (hstanding : stage.Standing p s ctx)
    (hpending : stage.Pending ok (level + 1) s.document ctx) {value : String}
    (hvalue : ctx.directive? s.document stage.settings.vocabularies.replace = some value) :
    Carries stage p s ctx (stage.Open ok level) ok level
      (handleReplace stage.settings ctx value) := by
  have hregion := hstanding.region
  unfold handleReplace
  refine Ensures.bind (ctx.ensures_readDirective _ _ _ (fun read hread => ?_) fun error =>
    hstanding.fails error s.cache)
  refine Ensures.bind (ctx.ensures_evaluateDirective hstanding.admits hstanding.globals _ _
    (fun result cache _ => ?_) hstanding.fails)
  have hturn := hstanding.turn.cached cache
  split
  · have homitted := hregion.omitted (own_self _ _) hstanding.parent_eq
    refine Ensures.bind (Rendering.ensures_edit_ok homitted ?_)
    rintro _ d ⟨rfl, hreplaced⟩
    exact Ensures.bind (Rendering.ensures_document (Ensures.pure
      ⟨hturn.change hreplaced.toWithin,
        hands_exposeChildren hstanding hpending.open hpending.1 hreplaced⟩))
  split
  · have hdetached := hregion.detached (own_self s.document ctx.node)
    exact Ensures.bind (Rendering.ensures_changeDocument (Ensures.pure
      ⟨hturn.change hdetached.toWithin, hands_removed⟩))
  · have hwrites : ctx.Writes stage.settings s.document read.1 :=
      ⟨_, by simp, value, read.2, hvalue, hread⟩
    refine Ensures.bind (hstanding.works.ensures_contentNodes cache hwrites _ ?_)
    intro nodes t hglobals hgrown hnodes
    have hlt := hstanding.node_lt
    have hwithin := hregion.extends_within hgrown
    have hparent : t.document.parent ctx.node = some p := by
      rw [hgrown.parent_eq (Nat.not_le_of_lt hlt), hstanding.parent_eq]
    have hinside : ∀ n ∈ nodes, s.document.own ctx.node n ∧ n < t.document.size ∧
        n ≠ ctx.node := fun n hn =>
      ⟨.inr (hnodes n hn).1, (hnodes n hn).2,
        Nat.ne_of_gt (Nat.lt_of_lt_of_le hlt (hnodes n hn).1)⟩
    have hreplaced := (hregion.within hwithin).replaced (own_self _ _) hparent hinside
    refine Ensures.bind (Rendering.ensures_edit_ok hreplaced fun _ d h => Ensures.pure ⟨?_,
      hands_removed⟩)
    refine ⟨hwithin.trans h.toWithin, ?_⟩
    show t.globals.AllMacros _
    rw [hglobals]
    exact hstanding.globals

theorem carries_handle (hstanding : stage.Standing p s ctx)
    (hpending : stage.Pending ok (level + 1) s.document ctx) :
    Carries stage p s ctx (stage.Open ok level) ok level (handle stage.settings ctx) := by
  unfold handle
  refine Ensures.bind (Rendering.ensures_document ?_)
  split
  · exact Rendering.ensures_fail (hstanding.fails _ s.cache id)
  next value hvalue _ => exact carries_handleContent hstanding hpending.open hvalue
  next value _ hvalue => exact carries_handleReplace hstanding hpending hvalue
  · exact Ensures.pure ⟨hstanding.turn, hands_keep hstanding.placed hpending.open⟩

end Content

/-! ## Attributes -/

namespace Attributes

/-- Setting and removing attributes of an element changes what the element itself is. -/
theorem ensures_assignItem {t : RenderState} (hlinked : t.document.WellLinked)
    (helement : t.document.isElement ctx.node = true) (hadmits : stage.Admits ctx)
    (hglobals : t.globals.AllMacros stage.Known) (item : String) :
    Ensures (assignItem stage.settings ctx item) t
      (fun _ u => u.globals = t.globals ∧ Relabeled ctx.node t.document u.document)
      (fun stop u => stop.SparesTree ∧ u.globals = t.globals ∧
        Relabeled ctx.node t.document u.document) := by
  unfold assignItem
  refine Ensures.bind (ctx.ensures_readDirective _ _ _ (fun read _ => ?_) fun error herror =>
    ⟨herror, rfl, .refl hlinked⟩)
  refine Ensures.bind (ctx.ensures_evaluateDirective hadmits hglobals _ _ (fun value cache _ => ?_)
    fun error cache herror => ⟨herror, rfl, .refl hlinked⟩)
  split
  · exact Ensures.pure ⟨rfl, .refl hlinked⟩
  split
  · exact Rendering.ensures_changeDocument ⟨rfl, relabeled_removeAttribute hlinked ctx.node _⟩
  · have hset : ∀ (u : RenderState) (raw written : String), u.globals = t.globals →
        Relabeled ctx.node t.document u.document →
        Ensures (Rendering.edit (setAttribute ctx.node raw written)) u
          (fun _ w => w.globals = t.globals ∧ Relabeled ctx.node t.document w.document)
          (fun stop w => stop.SparesTree ∧ w.globals = t.globals ∧
            Relabeled ctx.node t.document w.document) := by
      intro u raw written hglobals' hrelabeled
      have hset := ensures_setAttribute hrelabeled.confined.linked
        (hrelabeled.confined.elements _ helement) raw written
      exact Rendering.ensures_edit_ok hset fun _ d h => ⟨hglobals', hrelabeled.trans h⟩
    refine Ensures.bind (Rendering.ensures_document ?_)
    split
    · refine Ensures.bind ((hset { t with cache } _ _ rfl (.refl hlinked)).mono ?_ fun _ _ => id)
      exact fun _ u h => hset u _ _ h.1 h.2
    · exact hset { t with cache } _ _ rfl (.refl hlinked)

theorem ensures_assignItems (hstanding : stage.Standing p s ctx) (items : List String) :
    Ensures (items.forM (assignItem stage.settings ctx)) s
      (fun _ u => u.globals = s.globals ∧ Relabeled ctx.node s.document u.document)
      (fun stop u => stop.SparesTree ∧ u.globals = s.globals ∧
        Relabeled ctx.node s.document u.document) := by
  refine Ensures.forM (fun _ u => RenderState.globals u = s.globals ∧
    Relabeled ctx.node s.document u.document) ⟨rfl, .refl hstanding.linked⟩ ?_
  rintro item _ u ⟨hglobals, hrelabeled⟩
  refine (ensures_assignItem hrelabeled.confined.linked
    (hrelabeled.confined.elements _ hstanding.element) hstanding.admits ?_ item).mono ?_ ?_
  · rw [hglobals]
    exact hstanding.globals
  · exact fun _ w h => ⟨h.1.trans hglobals, hrelabeled.trans h.2⟩
  · exact fun _ w h => ⟨h.1, h.2.1.trans hglobals, hrelabeled.trans h.2.2⟩

theorem carries_handle (hstanding : stage.Standing p s ctx)
    (hopen : stage.Open ok level s.document ctx) :
    Carries stage p s ctx (stage.Open ok level) ok level (handle stage.settings ctx) := by
  have hregion := hstanding.region
  have hturn : ∀ u : RenderState, u.globals = s.globals →
      Relabeled ctx.node s.document u.document →
      stage.Turn (s.document.own ctx.node) p s u := fun u hglobals hrelabeled =>
    ⟨hrelabeled.within hregion (own_self _ _), by rw [hglobals]; exact hstanding.globals⟩
  unfold handle
  refine Ensures.bind (Rendering.ensures_document ?_)
  split
  · exact Ensures.pure ⟨hstanding.turn, hands_keep hstanding.placed hopen⟩
  refine Ensures.bind ((ensures_assignItems hstanding _).mono ?_ fun stop u h =>
    ⟨h.1.arisesAt, hturn u h.2.1 h.2.2, h.2.2.parent_eq _⟩)
  rintro _ u ⟨hglobals, hrelabeled⟩
  refine Ensures.pure ⟨hturn u hglobals hrelabeled, hands_keep ⟨hstanding.admits, own_self _ _, ?_,
    hrelabeled.confined.elements _ hstanding.element⟩ ?_⟩
  · exact (hrelabeled.parent_eq _).trans hstanding.parent_eq
  · refine hopen.congr id ?_ (fun c hc m hm => ⟨?_, ?_⟩) fun _ _ _ _ => id
    · rw [hrelabeled.children_eq]
      exact List.Subset.refl _
    · rw [hrelabeled.children_eq]
      exact List.Subset.refl _
    · refine hrelabeled.confined.kind_eq ?_
      rintro rfl
      -- an element does not lie below its own child
      obtain ⟨top, htop, hbelow⟩ := hstanding.rooted
      have hnode := hbelow.child (hstanding.linked.mem_children hstanding.parent_eq)
      exact hstanding.linked.not_below_parent htop (hnode.child hc)
        (hstanding.linked.parent_eq hc) hm

end Attributes

/-! ## Recovery -/

/-- Recovering from an error keeps to the region and never exhausts the walk. The error may be
handed on, and then nothing has been done. -/
theorem OnError.ensures_recover {R : NodeId → Prop} (hworks : stage.Works R p s ctx)
    (error : RenderError) :
    Ensures (recover stage.settings ctx error) s (fun _ t => stage.Turn R p s t)
      (fun stop t => stage.Fails R p ctx s stop t ∨ stop = .failed error ∧ t = s) := by
  unfold recover
  split
  · refine Ensures.bind (Rendering.ensures_document ?_)
    split
    next value hvalue =>
      unfold handleWith
      have hadmits : stage.Admits
          { ctx with
            scope := ctx.scope.setCaught (.object (caughtError error.kind error.message)) } :=
        ⟨hworks.admits.scope.setCaught (allMacros_caughtError _ _), hworks.admits.written,
          hworks.admits.depth⟩
      refine Ensures.mono ?_ (fun _ _ => id) fun _ _ => Or.inl
      refine Ensures.bind (Context.ensures_readDirective _ _ _ _ (fun read hread => ?_) fun error =>
        hworks.fails error s.cache)
      refine Ensures.bind (Context.ensures_evaluateDirective _ hadmits hworks.globals _ _
        (fun result cache _ => ?_) hworks.fails)
      split
      · exact Ensures.pure (hworks.turn.cached cache)
      split
      · exact Rendering.ensures_changeDocument (turn_clearChildren hworks cache).1
      · have hwrites : ctx.Writes stage.settings s.document read.1 :=
          ⟨_, by simp, value, read.2, hvalue, hread⟩
        refine Ensures.bind (hworks.ensures_contentNodes cache hwrites _ ?_)
        intro nodes t hglobals hgrown hnodes
        exact Rendering.ensures_changeDocument
          (turn_replaceChildren hworks hglobals hgrown hnodes).1
    next => exact Rendering.ensures_fail (.inr ⟨rfl, rfl⟩)
  · exact Rendering.ensures_fail (.inr ⟨rfl, rfl⟩)

end PageTemplate
