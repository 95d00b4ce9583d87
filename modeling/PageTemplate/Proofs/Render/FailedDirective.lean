import PageTemplate.Proofs.Markup.Additions
import PageTemplate.Proofs.Render.Handlers
import PageTemplate.Proofs.Render.Holding

/-! # What a failed directive leaves behind

Directives evaluate their expressions before they change the document, and a change of an element
that stands in the tree does not fail any more. The list of attributes is carried out item by item
instead: when an item fails, those before it have changed the element.
-/

namespace PageTemplate

open Markup Document

/-! ## Loops that fail -/

section Loops

variable {ε σ ι : Type} {f : ι → ExceptT ε (StateM σ) PUnit} {items done : List ι} {item : ι}
  {s t u : σ} {e : ε}

/-- A loop that fails has gone through some of its items when it fails at the next one. -/
theorem exists_failing_item (h : outcome (items.forM f) s = (.error e, t)) :
    ∃ done item rest u, items = done ++ item :: rest ∧ outcome (done.forM f) s = (.ok ⟨⟩, u) ∧
      outcome (f item) u = (.error e, t) := by
  induction items generalizing s with
  | nil => cases h
  | cons first items ih =>
      rw [outcome_forM_cons, outcome_bind] at h
      rcases hfirst : outcome (f first) s with ⟨fault | _, u⟩
      · rw [hfirst] at h
        exact ⟨[], first, items, s, rfl, rfl, hfirst.trans h⟩
      · rw [hfirst] at h
        obtain ⟨done, item, rest, w, rfl, hdone, hitem⟩ := ih h
        refine ⟨first :: done, item, rest, w, rfl, ?_, hitem⟩
        rw [outcome_forM_cons, outcome_bind_ok hfirst, hdone]

/-- The items behind the one that fails do not matter. -/
theorem outcome_forM_of_failing_item (rest : List ι) (hdone : outcome (done.forM f) s = (.ok ⟨⟩, u))
    (hitem : outcome (f item) u = (.error e, t)) :
    outcome ((done ++ item :: rest).forM f) s = (.error e, t) := by
  induction done generalizing s with
  | nil =>
      cases hdone
      rw [List.nil_append, outcome_forM_cons, outcome_bind, hitem]
  | cons first done ih =>
      rw [outcome_forM_cons, outcome_bind] at hdone
      rcases hfirst : outcome (f first) s with ⟨fault | _, w⟩
      · rw [hfirst] at hdone
        cases hdone
      · rw [hfirst] at hdone
        rw [List.cons_append, outcome_forM_cons, outcome_bind_ok hfirst]
        exact ih hdone

end Loops

/-! ## Changes of the attributes of an element -/

namespace Markup.Document

variable {d d' d'' : Document} {x n : NodeId}

/-- Of all nodes, only the attributes of one element were changed. -/
structure Reattributed (x : NodeId) (d d' : Document) : Prop extends Relabeled x d d' where
  kind_eq : d'.kind x = (d.kind x).mapElement fun element =>
    { element with attributes := d'.attributes x }

theorem mapElement_attributes (d : Document) (x : NodeId) :
    (d.kind x).mapElement (fun element => { element with attributes := d.attributes x }) =
      d.kind x := by
  unfold attributes element?
  cases d.kind x <;> rfl

namespace Reattributed

protected theorem refl (hlinked : d.WellLinked) : Reattributed x d d :=
  ⟨.refl hlinked, (mapElement_attributes d x).symm⟩

protected theorem trans (h : Reattributed x d d') (h' : Reattributed x d' d'') :
    Reattributed x d d'' := by
  refine ⟨h.toRelabeled.trans h'.toRelabeled, ?_⟩
  rw [h'.kind_eq, h.kind_eq]
  cases d.kind x <;> rfl

/-- Where the attributes are what they were, so is every node. -/
theorem node_eq (h : Reattributed x d d') (hsame : d'.attributes x = d.attributes x)
    (n : NodeId) : d'.node n = d.node n := by
  by_cases hn : n = x
  · subst hn
    refine node_eq_of ?_ (h.parent_eq n) (h.children_eq n)
    rw [h.kind_eq, hsame, mapElement_attributes]
  · exact h.confined.same n hn

end Reattributed

theorem reattributed_updateElement (hlinked : d.WellLinked) (hx : x < d.size)
    {change : Element → Element}
    (hchange : ∀ element, change element =
      { element with attributes := (change element).attributes }) :
    Reattributed x d (d.updateElement x change) := by
  refine ⟨relabeled_updateElement hlinked x change, ?_⟩
  unfold attributes element?
  rw [kind_updateElement change d x x hx, if_pos rfl]
  cases d.kind x with
  | element element => exact congrArg NodeKind.element (hchange element)
  | _ => rfl

theorem reattributed_removeAttribute (hlinked : d.WellLinked) (hx : x < d.size) (raw : String) :
    Reattributed x d (d.removeAttribute x raw).1 := by
  unfold removeAttribute
  split
  · exact reattributed_updateElement hlinked hx fun _ => rfl
  · exact .refl hlinked

/-- An attribute can be set at an element; at another node nothing is done. -/
theorem ensures_setAttribute_reattributed (hlinked : d.WellLinked) (hx : x < d.size)
    (raw value : String) :
    Ensures (setAttribute x raw value) d
      (fun _ d' => Reattributed x d d' ∧ d.isElement x = true)
      (fun _ d' => d' = d ∧ d.isElement x = false) := by
  unfold setAttribute
  refine Ensures.bind (Ensures.get ?_)
  split
  next helement =>
    refine Ensures.modify ⟨reattributed_updateElement hlinked hx fun element => ?_, helement⟩
    unfold Element.set
    split <;> rfl
  next helement => exact Ensures.throw ⟨rfl, by simpa using helement⟩

/-- What is done to a node in the tree, the document node aside, keeps to a region. -/
theorem WellLinked.exists_region (hlinked : d.WellLinked) (hattached : d.isAttached x = true)
    (hroot : x ≠ root) : ∃ p, d.parent x = some p ∧ Region (d.own x) p d := by
  have hbelow : d.Below root x := below_of_mem_lineage hlinked (List.contains_iff_mem.mp hattached)
  rcases hlinked.below_cases hbelow with rfl | ⟨p, hp, habove⟩
  · exact absurd rfl hroot
  · exact ⟨p, hp, region_own hlinked ⟨root, hlinked.parent_root, habove⟩ hp⟩

end Markup.Document

variable {settings : Settings} {ctx : Context} {s t u : RenderState} {stop : Stop} {p : NodeId}
  {R : NodeId → Prop}

namespace Context

theorem ensures_evaluateDirective_same (ctx : Context) (settings : Settings) (s : RenderState)
    (spec : AttributeSpec) (text : String) :
    Ensures (ctx.evaluateDirective settings spec text) s (fun _ t => t.document = s.document)
      fun _ t => t.document = s.document :=
  @holds_evaluateDirective (· = s.document) ctx settings spec text s rfl

theorem ensures_readDirective_same {α : Type} (ctx : Context) (s : RenderState)
    (spec : AttributeSpec) (value : String) (read : Except String α) :
    Ensures (ctx.readDirective spec value read) s (fun _ t => t.document = s.document)
      fun _ t => t.document = s.document :=
  @holds_readDirective (· = s.document) α ctx spec value read s rfl

end Context

/-! ## Directives that evaluate first -/

/-- The step fails, if it does, before it has changed a node that was there. -/
def FailsAside {α : Type} (m : Rendering α) (s : RenderState) : Prop :=
  Ensures m s (fun _ _ => True) fun _ t => Extends s.document t.document

section Aside

variable {α β : Type} {m : Rendering α} {f : α → Rendering β}

/-- Steps that leave the document alone may come first. -/
theorem FailsAside.after (hlinked : s.document.WellLinked)
    (hm : Ensures m s (fun _ t => t.document = s.document) fun _ t => t.document = s.document)
    (hf : ∀ a t, t.document = s.document → FailsAside (f a) t) : FailsAside (m >>= f) s := by
  refine Ensures.bind (hm.mono (fun a t ht => ?_) fun _ t ht => ?_)
  · have hnext := hf a t ht
    unfold FailsAside at hnext
    rwa [ht] at hnext
  · rw [ht]
    exact .refl hlinked

/-- A step that cannot fail. -/
theorem FailsAside.of_ok (h : Ensures m s (fun _ _ => True) fun _ _ => False) : FailsAside m s :=
  h.mono (fun _ _ => id) fun _ _ => False.elim

theorem FailsAside.pure (a : α) : FailsAside (pure a) s := Ensures.pure trivial

end Aside

theorem Define.failsAside_handle (hlinked : s.document.WellLinked) :
    FailsAside (Define.handle settings ctx) s := by
  have hkeeps : Holds (fun t : RenderState => Extends s.document t.document) _ :=
    holds_handle settings ctx
  exact (hkeeps s (.refl hlinked)).mono (fun _ _ _ => trivial) fun _ _ => id

theorem Condition.failsAside_handle (hlinked : s.document.WellLinked) :
    FailsAside (Condition.handle settings ctx) s := by
  unfold handle
  refine Ensures.bind (Rendering.ensures_document ?_)
  split
  · exact FailsAside.pure _
  · refine FailsAside.after hlinked (ctx.ensures_evaluateDirective_same settings s _ _) ?_
    intro value t _
    split
    · exact FailsAside.pure _
    · exact .of_ok (Ensures.bind (Rendering.ensures_changeDocument (Ensures.pure trivial)))

theorem Content.failsAside_handleContent (hlinked : s.document.WellLinked) (value : String) :
    FailsAside (handleContent settings ctx value) s := by
  unfold handleContent
  refine FailsAside.after hlinked (ctx.ensures_readDirective_same s _ _ _) fun read t ht => ?_
  rw [← ht] at hlinked
  refine FailsAside.after hlinked (ctx.ensures_evaluateDirective_same settings t _ _) ?_
  intro result u hu
  rw [← hu] at hlinked
  split
  · exact FailsAside.pure _
  split
  · exact .of_ok (Ensures.bind (Rendering.ensures_changeDocument (Ensures.pure trivial)))
  · refine Ensures.bind ((ensures_contentNodes hlinked _ _).mono ?_ ?_)
    · exact fun nodes w _ =>
        Ensures.bind (Rendering.ensures_changeDocument (Ensures.pure trivial))
    · exact fun stop w hw => hw.2.2

theorem OmitTag.ensures_omits_same (s : RenderState) (expression : String) :
    Ensures (omits settings ctx expression) s (fun _ t => t.document = s.document)
      fun _ t => t.document = s.document := by
  unfold omits
  split
  · exact Ensures.pure rfl
  · exact Ensures.bind ((ctx.ensures_evaluateDirective_same settings s _ _).mono
      (fun _ _ ht => Ensures.pure ht) fun _ _ => id)

section Standing

variable (hregion : Region R p s.document) (hnode : R ctx.node)
  (hparent : s.document.parent ctx.node = some p)

include hregion hnode hparent

omit hnode in
theorem Repeat.ensures_copyFor (name : String) (count : Nat) (item : Value) (index : Nat) :
    Ensures (copyFor settings ctx name count item index) s
      (fun _ t => Region R p t.document ∧ t.document.parent ctx.node = some p)
      fun _ _ => False := by
  have hlt := (hregion.linked.lt_of_parent hparent).2
  have hcopy : Copied (fun _ _ => True) _ s.document (s.document.deepCopy ctx.node).1
      (s.document.deepCopy ctx.node).2 := copied_graft_any hregion.linked _
  have hgrown := hregion.within (hregion.extends_within hcopy.grown)
  have hnew := hregion.fresh _ hcopy.new
  have hne : (s.document.deepCopy ctx.node).2 ≠ ctx.node :=
    Nat.ne_of_gt (Nat.lt_of_lt_of_le hlt hcopy.new)
  have hparent' : (s.document.deepCopy ctx.node).1.parent ctx.node = some p :=
    (hcopy.grown.parent_eq (Nat.not_le_of_lt hlt)).trans hparent
  refine Ensures.bind (Rendering.ensures_createIn ?_)
  refine Ensures.bind (Rendering.ensures_edit_ok
    (hgrown.brought_beside hparent' hnew hcopy.lt hne).1 fun _ d hbrought => ?_)
  refine Ensures.bind (Rendering.ensures_changeDocument ?_)
  refine Ensures.bind (Rendering.ensures_document (Ensures.pure ?_))
  have hbeside := hgrown.within hbrought.toWithin
  have hremoved : Retouched (fun _ => True) _ d _ :=
    retouched_removeAttributeBySpec hbeside.linked (s.document.deepCopy ctx.node).2
      settings.vocabularies.repetition
  refine ⟨hbeside.within (hremoved.within hbeside hnew), ?_⟩
  rw [hremoved.parent_eq, hbrought.parents, if_neg hne.symm]
  exact hparent'

omit hnode in
theorem Repeat.failsAside_handle : FailsAside (Repeat.handle settings ctx) s := by
  have hlinked := hregion.linked
  unfold handle
  refine Ensures.bind (Rendering.ensures_document ?_)
  split
  · exact FailsAside.pure _
  refine FailsAside.after hlinked (ctx.ensures_readDirective_same s _ _ _) fun read t ht => ?_
  rw [← ht] at hlinked
  refine FailsAside.after hlinked (ctx.ensures_evaluateDirective_same settings t _ _) ?_
  intro result u hu
  split
  · exact FailsAside.pure _
  split
  · exact Ensures.bind (Rendering.ensures_document (Rendering.ensures_fail
      (.refl (by rwa [hu]))))
  · refine .of_ok (Ensures.bind ((Ensures.mapM [] (fun _ _ w => Region R p w.document ∧
      w.document.parent ctx.node = some p) ?_ ?_).mono ?_ fun _ _ => id))
    · rw [hu, ht]
      exact ⟨hregion, hparent⟩
    · rintro ⟨item, index⟩ rest copies w ⟨hregion', hparent'⟩
      exact ensures_copyFor hregion' hparent' _ _ item index
    · exact fun copies w _ =>
        Ensures.bind (Rendering.ensures_changeDocument (Ensures.pure trivial))

/-- Losing a tag does not fail. -/
theorem failsAside_omitTag {α : Type} {f : List NodeId → Rendering α}
    (hf : ∀ promoted t, Ensures (f promoted) t (fun _ _ => True) fun _ _ => False) :
    FailsAside (Rendering.edit (Document.omitTag ctx.node) >>= f) s :=
  .of_ok (Ensures.bind (Rendering.ensures_edit_ok (hregion.omitted hnode hparent)
    fun promoted _ _ => hf promoted _))

theorem OmitTag.failsAside_handle : FailsAside (OmitTag.handle settings ctx) s := by
  unfold handle
  refine Ensures.bind (Rendering.ensures_document ?_)
  split
  · exact FailsAside.pure _
  next expression _ =>
    refine FailsAside.after hregion.linked (ensures_omits_same s expression) fun omitted t ht => ?_
    rw [← ht] at hregion hparent
    split
    · exact failsAside_omitTag hregion hnode hparent fun _ _ =>
        Ensures.bind (Rendering.ensures_document (Ensures.pure trivial))
    · exact FailsAside.pure _

namespace Content

theorem failsAside_handleReplace (value : String) :
    FailsAside (handleReplace settings ctx value) s := by
  have hlinked := hregion.linked
  unfold handleReplace
  refine FailsAside.after hlinked (ctx.ensures_readDirective_same s _ _ _) fun read t ht => ?_
  rw [← ht] at hlinked
  refine FailsAside.after hlinked (ctx.ensures_evaluateDirective_same settings t _ _) ?_
  intro result u hu
  rw [← ht, ← hu] at hregion hparent
  split
  · exact failsAside_omitTag hregion hnode hparent fun _ _ =>
      Ensures.bind (Rendering.ensures_document (Ensures.pure trivial))
  split
  · exact .of_ok (Ensures.bind (Rendering.ensures_changeDocument (Ensures.pure trivial)))
  · refine Ensures.bind ((ensures_contentNodes hregion.linked _ _).mono ?_ ?_)
    · rintro nodes w ⟨-, hgrown, -, hnodes⟩
      have hlt := (hregion.linked.lt_of_parent hparent).2
      have hwithin := hregion.extends_within hgrown
      have hparent' : w.document.parent ctx.node = some p :=
        (hgrown.parent_eq (Nat.not_le_of_lt hlt)).trans hparent
      have hreplaced := (hregion.within hwithin).replaced hnode hparent' fun n hn =>
        ⟨hregion.fresh n (hnodes n hn).1, (hnodes n hn).2,
          Nat.ne_of_gt (Nat.lt_of_lt_of_le hlt (hnodes n hn).1)⟩
      exact Ensures.bind (Rendering.ensures_edit_ok hreplaced fun _ _ _ => Ensures.pure trivial)
    · exact fun stop w hw => hw.2.2

theorem failsAside_handle : FailsAside (handle settings ctx) s := by
  unfold handle
  refine Ensures.bind (Rendering.ensures_document ?_)
  split
  · exact Rendering.ensures_fail (.refl hregion.linked)
  · exact failsAside_handleContent hregion.linked _
  · exact failsAside_handleReplace hregion hnode hparent _
  · exact FailsAside.pure _

end Content

end Standing

/-! ## Attributes, item by item -/

namespace Attributes

/-- Setting an attribute in a rendering changes the element, or fails and changes nothing. -/
theorem ensures_edit_setAttribute {x : NodeId} (hlinked : s.document.WellLinked)
    (hx : x < s.document.size) (raw value : String) :
    Ensures (Rendering.edit (setAttribute x raw value)) s
      (fun _ t => Reattributed x s.document t.document ∧ s.document.isElement x = true)
      (fun _ t => t.document = s.document ∧ s.document.isElement x = false) :=
  Rendering.ensures_edit ((ensures_setAttribute_reattributed hlinked hx raw value).mono
    (fun _ _ => id) fun _ _ => id)

/-- One item changes the attributes of the element, or fails and changes nothing. -/
theorem ensures_assignItem_reattributed (hlinked : s.document.WellLinked)
    (hlt : ctx.node < s.document.size) (item : String) :
    Ensures (assignItem settings ctx item) s
      (fun _ t => Reattributed ctx.node s.document t.document)
      (fun _ t => t.document = s.document) := by
  unfold assignItem
  refine Ensures.bind ((ctx.ensures_readDirective_same s _ _ _).mono (fun read t ht => ?_)
    fun _ _ => id)
  refine Ensures.bind ((ctx.ensures_evaluateDirective_same settings t _ _).mono
    (fun value u hu => ?_) fun _ _ hu => hu.trans ht)
  rw [← ht, ← hu] at hlinked hlt ⊢
  split
  · exact Ensures.pure (.refl hlinked)
  split
  · exact Rendering.ensures_changeDocument (reattributed_removeAttribute hlinked hlt _)
  refine Ensures.bind (Rendering.ensures_document ?_)
  dsimp only
  split
  next qualifier uri _ =>
    refine Ensures.bind ((ensures_edit_setAttribute hlinked hlt _ _).mono ?_ fun _ _ h => h.1)
    rintro _ w ⟨hdeclared, helement⟩
    have hlt' : ctx.node < w.document.size := hdeclared.size_eq ▸ hlt
    refine (ensures_edit_setAttribute hdeclared.confined.linked hlt' _ _).mono ?_ ?_
    · exact fun _ _ h => hdeclared.trans h.1
    -- What is an element when its qualifier is declared is still one.
    · intro _ _ h
      rw [hdeclared.confined.elements _ helement] at h
      cases h.2
  · exact (ensures_edit_setAttribute hlinked hlt _ _).mono (fun _ _ h => h.1) fun _ _ h => h.1

/-- The items of a list change the attributes of the element, up to the item that fails. -/
theorem ensures_assignItems_reattributed (hlinked : s.document.WellLinked)
    (hlt : ctx.node < s.document.size) (items : List String) :
    Ensures (items.forM (assignItem settings ctx)) s
      (fun _ t => Reattributed ctx.node s.document t.document)
      (fun _ t => Reattributed ctx.node s.document t.document) := by
  refine Ensures.forM (fun _ (t : RenderState) => Reattributed ctx.node s.document t.document)
    (.refl hlinked) ?_
  intro item rest t ht
  have hlt' : ctx.node < t.document.size := ht.size_eq ▸ hlt
  refine (ensures_assignItem_reattributed ht.confined.linked hlt' item).mono ?_ ?_
  · exact fun _ _ => ht.trans
  · intro _ u hu
    rwa [hu]

/-- The first items of the element's list lead to a state in which the next one fails. -/
def HaltsAt (settings : Settings) (ctx : Context) (s u : RenderState) : Prop :=
  ∃ value done item rest,
    ctx.directive? s.document settings.vocabularies.attributes = some value ∧
    Directive.splitItems value = done ++ item :: rest ∧
    outcome (done.forM (assignItem settings ctx)) s = (.ok (), u) ∧
    (outcome (assignItem settings ctx item) u).1.toOption = none

theorem handle_fails_iff :
    outcome (handle settings ctx) s = (.error stop, t) ↔ ∃ value,
      ctx.directive? s.document settings.vocabularies.attributes = some value ∧
      outcome ((Directive.splitItems value).forM (assignItem settings ctx)) s =
        (.error stop, t) := by
  unfold handle
  rw [outcome_bind_ok (Rendering.outcome_document s)]
  cases ctx.directive? s.document settings.vocabularies.attributes with
  | none => simp
  | some value =>
      simp only [Option.some.injEq, exists_eq_left', outcome_bind]
      rcases outcome ((Directive.splitItems value).forM (assignItem settings ctx)) s with
        ⟨_ | _, u⟩ <;> simp

/-- A list that fails does so at an item, and leaves the document as the items before it did. -/
theorem exists_haltsAt (hlinked : s.document.WellLinked) (hlt : ctx.node < s.document.size)
    (hfails : outcome (handle settings ctx) s = (.error stop, t)) :
    ∃ u, HaltsAt settings ctx s u ∧ t.document = u.document ∧
      Reattributed ctx.node s.document u.document := by
  obtain ⟨value, hvalue, hloop⟩ := handle_fails_iff.mp hfails
  obtain ⟨done, item, rest, u, hitems, hdone, hitem⟩ := exists_failing_item hloop
  have hchanged := (ensures_assignItems_reattributed hlinked hlt done).ok_of_outcome hdone
  have hkept := (ensures_assignItem_reattributed hchanged.confined.linked
    (hchanged.size_eq ▸ hlt) item).bad_of_outcome hitem
  exact ⟨u, ⟨value, done, item, rest, hvalue, hitems, hdone, by rw [hitem]; rfl⟩, hkept, hchanged⟩

/-- A list fails at one item only. -/
theorem HaltsAt.document_eq (h : HaltsAt settings ctx s u) (hlinked : s.document.WellLinked)
    (hlt : ctx.node < s.document.size)
    (hfails : outcome (handle settings ctx) s = (.error stop, t)) :
    t.document = u.document := by
  obtain ⟨value, done, item, rest, hvalue, hitems, hdone, hnone⟩ := h
  have hchanged := (ensures_assignItems_reattributed hlinked hlt done).ok_of_outcome hdone
  rcases hitem : outcome (assignItem settings ctx item) u with ⟨stop' | _, t'⟩
  · have hloop := outcome_forM_of_failing_item rest hdone hitem
    rw [← hitems] at hloop
    have hfails' := handle_fails_iff.mpr ⟨value, hvalue, hloop⟩
    cases hfails.symm.trans hfails'
    exact (ensures_assignItem_reattributed hchanged.confined.linked
      (hchanged.size_eq ▸ hlt) item).bad_of_outcome hitem
  · rw [hitem] at hnone
    cases hnone

end Attributes

/-! ## The six directives -/

namespace Handler

theorem failsAside_handle {handler : Handler} (hregion : Region R p s.document)
    (hnode : R ctx.node) (hparent : s.document.parent ctx.node = some p)
    (hother : handler ≠ .attributes) : FailsAside (handler.handle settings ctx) s := by
  cases handler with
  | define => exact Define.failsAside_handle hregion.linked
  | condition => exact Condition.failsAside_handle hregion.linked
  | repetition => exact Repeat.failsAside_handle hregion hparent
  | content => exact Content.failsAside_handle hregion hnode hparent
  | attributes => exact absurd rfl hother
  | omitTag => exact OmitTag.failsAside_handle hregion hnode hparent

/-- A directive that fails at an element of the tree has changed no other node that was there, and
what it has added lies outside the tree. The element itself is as it was exactly when the directive
is not a list of attributes, or the items before the one that failed had left the attributes as they
were. -/
theorem failed_unchanged_iff {handler : Handler} (hlinked : s.document.WellLinked)
    (hattached : s.document.isAttached ctx.node = true) (hroot : ctx.node ≠ root)
    (hfails : outcome (handler.handle settings ctx) s = (.error stop, t)) :
    (∀ n < s.document.size, n ≠ ctx.node → t.document.node n = s.document.node n) ∧
      (∀ n, s.document.size ≤ n → t.document.isAttached n = false) ∧
      ((∀ n < s.document.size, t.document.node n = s.document.node n) ↔
        (handler = .attributes → ∃ u, Attributes.HaltsAt settings ctx s u ∧
          u.document.attributes ctx.node = s.document.attributes ctx.node)) := by
  obtain ⟨p, hparent, hregion⟩ := hlinked.exists_region hattached hroot
  have hlt := (hlinked.lt_of_parent hparent).2
  have hpos : root < s.document.size := Nat.lt_of_le_of_lt (Nat.zero_le _) hlt
  by_cases hhandler : handler = .attributes
  · subst hhandler
    obtain ⟨u, hhalts, hdocument, hchanged⟩ := Attributes.exists_haltsAt hlinked hlt hfails
    rw [hdocument]
    refine ⟨fun n _ hn => hchanged.confined.same n hn, fun n hn => ?_, fun hsame _ => ?_, ?_⟩
    · rw [Bool.eq_false_iff]
      intro hin
      have hbelow := below_of_mem_lineage hchanged.confined.linked (List.contains_iff_mem.mp hin)
      have hn' := hchanged.confined.linked.below_lt hbelow (hchanged.size_eq ▸ hpos)
      rw [hchanged.size_eq] at hn'
      exact absurd hn' (Nat.not_lt_of_le hn)
    · exact ⟨u, hhalts, attributes_congr (congrArg Node.kind (hsame ctx.node hlt))⟩
    · intro hspared n _
      obtain ⟨w, hhalts', hsame⟩ := hspared rfl
      rw [← hhalts'.document_eq hlinked hlt hfails, hdocument] at hsame
      exact hchanged.node_eq hsame n
  · have hgrown :=
      (failsAside_handle hregion (own_self _ _) hparent hhandler).bad_of_outcome hfails
    have hold : ∀ n < s.document.size, t.document.node n = s.document.node n :=
      fun n hn => hgrown.same n (Nat.not_le_of_lt hn)
    exact ⟨fun n hn _ => hold n hn, fun n hn => hgrown.not_isAttached hlinked hpos hn,
      fun _ h => absurd h hhandler, fun _ => hold⟩

section Examples

/-- A page with an element whose attributes are given by a list. -/
def listingPage (list : String) : Document where
  nodes := #[
    { kind := .root, children := [1] },
    { kind := .element { name := .parse "r" }, parent := some 0, children := [2] },
    { kind := .element {
        name := .parse "p", attributes := [⟨.parse "tal:attributes", list⟩] },
      parent := some 1 }]

def listingState (list : String) : RenderState :=
  { document := listingPage list, globals := { root := .null } }

/-- Where the first item fails, the element is as it was. -/
theorem failed_unchanged_of_first_item :
    let s := listingState "class missing; title string:x"
    let ctx := Context.ofNode s.document 2 {}
    ∃ stop t, s.document.WellLinked ∧ s.document.isAttached ctx.node = true ∧ ctx.node ≠ root ∧
      outcome (Handler.attributes.handle {} ctx) s = (.error stop, t) ∧
      ∀ n < s.document.size, t.document.node n = s.document.node n := by
  intro s ctx
  have hlinked : s.document.WellLinked := by decide +kernel
  have hattached : s.document.isAttached ctx.node = true := by decide +kernel
  have hroot : ctx.node ≠ root := by decide
  obtain ⟨stop, hstop⟩ := exists_error_of_toOption
    (by decide +kernel : (outcome (Handler.attributes.handle {} ctx) s).1.toOption.isNone = true)
  have hfails : outcome (Handler.attributes.handle {} ctx) s = (.error stop, _) :=
    Prod.ext hstop rfl
  obtain ⟨-, -, hiff⟩ := failed_unchanged_iff hlinked hattached hroot hfails
  refine ⟨stop, _, hlinked, hattached, hroot, hfails, hiff.mpr fun _ => ⟨s, ?_, rfl⟩⟩
  refine ⟨"class missing; title string:x", [], "class missing", ["title string:x"], ?_, ?_, rfl, ?_⟩
  · decide +kernel
  · decide +kernel
  · decide +kernel

/-- Where the second item fails, the element has got the attribute of the first. -/
theorem not_failed_unchanged_of_second_item :
    let s := listingState "title string:x; class missing"
    let ctx := Context.ofNode s.document 2 {}
    ∃ stop t, s.document.WellLinked ∧ s.document.isAttached ctx.node = true ∧ ctx.node ≠ root ∧
      outcome (Handler.attributes.handle {} ctx) s = (.error stop, t) ∧
      s.document.attribute? 2 "title" = none ∧ t.document.attribute? 2 "title" = some "x" ∧
      ¬ ∀ n < s.document.size, t.document.node n = s.document.node n := by
  intro s ctx
  obtain ⟨stop, hstop⟩ := exists_error_of_toOption
    (by decide +kernel : (outcome (Handler.attributes.handle {} ctx) s).1.toOption.isNone = true)
  refine ⟨stop, _, by decide +kernel, by decide +kernel, by decide, Prod.ext hstop rfl,
    by decide +kernel, by decide +kernel, ?_⟩
  decide +kernel

end Examples

end Handler

end PageTemplate
