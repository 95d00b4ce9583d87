import PageTemplate.Proofs.Markup.CopyLayout
import PageTemplate.Proofs.Render.Assigning

/-! # Directives that leave alone what is read

Which directives an element has is read off the element and what is above it. Of the directives
themselves only the list of attributes changes the element. The others hand it on as it was, and what
is above it too, so that after them every directive is read as before.
-/

namespace PageTemplate

open Markup Document

namespace Markup.Document

variable {d t u : Document} {x n m : NodeId} {nodes : List NodeId}

/-- What is above a node is not among its children. -/
theorem Grounded.not_mem_children (hground : d.Grounded x) (hn : d.Below n x) :
    n ∉ d.children x := by
  intro hchild
  obtain ⟨top, htop, hbelow⟩ := hground.rooted
  exact hground.linked.not_below_parent htop (hbelow.child hchild)
    (hground.linked.parent_eq hchild) hn

/-- The node and what is above it have stayed what they are, where they are. -/
structure SameAbove (x : NodeId) (d t : Document) : Prop where
  linked : t.WellLinked
  size_le : d.size ≤ t.size
  same : ∀ n, d.Below n x → t.kind n = d.kind n ∧ t.parent n = d.parent n

namespace SameAbove

protected theorem refl (hlinked : d.WellLinked) : SameAbove x d d :=
  ⟨hlinked, Nat.le_refl _, fun _ _ => ⟨rfl, rfl⟩⟩

theorem of_extends (hgrown : Extends d t) (hground : d.Grounded x) : SameAbove x d t := by
  refine ⟨hgrown.linked, hgrown.size_le, fun n hn => ?_⟩
  have hold := Nat.not_le_of_lt (hground.linked.above_lt hn hground.lt)
  exact ⟨hgrown.kind_eq hold, hgrown.parent_eq hold⟩

variable (h : SameAbove x d t)

include h

theorem element?_eq : t.element? x = d.element? x := congrArg NodeKind.element? (h.same x .refl).1

theorem grounded (hground : d.Grounded x) : t.Grounded x :=
  (hground.of_above_same h.linked h.size_le h.same).1

theorem namespaceAround_eq (hground : d.Grounded x) :
    t.namespaceAround x = d.namespaceAround x :=
  hground.namespaceAround_eq h.linked h.size_le (h.same x .refl).2 fun n hn _ => h.same n hn

theorem namespaceOf_eq (hground : d.Grounded x) (qualifier : Option String) :
    t.namespaceOf x qualifier = d.namespaceOf x qualifier :=
  congrArg (Namespace.mk qualifier)
    ((hground.of_above_same h.linked h.size_le h.same).2.1 qualifier)

theorem attributeMatches_eq (hground : d.Grounded x) :
    t.attributeMatches x = d.attributeMatches x := by
  funext attr spec
  unfold attributeMatches inNamespace elementNamespace?
  simp only [h.namespaceOf_eq hground, h.element?_eq]

/-- What is above the node is above it afterwards. -/
theorem below (hlinked : d.WellLinked) (hn : d.Below n m) (hm : d.Below m x) : t.Below n m := by
  induction hn with
  | refl => exact .refl
  | child _ hchild ih =>
      refine .child (ih (.of_child hchild hm)) (h.linked.mem_children ?_)
      rw [(h.same _ hm).2, hlinked.parent_eq hchild]

protected theorem trans (hlinked : d.WellLinked) (h' : SameAbove x t u) : SameAbove x d u := by
  refine ⟨h'.linked, Nat.le_trans h.size_le h'.size_le, fun n hn => ?_⟩
  obtain ⟨hkind, hparent⟩ := h'.same n (h.below hlinked hn .refl)
  exact ⟨hkind.trans (h.same n hn).1, hparent.trans (h.same n hn).2⟩

/-! The children of the node may be taken away, and new ones put there. -/

theorem clearChildren (hground : d.Grounded x) : SameAbove x d (t.clearChildren x) := by
  have hlt := (h.grounded hground).lt
  refine ⟨h.linked.clearChildren hlt, ?_, fun n hn => ⟨?_, ?_⟩⟩
  · rw [size_clearChildren]
    exact h.size_le
  · rw [kind_clearChildren, (h.same n hn).1]
  · have hnot : n ∉ t.children x := fun hchild => by
      have hparent := h.linked.parent_eq hchild
      rw [(h.same n hn).2] at hparent
      exact hground.not_mem_children hn (hground.linked.mem_children hparent)
    rw [h.linked.parent_clearChildren, if_neg hnot, (h.same n hn).2]

theorem append (hground : d.Grounded x) (hm : m < t.size) (hnew : d.size ≤ n) (hlt : n < t.size) :
    SameAbove x d (t.append m n) := by
  have hpos := Nat.lt_of_le_of_lt (Nat.zero_le x) hground.lt
  refine ⟨?_, ?_, fun y hy => ?_⟩
  · refine (h.linked.detach n).place ?_ (Nat.ne_of_gt (Nat.lt_of_lt_of_le hpos hnew))
      (by rwa [size_detach]) (by rwa [size_detach]) (Nat.le_refl _)
    rw [h.linked.parent_detach, if_pos rfl]
  · rw [size_append]
    exact h.size_le
  · have hne : y ≠ n :=
      Nat.ne_of_lt (Nat.lt_of_lt_of_le (hground.linked.above_lt hy hground.lt) hnew)
    obtain ⟨hkind, hparent⟩ := h.same y hy
    unfold Document.append
    rw [kind_place, kind_detach, parent_place (by rwa [size_detach]), if_neg hne,
      h.linked.parent_detach, if_neg hne]
    exact ⟨hkind, hparent⟩

theorem replaceChildren (hground : d.Grounded x) (hnodes : ∀ n ∈ nodes, d.size ≤ n ∧ n < t.size) :
    SameAbove x d (t.replaceChildren x nodes) := by
  have hcleared := h.clearChildren hground
  have hsize := size_clearChildren t x
  unfold Document.replaceChildren
  generalize t.clearChildren x = cleared at hcleared hsize ⊢
  rw [← hsize] at hnodes
  induction nodes generalizing cleared with
  | nil => exact hcleared
  | cons n nodes ih =>
      obtain ⟨hn, hrest⟩ := List.forall_mem_cons.mp hnodes
      refine ih _ ?_ (hcleared.append hground (hcleared.grounded hground).lt hn.1 hn.2) ?_
      · rwa [size_append]
      · rwa [size_append]

end SameAbove

end Markup.Document

variable {settings : Settings} {ctx : Context} {s : RenderState}

/-- What the second of two steps ensures in every state. -/
theorem Ensures.bind_any {α β : Type} {m : Rendering α} {f : α → Rendering β}
    {ok : β → RenderState → Prop} (hf : ∀ a t, Ensures (f a) t ok fun _ _ => True) :
    Ensures (m >>= f) s ok fun _ _ => True := by
  have hdone : Ensures m s (fun _ _ => True) fun _ _ => True := Ensures.of_state trivial
  exact Ensures.bind (hdone.mono (fun a t _ => hf a t) fun _ _ => id)

/-- What the step hands on of the element has the attributes that were written, and the element and
what is above it are as they were. -/
def HandsOnSteady (ctx : Context) (step : Rendering Outcome) (s : RenderState) : Prop :=
  Ensures step s (fun made t => ∀ c ∈ made.contexts, c.node = ctx.node →
    c.written = ctx.written ∧ SameAbove ctx.node s.document t.document) fun _ _ => True

namespace HandsOnSteady

variable {α : Type} {m : Rendering α} {f : α → Rendering Outcome}

/-- Steps that leave the document alone may come first. -/
theorem after {ok : α → Prop}
    (hm : Ensures m s (fun a t => ok a ∧ t.document = s.document) fun _ _ => True)
    (hf : ∀ a t, ok a → t.document = s.document → HandsOnSteady ctx (f a) t) :
    HandsOnSteady ctx (m >>= f) s := by
  refine Ensures.bind (hm.mono (fun a t ht => ?_) fun _ _ => id)
  have hnext := hf a t ht.1 ht.2
  unfold HandsOnSteady at hnext
  rwa [ht.2] at hnext

theorem after_same
    (hm : Ensures m s (fun _ t => t.document = s.document) fun _ t => t.document = s.document)
    (hf : ∀ a t, t.document = s.document → HandsOnSteady ctx (f a) t) :
    HandsOnSteady ctx (m >>= f) s :=
  have hsame : Ensures m s (fun _ t => True ∧ t.document = s.document) fun _ _ => True :=
    hm.mono (fun _ _ ht => ⟨trivial, ht⟩) fun _ _ _ => trivial
  after hsame fun a t _ => hf a t

/-- The last step hands nothing on, whatever was done before it. -/
theorem last (hf : ∀ a t, Ensures (f a) t (fun made _ => made.contexts = []) fun _ _ => True) :
    HandsOnSteady ctx (m >>= f) s :=
  (Ensures.bind_any hf).mono (fun _ _ hnil => hnil ▸ List.forall_mem_nil _) fun _ _ => id

theorem keep {c : Context} (hlinked : s.document.WellLinked) (hc : c.written = ctx.written) :
    HandsOnSteady ctx (pure (.keep c)) s :=
  Ensures.pure fun _ hmem _ => by
    obtain rfl := List.mem_singleton.mp hmem
    exact ⟨hc, .refl hlinked⟩

end HandsOnSteady

/-! ## Directive by directive -/

theorem Define.ensures_defineItem_written (c : Context) (s : RenderState) (item : String) :
    Ensures (defineItem settings c item) s
      (fun c' t => c'.written = c.written ∧ t.document = s.document) fun _ _ => True := by
  unfold defineItem
  refine Ensures.bind ((c.ensures_readDirective_same s _ _ _).mono (fun definition t ht => ?_)
    fun _ _ _ => trivial)
  refine Ensures.bind ((c.ensures_readDirective_same t _ _ _).mono (fun target u hu => ?_)
    fun _ _ _ => trivial)
  refine Ensures.bind ((c.ensures_evaluateDirective_same settings u _ _).mono (fun value w hw => ?_)
    fun _ _ _ => trivial)
  have hdocument : w.document = s.document := hw.trans (hu.trans ht)
  split
  · exact Ensures.pure ⟨rfl, hdocument⟩
  · split
    · exact Ensures.pure ⟨rfl, hdocument⟩
    · exact Ensures.bind (Rendering.ensures_bindGlobal (Ensures.pure ⟨rfl, hdocument⟩))

theorem Define.handsOnSteady_handle (hlinked : s.document.WellLinked) :
    HandsOnSteady ctx (handle settings ctx) s := by
  unfold handle
  refine Ensures.bind (Rendering.ensures_document ?_)
  split
  · exact HandsOnSteady.keep hlinked rfl
  next value _ =>
    have hitems : Ensures ((Directive.splitItems value).foldlM (defineItem settings) ctx) s
        (fun c t => c.written = ctx.written ∧ t.document = s.document) fun _ _ => True := by
      refine Ensures.foldlM (fun _ c t => Context.written c = ctx.written ∧
        RenderState.document t = s.document) ⟨rfl, rfl⟩ ?_
      rintro item _ c t ⟨hc, ht⟩
      exact (ensures_defineItem_written c t item).mono
        (fun _ _ h => ⟨h.1.trans hc, h.2.trans ht⟩) fun _ _ => id
    exact HandsOnSteady.after hitems fun c t hc ht => HandsOnSteady.keep (by rwa [ht]) hc

theorem Condition.handsOnSteady_handle (hlinked : s.document.WellLinked) :
    HandsOnSteady ctx (handle settings ctx) s := by
  unfold handle
  refine Ensures.bind (Rendering.ensures_document ?_)
  split
  · exact HandsOnSteady.keep hlinked rfl
  · refine HandsOnSteady.after_same (ctx.ensures_evaluateDirective_same settings s _ _)
      fun value t ht => ?_
    split
    · exact HandsOnSteady.keep (by rwa [ht]) rfl
    · exact Ensures.bind (Rendering.ensures_changeDocument (Ensures.pure (List.forall_mem_nil _)))

theorem OmitTag.handsOnSteady_handle (hlinked : s.document.WellLinked) :
    HandsOnSteady ctx (handle settings ctx) s := by
  unfold handle
  refine Ensures.bind (Rendering.ensures_document ?_)
  split
  · exact HandsOnSteady.keep hlinked rfl
  next expression _ =>
    refine HandsOnSteady.after_same (ensures_omits_same s expression) fun omitted t ht => ?_
    split
    · exact HandsOnSteady.last fun promoted u =>
        Ensures.bind (Rendering.ensures_document (Ensures.pure rfl))
    · exact HandsOnSteady.keep (by rwa [ht]) rfl

theorem Repeat.ensures_copyFor_new (hlt : ctx.node < s.document.size) (name : String)
    (count : Nat) (item : Value) (index : Nat) :
    Ensures (copyFor settings ctx name count item index) s
      (fun c t => ctx.node < c.node ∧ ctx.node < t.document.size) fun _ _ => True := by
  have hcopy : ctx.node < (s.document.deepCopy ctx.node).2 := by
    unfold deepCopy
    rwa [graft_snd]
  have hgrown : ctx.node < (s.document.deepCopy ctx.node).1.size :=
    (kind_graft_of_lt (s.document.tree ctx.node) hlt).1
  refine Ensures.bind (Rendering.ensures_createIn ?_)
  generalize s.document.deepCopy ctx.node = copied at hcopy hgrown ⊢
  refine Ensures.bind (Rendering.ensures_edit ((ensures_insertBefore _ _ _).mono ?_ ?_))
  · rintro - d ⟨p, place, -, rfl⟩
    refine Ensures.bind (Rendering.ensures_changeDocument ?_)
    refine Ensures.bind (Rendering.ensures_document (Ensures.pure ⟨hcopy, ?_⟩))
    unfold removeAttributeBySpec
    split <;> simpa [eraseAttribute] using hgrown
  · exact fun _ _ _ => trivial

/-- What is handed on instead of a repeated element are copies, which are new. -/
theorem Repeat.handsOnSteady_handle (hground : s.document.Grounded ctx.node) :
    HandsOnSteady ctx (handle settings ctx) s := by
  unfold handle
  refine Ensures.bind (Rendering.ensures_document ?_)
  split
  · exact HandsOnSteady.keep hground.linked rfl
  refine HandsOnSteady.after_same (ctx.ensures_readDirective_same s _ _ _) fun read t ht => ?_
  rw [← ht] at hground
  refine HandsOnSteady.after_same (ctx.ensures_evaluateDirective_same settings t _ _) ?_
  intro result u hu
  rw [← hu] at hground
  split
  · exact HandsOnSteady.keep hground.linked rfl
  split
  · exact Ensures.bind (Rendering.ensures_document (Rendering.ensures_fail trivial))
  · refine Ensures.bind ((Ensures.mapM [] (fun _ copies w => (∀ c ∈ copies,
      ctx.node < Context.node c) ∧ ctx.node < (RenderState.document w).size)
      ⟨List.forall_mem_nil _, hground.lt⟩ ?_).mono ?_ fun _ _ => id)
    · rintro ⟨item, index⟩ rest copies w ⟨hcopies, hlt⟩
      refine (ensures_copyFor_new hlt _ _ item index).mono (fun c w' h => ⟨?_, h.2⟩) fun _ _ => id
      exact List.forall_mem_append.mpr ⟨hcopies, List.forall_mem_singleton.mpr h.1⟩
    · rintro copies w ⟨hcopies, -⟩
      exact Ensures.bind (Rendering.ensures_changeDocument (Ensures.pure fun c hc hnode =>
        absurd hnode (Nat.ne_of_gt (hcopies c hc))))

namespace Content

theorem handsOnSteady_handleContent (hground : s.document.Grounded ctx.node) (value : String) :
    HandsOnSteady ctx (handleContent settings ctx value) s := by
  unfold handleContent
  refine HandsOnSteady.after_same (ctx.ensures_readDirective_same s _ _ _) fun read t ht => ?_
  rw [← ht] at hground
  refine HandsOnSteady.after_same (ctx.ensures_evaluateDirective_same settings t _ _) ?_
  intro result u hu
  rw [← hu] at hground
  split
  · exact HandsOnSteady.keep hground.linked rfl
  split
  · refine Ensures.bind (Rendering.ensures_changeDocument (Ensures.pure fun c hc _ => ?_))
    obtain rfl := List.mem_singleton.mp hc
    exact ⟨rfl, (SameAbove.refl hground.linked).clearChildren hground⟩
  · refine Ensures.bind ((ensures_contentNodes hground.linked _ _).mono ?_ fun _ _ _ => trivial)
    rintro nodes w ⟨-, hgrown, -, hnodes⟩
    refine Ensures.bind (Rendering.ensures_changeDocument (Ensures.pure fun c hc _ => ?_))
    obtain rfl := List.mem_singleton.mp hc
    exact ⟨rfl, (SameAbove.of_extends hgrown hground).replaceChildren hground hnodes⟩

theorem handsOnSteady_handleReplace (value : String) :
    HandsOnSteady ctx (handleReplace settings ctx value) s := by
  unfold handleReplace
  refine HandsOnSteady.after_same (ctx.ensures_readDirective_same s _ _ _) fun read t ht => ?_
  refine HandsOnSteady.after_same (ctx.ensures_evaluateDirective_same settings t _ _) ?_
  intro result u hu
  split
  · exact HandsOnSteady.last fun promoted w =>
      Ensures.bind (Rendering.ensures_document (Ensures.pure rfl))
  split
  · exact Ensures.bind (Rendering.ensures_changeDocument (Ensures.pure (List.forall_mem_nil _)))
  · exact HandsOnSteady.last fun nodes w => Ensures.bind_any fun done v => Ensures.pure rfl

theorem handsOnSteady_handle (hground : s.document.Grounded ctx.node) :
    HandsOnSteady ctx (handle settings ctx) s := by
  unfold handle
  refine Ensures.bind (Rendering.ensures_document ?_)
  split
  · exact Rendering.ensures_fail trivial
  · exact handsOnSteady_handleContent hground _
  · exact handsOnSteady_handleReplace _
  · exact HandsOnSteady.keep hground.linked rfl

end Content

/-! ## One directive after the other -/

/-- Of the directives of an element only the list of attributes changes what is read from it: where
another one hands the element on, every directive is read as before. -/
theorem Handler.sameAbove_of_handle {handler : Handler} (hother : handler ≠ .attributes)
    (hground : s.document.Grounded ctx.node) {made : Outcome} {t : RenderState}
    (hhandle : outcome (handler.handle settings ctx) s = (.ok made, t)) {c : Context}
    (hc : c ∈ made.contexts) (hnode : c.node = ctx.node) :
    c.written = ctx.written ∧ SameAbove ctx.node s.document t.document := by
  have hsteady : HandsOnSteady ctx (handler.handle settings ctx) s := by
    cases handler with
    | define => exact Define.handsOnSteady_handle hground.linked
    | condition => exact Condition.handsOnSteady_handle hground.linked
    | repetition => exact Repeat.handsOnSteady_handle hground
    | content => exact Content.handsOnSteady_handle hground
    | attributes => exact absurd rfl hother
    | omitTag => exact OmitTag.handsOnSteady_handle hground.linked
  exact Ensures.ok_of_outcome hsteady hhandle c hc hnode

/-- Directives hand an element on, one to the other. Before each of them, and after the last, other
elements may have their turns, as long as the element and what is above it stay as they are. -/
inductive HandedOn (settings : Settings) :
    List Handler → Context → RenderState → Context → RenderState → Prop
  | done {ctx : Context} {s t : RenderState}
      (hothers : SameAbove ctx.node s.document t.document) : HandedOn settings [] ctx s ctx t
  | step {handler : Handler} {handlers : List Handler} {ctx c c' : Context}
      {s t u u' : RenderState} {made : Outcome}
      (hothers : SameAbove ctx.node s.document t.document)
      (hhandle : outcome (handler.handle settings ctx) t = (.ok made, u))
      (hc : c ∈ made.contexts) (hnode : c.node = ctx.node)
      (hrest : HandedOn settings handlers c u c' u') :
      HandedOn settings (handler :: handlers) ctx s c' u'

namespace HandedOn

variable {handlers : List Handler} {c : Context} {t : RenderState}
  (h : HandedOn settings handlers ctx s c t) (hother : .attributes ∉ handlers)
  (hground : s.document.Grounded ctx.node)

include h hother hground

/-- As long as no list of attributes is among them, directives leave the element and what is above
it as they were. -/
theorem sameAbove :
    c.node = ctx.node ∧ c.written = ctx.written ∧ SameAbove ctx.node s.document t.document := by
  induction h with
  | done hothers => exact ⟨rfl, rfl, hothers⟩
  | step hothers hhandle hc hnode _ ih =>
      obtain ⟨hfirst, hrest⟩ := not_or.mp (mt List.mem_cons.mpr hother)
      have hground' := hothers.grounded hground
      obtain ⟨hwritten, hsame⟩ :=
        Handler.sameAbove_of_handle (Ne.symm hfirst) hground' hhandle hc hnode
      rw [hnode] at ih
      obtain ⟨hnode', hwritten', hsame'⟩ := ih hrest (hsame.grounded hground')
      exact ⟨hnode', hwritten'.trans hwritten,
        hothers.trans hground.linked (hsame.trans hground'.linked hsame')⟩

/-- So every directive is read as before. -/
theorem directive?_eq (spec : AttributeSpec) :
    c.directive? t.document spec = ctx.directive? s.document spec := by
  obtain ⟨hnode, hwritten, hsame⟩ := h.sameAbove hother hground
  unfold Context.directive?
  rw [hwritten, hnode, hsame.attributeMatches_eq hground]

end HandedOn

/-! ## Directives that an element does not have -/

/-- The attributes that stand for a directive. -/
def Handler.specs (v : Vocabularies) : Handler → List AttributeSpec
  | .define => [v.define]
  | .condition => [v.condition]
  | .repetition => [v.repetition]
  | .content => [v.content, v.replace]
  | .attributes => [v.attributes]
  | .omitTag => [v.omitTag]

/-- The element does not have the directive. -/
def Handler.Absent (handler : Handler) (settings : Settings) (ctx : Context) (d : Document) :
    Prop :=
  ∀ spec ∈ handler.specs settings.vocabularies, ctx.directive? d spec = none

theorem Handler.outcome_handle_of_absent {handler : Handler}
    (habsent : handler.Absent settings ctx s.document) :
    outcome (handler.handle settings ctx) s = (.ok (.keep ctx), s) := by
  cases handler with
  | define =>
      have hnone := habsent settings.vocabularies.define List.mem_cons_self
      rw [handle, Define.handle, outcome_bind_ok (Rendering.outcome_document s), hnone]
      rfl
  | condition =>
      have hnone := habsent settings.vocabularies.condition List.mem_cons_self
      rw [handle, Condition.handle, outcome_bind_ok (Rendering.outcome_document s), hnone]
      rfl
  | repetition =>
      have hnone := habsent settings.vocabularies.repetition List.mem_cons_self
      rw [handle, Repeat.handle, outcome_bind_ok (Rendering.outcome_document s), hnone]
      rfl
  | content =>
      have hnone := habsent settings.vocabularies.content List.mem_cons_self
      have hnone' := habsent settings.vocabularies.replace (by simp [specs])
      rw [handle, Content.handle, outcome_bind_ok (Rendering.outcome_document s), hnone, hnone']
      rfl
  | attributes =>
      have hnone := habsent settings.vocabularies.attributes List.mem_cons_self
      rw [handle, Attributes.handle, outcome_bind_ok (Rendering.outcome_document s), hnone]
      rfl
  | omitTag =>
      have hnone := habsent settings.vocabularies.omitTag List.mem_cons_self
      rw [handle, OmitTag.handle, outcome_bind_ok (Rendering.outcome_document s), hnone]
      rfl

/-- Directives that it does not have hand the element on at once. -/
theorem HandedOn.of_absent {handlers : List Handler} (hlinked : s.document.WellLinked)
    (habsent : ∀ handler ∈ handlers, handler.Absent settings ctx s.document) :
    HandedOn settings handlers ctx s ctx s := by
  induction handlers with
  | nil => exact .done (.refl hlinked)
  | cons handler handlers ih =>
      obtain ⟨hfirst, hrest⟩ := List.forall_mem_cons.mp habsent
      exact .step (.refl hlinked) (Handler.outcome_handle_of_absent hfirst) List.mem_cons_self rfl
        (ih hrest)

end PageTemplate
