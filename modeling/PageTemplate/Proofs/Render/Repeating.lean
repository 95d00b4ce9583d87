import PageTemplate.Proofs.Markup.AttributeEdits
import PageTemplate.Proofs.Markup.Exchange
import PageTemplate.Proofs.Render.SlotFilling
import PageTemplate.Proofs.Render.Steps
import PageTemplate.Render.Repeat

/-! # The copies of an element that is repeated

The copies that a repetition makes come to stand where the element stood, in the order of the items.
Each is what the element is, without the repetition, and as it stands at the same place, names mean
the same on it. Its scope is one of its own beside that of the element, with the item bound in it.
-/

namespace PageTemplate

open Markup Document

namespace Markup.Document

variable {view : View} {d d' d₁ d₂ d₃ : Document} {n n' n'' x p copy : NodeId}

theorem Grounded.sameTree (view : View) (h : d.Grounded n) : SameTree view d d n n :=
  ⟨h.lt, h.lt, h.throughout, h.throughout, rfl⟩

theorem SameTree.trans (h : SameTree view d d' n n') (h' : SameTree view d' d₁ n' n'') :
    SameTree view d d₁ n n'' :=
  ⟨h.lt, h'.lt', h.height, h'.height', h'.tree_eq.trans h.tree_eq⟩

/-- The children of a copy have the trees of the original's children, at the copy's place, too. -/
theorem Copied.sameTrees_inserted {good : NodeId → NodeKind → Prop} {h : Nat}
    (hx : d.Grounded x) (hparent : d.parent x = some p) (hcopied : d.deepCopy x = (d₁, copy))
    (hcopy : Copied good h d d₁ copy) (hinsert : outcome (insertBefore x copy) d₁ = (.ok (), d₂))
    (hrelabeled : Relabeled copy d₂ d₃) :
    List.Forall₂ (SameTree .whole d d₃) (d.children x) (d₃.children copy) := by
  have hlinked := hx.linked
  have hplt := (hlinked.lt_of_parent hparent).1
  have hconfined := hcopy.confined_inserted hlinked hparent hinsert hrelabeled
  obtain ⟨_, _, -, hall⟩ := hcopy.children_inserted hlinked hparent hinsert hrelabeled
  have hne : copy ≠ p := (Nat.ne_of_lt (Nat.lt_of_lt_of_le hplt hcopy.new)).symm
  have halike : Alike d d₁ x copy := by
    have hgraft := hx.alike_graft hlinked
    rwa [show d.graft (d.tree x) = (d₁, copy) from hcopied] at hgraft
  have hground : d₁.Grounded copy := ⟨hcopy.grown.linked, hcopy.lt, .of_parent hcopy.parent_eq⟩
  have hchildren := (downward_alike d d₁).children halike
  rw [hall, if_neg hne]
  apply forall₂_imp_of_mem hchildren
  intro c hchild c' hchild' halike
  have hsame := (downward_alike d d₁).sameTree halike
    (hx.below (.child .refl hchild)) (hground.below (.child .refl hchild'))
  apply hsame.confined (.refl (R := fun _ => False) hlinked) hconfined fun _ _ => id
  rintro m hm (rfl | rfl)
  · exact hcopy.grown.linked.not_below_parent hcopy.parent_eq (.child .refl hchild')
      (hcopy.grown.linked.parent_eq hchild') hm
  · have hnew := hcopy.grown.below_new hlinked hcopy.new (.of_child hchild' hm)
    exact Nat.not_le_of_lt hplt hnew

end Markup.Document

namespace Repeat

variable {settings : Settings} {v : Vocabularies} {entry : Context} {d t t' : Document}
  {p : NodeId} {round : Repetition} {rounds : List Repetition} {c : Context}
  {copies : List Context} {s : RenderState}

/-- The copy that is made for one round: the element without its repetition, with the scope in which
the round is bound, below `p`. -/
structure CopyOf (v : Vocabularies) (entry : Context) (p : NodeId) (d t : Document)
    (round : Repetition) (c : Context) : Prop where
  new : d.size ≤ c.node
  parent_eq : t.parent c.node = some p
  element?_eq : t.element? c.node = (d.element? entry.node).map fun element =>
    { element with
      attributes := element.attributes.eraseP (d.attributeMatches entry.node · v.repetition) }
  children : List.Forall₂ (SameTree .whole d t) (d.children entry.node) (t.children c.node)
  context_eq : c = { entry.sibling t c.node with scope := entry.scope.sibling.bindRepetition round }
  below_new : ∀ m, t.Below c.node m → d.size ≤ m

/-- The copies for some rounds stand before the element. -/
structure Copying (v : Vocabularies) (entry : Context) (p : NodeId) (d : Document)
    (rounds : List Repetition) (copies : List Context) (t : Document) : Prop
    extends Within (d.size ≤ ·) p d t where
  children_outer : ∃ front back, d.children p = front ++ entry.node :: back ∧
    t.children p = front ++ copies.map (·.node) ++ entry.node :: back
  copies : List.Forall₂ (CopyOf v entry p d t) rounds copies

/-- The copies for all rounds stand where the element stood. -/
structure Unrolled (v : Vocabularies) (entry : Context) (p : NodeId) (d : Document)
    (rounds : List Repetition) (copies : List Context) (t : Document) : Prop where
  linked : t.WellLinked
  size_le : d.size ≤ t.size
  same : ∀ n < d.size, n ≠ p → n ≠ entry.node → t.node n = d.node n
  outer_kind : t.kind p = d.kind p
  outer_parent : t.parent p = d.parent p
  children_outer : ∃ front back, d.children p = front ++ entry.node :: back ∧
    t.children p = front ++ copies.map (·.node) ++ back
  copies : List.Forall₂ (CopyOf v entry p d t) rounds copies

/-! ## One more copy -/

/-- A copy stays what it is as long as nothing below it changes. -/
theorem CopyOf.kept {R : NodeId → Prop} (h : CopyOf v entry p d t round c)
    (hlinked : d.WellLinked) (hconfined : Confined R t t')
    (hout : ∀ m, t.Below c.node m → ¬ R m) : CopyOf v entry p d t' round c := by
  have hself := hout c.node .refl
  refine ⟨h.new, ?_, ?_, ?_, ?_, fun m hm => h.below_new m ((hconfined.below_iff hout).mp hm)⟩
  · rw [hconfined.parent_eq hself, h.parent_eq]
  · rw [← h.element?_eq, element?, element?, hconfined.kind_eq hself]
  · rw [hconfined.children_eq hself]
    apply forall₂_imp_of_mem h.children
    intro n _ n' hchild hsame
    apply hsame.confined (.refl (R := fun _ => False) hlinked) hconfined fun _ _ => id
    exact fun m hm => hout m (.of_child hchild hm)
  · rw [h.context_eq]
    simp only [Context.sibling, Context.ofNode, attributes_congr (hconfined.kind_eq hself)]

/-- Before the first round there are no copies. -/
theorem copying_nil (hlinked : d.WellLinked) (hx : d.parent entry.node = some p) :
    Copying v entry p d [] [] d := by
  obtain ⟨front, back, hchildren⟩ := List.append_of_mem (hlinked.mem_children hx)
  exact ⟨.refl hlinked, ⟨front, back, hchildren, by simpa using hchildren⟩, .nil⟩

section

variable (hentry : d.Grounded entry.node) (hx : d.parent entry.node = some p)

include hentry hx

/-- The element itself stays what it is while copies of it are made. -/
theorem Copying.original (h : Copying v entry p d rounds copies t) :
    t.Grounded entry.node ∧ t.parent entry.node = some p ∧
      t.element? entry.node = d.element? entry.node ∧
      t.children entry.node = d.children entry.node ∧
      ∀ n ∈ d.children entry.node, SameTree .whole d t n n := by
  obtain ⟨hkind, hparent⟩ := h.old_eq hentry.lt
  have hout : ∀ m, d.Below entry.node m → ¬ (d.size ≤ m ∨ m = p) := by
    rintro m hm (hnew | rfl)
    · exact Nat.not_le_of_lt (hentry.linked.below_lt hm hentry.lt) hnew
    · obtain ⟨top, htop, hbelow⟩ := hentry.rooted
      exact hentry.linked.not_below_parent htop hbelow hx hm
  refine ⟨h.grounded_old hentry, hparent.trans hx, congrArg NodeKind.element? hkind,
    h.toConfined.children_eq (hout _ .refl), fun n hchild => ?_⟩
  apply ((hentry.below (.child .refl hchild)).sameTree .whole).confined
    (.refl (R := fun _ => False) hentry.linked) h.toConfined fun _ _ => id
  exact fun m hm => hout m (.of_child hchild hm)

/-- One more copy is made, right before the element. -/
theorem Copying.outcome_copyFor (round : Repetition)
    (h : Copying settings.vocabularies entry p d rounds copies s.document) :
    ∃ c d', outcome (copyFor settings entry round.name round.count round.item round.index) s =
        (.ok c, { s with document := d' }) ∧
      Copying settings.vocabularies entry p d (rounds ++ [round]) (copies ++ [c]) d' := by
  obtain ⟨hground, hparent, helement, hchildren, hsame⟩ := h.original hentry hx
  have hlinked := hground.linked
  have hplt := (hentry.linked.lt_of_parent hx).1
  have hdp : d.Grounded p := by
    obtain ⟨top, htop, hbelow⟩ := hentry.rooted
    exact ⟨hentry.linked, hplt, top, htop, hentry.linked.below_parent htop hbelow hx⟩
  have hp := h.grounded_old hdp
  have hregion := region_own hlinked hp.rooted hparent
  rcases hcopied : s.document.deepCopy entry.node with ⟨d₁, copy⟩
  have hcopy : Copied (fun _ _ => True) (s.document.tree entry.node).height s.document d₁ copy := by
    have hcopy := copied_graft_any hlinked (s.document.tree entry.node)
    rwa [show s.document.graft _ = (d₁, copy) from hcopied] at hcopy
  obtain ⟨d₂, hinsert, hbrought, -⟩ := Slots.exists_inserted hregion hparent hcopy
  have hinserted₂ := Inserted.of_steps hlinked hparent hcopy hinsert (.refl hbrought.linked)
  let d₃ := (d₂.removeAttributeBySpec copy settings.vocabularies.repetition).1
  have hremoved : Retouched (fun _ => True) copy d₂ d₃ :=
    retouched_removeAttributeBySpec hbrought.linked copy _
  have hinserted := Inserted.of_steps hlinked hparent hcopy hinsert hremoved.toRelabeled
  -- Before it is changed the copy reads its attributes as the element does.
  have helement₂ : d₂.element? copy = s.document.element? entry.node := by
    have hkind := (kind_graft s.document (s.document.tree entry.node)).trans (kind_tree _ _)
    rw [show s.document.graft _ = (d₁, copy) from hcopied] at hkind
    exact congrArg NodeKind.element? ((hbrought.kind_eq copy).trans hkind)
  have hreads : d₂.attributeMatches copy = d.attributeMatches entry.node := by
    rw [hinserted₂.attributeMatches_new hp hinserted₂.parent_copy (name?_congr helement₂)
      (declared?_congr helement₂)]
    symm
    exact hentry.attributeMatches_eq_below hx (name?_congr helement.symm)
      (declared?_congr helement.symm) fun qualifier => (h.lookupNamespace_old hdp qualifier).symm
  let c : Context :=
    { entry.sibling d₃ copy with scope := entry.scope.sibling.bindRepetition round }
  refine ⟨c, d₃, ?_, ?_, ?_, ?_⟩
  · have hedit : outcome (Rendering.edit (insertBefore entry.node copy))
        { s with document := d₁ } = (.ok (), { s with document := d₂ }) :=
      Rendering.outcome_edit_ok hinsert
    unfold copyFor
    rw [outcome_bind, Rendering.outcome_createIn, hcopied]
    dsimp only
    rw [outcome_bind_ok hedit]
    rfl
  · exact h.toWithin.trans (hinserted.toWithin.mono fun n hn => Nat.le_trans h.size_le hn)
  · obtain ⟨front, back, hold, hsofar⟩ := h.children_outer
    obtain ⟨front', back', hbefore, hafter⟩ := hinserted.children_outer
    have hnodup := hlinked.nodup_children p
    rw [hsofar, List.nodup_middle, List.nodup_cons, List.mem_append, not_or] at hnodup
    rw [hsofar] at hbefore
    obtain ⟨rfl, -, rfl⟩ := (List.append_cons_inj_of_notMem hnodup.1.1 hnodup.1.2).mp hbefore
    refine ⟨front, back, hold, ?_⟩
    rw [hafter, List.map_append, List.append_assoc front]
    simp [c, Context.sibling, Context.ofNode]
  · apply List.rel_append
    · apply forall₂_imp_of_mem h.copies
      intro round _ c _ hc
      apply hc.kept hentry.linked hinserted.toConfined
      rintro m hm (hnew | rfl)
      · have hlt := hlinked.below_lt hm (hlinked.lt_of_parent hc.parent_eq).2
        exact Nat.not_le_of_lt hlt hnew
      · exact Nat.not_le_of_lt hplt (hc.below_new m hm)
    · apply List.Forall₂.cons _ .nil
      refine ⟨Nat.le_trans h.size_le hcopy.new, hinserted.parent_copy, ?_, ?_, rfl,
        fun m hm => Nat.le_trans h.size_le (hinserted.below_copy m hm)⟩
      · show d₃.element? copy = _
        rw [element?_removeAttributeBySpec, if_pos rfl, helement₂, helement, hreads]
      · have hnew := hcopy.sameTrees_inserted hground hparent hcopied hinsert
          hremoved.toRelabeled
        rw [hchildren] at hnew
        apply forall₂_imp_of_mem hnew
        intro n hchild n' _ hcopied
        exact (hsame n hchild).trans hcopied

/-- The copies for several rounds are made one after the other. -/
theorem Copying.outcome_copies (todo : List Repetition)
    (h : Copying settings.vocabularies entry p d rounds copies s.document) :
    ∃ made d', outcome (todo.mapM fun round =>
        copyFor settings entry round.name round.count round.item round.index) s =
          (.ok made, { s with document := d' }) ∧
      Copying settings.vocabularies entry p d (rounds ++ todo) (copies ++ made) d' := by
  induction todo generalizing rounds copies s with
  | nil =>
      refine ⟨[], s.document, rfl, ?_⟩
      rwa [List.append_nil, List.append_nil]
  | cons round todo ih =>
      obtain ⟨c, d₁, hcopy, hcopying⟩ := h.outcome_copyFor hentry hx round
      obtain ⟨made, d₂, hmade, hcopying'⟩ :=
        ih (s := { s with document := d₁ }) hcopying
      refine ⟨c :: made, d₂, ?_, ?_⟩
      · rw [List.mapM_cons, outcome_bind_ok hcopy, outcome_bind_ok hmade]
        rfl
      · rwa [List.append_assoc, List.append_assoc] at hcopying'

/-- When the element is taken out, the copies stand in its place. -/
theorem Copying.unrolled (h : Copying v entry p d rounds copies t) :
    Unrolled v entry p d rounds copies (t.detach entry.node) := by
  obtain ⟨hground, hparent, -⟩ := h.original hentry hx
  have hlinked := hground.linked
  have hlt := hentry.linked.lt_of_parent hx
  have hkept : ∀ n, ¬ (n = entry.node ∨ n = p) →
      (t.detach entry.node).node n = t.node n := by
    intro n hn
    rw [not_or] at hn
    apply node_detach_of_ne hn.1
    rw [hparent]
    exact fun heq => hn.2 (Option.some.inj heq).symm
  have hne : p ≠ entry.node := by
    rintro heq
    obtain ⟨top, htop, hbelow⟩ := hentry.rooted
    exact hentry.linked.not_below_parent htop hbelow hx (heq ▸ .refl)
  have hconfined : Confined (fun n => n = entry.node ∨ n = p) t (t.detach entry.node) :=
    .of_kind (hlinked.detach _) (Nat.le_of_eq (size_detach t).symm) (kind_detach t _) hkept
  refine ⟨hlinked.detach _, size_detach t ▸ h.size_le, fun n hn hnp hnx => ?_, ?_, ?_, ?_, ?_⟩
  · rw [hkept n (not_or.mpr ⟨hnx, hnp⟩), h.same n (not_or.mpr ⟨Nat.not_le_of_lt hn, hnp⟩)]
  · rw [kind_detach, h.outer_kind]
  · rw [hlinked.parent_detach, if_neg hne, h.outer_parent]
  · obtain ⟨front, back, hold, hnew⟩ := h.children_outer
    have hnodup := hlinked.nodup_children p
    rw [hnew, List.nodup_middle, List.nodup_cons, List.mem_append, not_or] at hnodup
    refine ⟨front, back, hold, ?_⟩
    rw [hlinked.children_detach, hnew, List.filter_append,
      List.filter_cons_of_neg (by simp), filter_of_not_mem hnodup.1.1,
      filter_of_not_mem hnodup.1.2]
  · apply h.copies.imp
    intro round c hc
    apply hc.kept hentry.linked hconfined
    rintro m hm (rfl | rfl)
    · exact Nat.not_le_of_lt hlt.2 (hc.below_new _ hm)
    · exact Nat.not_le_of_lt hlt.1 (hc.below_new _ hm)

end

/-! ## The repetition -/

/-- The rounds that a repetition over some items goes through. -/
def roundsOf (name : String) (items : List Value) : List Repetition :=
  items.zipIdx.map fun (item, index) => { name, index, count := items.length, item }

/-- The name and the items of the element's repetition, when its expression yields items. -/
def items? (settings : Settings) (entry : Context) (s : RenderState) :
    Option (String × List Value) :=
  match entry.directive? s.document settings.vocabularies.repetition with
  | none => none
  | some value =>
    match Directive.readRepeat value with
    | .error _ => none
    | .ok (name, expression) =>
      match (outcome (entry.evaluateDirective settings settings.vocabularies.repetition
          expression) s).1 with
      | .error _ => none
      | .ok result =>
        if result.cancels || result.isNull then none else result.items?.map (name, ·)

/-- The element is repeated for these items, and it neither uses a macro, nor defines anything, nor
has a condition. -/
structure Repeats (settings : Settings) (entry : Context) (s : RenderState) (name : String)
    (items : List Value) : Prop where
  once : ((s.document.attributes entry.node).filter
    (s.document.attributeMatches entry.node · settings.vocabularies.repetition)).length = 1
  alone : ∀ spec ∈ [settings.vocabularies.useMacro, settings.vocabularies.define,
    settings.vocabularies.condition], s.document.hasAttribute entry.node spec = false
  yields : items? settings entry s = some (name, items)

/-- Evaluating an expression changes the cache alone. -/
theorem snd_outcome_evaluateDirective (settings : Settings) (entry : Context) (s : RenderState)
    (spec : AttributeSpec) (text : String) :
    (outcome (entry.evaluateDirective settings spec text) s).2 =
      { s with cache := (s.cache.get text).2 } := by
  have hevaluate : ∃ result, outcome (entry.evaluate settings text) s =
      (.ok result, { s with cache := (s.cache.get text).2 }) := ⟨_, rfl⟩
  obtain ⟨result, hresult⟩ := hevaluate
  unfold Context.evaluateDirective
  rw [outcome_bind_ok hresult]
  cases result <;> rfl

theorem exists_of_items? {name : String} {items : List Value}
    (h : items? settings entry s = some (name, items)) : ∃ value expression result cache,
    entry.directive? s.document settings.vocabularies.repetition = some value ∧
    Directive.readRepeat value = .ok (name, expression) ∧
    outcome (entry.evaluateDirective settings settings.vocabularies.repetition expression) s =
      (.ok result, { s with cache }) ∧
    result.cancels = false ∧ result.isNull = false ∧ result.items? = some items := by
  unfold items? at h
  split at h
  next => cases h
  next value hdirective =>
    split at h
    next => cases h
    next name' expression hread =>
      have hstate := snd_outcome_evaluateDirective settings entry s
        settings.vocabularies.repetition expression
      split at h
      next => cases h
      next result hresult =>
        split at h
        next => cases h
        next hplain =>
          obtain ⟨items', hitems, heq⟩ := Option.map_eq_some_iff.mp h
          obtain ⟨rfl, rfl⟩ := Prod.mk.inj heq
          rw [Bool.not_eq_true, Bool.or_eq_false_iff] at hplain
          exact ⟨value, expression, result, _, hdirective, hread, Prod.ext hresult hstate,
            hplain.1, hplain.2, hitems⟩

/-- The repetition of an element makes a copy for each item and then takes the element out. -/
theorem exists_copying {name : String} {items : List Value}
    (hyields : items? settings entry s = some (name, items))
    (hentry : s.document.Grounded entry.node) (hx : s.document.parent entry.node = some p) :
    ∃ copies t cache, outcome (handle settings entry) s =
        (.ok { contexts := copies }, { s with document := t.detach entry.node, cache }) ∧
      Copying settings.vocabularies entry p s.document (roundsOf name items) copies t := by
  obtain ⟨value, expression, result, cache, hdirective, hread, heval, hcancels, hnull, hitems⟩ :=
    exists_of_items? hyields
  obtain ⟨copies, d₁, hmade, hcopying⟩ :=
    (copying_nil (v := settings.vocabularies) hentry.linked hx).outcome_copies
      (s := { s with cache }) hentry hx (roundsOf name items)
  refine ⟨copies, d₁, cache, ?_, hcopying⟩
  have hreadDirective : outcome (entry.readDirective settings.vocabularies.repetition value
      (Directive.readRepeat value)) s = (.ok (name, expression), s) := by
    rw [hread]
    rfl
  have hloop : (items.zipIdx.mapM fun (item, index) =>
      copyFor settings entry name items.length item index) = (roundsOf name items).mapM fun round =>
        copyFor settings entry round.name round.count round.item round.index := by
    rw [roundsOf, List.mapM_map]
    rfl
  unfold handle
  rw [outcome_bind, Rendering.outcome_document]
  dsimp only
  rw [hdirective]
  dsimp only
  rw [outcome_bind_ok hreadDirective]
  dsimp only
  rw [outcome_bind_ok heval, hcancels, hnull]
  simp only [Bool.or_self, Bool.false_eq_true, if_false, hitems]
  rw [hloop, outcome_bind_ok hmade]
  rfl

/-- The repetition of an element puts a copy for each item in its place. -/
theorem Repeats.exists_copies {name : String} {items : List Value}
    (h : Repeats settings entry s name items) (hentry : s.document.Grounded entry.node)
    (hx : s.document.parent entry.node = some p) :
    ∃ copies d' cache, outcome (handle settings entry) s =
        (.ok { contexts := copies }, { s with document := d', cache }) ∧
      Unrolled settings.vocabularies entry p s.document (roundsOf name items) copies d' := by
  obtain ⟨copies, t, cache, hhandle, hcopying⟩ := exists_copying h.yields hentry hx
  exact ⟨copies, _, cache, hhandle, hcopying.unrolled hentry hx⟩

/-! ## What is left to do for the copies -/

theorem isDeclaration_of_attributeMatches {n : NodeId} {attr : Attribute} {spec : AttributeSpec}
    (h : d.attributeMatches n attr spec = true) : attr.name.isDeclaration = false := by
  unfold attributeMatches at h
  split at h
  · cases h
  next hno =>
    have hname : attr.name.localName = spec.name ∧ attr.name.isDeclaration = false := by
      simpa using hno
    exact hname.2

section

variable (hentry : d.Grounded entry.node) (hx : d.parent entry.node = some p)
  (h : Unrolled v entry p d rounds copies t)

include hentry hx h

/-- The copies stand below a node that names are looked up around as before. -/
theorem Unrolled.outer : t.Grounded p ∧
    ∀ qualifier, t.lookupNamespace p qualifier = d.lookupNamespace p qualifier := by
  have hlinked := hentry.linked
  obtain ⟨top, htop, hbelow⟩ := hentry.rooted
  have hp : d.Grounded p := ⟨hlinked, (hlinked.lt_of_parent hx).1, top, htop,
    hlinked.below_parent htop hbelow hx⟩
  obtain ⟨hp', haround, -⟩ := hp.of_above_same h.linked h.size_le fun n hn => by
    by_cases hnp : n = p
    · rw [hnp]
      exact ⟨h.outer_kind, h.outer_parent⟩
    · have hnx : n ≠ entry.node := by
        rintro rfl
        exact hlinked.not_below_parent htop hbelow hx hn
      have hnode := h.same n (hlinked.above_lt hn hp.lt) hnp hnx
      exact ⟨congrArg Node.kind hnode, congrArg Node.parent hnode⟩
  exact ⟨hp', haround⟩

/-- On a copy the attributes are read as on the element. -/
theorem Unrolled.attributeMatches_copy (hc : CopyOf v entry p d t round c) :
    t.attributeMatches c.node = d.attributeMatches entry.node := by
  obtain ⟨hp', haround⟩ := h.outer hentry hx
  have hcopy := Grounded.of_parent h.linked hp'.rooted hc.parent_eq
  rw [hentry.attributeMatches_eq_below hx rfl rfl fun _ => rfl]
  apply hcopy.attributeMatches_eq_below hc.parent_eq _ _ haround
  · rw [name?, hc.element?_eq, Option.map_map, name?]
    rfl
  · funext qualifier
    rw [declared?, hc.element?_eq, declared?]
    cases d.element? entry.node with
    | none => rfl
    | some element =>
        exact element.declared_eraseP (fun attr => isDeclaration_of_attributeMatches) qualifier

/-- A copy has no directive that the element has not, and it is not repeated. -/
theorem Unrolled.directive?_copy (hc : CopyOf v entry p d t round c) (spec : AttributeSpec)
    (hnone : spec = v.repetition ∧ ((d.attributes entry.node).filter
        (d.attributeMatches entry.node · v.repetition)).length = 1 ∨
      d.hasAttribute entry.node spec = false) : c.directive? t spec = none := by
  have hwritten : c.written = (d.attributes entry.node).eraseP
      (d.attributeMatches entry.node · v.repetition) := by
    rw [hc.context_eq]
    show t.attributes c.node = _
    unfold attributes
    rw [hc.element?_eq]
    cases d.element? entry.node with
    | none => rfl
    | some element => rfl
  unfold Context.directive?
  rw [h.attributeMatches_copy hentry hx hc, hwritten, Option.map_eq_none_iff]
  rcases hnone with ⟨rfl, honce⟩ | hnone
  · rw [find?_eraseP_self]
    exact List.getElem?_eq_none (Nat.le_of_eq honce)
  · unfold hasAttribute findAttribute? at hnone
    rw [Option.isSome_eq_false_iff, Option.isNone_iff_eq_none, List.find?_eq_none] at hnone
    apply List.find?_eq_none.mpr
    intro attr hattr
    exact hnone attr (List.mem_of_mem_eraseP hattr)

end

/-- Rendering the element begins with none of the directives up to the repetition. -/
structure Idle (settings : Settings) (ctx : Context) (d : Document) : Prop where
  useMacro : ctx.directive? d settings.vocabularies.useMacro = none
  define : ctx.directive? d settings.vocabularies.define = none
  condition : ctx.directive? d settings.vocabularies.condition = none

/-- The element itself begins with the repetition. -/
theorem Repeats.idle {name : String} {items : List Value}
    (h : Repeats settings entry s name items)
    (hwritten : entry.written = s.document.attributes entry.node) :
    Idle settings entry s.document := by
  have hnone : ∀ spec ∈ [settings.vocabularies.useMacro, settings.vocabularies.define,
      settings.vocabularies.condition], entry.directive? s.document spec = none := by
    intro spec hspec
    have hno := h.alone spec hspec
    unfold hasAttribute findAttribute? at hno
    unfold Context.directive?
    rw [hwritten, Option.map_eq_none_iff]
    simpa using hno
  exact ⟨hnone _ (by simp), hnone _ (by simp), hnone _ (by simp)⟩

/-- The copies begin with what follows on the repetition. -/
theorem Repeats.idle_copy {name : String} {items : List Value}
    (h : Repeats settings entry s name items) (hentry : s.document.Grounded entry.node)
    (hx : s.document.parent entry.node = some p)
    (hunrolled : Unrolled settings.vocabularies entry p s.document rounds copies t)
    (hc : CopyOf settings.vocabularies entry p s.document t round c) :
    Idle settings c t ∧ c.directive? t settings.vocabularies.repetition = none := by
  have hnone : ∀ spec ∈ [settings.vocabularies.useMacro, settings.vocabularies.define,
      settings.vocabularies.condition], c.directive? t spec = none := fun spec hspec =>
    hunrolled.directive?_copy hentry hx hc spec (.inr (h.alone spec hspec))
  exact ⟨⟨hnone _ (by simp), hnone _ (by simp), hnone _ (by simp)⟩,
    hunrolled.directive?_copy hentry hx hc _ (.inl ⟨rfl, h.once⟩)⟩

end Repeat

end PageTemplate
