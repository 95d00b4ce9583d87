import Mathlib.Data.List.Find
import PageTemplate.Proofs.Render.SteadyReading

/-! # Directives that are read again

A context remembers the attributes that its element was written with, but which of them are
directives is found out anew each time, in the document as it is then. A list of attributes may set
and remove declarations of its element, and bring others along. What comes after it finds a directive
that was written as before when the qualifier that speaks for the directive still refers to the
vocabulary, and only then.
-/

namespace PageTemplate

open Markup Document

/-! ## Which attributes are directives -/

namespace Markup

/-- The qualifier that says which vocabulary an attribute of the element belongs to: that of the
attribute, or else that of the element. -/
def Element.speaker (element : Element) (attr : Attribute) : Option String :=
  attr.name.qualifier.or element.name.qualifier

theorem Element.speaker_congr {element element' : Element} (h : element'.name = element.name) :
    element'.speaker = element.speaker := by
  funext attr
  unfold speaker
  rw [h]

namespace Document

variable {d t u : Document} {x : NodeId} {element : Element}

theorem attributeMatches_eq_agrees (h : d.element? x = some element) (attr : Attribute)
    (spec : AttributeSpec) : d.attributeMatches x attr spec =
      ((attr.name.localName = spec.name && !attr.name.isDeclaration) &&
        (d.namespaceOf x (element.speaker attr)).agrees spec.vocabulary) := by
  unfold attributeMatches Element.speaker
  by_cases hname : attr.name.localName = spec.name
  · cases attr.name.isDeclaration <;> cases attr.name.qualifier <;>
      simp [hname, inNamespace, elementNamespace?, h]
  · simp [hname]

end Document

end Markup

namespace Context

variable {d : Document} {ctx : Context} {element : Element}

/-- The written attributes that can be the directive of a name. -/
def candidates (ctx : Context) (name : String) : List Attribute :=
  ctx.written.filter fun attr => attr.name.localName = name && !attr.name.isDeclaration

/-- The directive of an element is the first candidate for which its qualifier speaks. -/
theorem directive?_eq_find? (h : d.element? ctx.node = some element) (spec : AttributeSpec) :
    ctx.directive? d spec = ((ctx.candidates spec.name).find? fun attr =>
      (d.namespaceOf ctx.node (element.speaker attr)).agrees spec.vocabulary).map (·.value) := by
  unfold directive? candidates
  rw [List.find?_filter]
  congr 2
  funext attr
  rw [attributeMatches_eq_agrees h, Bool.decide_and, Bool.decide_coe, Bool.decide_coe]

/-- Elements of one name have the same directive when the vocabulary recognises the same
candidates. -/
theorem directive?_congr {u : Document} {element' : Element} {spec : AttributeSpec}
    (h : d.element? ctx.node = some element) (h' : u.element? ctx.node = some element')
    (hname : element'.name = element.name)
    (hsame : ∀ attr ∈ ctx.candidates spec.name,
      (u.namespaceOf ctx.node (element.speaker attr)).agrees spec.vocabulary =
        (d.namespaceOf ctx.node (element.speaker attr)).agrees spec.vocabulary) :
    ctx.directive? u spec = ctx.directive? d spec := by
  rw [directive?_eq_find? h, directive?_eq_find? h', Element.speaker_congr hname]
  exact congrArg _ (List.find?_congr hsame)

/-- What a context reads is settled by its node and the attributes that were written. -/
theorem directive?_congr_context {ctx' : Context} (hnode : ctx'.node = ctx.node)
    (hwritten : ctx'.written = ctx.written) : ctx'.directive? d = ctx.directive? d := by
  funext spec
  unfold directive?
  rw [hnode, hwritten]

end Context

namespace Attributes

variable {settings : Settings} {ctx : Context} {s t : RenderState} {d u : Document}
  {element : Element} {value : String} {result : Except Stop Outcome}

theorem applyAll_name {around : Option String → Option String}
    {registered : List (String × String)} (assignments : List Assignment) (element : Element) :
    (applyAll around registered assignments element).name = element.name := by
  unfold applyAll
  induction assignments generalizing element with
  | nil => rfl
  | cons a assignments ih =>
      rw [List.foldl_cons, ih, Assignment.apply_eq_attributes]

/-- What a qualifier refers to at an element to which the assignments have been made. -/
def spaceAfter (around : Option String → Option String) (registered : List (String × String))
    (assignments : List Assignment) (element : Element) (qualifier : Option String) : Namespace :=
  ⟨qualifier, ((applyAll around registered assignments element).attribute?
    (.declaration qualifier)).or (around qualifier)⟩

/-- Whether its list is carried out to the end or not, the element has been made what the assignments
say. -/
theorem applied_of_outcome_handle (hground : s.document.Grounded ctx.node)
    (helement : s.document.element? ctx.node = some element) (hcache : s.cache.IsFaithful)
    (hvalue : ctx.directive? s.document settings.vocabularies.attributes = some value)
    (hhandle : outcome (handle settings ctx) s = (result, t)) :
    Reattributed ctx.node s.document t.document ∧
      t.document.element? ctx.node = some (applyAll (s.document.namespaceAround ctx.node)
        settings.vocabularies.extra
        (carriedOut settings ctx s.globals (Directive.splitItems value)) element) := by
  obtain ⟨done, d', cache, hitems, -, hchanged, hmade, -⟩ :=
    outcome_assignItems hground (.refl hground.linked) helement hcache (Directive.splitItems value)
  unfold handle at hhandle
  rw [outcome_bind_ok (Rendering.outcome_document s), hvalue] at hhandle
  dsimp only at hhandle
  rw [outcome_bind, hitems] at hhandle
  cases done with
  | ok =>
      obtain ⟨-, rfl⟩ := Prod.mk.inj hhandle
      exact ⟨hchanged, hmade⟩
  | error =>
      obtain ⟨-, rfl⟩ := Prod.mk.inj hhandle
      exact ⟨hchanged, hmade⟩

/-- A qualifier refers to what it did when no assignment changes its declaration. -/
theorem spaceAfter_eq_of_untouched {around : Option String → Option String}
    {registered : List (String × String)} {assignments : List Assignment}
    {qualifier : Option String}
    (h : ∀ a ∈ assignments, a.key ≠ .declaration qualifier ∧
      a.added? around registered (.declaration qualifier)
        (element.values (.declaration qualifier)) = none) :
    spaceAfter around registered assignments element qualifier =
      ⟨qualifier, (element.values (.declaration qualifier)).head?.or (around qualifier)⟩ := by
  unfold spaceAfter
  rw [Element.attribute?_eq_head?, values_applyAll]
  congr 3
  induction assignments with
  | nil => rfl
  | cons a assignments ih =>
      obtain ⟨hne, hnone⟩ := h a List.mem_cons_self
      rw [List.foldl_cons, Assignment.onValues_of_ne hne, hnone]
      exact ih fun b hb => h b (List.mem_cons_of_mem a hb)

/-- What comes after the list finds the element with what the assignments made of it, and the
qualifiers with what they declare. -/
theorem namespaceOf_after_handle (hground : d.Grounded ctx.node)
    (helement : d.element? ctx.node = some element)
    (hbefore : SameAbove ctx.node d s.document) (hcache : s.cache.IsFaithful)
    (hvalue : ctx.directive? s.document settings.vocabularies.attributes = some value)
    (hhandle : outcome (handle settings ctx) s = (result, t))
    (hafter : SameAbove ctx.node t.document u) :
    ∃ element', u.element? ctx.node = some element' ∧
      element'.name = element.name ∧ ∀ qualifier, u.namespaceOf ctx.node qualifier =
        spaceAfter (d.namespaceAround ctx.node) settings.vocabularies.extra
          (carriedOut settings ctx s.globals (Directive.splitItems value)) element qualifier := by
  have hstart := hbefore.grounded hground
  obtain ⟨hchanged, hmade⟩ := applied_of_outcome_handle hstart
    (hbefore.element?_eq.trans helement) hcache hvalue hhandle
  obtain ⟨hground', haround⟩ := hchanged.around hstart
  rw [hbefore.namespaceAround_eq hground] at hmade haround
  refine ⟨_, hafter.element?_eq.trans hmade, applyAll_name _ _, fun qualifier => ?_⟩
  rw [hafter.namespaceOf_eq hground', namespaceOf, hground'.lookupNamespace_eq_around hmade, haround,
    ← Element.attribute?_eq_head?]
  rfl

section

-- A context is created in the state `start`. The list is carried out between the directives before
-- and after it, and hands on the context that it is given.
variable {first last : Context} {start u : RenderState} {before after : List Handler}
  (hground : start.document.Grounded first.node)
  (helement : start.document.element? first.node = some element)
  (hbefore : HandedOn settings before first start ctx s) (hbefore' : .attributes ∉ before)
  (hcache : s.cache.IsFaithful)
  (hvalue : first.directive? start.document settings.vocabularies.attributes = some value)
  (hhandle : outcome (handle settings ctx) s = (result, t))
  (hafter : HandedOn settings after ctx t last u) (hafter' : .attributes ∉ after)

include hground helement hbefore hbefore' hcache hvalue hhandle hafter hafter'

theorem namespaceOf_after_stages : last.node = first.node ∧ last.written = first.written ∧
    ∃ element', u.document.element? first.node = some element' ∧
      element'.name = element.name ∧ ∀ qualifier, u.document.namespaceOf first.node qualifier =
        spaceAfter (start.document.namespaceAround first.node) settings.vocabularies.extra
          (carriedOut settings ctx s.globals (Directive.splitItems value)) element qualifier := by
  obtain ⟨hnode, hwritten, hsame⟩ := hbefore.sameAbove hbefore' hground
  rw [← hbefore.directive?_eq hbefore' hground] at hvalue
  rw [← hnode] at hground helement hsame
  have hchanged := (applied_of_outcome_handle (hsame.grounded hground)
    (hsame.element?_eq.trans helement) hcache hvalue hhandle).1
  obtain ⟨hnode', hwritten', hsame'⟩ :=
    hafter.sameAbove hafter' (hchanged.around (hsame.grounded hground)).1
  have hfound := namespaceOf_after_handle hground helement hsame hcache hvalue hhandle hsame'
  rw [hnode] at hfound
  exact ⟨hnode'.trans hnode, hwritten'.trans hwritten, hfound⟩

/-- Directives are found again exactly as far as the qualifiers that speak for them refer to the
vocabulary as before. -/
theorem directive?_after_handle (spec : AttributeSpec) :
    let spaces := spaceAfter (start.document.namespaceAround first.node)
      settings.vocabularies.extra
      (carriedOut settings ctx s.globals (Directive.splitItems value)) element
    let keeps (attr : Attribute) : Prop :=
      (spaces (element.speaker attr)).agrees spec.vocabulary =
        (start.document.namespaceOf first.node (element.speaker attr)).agrees spec.vocabulary
    last.directive? u.document spec = ((first.candidates spec.name).find? fun attr =>
        (spaces (element.speaker attr)).agrees spec.vocabulary).map (·.value) ∧
      ((∀ attr ∈ first.candidates spec.name, keeps attr) →
        last.directive? u.document spec = first.directive? start.document spec) ∧
      ∀ attr, first.candidates spec.name = [attr] →
        (last.directive? u.document spec = first.directive? start.document spec ↔
          keeps attr) := by
  intro spaces keeps
  obtain ⟨hnode, hwritten, element', helement', hname, hspace⟩ := namespaceOf_after_stages hground
    helement hbefore hbefore' hcache hvalue hhandle hafter hafter'
  rw [Context.directive?_congr_context hnode hwritten]
  have hfound : first.directive? u.document spec = ((first.candidates spec.name).find? fun attr =>
      (spaces (element.speaker attr)).agrees spec.vocabulary).map (·.value) := by
    rw [Context.directive?_eq_find? helement', Element.speaker_congr hname]
    simp only [hspace]
    rfl
  refine ⟨hfound, fun hkeeps => ?_, fun attr hone => ?_⟩
  · refine Context.directive?_congr helement helement' hname fun attr hattr => ?_
    rw [hspace]
    exact hkeeps attr hattr
  · rw [hfound, Context.directive?_eq_find? helement, hone]
    unfold keeps
    cases hspaces : (spaces (element.speaker attr)).agrees spec.vocabulary <;>
      cases hstart : (start.document.namespaceOf first.node (element.speaker attr)).agrees
        spec.vocabulary <;>
      simp [hspaces, hstart]

/-- A list that neither makes declarations nor needs any makes no difference. -/
theorem directive?_after_handle_of_plain
    (hplain : ∀ a ∈ carriedOut settings ctx s.globals (Directive.splitItems value),
      a.key.isDeclaration = false ∧ ∀ qualifier, a.key.qualifier = some qualifier →
        settings.vocabularies.extra.lookup qualifier = none ∨
          start.document.lookupNamespace first.node (some qualifier) ≠ none)
    (spec : AttributeSpec) :
    last.directive? u.document spec = first.directive? start.document spec := by
  obtain ⟨hnode, hwritten, element', helement', hname, hspace⟩ := namespaceOf_after_stages hground
    helement hbefore hbefore' hcache hvalue hhandle hafter hafter'
  rw [Context.directive?_congr_context hnode hwritten]
  refine Context.directive?_congr helement helement' hname fun attr _ => ?_
  rw [hspace, spaceAfter_eq_of_untouched, ← hground.lookupNamespace_eq_around helement]
  · rfl
  intro a ha
  obtain ⟨hdeclaration, hknown⟩ := hplain a ha
  refine ⟨QualifiedName.ne_declaration hdeclaration _, ?_⟩
  cases hadded : a.added? (start.document.namespaceAround first.node) settings.vocabularies.extra
    (.declaration (element.speaker attr))
    (element.values (.declaration (element.speaker attr))) with
  | none => rfl
  | some uri =>
      obtain ⟨qualifier, hdeclares, -, hqualifier, hnil, haround, hregistered⟩ :=
        Assignment.added?_eq_some hadded
      rw [hdeclares] at hnil
      rcases hknown qualifier hqualifier with hunknown | hknown
      · rw [hunknown] at hregistered
        cases hregistered
      · rw [hground.lookupNamespace_eq_around helement, hnil, haround] at hknown
        exact absurd rfl hknown

end

/-! ## Pages with lists of attributes -/

/-- A paragraph that is to lose its tag and has an error handler, with a list of attributes. -/
def listedPage (list : String) : Document where
  nodes := #[
    { kind := .root, children := [1] },
    { kind := .element {
        name := .parse "r"
        attributes := [⟨.parse "xmlns:t", "http://xml.zope.org/namespaces/tal"⟩] },
      parent := some 0, children := [2] },
    { kind := .element {
        name := .parse "p"
        attributes := [⟨.parse "t:attributes", list⟩, ⟨.parse "t:omit-tag", ""⟩,
          ⟨.parse "t:on-error", "string:bad"⟩] },
      parent := some 1 }]

def listedState (list : String) : RenderState :=
  { document := listedPage list, globals := { root := .null } }

theorem grounded_listedPage {list : String} (hlinked : (listedPage list).WellLinked) :
    (listedPage list).Grounded 2 :=
  .of_parent hlinked ⟨0, rfl, .child .refl List.mem_cons_self⟩ rfl

/-- A list may remove a directive, and declare another qualifier: what was written is found. -/
theorem directive?_after_handle_of_removed :
    let s := listedState "t:omit-tag nothing; xmlns:x string:urn:x"
    let ctx := Context.ofNode s.document 2 {}
    s.document.Grounded ctx.node ∧ s.document.isElement ctx.node = true ∧ s.cache.IsFaithful ∧
      HandedOn {} [.define, .condition, .repetition, .content] ctx s ctx s ∧
      ∃ value handed t,
        ctx.directive? s.document (Settings.vocabularies {}).attributes = some value ∧
        outcome (handle {} ctx) s = (.ok handed, t) ∧ HandedOn {} [] ctx t ctx t ∧
        t.document.attribute? ctx.node "t:omit-tag" = none ∧
        ctx.directive? t.document (Settings.vocabularies {}).omitTag =
          ctx.directive? s.document (Settings.vocabularies {}).omitTag ∧
        ctx.directive? t.document (Settings.vocabularies {}).onError =
          ctx.directive? s.document (Settings.vocabularies {}).onError := by
  intro s ctx
  have hground : s.document.Grounded ctx.node := grounded_listedPage (by decide +kernel)
  have helement : s.document.element? ctx.node = some { name := .parse "p", attributes := _ } := rfl
  have hcache : s.cache.IsFaithful := ExpressionCache.isFaithful_empty
  have hvalue : ctx.directive? s.document (Settings.vocabularies {}).attributes =
      some "t:omit-tag nothing; xmlns:x string:urn:x" := by decide +kernel
  obtain ⟨handed, hhanded⟩ := Option.isSome_iff_exists.mp
    (by decide +kernel : (outcome (handle {} ctx) s).1.toOption.isSome = true)
  have hhandle : outcome (handle {} ctx) s = (.ok handed, _) :=
    Prod.ext (eq_ok_of_toOption hhanded) rfl
  have hbefore : HandedOn {} [.define, .condition, .repetition, .content] ctx s ctx s :=
    .of_absent hground.linked (by unfold Handler.Absent; decide +kernel)
  have hafter : ∀ t, outcome (handle {} ctx) s = (.ok handed, t) → HandedOn {} [] ctx t ctx t :=
    fun t ht => .of_absent (applied_of_outcome_handle hground helement hcache hvalue
      ht).1.confined.linked nofun
  have hfound := directive?_after_handle hground helement hbefore (by decide) hcache hvalue hhandle
    (hafter _ hhandle) List.not_mem_nil
  refine ⟨hground, rfl, hcache, hbefore, _, handed, _,
    hvalue, hhandle, hafter _ hhandle, by decide +kernel, (hfound _).2.1 ?_, (hfound _).2.1 ?_⟩
  · decide +kernel
  · decide +kernel

/-- A list may declare the qualifier that the directives of the element are written with: what was
found before is not found any more. -/
theorem not_directive?_after_handle_of_declared :
    let s := listedState "xmlns:t string:urn:x"
    let ctx := Context.ofNode s.document 2 {}
    s.document.Grounded ctx.node ∧ s.document.isElement ctx.node = true ∧
      ctx.directive? s.document (Settings.vocabularies {}).omitTag = some "" ∧
      ctx.directive? s.document (Settings.vocabularies {}).onError = some "string:bad" ∧
      ∃ handed t, outcome (handle {} ctx) s = (.ok handed, t) ∧
        ctx.directive? t.document (Settings.vocabularies {}).omitTag = none ∧
        ctx.directive? t.document (Settings.vocabularies {}).onError = none := by
  intro s ctx
  obtain ⟨handed, hhanded⟩ := Option.isSome_iff_exists.mp
    (by decide +kernel : (outcome (handle {} ctx) s).1.toOption.isSome = true)
  exact ⟨grounded_listedPage (by decide +kernel), by decide +kernel, by decide +kernel,
    by decide +kernel, handed, _, Prod.ext (eq_ok_of_toOption hhanded) rfl, by decide +kernel,
    by decide +kernel⟩

end Attributes

end PageTemplate
