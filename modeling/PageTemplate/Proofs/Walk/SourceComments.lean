import PageTemplate.Proofs.Render.Crediting
import PageTemplate.Proofs.Walk.Invariants
import PageTemplate.Proofs.Walk.Unwinding

/-! # What source comments say

A comment at an element names the source that the element is said to come from, and else the page.
So it tells the truth of the elements of the page and of what was copied as the top of a macro of a
library. Of an element further down in such a macro it names the page, with a line of the library.
-/

namespace PageTemplate

open Markup Document

variable {libraries : List Document} {name : String} {d : Document} {x n : NodeId}
  {element : Element}

/-! ## The texts of comments -/

namespace SourceComment

variable {tag : Tag} {source source' : String} {place : Option Location}

/-- Where the tag of an element stands in the source of its markup. -/
def Tag.place? (element : Element) : Tag → Option Location
  | .start => element.position
  | .ending => element.endPosition

/-- A source and, where it is known, a line of it. -/
def reference (source : String) : Option Location → String
  | some place => s!"{source} (line {place.line})"
  | none => source

/-- A comment that refers to a source. -/
def wording (source : String) (place : Option Location) : String :=
  "\n" ++ divider ++ "\n" ++ reference source place ++ "\n" ++ divider ++ "\n"

/-- The text names a document that the element was written in, and the line of its tag there. -/
def Tells (documents : List Document) (element : Element) (tag : Tag) (text : String) : Prop :=
  ∃ d ∈ documents, ∃ source place, d.sourceName = some source ∧ d.Wrote element ∧
    tag.place? element = some place ∧ text = wording source (some place)

theorem content_none (hkind : d.kind x = .element element) (hname : d.sourceName = some name) :
    content none d x tag = wording (element.importedFrom.getD name) (tag.place? element) := by
  have helement : d.element? x = some element := congrArg NodeKind.element? hkind
  have hdescribe : describe none d x tag =
      reference (element.importedFrom.getD name) (tag.place? element) := by
    unfold describe
    rw [helement, hname]
    cases himported : element.importedFrom <;> cases tag <;>
      simp only [Option.bind_some, himported, Option.orElse_eq_orElse, Option.orElse_eq_or,
        Option.or_some, Option.getD_some, Option.getD_none, relativeName, Tag.place?] <;>
      split <;> rename_i hplace <;> rw [hplace] <;> rfl
  unfold content wording
  rw [hdescribe]

theorem wording_inj : wording source place = wording source' place ↔ source = source' := by
  unfold wording
  cases place <;> simp [reference, String.append_assoc, toString]

/-- A comment tells the truth if it has the line, and the source is one that wrote the element. -/
theorem tells_wording_iff {documents : List Document} :
    Tells documents element tag (wording source (tag.place? element)) ↔
      (tag.place? element).isSome ∧
        ∃ d ∈ documents, d.sourceName = some source ∧ d.Wrote element := by
  constructor
  · rintro ⟨d, hd, source', place, hsource, hwrote, hplace, htext⟩
    rw [hplace, wording_inj] at htext
    exact ⟨Option.isSome_iff_exists.mpr ⟨place, hplace⟩, d, hd, htext ▸ hsource, hwrote⟩
  · rintro ⟨hplace, d, hd, hsource, hwrote⟩
    obtain ⟨place, hplace⟩ := Option.isSome_iff_exists.mp hplace
    exact ⟨d, hd, source, place, hsource, hwrote, hplace, by rw [hplace]⟩

/-! ## What the comments of an element change -/

/-- The second document is the first one with comments at the node `x`. -/
structure Remarked (base : Option String) (x : NodeId) (d d' : Document) : Prop where
  size_le : d.size ≤ d'.size
  sourceName_eq : d'.sourceName = d.sourceName
  kind_eq : d'.kind x = d.kind x
  comments : ∀ n, d.size ≤ n → n < d'.size → ∃ tag, d'.kind n = .comment (content base d x tag)

namespace Remarked

variable {base : Option String} {d' t t' : Document}

theorem refl (base : Option String) (x : NodeId) (d : Document) : Remarked base x d d :=
  ⟨le_rfl, rfl, rfl, fun _ hle hlt => absurd hlt (Nat.not_lt_of_le hle)⟩

theorem content_eq (h : Remarked base x d d') (tag : Tag) :
    content base d' x tag = content base d x tag := by
  have helement : d'.element? x = d.element? x := congrArg NodeKind.element? h.kind_eq
  unfold content describe
  rw [helement, h.sourceName_eq]

theorem ignoresLinks : IgnoresLinks (Remarked base x d) := by
  intro t t' hsize hname hkinds h
  refine ⟨hsize ▸ h.size_le, hname.trans h.sourceName_eq, (hkinds x).trans h.kind_eq, ?_⟩
  intro n hle hlt
  obtain ⟨tag, hkind⟩ := h.comments n hle (hsize ▸ hlt)
  exact ⟨tag, (hkinds n).trans hkind⟩

theorem create (h : Remarked base x d t) (hx : x < d.size) (tag : Tag) :
    Remarked base x d (t.create (.comment (content base t x tag))).1 := by
  have hkind : ∀ n, (t.create (.comment (content base t x tag))).1.kind n =
      if n = t.size then .comment (content base d x tag) else t.kind n := by
    intro n
    unfold Document.kind
    rw [node_create, h.content_eq]
    split <;> rfl
  refine ⟨?_, h.sourceName_eq, ?_, fun n hle hlt => ?_⟩
  · rw [size_create]
    exact Nat.le_succ_of_le h.size_le
  · rw [hkind, if_neg (Nat.ne_of_lt (Nat.lt_of_lt_of_le hx h.size_le)), h.kind_eq]
  · rw [size_create] at hlt
    rw [hkind]
    split
    next => exact ⟨tag, rfl⟩
    next hne => exact h.comments n hle (Nat.lt_of_le_of_ne (Nat.le_of_lt_succ hlt) hne)

end Remarked

variable {base : Option String}

theorem remarks_addComment (hx : x < d.size) (tag : Tag) {insert : NodeId → NodeId → Edit Unit}
    (hinsert : ∀ reference new, Holds (Remarked base x d) (insert reference new)) :
    Holds (fun s => Remarked base x d s.document) (addComment base x tag insert) := fun _ hs =>
  Ensures.bind (Rendering.ensures_document (Ensures.bind (Rendering.ensures_createIn
    (Rendering.holds_edit (hinsert _ _) _ (hs.create hx tag)))))

/-- Only comments of the element are added. -/
theorem remarks_annotate (v : Vocabularies) (hx : x < d.size) :
    Holds (fun s => Remarked base x d s.document) (annotate v base x) := by
  have hignores : IgnoresLinks (Remarked base x d) := Remarked.ignoresLinks
  have hbefore := fun tag => remarks_addComment hx tag (holds_insertBefore hignores)
  have hafter := fun tag => remarks_addComment hx tag (holds_insertAfter hignores)
  refine .bind Rendering.holds_document fun t => ?_
  split
  · dsimp only
    split
    · exact hbefore _
    split
    · exact .bind (hbefore _) fun _ => hafter _
    split
    · exact hbefore _
    split
    · exact hafter _
    · exact .pure _
  · exact .pure _

theorem annotate_of_not_element {v : Vocabularies} {s : RenderState}
    (h : s.document.element? x = none) : outcome (annotate v base x) s = (.ok (), s) := by
  unfold annotate
  rw [outcome_bind_ok (Rendering.outcome_document s)]
  split
  next hsome =>
    rw [h] at hsome
    cases hsome
  next => rfl

/-- A node that was added is a comment of an element. -/
theorem exists_comment_of_new {v : Vocabularies} {s : RenderState} (hle : s.document.size ≤ n)
    (hlt : n < (outcome (annotate v base x) s).2.document.size) :
    ∃ element tag, s.document.kind x = .element element ∧
      (outcome (annotate v base x) s).2.document.kind n =
        .comment (content base s.document x tag) := by
  cases hkind : s.document.kind x with
  | element element =>
      have hx : x < s.document.size := lt_size_of_isElement (by rw [isElement, hkind]; rfl)
      have hremarked := (remarks_annotate v hx s (.refl base x _)).state
      obtain ⟨tag, hcomment⟩ := hremarked.comments n hle hlt
      exact ⟨element, tag, rfl, hcomment⟩
  | _ =>
      have hnone : s.document.element? x = none := congrArg NodeKind.element? hkind
      rw [annotate_of_not_element hnone] at hlt
      exact absurd hlt (Nat.not_lt_of_le hle)

end SourceComment

/-! ## The comments of a rendering -/

namespace Walk

open Recorded SourceComment

variable {settings : Settings} {node : NodeId} {s t : RenderState} {step : Step} {c : Context}

/-- Every step leaves the elements coming from where they are said to come from. -/
theorem Recorded.credits_of_genuine (hvisitors : settings.visitors = []) {name : Option String}
    (step : Step) (hstep : Genuine settings step)
    (hbefore : step.before.document.Credits libraries name) :
    step.after.document.Credits libraries name := by
  cases hstep with
  | prepare path ctx s =>
      exact (holds_prepare libraries name settings ctx hvisitors s hbefore).state
  | handle handler path ctx s =>
      exact (Handler.holds_handle libraries name settings ctx handler s hbefore).state
  | recover error path ctx s =>
      exact (OnError.holds_recover libraries name settings ctx error s hbefore).state

/-- At every moment of a rendering, the elements come from where they are said to come from. -/
theorem Recorded.credits_before (hvisitors : settings.visitors = [])
    (hpage : s.document.IsOriginal) (hlibraries : ∀ library ∈ libraries, library.IsOriginal) :
    ∀ step ∈ stepsOf settings libraries node s,
      step.before.document.Credits libraries s.document.sourceName := by
  have hheld : Held (fun t => t.document.Credits libraries s.document.sourceName)
      (outcome (renderNode settings libraries node) { state := s }).2 :=
    held_renderNode (credits_of_genuine hvisitors)
      (Renderer.credits_publishMacros hpage hlibraries)
      fun _ ht => Cleanup.credits_removeDirectives _ ht _
  exact hheld.before

/-- When the rendering of an element begins, the nodes that come after the expansion of its macro
are comments of what it was expanded to. -/
theorem Recorded.Genuine.exists_comment_of_new (hgenuine : Genuine settings step)
    (hvisitors : settings.visitors = []) (htask : step.task = .prepare)
    (hexpanded : outcome (Expansion.handle settings step.ctx) step.before = (.ok c, t))
    (hle : t.document.size ≤ n) (hlt : n < step.after.document.size) :
    ∃ element tag, t.document.kind c.node = .element element ∧ step.after.document.kind n =
      .comment (content settings.commentRoot t.document c.node tag) := by
  have hafter : step.after = (outcome (Walk.prepare settings step.ctx) step.before).2 := by
    cases hgenuine with
    | handle => cases htask
    | recover => cases htask
    | prepare => rfl
  rw [state_prepare hvisitors hexpanded] at hafter
  split at hafter
  · rw [hafter] at hlt ⊢
    exact SourceComment.exists_comment_of_new hle hlt
  · rw [hafter] at hlt
    exact absurd hlt (Nat.not_lt_of_le hle)

/-- Of an element that is said to come from a source, or was written in a document of the page's
name, a comment tells the truth as soon as the line of the tag is known; of others it does not. -/
theorem comment_tells_iff (hvisitors : settings.visitors = []) (hroot : settings.commentRoot = none)
    (hname : s.document.sourceName = some name) (hpage : s.document.IsOriginal)
    (hlibraries : ∀ library ∈ libraries, library.IsOriginal)
    (hstep : step ∈ stepsOf settings libraries node s) (htask : step.task = .prepare)
    (hexpanded : outcome (Expansion.handle settings step.ctx) step.before = (.ok c, t))
    (hle : t.document.size ≤ n) (hlt : n < step.after.document.size) :
    ∃ element tag text, t.document.kind c.node = .element element ∧
      step.after.document.kind n = .comment text ∧
      text = wording (element.importedFrom.getD name) (tag.place? element) ∧
      (Tells (s.document :: libraries) element tag text ↔
        (tag.place? element).isSome ∧ (element.importedFrom.isSome ∨
          ∃ d ∈ s.document :: libraries, d.sourceName = some name ∧ d.Wrote element)) := by
  have hbefore := credits_before hvisitors hpage hlibraries step hstep
  have hcredits := (Expansion.holds_handle settings step.ctx _ hbefore).ok_of_outcome hexpanded
  obtain ⟨element, tag, helement, hcomment⟩ :=
    (genuine_of_mem_stepsOf settings hstep).exists_comment_of_new hvisitors htask hexpanded hle hlt
  rw [hroot, content_none helement (hcredits.sourceName_eq.trans hname)] at hcomment
  refine ⟨element, tag, _, helement, hcomment, rfl, tells_wording_iff.trans ?_⟩
  refine and_congr_right fun _ => ?_
  cases himported : element.importedFrom with
  | none => simp
  | some source =>
      obtain ⟨library, hlibrary, hsource, hwrote⟩ := hcredits.credited _ _ helement source himported
      simpa using Or.inr ⟨library, hlibrary, hsource, hwrote⟩

/-! ## Comments in nested macros -/

/-- The document of the given name with the given text. -/
def readAs (name markup : String) : Document := ((parse markup (some name)).toOption).getD .empty

theorem parse_readAs {name markup : String} (h : (parse markup (some name)).toOption.isSome) :
    parse markup (some name) = .ok (readAs name markup) := by
  obtain ⟨d, hd⟩ := Option.isSome_iff_exists.mp h
  rw [readAs, hd]
  exact eq_ok_of_toOption hd

/-- A page that uses a macro of a library. -/
def nestingPage : Document :=
  readAs "page.pt" "<r><i metal:use-macro=\"macros/outer\"/></r>"

/-- A library with a macro inside a macro. -/
def nestingLibrary : Document :=
  readAs "lib.pt" ("<x>\n<div metal:define-macro=\"outer\">\n" ++
    "<b metal:define-macro=\"inner\">text</b>\n</div></x>")

/-- The macro, copied from the library. -/
def outerMacro : Element where
  name := .parse "div"
  attributes := [⟨.parse "metal:define-macro", "outer"⟩]
  position := some ⟨2, 1⟩
  endPosition := some ⟨4, 1⟩
  importedFrom := some "lib.pt"

/-- The macro inside it. -/
def innerMacro : Element where
  name := .parse "b"
  attributes := [⟨.parse "metal:define-macro", "inner"⟩]
  position := some ⟨3, 1⟩
  endPosition := some ⟨3, 35⟩

def nestingSettings : Settings := { sourceComments := true }

def nestingState : RenderState := Renderer.start nestingPage (.map []) {}

/-- The steps of the page's rendering. -/
def nestingSteps : List Step := stepsOf nestingSettings [nestingLibrary] 1 nestingState

theorem isOriginal_nestingPage : nestingPage.IsOriginal :=
  isOriginal_parse (parse_readAs (by decide +kernel))

theorem isOriginal_nestingLibrary : nestingLibrary.IsOriginal :=
  isOriginal_parse (parse_readAs (by decide +kernel))

/-- The element at which the rendering begins, its macro expanded, and the first comment there. -/
def Step.remark? (settings : Settings) (step : Step) : Option (Element × String) :=
  match step.task, outcome (Expansion.handle settings step.ctx) step.before with
  | .prepare, (.ok c, t) =>
    match t.document.kind c.node, step.after.document.kind t.document.size with
    | .element element, .comment text => some (element, text)
    | _, _ => none
  | _, _ => none

theorem Step.exists_of_remark? {step : Step} {text : String}
    (h : step.remark? settings = some (element, text)) : ∃ c t, step.task = .prepare ∧
      outcome (Expansion.handle settings step.ctx) step.before = (.ok c, t) ∧
      t.document.kind c.node = .element element ∧
      t.document.size < step.after.document.size ∧
      step.after.document.kind t.document.size = .comment text := by
  unfold Step.remark? at h
  split at h
  next c t htask houtcome =>
    split at h
    next helement hcomment =>
      cases h
      refine ⟨c, t, htask, houtcome, helement, ?_, hcomment⟩
      by_contra hle
      unfold kind at hcomment
      rw [node_of_size_le _ (Nat.le_of_not_lt hle)] at hcomment
      cases hcomment
    next => cases h
  next => cases h

/-- The comments before the root element, before the macro that is used, and before the macro
inside it. -/
theorem remarks_nestingSteps : nestingSteps.filterMap (·.remark? nestingSettings) =
    [({ name := .parse "r", position := some ⟨1, 1⟩, endPosition := some ⟨1, 39⟩ },
        wording "page.pt" (some ⟨1, 1⟩)),
      (outerMacro, wording "lib.pt" (some ⟨2, 1⟩)),
      (innerMacro, wording "page.pt" (some ⟨3, 1⟩))] := by
  decide +kernel

/-- The comment before the macro that is used tells the truth. -/
theorem comment_tells_iff_nestingPage :
    nestingSettings.visitors = [] ∧ nestingSettings.commentRoot = none ∧
      nestingState.document.sourceName = some "page.pt" ∧ nestingState.document.IsOriginal ∧
      nestingLibrary.IsOriginal ∧ ∃ step ∈ nestingSteps, ∃ c t, step.task = .prepare ∧
        outcome (Expansion.handle nestingSettings step.ctx) step.before = (.ok c, t) ∧
        t.document.kind c.node = .element outerMacro ∧
        t.document.size < step.after.document.size ∧
        ∃ element tag text, t.document.kind c.node = .element element ∧
          step.after.document.kind t.document.size = .comment text ∧
          text = wording (element.importedFrom.getD "page.pt") (tag.place? element) ∧
          (Tells [nestingPage, nestingLibrary] element tag text ↔
            (tag.place? element).isSome ∧ (element.importedFrom.isSome ∨
              ∃ d ∈ [nestingPage, nestingLibrary],
                d.sourceName = some "page.pt" ∧ d.Wrote element)) := by
  have hname : nestingState.document.sourceName = some "page.pt" := by decide +kernel
  have hmem : (outerMacro, wording "lib.pt" (some ⟨2, 1⟩)) ∈
      nestingSteps.filterMap (·.remark? nestingSettings) := by
    rw [remarks_nestingSteps]
    simp
  obtain ⟨step, hstep, hremark⟩ := List.mem_filterMap.mp hmem
  obtain ⟨c, t, htask, hexpanded, helement, hlt, -⟩ := Step.exists_of_remark? hremark
  have hlibraries : ∀ library ∈ [nestingLibrary], library.IsOriginal := by
    simpa using isOriginal_nestingLibrary
  exact ⟨rfl, rfl, hname, isOriginal_nestingPage, isOriginal_nestingLibrary, step, hstep, c, t,
    htask, hexpanded, helement, hlt, comment_tells_iff rfl rfl hname isOriginal_nestingPage
      hlibraries hstep htask hexpanded le_rfl hlt⟩

theorem any_name_of_wrote (h : d.Wrote element) :
    (List.range d.size).any (fun n => (d.element? n).any (·.name == element.name)) = true := by
  obtain ⟨n, written, -, hkind, hname, -⟩ := h
  have helement : d.element? n = some written := congrArg NodeKind.element? hkind
  have hn : n < d.size := lt_size_of_isElement (by rw [isElement, hkind]; rfl)
  refine List.any_eq_true.mpr ⟨n, List.mem_range.mpr hn, ?_⟩
  rw [helement]
  simp [hname]

/-- The comment before the macro inside it names the page, and the library wrote the macro. -/
theorem not_tells_nestingPage :
    nestingPage.IsOriginal ∧ nestingLibrary.IsOriginal ∧ nestingLibrary.Wrote innerMacro ∧
      ∃ step ∈ nestingSteps, ∃ text, step.remark? nestingSettings = some (innerMacro, text) ∧
        ∀ tag, ¬ Tells [nestingPage, nestingLibrary] innerMacro tag text := by
  have hmem : (innerMacro, wording "page.pt" (some ⟨3, 1⟩)) ∈
      nestingSteps.filterMap (·.remark? nestingSettings) := by
    rw [remarks_nestingSteps]
    simp
  obtain ⟨step, hstep, hremark⟩ := List.mem_filterMap.mp hmem
  have hbelow : nestingLibrary.Below root 5 :=
    (isAttached_iff (by decide +kernel) (by decide +kernel)).mp (by decide +kernel)
  have hwrote : nestingLibrary.Wrote innerMacro :=
    ⟨5, innerMacro, hbelow, by decide +kernel, rfl, rfl, rfl⟩
  refine ⟨isOriginal_nestingPage, isOriginal_nestingLibrary, hwrote, step, hstep, _, hremark, ?_⟩
  rintro tag ⟨d, hd, source, place, hsource, hwrites, hplace, htext⟩
  rcases List.mem_pair.mp hd with rfl | rfl
  · exact absurd (any_name_of_wrote hwrites) (by decide +kernel)
  · have hlibrary : nestingLibrary.sourceName = some "lib.pt" := by decide +kernel
    obtain rfl : "lib.pt" = source := Option.some.inj (hlibrary.symm.trans hsource)
    cases tag <;> cases hplace <;> exact absurd htext (by decide +kernel)

end Walk

end PageTemplate
