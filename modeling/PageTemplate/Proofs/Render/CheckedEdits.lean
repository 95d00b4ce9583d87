import PageTemplate.Proofs.Render.CleaningUp
import PageTemplate.Proofs.Render.SlotFilling
import PageTemplate.Proofs.Render.Steps
import PageTemplate.Proofs.Render.Publishing

/-! # Nothing fails in silence

Some edits of a rendering go on without a word when they fail: a filler that cannot be put beside
its slot, an attribute that cannot be set on a copy, a tag that cannot be taken away. Here the same
steps are written down with all of their failures raised. On the documents and elements that a
rendering works on they do what they do without, so that there was nothing to be kept silent about.
-/

namespace PageTemplate

open Markup Document

variable {ε σ α β : Type}

/-- Two runs that go on alike after a step that ends alike. -/
theorem outcome_bind_congr {m m' : ExceptT ε (StateM σ) α} {f f' : α → ExceptT ε (StateM σ) β}
    {s : σ} (hm : outcome m s = outcome m' s)
    (hf : ∀ a t, outcome m' s = (.ok a, t) → outcome (f a) t = outcome (f' a) t) :
    outcome (m >>= f) s = outcome (m' >>= f') s := by
  rw [outcome_bind, outcome_bind, hm]
  split
  next a t heq => exact hf a t heq
  next => rfl

/-- A loop of steps that do what the rounds of a loop without failures do. -/
theorem outcome_foldlM_of_foldl {ι γ : Type} {f : β → ι → ExceptT ε (StateM σ) β}
    (round : γ → ι → γ) (state : γ → σ) (result : γ → β) (inv : List ι → γ → Prop)
    {items : List ι} {start : γ} (hstart : inv items start)
    (hstep : ∀ i rest c, inv (i :: rest) c → inv rest (round c i) ∧
      outcome (f (result c) i) (state c) = (.ok (result (round c i)), state (round c i))) :
    outcome (items.foldlM f (result start)) (state start) =
      (.ok (result (items.foldl round start)), state (items.foldl round start)) := by
  induction items generalizing start with
  | nil => rfl
  | cons i rest ih =>
      obtain ⟨hinv, hround⟩ := hstep i rest start hstart
      rw [List.foldlM_cons, outcome_bind_ok hround]
      exact ih hinv

theorem outcome_forM_of_foldl {ι : Type} {f : ι → ExceptT ε (StateM σ) PUnit}
    (round : σ → ι → σ) (inv : List ι → σ → Prop) {items : List ι} {start : σ}
    (hstart : inv items start)
    (hstep : ∀ i rest s, inv (i :: rest) s → inv rest (round s i) ∧
      outcome (f i) s = (.ok ⟨⟩, round s i)) :
    outcome (items.forM f) start = (.ok ⟨⟩, items.foldl round start) := by
  induction items generalizing start with
  | nil => rfl
  | cons i rest ih =>
      obtain ⟨hinv, hround⟩ := hstep i rest start hstart
      exact (outcome_bind_ok hround).trans (ih hinv)

theorem Rendering.outcome_document_congr {f f' : Document → Rendering α} {s : RenderState}
    (h : outcome (f s.document) s = outcome (f' s.document) s) :
    outcome (document >>= f) s = outcome (document >>= f') s := by
  rw [outcome_bind_ok (outcome_document s), outcome_bind_ok (outcome_document s), h]

/-- An edit that does what a change of the document does. -/
theorem Rendering.outcome_edit_eq_createIn {change : Edit α} {make : Document → Document × α}
    {s : RenderState}
    (h : outcome change s.document = (.ok (make s.document).2, (make s.document).1)) :
    outcome (edit change) s = outcome (createIn make) s := by
  have hrun : change.run s.document = (.ok (make s.document).2, (make s.document).1) := h
  unfold edit
  rw [outcome_bind, outcome_createIn, outcome_createIn]
  simp only [hrun]
  rfl

namespace Checked

/-! ## Copies -/

section

variable (v : Vocabularies) {d : Document} {x element : NodeId}

/-- A change of a document that gives something back and cannot fail. -/
def make (change : Document → Document × α) : Edit α :=
  modifyGet fun d => (change d).swap

theorem outcome_make (change : Document → Document × α) (d : Document) :
    outcome (make change) d = (.ok (change d).2, (change d).1) := rfl

theorem outcome_setAttribute (hx : d.isElement x = true) (raw value : String) :
    outcome (setAttribute x raw value) d =
      (.ok (), d.updateElement x (Element.set (QualifiedName.parse raw) value)) := by
  unfold setAttribute
  rw [outcome_bind_ok (outcome_get d), if_pos hx]
  rfl

/-- Declares a qualifier on a node, which has to be an element. -/
def declare (id : NodeId) (declaration : String × String) : Edit Unit := do
  let name := "xmlns:" ++ declaration.1
  if ((← get).attribute? id name).isSome then return ()
  else setAttribute id name declaration.2

/-- Declares qualifiers on a node, which has to be an element. -/
def declareMissing (id : NodeId) (declarations : List (String × String)) : Edit Unit :=
  declarations.forM (declare id)

theorem outcome_declareMissing (hx : d.isElement x = true)
    (declarations : List (String × String)) :
    outcome (declareMissing x declarations) d =
      (.ok (), PageTemplate.declareMissing d x declarations) := by
  refine outcome_forM_of_foldl _ (fun _ t => t.isElement x = true) hx ?_
  intro declaration rest t ht
  refine ⟨(isElement_declareMissing t x x [declaration]).trans ht, ?_⟩
  unfold declare
  rw [outcome_bind_ok (outcome_get t)]
  dsimp only
  split
  · rfl
  · exact outcome_setAttribute ht _ _

/-- Copies a macro's element together with the declarations that it inherits. -/
def copyElement (element : NodeId) : Edit NodeId := do
  let declarations := v.declarations (← get) element
  let copy ← make (·.deepCopy element)
  declareMissing copy declarations
  return copy

theorem outcome_copyElement (helement : d.isElement element = true) :
    outcome (copyElement v element) d =
      (.ok (MacroTable.copyElement v d element).2, (MacroTable.copyElement v d element).1) := by
  unfold copyElement
  rw [outcome_bind_ok (outcome_get d), outcome_bind_ok (outcome_make _ d),
    outcome_bind_ok (outcome_declareMissing ((isElement_deepCopy d element).trans helement) _)]
  rfl

/-- Copies one macro element of a library into the document. -/
def importElement (library : Document) (element : NodeId) : Edit NodeId := do
  let copy ← make (·.importSubtree library element)
  declareMissing copy (v.declarations library element)
  return copy

theorem outcome_importElement {library : Document}
    (helement : library.isElement element = true) :
    outcome (importElement v library element) d =
      (.ok (MacroTable.importElement v library d element).2,
        (MacroTable.importElement v library d element).1) := by
  unfold importElement
  rw [outcome_bind_ok (outcome_make _ d), outcome_bind_ok (outcome_declareMissing
    ((isElement_importSubtree d library element).trans helement) _)]
  rfl

end

/-! ## Publishing -/

section

variable (v : Vocabularies) {d d' : Document} {element : NodeId}

/-- Copies the macro elements of a library into the document, in document order. -/
def importLibrary (library : Document) : Edit (List NodeId) :=
  match library.rootElement? with
  | none => return []
  | some root =>
    (MacroTable.definitions v library (library.subtree root)).foldlM (fun copies element =>
      return copies ++ [← importElement v library element]) []

/-- Copies the macro elements of several libraries into the document. -/
def importLibraries (libraries : List Document) : Edit (List NodeId) :=
  libraries.foldlM (fun copies library => return copies ++ (← importLibrary v library)) []

/-- Adds the macro that an element defines. -/
def register (macros : List (String × Value)) (element : NodeId) :
    Edit (List (String × Value)) := do
  match (← get).findAttribute? element v.defineMacro with
  | none => return macros
  | some attr =>
    let name := Text.trimmed attr.value
    if (macros.lookup name).isSome then return macros
    else
      let element ← if (← get).isAttached element then copyElement v element else pure element
      return Keyed.insert name (.macroRef { name, element }) macros

/-- Adds the macros that are defined at a node or below it. -/
def registerBelow (macros : List (String × Value)) (root : NodeId) :
    Edit (List (String × Value)) := do
  let d ← get
  (MacroTable.definitions v d (d.subtree root)).foldlM (register v) macros

/-- The macros of the document and of libraries that were copied into it, by name. -/
def registerAll (imported : List NodeId) : Edit (List (String × Value)) :=
  (Document.root :: imported).foldlM (registerBelow v) []

/-- Publishes the macros of the document and of the libraries. -/
def publishMacros (settings : Settings) (libraries : List Document) : Rendering Unit := do
  let imported ← Rendering.edit (importLibraries settings.vocabularies libraries)
  let macros ← Rendering.edit (registerAll settings.vocabularies imported)
  Rendering.bindGlobal macrosBinding (.map macros)

theorem isElement_of_mem_definitions {nodes : List NodeId}
    (h : element ∈ MacroTable.definitions v d nodes) : d.isElement element = true :=
  (Bool.and_eq_true_iff.mp (List.mem_filter.mp h).2).1

/-- The edit does what a change does that adds nodes to the document. -/
def Adds (change : Edit α) (d : Document) (made : Document × α) : Prop :=
  Extends d made.1 ∧ outcome change d = (.ok made.2, made.1)

theorem Adds.bind {change : Edit α} {made : Document × α} {next : α → Edit β}
    {made' : Document × β} (h : Adds change d made) (hnext : Adds (next made.2) made.1 made') :
    Adds (change >>= next) d made' :=
  ⟨h.1.trans hnext.1, (outcome_bind_ok h.2).trans hnext.2⟩

theorem adds_pure (hlinked : d.WellLinked) (a : α) : Adds (pure a) d (d, a) :=
  ⟨.refl hlinked, rfl⟩

theorem adds_get (hlinked : d.WellLinked) : Adds get d (d, d) := ⟨.refl hlinked, rfl⟩

theorem adds_foldlM {ι : Type} {f : β → ι → Edit β} {round : Document × β → ι → Document × β}
    {items : List ι} (start : Document × β) (hgrown : Extends d start.1)
    (hround : ∀ i ∈ items, ∀ made : Document × β, Extends d made.1 →
      Adds (f made.2 i) made.1 (round made i)) :
    Adds (items.foldlM f start.2) start.1 (items.foldl round start) := by
  induction items generalizing start with
  | nil => exact adds_pure hgrown.linked start.2
  | cons i rest ih =>
      obtain ⟨hi, hrest⟩ := List.forall_mem_cons.mp hround
      have hfirst := hi start hgrown
      rw [List.foldlM_cons]
      exact hfirst.bind (ih _ (hgrown.trans hfirst.1) hrest)

theorem authored_of_all (value : String) : Authored (fun _ => True) value :=
  ⟨{ Element.named "" with attributes := [⟨.parse "", value⟩] }, trivial, _,
    List.mem_singleton_self _, rfl⟩

theorem adds_copyElement (hlinked : d.WellLinked) (helement : d.isElement element = true) :
    Adds (copyElement v element) d (MacroTable.copyElement v d element) := by
  have hcopy : Copied (StemsOn (fun _ => True) fun _ => True) _ d (d.deepCopy element).1
      (d.deepCopy element).2 :=
    copied_graft hlinked (d.tree element) fun _ _ _ _ => ⟨trivial, stems_of_origin trivial⟩
  have hdeclared := retouched_declareMissing hcopy.grown.linked (d.deepCopy element).2
    fun declaration (_ : declaration ∈ v.declarations d element) => authored_of_all _
  exact ⟨(hdeclared.copied hcopy).grown, outcome_copyElement v helement⟩

theorem adds_importElement (hlinked : d.WellLinked) {library : Document}
    (helement : library.isElement element = true) :
    Adds (importElement v library element) d (MacroTable.importElement v library d element) := by
  have hcopy : Copied (StemsOn (fun _ => True) (d.size ≤ ·)) _ d _ _ :=
    MacroTable.copied_importElement v hlinked library (fun _ => trivial) element
  exact ⟨hcopy.grown, outcome_importElement v helement⟩

theorem adds_importLibraries (hlinked : d.WellLinked) (libraries : List Document) :
    Adds (importLibraries v libraries) d (MacroTable.importLibraries v libraries d) := by
  refine adds_foldlM (d, []) (.refl hlinked) fun library _ made hgrown => ?_
  have hlibrary : Adds (importLibrary v library) made.1
      (MacroTable.importLibrary v library made.1) := by
    unfold importLibrary MacroTable.importLibrary
    cases library.rootElement? with
    | none => exact adds_pure hgrown.linked []
    | some top =>
        refine adds_foldlM (made.1, []) (.refl hgrown.linked) fun element helement made' h => ?_
        have himport := adds_importElement v h.linked (isElement_of_mem_definitions v helement)
        exact himport.bind (adds_pure himport.1.linked _)
  exact hlibrary.bind (adds_pure hlibrary.1.linked _)

theorem adds_register (hlinked : d.WellLinked) (macros : List (String × Value))
    (helement : d.isElement element = true) :
    Adds (register v macros element) d (MacroTable.register v d macros element) := by
  unfold register MacroTable.register
  refine Adds.bind (adds_get hlinked) ?_
  cases d.findAttribute? element v.defineMacro with
  | none => exact adds_pure hlinked macros
  | some attr =>
      dsimp only
      split
      · exact adds_pure hlinked macros
      refine Adds.bind (adds_get hlinked) ?_
      dsimp only
      by_cases hattached : d.isAttached element = true
      · rw [if_pos hattached, if_pos hattached]
        have hcopy := adds_copyElement v hlinked helement
        exact hcopy.bind (adds_pure hcopy.1.linked _)
      · rw [if_neg hattached, if_neg hattached]
        exact adds_pure hlinked _

theorem adds_registerAll (hlinked : d.WellLinked) (imported : List NodeId) :
    Adds (registerAll v imported) d (MacroTable.registerAll v d imported) := by
  refine adds_foldlM (d, []) (.refl hlinked) fun top _ made hgrown => ?_
  refine Adds.bind (adds_get hgrown.linked) ?_
  refine adds_foldlM made (.refl hgrown.linked) fun element helement made' h => ?_
  exact adds_register v h.linked made'.2 (h.elements _ (isElement_of_mem_definitions v helement))

/-- Macros are published without a failure that nobody hears of. -/
theorem outcome_publishMacros {s : RenderState} (hlinked : s.document.WellLinked)
    (settings : Settings) (libraries : List Document) :
    outcome (publishMacros settings libraries) s =
      outcome (Renderer.publishMacros settings libraries) s := by
  have himports := adds_importLibraries settings.vocabularies hlinked libraries
  unfold publishMacros Renderer.publishMacros
  refine outcome_bind_congr (Rendering.outcome_edit_eq_createIn himports.2) fun imported t ht => ?_
  rw [Rendering.outcome_createIn] at ht
  obtain ⟨⟨⟩, rfl⟩ := Prod.mk.inj ht
  refine outcome_bind_congr (Rendering.outcome_edit_eq_createIn ?_) fun _ _ _ => rfl
  exact (adds_registerAll settings.vocabularies himports.1.linked _).2

end

/-! ## Slots -/

section

variable (v : Vocabularies) {origin : NodeKind → Prop} {d : Document} {slot filler node : NodeId}
  {bound h f : Nat}

/-- The copy fills what the slot fills, if anything; then it has to be an element. -/
def handOn (slot copy : NodeId) : Edit Unit := do
  match (← get).findAttribute? slot v.fillSlot with
  | some attr => setAttribute copy attr.name.text attr.value
  | none => return ()

/-- Puts a copy of `filler` where `slot` stands, which has to stand somewhere. -/
def fillOne (slot filler : NodeId) : Edit Unit := do
  let copy ← make (·.deepCopy filler)
  insertBefore slot copy
  modify fun d => (d.removeAttributeBySpec copy v.fillSlot).1
  handOn v slot copy
  modify (·.detach slot)

theorem outcome_handOn {copy : NodeId} (hcopy : d.isElement copy = true) :
    outcome (handOn v slot copy) d = (.ok (), Slots.handOn v d slot copy) := by
  unfold handOn Slots.handOn
  rw [outcome_bind_ok (outcome_get d)]
  cases d.findAttribute? slot v.fillSlot with
  | some attr => exact outcome_setAttribute hcopy _ _
  | none => rfl

theorem outcome_fillOne (hlinked : d.WellLinked) (hrooted : d.Rooted node)
    (hslot : d.parent slot = some node) (hfiller : d.isElement filler = true) :
    outcome (fillOne v slot filler) d = (.ok (), Slots.fillOne v d slot filler) := by
  have hregion := region_own hlinked hrooted hslot
  have hcopy : Copied (fun _ _ => True) _ d (d.deepCopy filler).1 (d.deepCopy filler).2 :=
    copied_graft hlinked (d.tree filler) fun _ _ _ _ => trivial
  have helement := (isElement_deepCopy d filler).trans hfiller
  rcases hcopied : d.deepCopy filler with ⟨d₁, copy⟩
  rw [hcopied] at hcopy helement
  obtain ⟨d₂, hinsert, hbrought, -⟩ := Slots.exists_inserted hregion hslot hcopy
  have hremoved : Retouched (fun _ => True) copy d₂ _ :=
    retouched_removeAttributeBySpec hbrought.linked copy v.fillSlot
  have helement' := hremoved.confined.elements _ (hbrought.elements _ helement)
  rw [Slots.fillOne_eq hcopied hinsert]
  unfold fillOne
  rw [outcome_bind_ok (outcome_make _ d), hcopied, outcome_bind_ok hinsert,
    outcome_bind_ok (outcome_modify _ _), outcome_bind_ok (outcome_handOn v helement')]
  rfl

/-- Fills the child if it is a slot, and otherwise what is below it. -/
def fillChild (goOn : Slots.Fillers → NodeId → Edit Slots.Fillers) (fillers : Slots.Fillers)
    (child : NodeId) : Edit Slots.Fillers := do
  let name := Slots.slotName? v (← get) child
  match name, name.bind (fillers.lookup ·) with
  | some name, some filler => do
    fillOne v child filler
    return Keyed.erase name fillers
  | _, _ => goOn fillers child

/-- Fills the slots below `node`, followed `fuel` levels deep. Gives the fillers that are left. -/
def fillTo : Nat → Slots.Fillers → NodeId → Edit Slots.Fillers
  | 0, fillers, _ => return fillers
  | fuel + 1, fillers, node => do
    ((← get).childElements node).foldlM (fillChild v (fillTo fuel)) fillers

/-- Fills the slots below `node`. -/
def fill (node : NodeId) (fillers : Slots.Fillers) : Edit Slots.Fillers := do
  fillTo v (← get).size fillers node

theorem outcome_fillChild {start : Slots.Filling} {c : NodeId}
    {goOn : Slots.Fillers → NodeId → Edit Slots.Fillers}
    {goOn' : Slots.Filling → NodeId → Slots.Filling} (hlinked : start.document.WellLinked)
    (hrooted : start.document.Rooted node) (hc : start.document.parent c = some node)
    (hfillers : ∀ entry ∈ start.fillers, start.document.isElement entry.2 = true)
    (hgoOn : outcome (goOn start.fillers c) start.document =
      (.ok (goOn' start c).fillers, (goOn' start c).document)) :
    outcome (fillChild v goOn start.fillers c) start.document =
      (.ok (Slots.fillChild v goOn' start c).fillers,
        (Slots.fillChild v goOn' start c).document) := by
  unfold fillChild Slots.fillChild
  rw [outcome_bind_ok (outcome_get _)]
  cases Slots.slotName? v start.document c with
  | none => exact hgoOn
  | some name =>
      dsimp only [Option.bind_some]
      cases hfiller : start.fillers.lookup name with
      | none => exact hgoOn
      | some filler =>
          exact outcome_bind_ok (outcome_fillOne v hlinked hrooted hc
            (hfillers _ (Keyed.mem_of_lookup hfiller)))

/-- Slots that can be filled are filled without a failure. -/
theorem outcome_fillTo (fuel : Nat) (start : Slots.Filling) (node : NodeId) {h : Nat}
    (hstart : Slots.Fillable origin bound h f node start)
    (hfillers : ∀ entry ∈ start.fillers, start.document.isElement entry.2 = true) :
    outcome (fillTo v fuel start.fillers node) start.document =
      (.ok (Slots.fillTo v fuel start node).fillers, (Slots.fillTo v fuel start node).document) := by
  induction fuel generalizing start node h with
  | zero => rfl
  | succ fuel ih =>
      cases h with
      | zero => exact hstart.good.elim
      | succ h =>
          rw [Slots.fillTo_succ]
          unfold fillTo
          rw [outcome_bind_ok (outcome_get _)]
          refine outcome_foldlM_of_foldl _ (·.document) (·.fillers)
            (Slots.Filling.Underway (StemsOn origin (bound ≤ ·)) h f node start) hstart.underway ?_
          intro c rest filling hunder
          have hchild := hunder.fillable hstart
          have hfillers' : ∀ entry ∈ filling.fillers, filling.document.isElement entry.2 = true :=
            fun entry hentry =>
              hunder.confined.elements _ (hfillers entry (hunder.fillers_subset hentry))
          obtain ⟨⟨hc, -⟩, -⟩ := List.forall_mem_cons.mp hunder.left
          exact ⟨hunder.next hstart (Slots.filled_fillTo fuel filling c hchild),
            outcome_fillChild v hchild.linked (hunder.rooted hstart.linked hstart.rooted) hc
              hfillers' (ih filling c hchild hfillers')⟩

end

/-! ## Removing directives -/

section

variable (v : Vocabularies) {d t : Document} {n : NodeId}

/-- Takes the tag of an element away, if it has a parent. -/
def unwrap (node : NodeId) : Edit Unit := do
  if ((← get).parent node).isSome then
    let _ ← omitTag node

/-- Removes the directives from a node and everything below it. -/
def removeDirectives (root : NodeId) : Edit Unit := do
  let d ← get
  let elements := (d.subtree root).filter (d.isElement ·)
  let doomed := elements.map fun node => (node, Cleanup.directiveNames v d node)
  let omitted := elements.filter (Cleanup.isDirectiveElement v d)
  set (doomed.foldl (fun d (node, names) => Cleanup.removeNames d node names) d)
  omitted.forM unwrap

theorem outcome_unwrap (hlinked : d.WellLinked) (h : Cleanup.Unwrapping d t)
    (hn : d.Below root n) : outcome (unwrap n) t = (.ok (), Cleanup.unwrap t n) := by
  unfold unwrap Cleanup.unwrap
  rw [outcome_bind_ok (outcome_get t)]
  cases hparent : t.parent n with
  | none => rfl
  | some p =>
      obtain ⟨t', homitted, -⟩ := h.exists_replaced hlinked hn hparent
      have hresult : ((omitTag n).run t).2 = t' := congrArg Prod.snd homitted
      show outcome (omitTag n >>= fun _ => pure ()) t = (.ok (), ((omitTag n).run t).2)
      rw [outcome_bind_ok homitted, hresult]
      rfl

/-- Directives are removed from a document without a failure that nobody hears of. -/
theorem outcome_removeDirectives (hlinked : d.WellLinked) :
    outcome (removeDirectives v root) d = (.ok (), Cleanup.removeDirectives v d root) := by
  have helements : ∀ n ∈ (d.subtree root).filter (d.isElement ·), d.Below root n := fun n hn =>
    below_of_mem_subtree (List.mem_filter.mp hn).1
  unfold removeDirectives
  rw [outcome_bind_ok (outcome_get d), outcome_bind_ok (outcome_set _ _)]
  refine outcome_forM_of_foldl Cleanup.unwrap (fun rest t => Cleanup.Unwrapping d t ∧
    ∀ n ∈ rest, d.Below root n) ⟨Cleanup.unwrapping_removeNames hlinked ?_, fun n hn => ?_⟩ ?_
  · intro entry hentry
    obtain ⟨n, hn, rfl⟩ := List.mem_map.mp hentry
    exact helements n hn
  · exact helements n (List.mem_filter.mp hn).1
  · rintro n rest t ⟨ht, hrest⟩
    obtain ⟨hn, hrest⟩ := List.forall_mem_cons.mp hrest
    exact ⟨⟨Cleanup.unwrapping_unwrap hlinked ht hn, hrest⟩, outcome_unwrap hlinked ht hn⟩

end

end Checked

end PageTemplate
