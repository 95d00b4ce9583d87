import PageTemplate.Proofs.Markup.Credits
import PageTemplate.Proofs.Render.Holding
import PageTemplate.Render.Renderer

/-! # Sources throughout a rendering

Macros of libraries are copied into the document before the rendering begins, and only there
elements come to be said to come from elsewhere. Everything that follows copies, moves and changes
elements of the document or makes new ones. So at every moment the elements come from where they
are said to come from.
-/

namespace PageTemplate

open Markup Document

variable {libraries : List Document} {name : Option String}

/-! ## Macros -/

variable {d : Document} (v : Vocabularies)

theorem credits_declareMissing (h : d.Credits libraries name) (x : NodeId)
    (declarations : List (String × String)) :
    (declareMissing d x declarations).Credits libraries name := by
  refine List.foldlRecOn (motive := fun t : Document => t.Credits libraries name) _ _ h ?_
  intro t ht declaration _
  dsimp only
  split
  · exact ht
  · exact ht.setElement x _ _

namespace MacroTable

theorem credits_copyElement (h : d.Credits libraries name) (element : NodeId) :
    (copyElement v d element).1.Credits libraries name :=
  credits_declareMissing (h.deepCopy element) _ _

theorem credits_importLibrary (h : d.Credits libraries name) {library : Document}
    (hlibrary : library ∈ libraries) (horiginal : library.IsOriginal) :
    (importLibrary v library d).1.Credits libraries name := by
  unfold importLibrary
  split
  · exact h
  next top htop =>
    have hroot : library.Below root top := .of_child (List.mem_of_find?_eq_some htop) .refl
    refine List.foldlRecOn (motive := fun made : Document × List NodeId =>
      made.1.Credits libraries name) _ _ h ?_
    rintro ⟨t, copies⟩ ht element hmem
    have hbelow := below_of_mem_subtree (List.mem_filter.mp hmem).1
    exact credits_declareMissing (ht.importSubtree hlibrary horiginal (hroot.trans hbelow)) _ _

theorem credits_importLibraries (h : d.Credits libraries name)
    (horiginal : ∀ library ∈ libraries, library.IsOriginal) :
    (importLibraries v libraries d).1.Credits libraries name := by
  refine List.foldlRecOn (motive := fun made : Document × List NodeId =>
    made.1.Credits libraries name) _ _ h ?_
  rintro ⟨t, copies⟩ ht library hmem
  exact credits_importLibrary v ht hmem (horiginal library hmem)

theorem credits_register (h : d.Credits libraries name) (macros : List (String × Value))
    (element : NodeId) : (register v d macros element).1.Credits libraries name := by
  unfold register
  split
  · exact h
  dsimp only
  split
  · exact h
  split
  · exact credits_copyElement v h element
  · exact h

theorem credits_registerAll (h : d.Credits libraries name) (imported : List NodeId) :
    (registerAll v d imported).1.Credits libraries name := by
  refine List.foldlRecOn (motive := fun made : Document × List (String × Value) =>
    made.1.Credits libraries name) _ _ h ?_
  rintro ⟨t, macros⟩ ht top _
  refine List.foldlRecOn (motive := fun made : Document × List (String × Value) =>
    made.1.Credits libraries name) _ _ ht ?_
  rintro ⟨u, macros'⟩ hu element _
  exact credits_register v hu macros' element

end MacroTable

/-- When the macros are published, the elements come from where they are said to come from. -/
theorem Renderer.credits_publishMacros {settings : Settings} {s : RenderState}
    (hpage : s.document.IsOriginal) (horiginal : ∀ library ∈ libraries, library.IsOriginal) :
    (outcome (publishMacros settings libraries) s).2.document.Credits libraries
      s.document.sourceName := by
  have hstart : s.document.Credits libraries s.document.sourceName :=
    ⟨rfl, fun n element hkind => Element.credited_of_none (hpage n element hkind)⟩
  have hholds : Holds (fun t : RenderState => t.document.Credits libraries s.document.sourceName)
      (publishMacros settings libraries) := by
    refine .bind (Rendering.holds_createIn fun d hd => ?_) fun imported =>
      .bind (Rendering.holds_createIn fun d hd => ?_) fun macros => Rendering.holds_bindGlobal _ _
    · exact MacroTable.credits_importLibraries settings.vocabularies hd horiginal
    · exact MacroTable.credits_registerAll settings.vocabularies hd imported
  exact (hholds s hstart).state

/-! ## Slots -/

namespace Slots

theorem credits_fillOne (h : d.Credits libraries name) (slot filler : NodeId) :
    (fillOne v d slot filler).Credits libraries name := by
  have hcopy := h.deepCopy filler
  unfold fillOne
  rcases hcopied : d.deepCopy filler with ⟨d₁, copy⟩
  rw [hcopied] at hcopy
  have hinsert := (holds_insertBefore ignoresLinks_credits slot copy d₁ hcopy).state
  dsimp only
  have houtcome : outcome (insertBefore slot copy) d₁ = (insertBefore slot copy).run d₁ := rfl
  rw [houtcome] at hinsert
  split
  next heq =>
    rw [heq] at hinsert
    exact hinsert
  next t heq =>
    rw [heq] at hinsert
    have hremoved := hinsert.removeAttributeBySpec copy v.fillSlot
    split
    · exact (hremoved.setElement copy _ _).detach slot
    · exact hremoved.detach slot

theorem credits_fillTo (fuel : Nat) (filling : Filling)
    (h : filling.document.Credits libraries name) (node : NodeId) :
    (fillTo v fuel filling node).document.Credits libraries name := by
  induction fuel generalizing filling node with
  | zero => exact h
  | succ fuel ih =>
      refine List.foldlRecOn (motive := fun filling : Filling =>
        filling.document.Credits libraries name) _ _ h ?_
      intro filling' hfilling' child _
      dsimp only
      split
      · exact credits_fillOne v hfilling' _ _
      · exact ih filling' hfilling' child

end Slots

/-! ## Expansions -/

namespace Expansion

variable (settings : Settings) (ctx : Context)

theorem holds_fillCurrent (state : State) :
    Holds (fun s => s.document.Credits libraries name) (fillCurrent settings state) :=
  .bind (Rendering.holds_createIn fun _ h => Slots.credits_fillTo _ _ _ h _) fun _ => .pure _

theorem holds_advance (state : State) (parent : MacroRef) :
    Holds (fun s => s.document.Credits libraries name) (advance settings state parent) := by
  refine .bind Rendering.holds_document fun d => .bind (Rendering.holds_createIn fun _ h =>
    MacroTable.credits_copyElement _ h _) fun copy => ?_
  dsimp only
  split
  · exact Rendering.holds_fail _
  split
  · exact Rendering.holds_fail _
  · exact .pure _

theorem holds_extendTo (fuel : Nat) (state : State) :
    Holds (fun s => s.document.Credits libraries name) (extendTo settings ctx fuel state) := by
  induction fuel generalizing state with
  | zero => exact .throw _
  | succ fuel ih =>
      refine .bind Rendering.holds_document fun d => ?_
      split
      · exact .pure _
      · refine .bind (holds_resolve settings ctx _ _ _) fun found => ?_
        cases found with
        | none => exact .pure _
        | some parent =>
            exact .bind (holds_advance settings state parent) fun next =>
              .bind (holds_fillCurrent settings next) fun filled => ih filled

theorem holds_handle :
    Holds (fun s => s.document.Credits libraries name) (handle settings ctx) := by
  refine .bind Rendering.holds_document fun d => ?_
  split
  · exact .pure _
  refine .bind (holds_resolve settings ctx _ _ _) fun found => ?_
  cases found with
  | none => exact .pure _
  | some used =>
      dsimp only
      split
      · exact Rendering.holds_fail _
      have hexpand : Holds (fun s => s.document.Credits libraries name)
          (expand settings ctx used) := by
        refine .bind Rendering.holds_document fun _ => .bind (Rendering.holds_createIn fun _ h =>
          MacroTable.credits_copyElement _ h _) fun copy => ?_
        exact .bind (holds_fillCurrent settings _) fun state =>
          .bind (holds_extendTo settings ctx _ state) fun _ => .pure _
      exact .bind hexpand fun expanded => .bind
        (Rendering.holds_edit (holds_replace ignoresLinks_credits _ _)) fun _ =>
          .bind Rendering.holds_document fun _ => .pure _

end Expansion

/-! ## Directives -/

section Directives

variable (libraries name) (settings : Settings) (ctx : Context)

theorem Condition.holds_handle :
    Holds (fun s => s.document.Credits libraries name) (Condition.handle settings ctx) := by
  refine .bind Rendering.holds_document fun d => ?_
  split
  · exact .pure _
  refine .bind (ctx.holds_evaluateDirective settings _ _) fun value => ?_
  split
  · exact .pure _
  · exact .bind (Rendering.holds_changeDocument fun _ h => h.detach _) fun _ => .pure _

theorem Repeat.holds_handle :
    Holds (fun s => s.document.Credits libraries name) (Repeat.handle settings ctx) := by
  refine .bind Rendering.holds_document fun d => ?_
  split
  · exact .pure _
  refine .bind (ctx.holds_readDirective _ _ _) fun read =>
    .bind (ctx.holds_evaluateDirective settings _ _) fun result => ?_
  split
  · exact .pure _
  split
  · exact .bind Rendering.holds_document fun _ => Rendering.holds_fail _
  refine .bind (.mapM (fun entry => ?_) _) fun contexts =>
    .bind (Rendering.holds_changeDocument fun _ h => h.detach _) fun _ => .pure _
  refine .bind (Rendering.holds_createIn fun _ h => h.deepCopy _) fun copy => .bind
    (Rendering.holds_edit (holds_insertBefore ignoresLinks_credits _ _)) fun _ => .bind
      (Rendering.holds_changeDocument fun _ h => h.removeAttributeBySpec _ _) fun _ =>
        .bind Rendering.holds_document fun _ => .pure _

theorem holds_contentNodes (mode : Directive.ContentMode) (value : Value) :
    Holds (fun s => s.document.Credits libraries name) (contentNodes mode value) := by
  cases mode with
  | text => exact .bind (Rendering.holds_createIn fun _ h => h.create nofun) fun _ => .pure _
  | markup => exact Rendering.holds_edit (holds_parseFragment libraries name _)

theorem Content.holds_handle :
    Holds (fun s => s.document.Credits libraries name) (Content.handle settings ctx) := by
  refine .bind Rendering.holds_document fun d => ?_
  split
  · exact Rendering.holds_fail _
  · refine .bind (ctx.holds_readDirective _ _ _) fun read =>
      .bind (ctx.holds_evaluateDirective settings _ _) fun result => ?_
    split
    · exact .pure _
    dsimp only
    split
    · exact .bind (Rendering.holds_changeDocument fun _ h => h.clearChildren _) fun _ => .pure _
    · exact .bind (holds_contentNodes libraries name _ _) fun nodes => .bind
        (Rendering.holds_changeDocument fun _ h => h.replaceChildren _ _) fun _ => .pure _
  · refine .bind (ctx.holds_readDirective _ _ _) fun read =>
      .bind (ctx.holds_evaluateDirective settings _ _) fun result => ?_
    split
    · exact .bind (Rendering.holds_edit (holds_omitTag ignoresLinks_credits _)) fun _ =>
        .bind Rendering.holds_document fun _ => .pure _
    dsimp only
    split
    · exact .bind (Rendering.holds_changeDocument fun _ h => h.detach _) fun _ => .pure _
    · exact .bind (holds_contentNodes libraries name _ _) fun nodes => .bind
        (Rendering.holds_edit (holds_replace ignoresLinks_credits _ _)) fun _ => .pure _
  · exact .pure _

theorem Attributes.holds_handle :
    Holds (fun s => s.document.Credits libraries name) (Attributes.handle settings ctx) := by
  have hset : ∀ x raw value, Holds (fun s => s.document.Credits libraries name)
      (Rendering.edit (setAttribute x raw value)) := fun x raw value =>
    Rendering.holds_edit (holds_setAttribute libraries name x raw value)
  refine .bind Rendering.holds_document fun d => ?_
  split
  · exact .pure _
  refine .bind (.forM (fun item => ?_) _) fun _ => .pure _
  refine .bind (ctx.holds_readDirective _ _ _) fun read =>
    .bind (ctx.holds_evaluateDirective settings _ _) fun value => ?_
  split
  · exact .pure _
  split
  · exact Rendering.holds_changeDocument fun _ h => h.removeAttribute _ _
  refine .bind Rendering.holds_document fun d => ?_
  dsimp only
  split
  · exact .bind (hset _ _ _) fun _ => hset _ _ _
  · exact hset _ _ _

theorem OmitTag.holds_handle :
    Holds (fun s => s.document.Credits libraries name) (OmitTag.handle settings ctx) := by
  refine .bind Rendering.holds_document fun d => ?_
  split
  · exact .pure _
  refine .bind ?_ fun omitted => ?_
  · unfold omits
    split
    · exact .pure _
    · exact .bind (ctx.holds_evaluateDirective settings _ _) fun _ => .pure _
  · split
    · exact .bind (Rendering.holds_edit (holds_omitTag ignoresLinks_credits _)) fun _ =>
        .bind Rendering.holds_document fun _ => .pure _
    · exact .pure _

theorem Handler.holds_handle (handler : Handler) :
    Holds (fun s => s.document.Credits libraries name) (handler.handle settings ctx) := by
  cases handler with
  | define => exact Define.holds_handle settings ctx
  | condition => exact Condition.holds_handle libraries name settings ctx
  | repetition => exact Repeat.holds_handle libraries name settings ctx
  | content => exact Content.holds_handle libraries name settings ctx
  | attributes => exact Attributes.holds_handle libraries name settings ctx
  | omitTag => exact OmitTag.holds_handle libraries name settings ctx

theorem OnError.holds_recover (error : RenderError) :
    Holds (fun s => s.document.Credits libraries name) (OnError.recover settings ctx error) := by
  unfold recover
  split
  · refine .bind Rendering.holds_document fun d => ?_
    split
    · refine .bind (Context.holds_readDirective _ _ _ _) fun read =>
        .bind (Context.holds_evaluateDirective _ settings _ _) fun result => ?_
      split
      · exact .pure _
      split
      · exact Rendering.holds_changeDocument fun _ h => h.clearChildren _
      · exact .bind (holds_contentNodes libraries name _ _) fun nodes =>
          Rendering.holds_changeDocument fun _ h => h.replaceChildren _ _
    · exact Rendering.holds_fail _
  · exact Rendering.holds_fail _

theorem SourceComment.holds_annotate (v : Vocabularies) (base : Option String) (x : NodeId) :
    Holds (fun s => s.document.Credits libraries name) (annotate v base x) := by
  have hadd : ∀ tag insert, (∀ reference new, Holds (Credits libraries name)
      (insert reference new)) →
        Holds (fun s => s.document.Credits libraries name) (addComment base x tag insert) :=
    fun tag insert hinsert => .bind Rendering.holds_document fun d => .bind
      (Rendering.holds_createIn fun _ h => h.create nofun) fun comment =>
        Rendering.holds_edit (hinsert _ _)
  have hbefore := fun tag => hadd tag insertBefore (holds_insertBefore ignoresLinks_credits)
  have hafter := fun tag => hadd tag insertAfter (holds_insertAfter ignoresLinks_credits)
  refine .bind Rendering.holds_document fun d => ?_
  split
  · dsimp only
    split
    · exact hbefore _
    split
    · exact .bind (hbefore _) fun _ => hafter _
    split
    · exact hbefore _
    split
    · exact hafter _
    · exact .pure _
  · exact .pure _

/-- Without visitors of the settings, a rendering begins with the expansion and its comments. -/
theorem Walk.prepare_eq_annotated (hvisitors : settings.visitors = []) :
    prepare settings ctx = Expansion.handle settings ctx >>= fun c =>
      if settings.sourceComments then do
        SourceComment.annotate settings.vocabularies settings.commentRoot c.node
        return c
      else return c := by
  unfold prepare visitors
  refine bind_congr fun c => ?_
  rw [hvisitors]
  split
  · simp [SourceComment.visitor]
  · rfl

theorem Walk.holds_prepare (hvisitors : settings.visitors = []) :
    Holds (fun s => s.document.Credits libraries name) (prepare settings ctx) := by
  rw [Walk.prepare_eq_annotated settings ctx hvisitors]
  refine .bind (Expansion.holds_handle settings ctx) fun c => ?_
  split
  · exact .bind (SourceComment.holds_annotate libraries name _ _ _) fun _ => .pure _
  · exact .pure _

end Directives

/-- After the expansion of a macro, comments are all that is added before the directives. -/
theorem Walk.state_prepare {settings : Settings} {ctx c : Context} {s t : RenderState}
    (hvisitors : settings.visitors = [])
    (hexpanded : outcome (Expansion.handle settings ctx) s = (.ok c, t)) :
    (outcome (prepare settings ctx) s).2 = if settings.sourceComments then
      (outcome (SourceComment.annotate settings.vocabularies settings.commentRoot c.node) t).2
        else t := by
  rw [prepare_eq_annotated settings ctx hvisitors, outcome_bind_ok hexpanded]
  split
  · rw [outcome_bind]
    split
    next heq => rw [heq]; rfl
    next heq => rw [heq]
  · rfl

/-! ## Removing directives -/

theorem Cleanup.credits_removeDirectives (h : d.Credits libraries name) (top : NodeId) :
    (removeDirectives v d top).Credits libraries name := by
  refine List.foldlRecOn (motive := fun t : Document => t.Credits libraries name) _ _ ?_ ?_
  · refine List.foldlRecOn (motive := fun t : Document => t.Credits libraries name) _ _ h ?_
    rintro t ht ⟨node, names⟩ -
    exact List.foldlRecOn (motive := fun t : Document => t.Credits libraries name) _ _ ht
      fun _ hu _ _ => hu.removeAttribute _ _
  · intro t ht node _
    unfold unwrap
    split
    · exact (holds_omitTag ignoresLinks_credits node t ht).state
    · exact ht

end PageTemplate
