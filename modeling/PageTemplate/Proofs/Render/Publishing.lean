import PageTemplate.Proofs.Render.Stage
import PageTemplate.Render.Renderer

/-! # Publishing macros

Macros are published before the walk begins. Publishing adds copies of elements of the document
and of its libraries and changes nothing else, and every macro that is published is an element of
such a copy.
-/

namespace PageTemplate

open Markup Document

/-- The nodes of a document and of libraries. -/
def Origin (d : Document) (libraries : List Document) (kind : NodeKind) : Prop :=
  (∃ n, d.kind n = kind) ∨ ∃ library ∈ libraries, ∃ n, library.kind n = kind

variable {origin : NodeKind → Prop} {d d' : Document} {top element : NodeId} {v : Vocabularies}
  {macros : List (String × Value)}

theorem Apart.extends (h : Apart origin d top) (hgrown : Extends d d') (hlinked : d.WellLinked) :
    Apart origin d' top := by
  refine ⟨Nat.lt_of_lt_of_le h.lt hgrown.size_le, h.ne_root, ?_, fun n hn => ?_⟩
  · rw [hgrown.parent_eq (Nat.not_le_of_lt h.lt), h.parent_eq]
  · replace hn := (hgrown.below_old hlinked h.lt).mp hn
    rw [hgrown.kind_eq (Nat.not_le_of_lt (hlinked.below_lt hn h.lt))]
    exact h.stems n hn

theorem Published.extends {reference : MacroRef} (h : Published origin d reference)
    (hgrown : Extends d d') (hlinked : d.WellLinked) : Published origin d' reference := by
  obtain ⟨top, hapart, hbelow⟩ := h
  exact ⟨top, hapart.extends hgrown hlinked, (hgrown.below_old hlinked hapart.lt).mpr hbelow⟩

theorem Usable.extends {reference : MacroRef} (h : Usable origin d reference)
    (hgrown : Extends d d') (hlinked : d.WellLinked) : Usable origin d' reference :=
  ⟨h.1.extends hgrown hlinked, hgrown.elements _ h.2⟩

theorem apart_of_copied {h : Nat} {copy : NodeId} {ok : NodeId → Prop}
    (hcopy : Copied (StemsOn origin ok) h d d' copy) (hpos : 0 < d.size) :
    Apart origin d' copy := by
  refine ⟨hcopy.lt, ?_, hcopy.parent_eq, fun n hn => (hcopy.throughout.below hn).self.2⟩
  exact Nat.ne_of_gt (Nat.lt_of_lt_of_le hpos hcopy.new)

namespace MacroTable

/-! ## Importing macros of libraries -/

/-- Libraries have been imported: trees of their own were added. -/
structure Imports (origin : NodeKind → Prop) (d d' : Document) (copies : List NodeId) : Prop where
  grown : Extends d d'
  apart : ∀ copy ∈ copies, Apart origin d' copy

protected theorem Imports.trans {d'' : Document} {copies copies' : List NodeId}
    (h : Imports origin d d' copies) (h' : Imports origin d' d'' copies') :
    Imports origin d d'' (copies ++ copies') := by
  refine ⟨h.grown.trans h'.grown, fun copy hcopy => ?_⟩
  rcases List.mem_append.mp hcopy with hcopy | hcopy
  · exact (h.apart copy hcopy).extends h'.grown h.grown.linked
  · exact h'.apart copy hcopy

theorem imports_importLibrary (hlinked : d.WellLinked) (hpos : 0 < d.size) {library : Document}
    (horigin : ∀ n, origin (library.kind n)) :
    Imports origin d (importLibrary v library d).1 (importLibrary v library d).2 := by
  unfold importLibrary
  split
  · exact ⟨.refl hlinked, by simp⟩
  · refine List.foldlRecOn (motive := fun made : Document × List NodeId =>
      Imports origin d made.1 made.2) _ _ ⟨.refl hlinked, by simp⟩ ?_
    rintro ⟨t, copies⟩ h element _
    have hcopy := copied_importElement v h.grown.linked library horigin element
    refine h.trans ⟨hcopy.grown, fun copy hmem => ?_⟩
    obtain rfl := List.mem_singleton.mp hmem
    exact apart_of_copied hcopy (Nat.lt_of_lt_of_le hpos h.grown.size_le)

theorem imports_importLibraries (hlinked : d.WellLinked) (hpos : 0 < d.size)
    {libraries : List Document} (horigin : ∀ library ∈ libraries, ∀ n, origin (library.kind n)) :
    Imports origin d (importLibraries v libraries d).1 (importLibraries v libraries d).2 := by
  unfold importLibraries
  refine List.foldlRecOn (motive := fun made : Document × List NodeId =>
    Imports origin d made.1 made.2) _ _ ⟨.refl hlinked, by simp⟩ ?_
  rintro ⟨t, copies⟩ h library hlibrary
  exact h.trans (imports_importLibrary h.grown.linked (Nat.lt_of_lt_of_le hpos h.grown.size_le)
    (horigin library hlibrary))

/-! ## Registering macros -/

/-- Macros have been registered: copies of elements were added, and all macros can be used. -/
structure Registers (origin : NodeKind → Prop) (d d' : Document) (macros : List (String × Value)) :
    Prop where
  grown : Extends d d'
  macros : ∀ entry ∈ macros, entry.2.AllMacros (Usable origin d')

/-- An element of the tree of the document, or of a tree of its own. -/
def Registrable (origin : NodeKind → Prop) (d : Document) (element : NodeId) : Prop :=
  d.Below root element ∨ ∃ top, Apart origin d top ∧ d.Below top element

/-- A document whose tree stems from the origins, with trees of their own beside it. -/
structure Hoard (origin : NodeKind → Prop) (d : Document) : Prop where
  linked : d.WellLinked
  pos : 0 < d.size
  stems : ∀ n, d.Below root n → Stems origin (d.kind n)

theorem Hoard.extends (h : Hoard origin d) (hgrown : Extends d d') : Hoard origin d' := by
  refine ⟨hgrown.linked, Nat.lt_of_lt_of_le h.pos hgrown.size_le, fun n hn => ?_⟩
  replace hn := (hgrown.below_old h.linked h.pos).mp hn
  rw [hgrown.kind_eq (Nat.not_le_of_lt (h.linked.below_lt hn h.pos))]
  exact h.stems n hn

theorem Registrable.extends (h : Registrable origin d element) (hhoard : Hoard origin d)
    (hgrown : Extends d d') : Registrable origin d' element := by
  rcases h with h | ⟨top, hapart, hbelow⟩
  · exact .inl ((hgrown.below_old hhoard.linked hhoard.pos).mpr h)
  · exact .inr ⟨top, hapart.extends hgrown hhoard.linked,
      (hgrown.below_old hhoard.linked hapart.lt).mpr hbelow⟩

/-- The copy of an element of the document's tree is a tree of its own. -/
theorem apart_copyElement (h : Hoard origin d) (helement : d.Below root element) :
    Extends d (copyElement v d element).1 ∧
      Apart origin (copyElement v d element).1 (copyElement v d element).2 := by
  have hgood : Throughout (StemsOn origin fun _ => True) d d.size element :=
    throughout_of_rooted h.linked h.linked.parent_root helement (h.linked.below_lt helement h.pos)
      fun m hm => ⟨trivial, h.stems m (helement.trans hm)⟩
  have hcopy := copied_copyElement v h.linked hgood fun m hm => by
    rcases h.linked.below_total hm helement with hback | hdown
    · rcases h.linked.below_cases hback with rfl | ⟨q, hq, -⟩
      · exact h.stems _ .refl
      · rw [h.linked.parent_root] at hq
        cases hq
    · exact h.stems m hdown
  exact ⟨hcopy.grown, apart_of_copied hcopy h.pos⟩

theorem registers_register (h : Hoard origin d)
    (hmacros : ∀ entry ∈ macros, entry.2.AllMacros (Usable origin d))
    (helement : d.isElement element = true) (hregistrable : Registrable origin d element) :
    Registers origin d (register v d macros element).1 (register v d macros element).2 := by
  unfold register
  split
  · exact ⟨.refl h.linked, hmacros⟩
  dsimp only
  split
  · exact ⟨.refl h.linked, hmacros⟩
  have hlt : element < d.size := lt_size_of_isElement helement
  -- A macro of the document is copied out of its tree; one of a library is apart already.
  by_cases hattached : d.isAttached element = true
  · obtain ⟨hgrown, hapart⟩ := apart_copyElement (v := v) h
      ((isAttached_iff h.linked hlt).mp hattached)
    rw [if_pos hattached]
    refine ⟨hgrown, fun entry hentry => ?_⟩
    rcases Keyed.mem_insert hentry with rfl | hentry
    · exact .macroRef ⟨⟨_, hapart, .refl⟩, (isElement_copyElement v d _).trans helement⟩
    · exact (hmacros entry hentry).mono fun reference href => href.extends hgrown h.linked
  · rw [if_neg hattached]
    refine ⟨.refl h.linked, fun entry hentry => ?_⟩
    rcases Keyed.mem_insert hentry with rfl | hentry
    · refine .macroRef ⟨hregistrable.resolve_left fun hbelow => hattached ?_, helement⟩
      exact (isAttached_iff h.linked hlt).mpr hbelow
    · exact hmacros entry hentry

theorem Registers.next {t u : Document} {macros' : List (String × Value)}
    (h : Registers origin d t macros) (h' : Registers origin t u macros') :
    Registers origin d u macros' :=
  ⟨h.grown.trans h'.grown, h'.macros⟩

theorem registers_registerBelow (h : Hoard origin d)
    (hmacros : ∀ entry ∈ macros, entry.2.AllMacros (Usable origin d))
    (htop : Registrable origin d top) :
    Registers origin d (registerBelow v d macros top).1 (registerBelow v d macros top).2 := by
  unfold registerBelow
  refine List.foldlRecOn (motive := fun made : Document × List (String × Value) =>
    Registers origin d made.1 made.2) _ _ ⟨.refl h.linked, hmacros⟩ ?_
  rintro ⟨t, made⟩ hmade element hmem
  obtain ⟨hmem, hdefines⟩ := List.mem_filter.mp hmem
  have hbelow := below_of_mem_subtree hmem
  have hregistrable : Registrable origin d element := htop.imp (fun hroot => hroot.trans hbelow)
    fun ⟨top', hapart, htop'⟩ => ⟨top', hapart, htop'.trans hbelow⟩
  have helement : d.isElement element = true := (Bool.and_eq_true_iff.mp hdefines).1
  exact hmade.next (registers_register (h.extends hmade.grown) hmade.macros
    (hmade.grown.elements _ helement) (hregistrable.extends h hmade.grown))

theorem registers_registerAll (h : Hoard origin d) {imported : List NodeId}
    (himported : ∀ top ∈ imported, Apart origin d top) :
    Registers origin d (registerAll v d imported).1 (registerAll v d imported).2 := by
  unfold registerAll
  refine List.foldlRecOn (motive := fun made : Document × List (String × Value) =>
    Registers origin d made.1 made.2) _ _ ⟨.refl h.linked, by simp⟩ ?_
  rintro ⟨t, made⟩ hmade top hmem
  have htop : Registrable origin d top := by
    rcases List.mem_cons.mp hmem with rfl | hmem
    · exact .inl .refl
    · exact .inr ⟨top, himported top hmem, .refl⟩
  exact hmade.next (registers_registerBelow (h.extends hmade.grown) hmade.macros
    (htop.extends h hmade.grown))

end MacroTable

namespace Renderer

variable {settings : Settings} {libraries : List Document} {s : RenderState}

/-- After publishing, the document has grown, its tree stems from the document and the libraries,
and all macros that values hold can be used. -/
theorem ensures_publishMacros (hlinked : s.document.WellLinked) (hpos : 0 < s.document.size)
    (hglobals : s.globals.AllMacros fun _ => False) :
    Ensures (publishMacros settings libraries) s
      (fun _ t => Extends s.document t.document ∧
        MacroTable.Hoard (Origin s.document libraries) t.document ∧
        t.globals.AllMacros (Usable (Origin s.document libraries) t.document))
      (fun _ _ => False) := by
  have hhoard : MacroTable.Hoard (Origin s.document libraries) s.document :=
    ⟨hlinked, hpos, fun n _ => stems_of_origin (.inl ⟨n, rfl⟩)⟩
  have hlibraries : ∀ library ∈ libraries, ∀ n, Origin s.document libraries (library.kind n) :=
    fun library hlibrary n => .inr ⟨library, hlibrary, n, rfl⟩
  have himports := MacroTable.imports_importLibraries (v := settings.vocabularies) hlinked hpos
    hlibraries
  unfold publishMacros
  dsimp only
  refine Ensures.bind (Ensures.modifyGet (Ensures.bind (Ensures.modifyGet ?_)))
  have hregisters := MacroTable.registers_registerAll (v := settings.vocabularies)
    (hhoard.extends himports.grown) himports.apart
  refine Ensures.modify ⟨himports.grown.trans hregisters.grown,
    (hhoard.extends himports.grown).extends hregisters.grown, ?_⟩
  exact (hglobals.mono fun _ => False.elim).bind (.map hregisters.macros)

end Renderer

end PageTemplate
