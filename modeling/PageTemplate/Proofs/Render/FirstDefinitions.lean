import Mathlib.Data.List.Dedup
import PageTemplate.Proofs.Render.Likenesses
import PageTemplate.Proofs.Render.Publishing

/-! # The first definition of a macro counts

The table of macros has one entry for each name that is defined in the tree of the document or of a
library, and what it has there is like the first element that defines the name: the document comes
before the libraries, and these come in the order in which they are given.

The macros of a library are looked for below its root element and then again in the copies of what
was found. So the libraries must define all their macros below their root elements, and in a way
that the copies keep: a definition is lost when it is one by a default namespace that is declared
around the copied element.
-/

namespace PageTemplate.MacroTable

open Markup Document

/-! ## Definitions -/

section

variable (v : Vocabularies)

/-- The elements that define macros in the tree of a document, in document order. -/
def definers (d : Document) : List NodeId := definitions v d (d.subtree root)

/-- The name of the macro that a node defines. -/
def macroName? (d : Document) (n : NodeId) : Option String :=
  (d.findAttribute? n v.defineMacro).map fun attr => Text.trimmed attr.value

/-- What defines macros in several documents, one document after the other. -/
def allDefiners (sources : List Document) : List (Document × NodeId) :=
  sources.flatMap fun source => (definers v source).map (source, ·)

/-- The names that are defined in several documents. -/
def definedNames (sources : List Document) : List String :=
  (allDefiners v sources).filterMap fun definer => macroName? v definer.1 definer.2

/-- The first definition of a name. -/
def first? (definers : List (Document × NodeId)) (name : String) : Option (Document × NodeId) :=
  definers.find? fun definer => macroName? v definer.1 definer.2 = some name

/-- Importing loses no definition of the library: they are all below its root element, and in a copy
of any of them all attributes of the name are definitions or not as they were. -/
structure KeepsDefinitions (library : Document) : Prop where
  inRoot : ∀ e ∈ definers v library, ∃ top, library.rootElement? = some top ∧ library.Below top e
  refers : ∀ e ∈ definers v library, ∀ n, library.Below e n → ∀ element,
    library.element? n = some element → ∀ attr ∈ element.attributes,
      attr.name.localName = v.defineMacro.name → attr.name.isDeclaration ∨
        v.Refers library e n (attr.name.qualifier.or element.name.qualifier) v.metal

/-- The value is a macro of the name, and is like what defines it. -/
def Stores (t : Document) (name : String) (value : Value) (definer : Document × NodeId) : Prop :=
  ∃ c, value = .macroRef { name, element := c } ∧ Likeness v definer.1 definer.2 t c

/-- The table has for each name what the first of the definitions says. -/
structure Tabulates (definers : List (Document × NodeId)) (t : Document)
    (macros : List (String × Value)) : Prop where
  sorted : (macros.map (·.1)).Pairwise (· < ·)
  first : ∀ name, Option.Rel (Stores v t name) (macros.lookup name) (first? v definers name)

end

variable {v : Vocabularies} {d t t' library : Document} {e x c n top : NodeId}
  {macros : List (String × Value)} {done items : List (Document × NodeId)}
  {definer : Document × NodeId} {name : String}

theorem macroName?_old (hext : Extends d t) (hground : d.Grounded n) :
    macroName? v t n = macroName? v d n := by
  unfold macroName?
  rw [hext.findAttribute?_old hground]

theorem isSome_macroName? : (macroName? v d n).isSome = d.hasAttribute n v.defineMacro := by
  unfold macroName? hasAttribute
  rw [Option.isSome_map]

theorem first?_append_singleton (hname : macroName? v definer.1 definer.2 = some name)
    (other : String) :
    first? v (done ++ [definer]) other =
      (first? v done other).or (if name = other then some definer else none) := by
  unfold first?
  rw [List.find?_append, List.find?_singleton, hname]
  simp only [Option.some.injEq, decide_eq_true_eq]

/-! ## Registering one after the other -/

theorem Stores.extends {value : Value} (h : Stores v t name value definer) (hext : Extends t t') :
    Stores v t' name value definer := by
  obtain ⟨c, rfl, hlike⟩ := h
  exact ⟨c, rfl, hlike.extends hext⟩

theorem Tabulates.extends (h : Tabulates v done t macros) (hext : Extends t t') :
    Tabulates v done t' macros := by
  refine ⟨h.sorted, fun name => ?_⟩
  have hfirst := h.first name
  generalize macros.lookup name = value at hfirst
  generalize first? v done name = definer at hfirst
  cases hfirst with
  | none => exact .none
  | some hstores => exact .some (hstores.extends hext)

/-- The node is to be registered for a definition: it is the definition itself in the tree of the
document, or stands for a definition outside of the tree. -/
inductive Stands (v : Vocabularies) (d : Document) : Document × NodeId → Document → NodeId → Prop
  | own {t : Document} {e : NodeId} (hext : Extends d t) (he : d.Below root e)
    (helement : d.isElement e = true) : Stands v d (d, e) t e
  | imported {source t : Document} {e x : NodeId} (hlike : Likeness v source e t x)
    (hname : macroName? v t x = macroName? v source e) (hout : ¬ t.Below root x) :
    Stands v d (source, e) t x

theorem Stands.extends (h : Stands v d definer t x) (ht : t.WellLinked) (hpos : root < t.size)
    (hext : Extends t t') : Stands v d definer t' x := by
  cases h with
  | own hext' he helement => exact .own (hext'.trans hext) he helement
  | imported hlike hname hout =>
      refine .imported (hlike.extends hext) ?_ ?_
      · rw [macroName?_old hext hlike.grounded, hname]
      · rwa [hext.below_old ht hpos]

section

variable (hlinked : d.WellLinked) (hpos : root < d.size)

include hlinked hpos

theorem grounded_of_below_root (hn : d.Below root n) : d.Grounded n :=
  ⟨hlinked, hlinked.below_lt hn hpos, root, hlinked.parent_root, hn⟩

theorem Stands.macroName?_eq (h : Stands v d definer t x) :
    macroName? v t x = macroName? v definer.1 definer.2 := by
  cases h with
  | own hext he _ => exact macroName?_old hext (grounded_of_below_root hlinked hpos he)
  | imported _ hname _ => exact hname

/-- What is put into the table for a definition is like it. -/
theorem Stands.exists_likeness (h : Stands v d definer t x) :
    let made := if t.isAttached x then copyElement v t x else (t, x)
    Extends t made.1 ∧ Likeness v definer.1 definer.2 made.1 made.2 := by
  cases h with
  | own hext he helement =>
      have hground := grounded_of_below_root hlinked hpos he
      have hattached : t.isAttached x = true := by
        rw [isAttached_iff hext.linked (Nat.lt_of_lt_of_le hground.lt hext.size_le)]
        exact (hext.below_old hlinked hpos).mpr he
      have hlike := likeness_copyElement (v := v) (hext.grounded hground) (hext.elements _ helement)
      dsimp only
      rw [if_pos hattached]
      exact ⟨(copied_copyElement_any v hext.linked x).grown, hlike.of_extends hext hground⟩
  | imported hlike _ hout =>
      have hattached : ¬ t.isAttached x = true :=
        mt (isAttached_iff hlike.grounded.linked hlike.grounded.lt).mp hout
      dsimp only
      rw [if_neg hattached]
      exact ⟨.refl hlike.grounded.linked, hlike⟩

/-- Registering what stands for one more definition. -/
theorem Tabulates.register (h : Tabulates v done t macros) (hstands : Stands v d definer t x)
    (hdefines : (macroName? v definer.1 definer.2).isSome) :
    Extends t (register v t macros x).1 ∧
      Tabulates v (done ++ [definer]) (register v t macros x).1 (register v t macros x).2 := by
  obtain ⟨name, hname⟩ := Option.isSome_iff_exists.mp hdefines
  obtain ⟨hext, hlike⟩ := hstands.exists_likeness hlinked hpos
  have hread := (hstands.macroName?_eq hlinked hpos).trans hname
  obtain ⟨attr, hattr, hvalue⟩ := Option.map_eq_some_iff.mp hread
  have hlookup := h.first name
  unfold MacroTable.register
  rw [hattr]
  dsimp only
  rw [hvalue]
  split
  next hsome =>
    refine ⟨.refl ?_, h.sorted, fun other => ?_⟩
    · cases hstands with
      | own hext _ _ => exact hext.linked
      | imported hlike _ _ => exact hlike.grounded.linked
    · rw [first?_append_singleton hname]
      by_cases hother : name = other
      · subst hother
        -- The name has been defined before, so that the new definition does not count.
        generalize macros.lookup name = value at hsome hlookup
        generalize first? v done name = found at hlookup
        cases hlookup with
        | none => cases hsome
        | some hstores => exact .some hstores
      · rw [if_neg hother, Option.or_none]
        exact h.first other
  next hnone =>
    refine ⟨hext, Keyed.pairwise_insert h.sorted, fun other => ?_⟩
    rw [first?_append_singleton hname, Keyed.lookup_insert]
    by_cases hother : name = other
    · subst hother
      rw [Option.not_isSome_iff_eq_none.mp hnone] at hlookup
      generalize first? v done name = found at hlookup
      cases hlookup
      rw [if_pos rfl, if_pos rfl, Option.none_or]
      exact .some ⟨_, rfl, hlike⟩
    · rw [if_neg hother, if_neg (Ne.symm hother), Option.or_none]
      exact (h.extends hext).first other

/-- Registering one after the other what stands for definitions. -/
theorem Tabulates.registerAll {nodes : List NodeId} (h : Tabulates v done t macros)
    (ht : t.WellLinked) (hsize : d.size ≤ t.size)
    (hstands : List.Forall₂ (fun definer x => Stands v d definer t x ∧
      (macroName? v definer.1 definer.2).isSome) items nodes) :
    let made := nodes.foldl (fun made element => MacroTable.register v made.1 made.2 element)
      (t, macros)
    Extends t made.1 ∧ Tabulates v (done ++ items) made.1 made.2 := by
  induction nodes generalizing done items t macros with
  | nil =>
      cases hstands
      exact ⟨.refl ht, by rwa [List.append_nil]⟩
  | cons x nodes ih =>
      obtain ⟨definer, rest, ⟨hfirst, hdefines⟩, hrest, rfl⟩ :=
        List.forall₂_cons_right_iff.mp hstands
      obtain ⟨hext, hmade⟩ := h.register hlinked hpos hfirst hdefines
      have hroot : root < t.size := Nat.lt_of_lt_of_le hpos hsize
      obtain ⟨hext', hmade'⟩ := ih hmade hext.linked (Nat.le_trans hsize hext.size_le)
        (hrest.imp fun _ _ hnext => ⟨hnext.1.extends ht hroot hext, hnext.2⟩)
      refine ⟨hext.trans hext', ?_⟩
      rwa [List.append_assoc, List.singleton_append] at hmade'

/-- The macros of the document itself are registered first. -/
theorem tabulates_own (hext : Extends d t) :
    Extends t (registerBelow v t [] root).1 ∧
      Tabulates v ((definers v d).map (d, ·)) (registerBelow v t [] root).1
        (registerBelow v t [] root).2 := by
  have hground := grounded_of_below_root hlinked hpos (.refl : d.Below root root)
  have hdefiners : definitions v t (t.subtree root) = definers v d := by
    unfold definers definitions
    rw [hext.subtree_eq hground]
    apply List.filter_congr
    intro n hn
    have hn := hground.below (below_of_mem_subtree hn)
    unfold hasAttribute isElement
    rw [hext.findAttribute?_old hn, hext.kind_eq (Nat.not_le_of_lt hn.lt)]
  have hempty : Tabulates v [] t [] := ⟨.nil, fun _ => .none⟩
  unfold registerBelow
  rw [hdefiners]
  apply hempty.registerAll hlinked hpos hext.linked hext.size_le
  rw [List.forall₂_map_left_iff, List.forall₂_same]
  intro e he
  obtain ⟨hmem, hdefines⟩ := List.mem_filter.mp he
  obtain ⟨helement, hdefines⟩ := Bool.and_eq_true_iff.mp hdefines
  exact ⟨.own hext (below_of_mem_subtree hmem) helement, isSome_macroName?.trans hdefines⟩

end

/-! ## Copies of libraries -/

/-- The definitions that are found in the copy of one that was imported: it and those below it. -/
def within (v : Vocabularies) (definer : Document × NodeId) : List (Document × NodeId) :=
  (definitions v definer.1 (definer.1.subtree definer.2)).map (definer.1, ·)

/-- The node is the copy of a library's macro, apart from the tree of the document. -/
structure Brought (v : Vocabularies) (definer : Document × NodeId) (t : Document) (c : NodeId) :
    Prop where
  grounded : definer.1.Grounded definer.2
  imported : Imported v definer.1 definer.2 t c
  ne_root : c ≠ root
  refers : ∀ n, definer.1.Below definer.2 n → ∀ element, definer.1.element? n = some element →
    ∀ attr ∈ element.attributes, attr.name.localName = v.defineMacro.name →
      attr.name.isDeclaration ∨ v.Refers definer.1 definer.2 n
        (attr.name.qualifier.or element.name.qualifier) v.metal

theorem Brought.extends (h : Brought v definer t c) (hext : Extends t t') :
    Brought v definer t' c :=
  ⟨h.grounded, h.imported.extends hext, h.ne_root, h.refers⟩

/-- A definition that lies in a macro of a library is found in the copy of the macro. -/
theorem Brought.findAttribute?_eq {n' : NodeId} (h : Brought v definer t c)
    (hplace : Counterpart definer.1 t definer.2 c n n') (helement : definer.1.isElement n = true) :
    t.findAttribute? n' v.defineMacro = definer.1.findAttribute? n v.defineMacro := by
  obtain ⟨element, hn⟩ : ∃ element, definer.1.element? n = some element :=
    Option.isSome_iff_exists.mp helement
  apply h.imported.findAttribute?_eq h.grounded hplace helement
    (by decide : "define-macro" ≠ "xmlns:")
  intro attr hattr hname
  rw [attributes_of_element? hn] at hattr
  have hrefers := h.refers n hplace.below_left element hn attr hattr hname
  exact (h.imported.copy.attributeMatches_iff h.grounded hplace hn attr v.metal).mpr hrefers _

/-- The definitions in the copy of a library's macro stand for those in the macro. -/
theorem Brought.forall₂_stands (h : Brought v definer t c) :
    List.Forall₂ (fun inner x => Stands v d inner t x ∧ (macroName? v inner.1 inner.2).isSome)
      (within v definer) (definitions v t (t.subtree c)) := by
  obtain ⟨source, e⟩ := definer
  have hplaces := h.imported.copy.mirrors.forall₂_subtree h.grounded h.imported.grounded
  have hsame : ∀ n n', Counterpart source t e c n n' →
      ((source.isElement n && source.hasAttribute n v.defineMacro) = true ↔
        (t.isElement n' && t.hasAttribute n' v.defineMacro) = true) := by
    intro n n' hplace
    rw [h.imported.isElement_eq h.grounded hplace]
    cases helement : source.isElement n with
    | false => rfl
    | true =>
        unfold hasAttribute
        rw [h.findAttribute?_eq hplace helement]
  have hdefiners := List.rel_filter (fun _ _ hplace => hsame _ _ hplace) hplaces
  have hall : ∀ n ∈ definitions v source (source.subtree e),
      source.isElement n = true ∧ source.hasAttribute n v.defineMacro = true := fun n hn =>
    Bool.and_eq_true_iff.mp (List.mem_filter.mp hn).2
  unfold within
  rw [List.forall₂_map_left_iff]
  refine ((List.forall₂_and_left _ _).mpr ⟨hall, hdefiners⟩).imp ?_
  rintro n n' ⟨⟨helement, hdefines⟩, hplace⟩
  refine ⟨.imported (h.imported.likeness h.grounded hplace helement) ?_ ?_, ?_⟩
  · unfold macroName?
    rw [h.findAttribute?_eq hplace helement]
  · intro hroot
    have hlinked := h.imported.copy.linked
    exact h.ne_root (hlinked.eq_of_below h.imported.copy.parent_eq hlinked.parent_root
      hplace.below_right hroot)
  · exact isSome_macroName?.trans hdefines

/-- Registering what was imported from libraries. -/
theorem Tabulates.registerImported (hlinked : d.WellLinked) (hpos : root < d.size)
    {copies : List NodeId} (h : Tabulates v done t macros) (ht : t.WellLinked)
    (hsize : d.size ≤ t.size)
    (hbrought : List.Forall₂ (fun definer c => Brought v definer t c) items copies) :
    let made := copies.foldl (fun made top => registerBelow v made.1 made.2 top) (t, macros)
    Tabulates v (done ++ items.flatMap (within v)) made.1 made.2 := by
  induction copies generalizing done items t macros with
  | nil =>
      cases hbrought
      rwa [List.flatMap_nil, List.append_nil]
  | cons c copies ih =>
      obtain ⟨definer, rest, hfirst, hrest, rfl⟩ := List.forall₂_cons_right_iff.mp hbrought
      obtain ⟨hext, hmade⟩ := h.registerAll hlinked hpos ht hsize (hfirst.forall₂_stands (d := d))
      have hmade' := ih hmade hext.linked (Nat.le_trans hsize hext.size_le)
        (hrest.imp fun _ _ hnext => hnext.extends hext)
      rwa [List.append_assoc, ← List.flatMap_cons] at hmade'

/-! ## Importing -/

theorem flatMap_eq_of_nodup {α β : Type} {items : List α} {f : α → List β} {a : α}
    (hnodup : items.Nodup) (ha : a ∈ items) (hother : ∀ b ∈ items, b ≠ a → f b = []) :
    items.flatMap f = f a := by
  obtain ⟨front, back, rfl⟩ := List.append_of_mem ha
  obtain ⟨-, hback, hdisjoint⟩ := List.nodup_append.mp hnodup
  have hfront : front.flatMap f = [] := by
    refine List.flatMap_eq_nil_iff.mpr fun b hb => hother b (List.mem_append_left _ hb) ?_
    exact hdisjoint b hb a List.mem_cons_self
  have hback : back.flatMap f = [] := by
    refine List.flatMap_eq_nil_iff.mpr fun b hb => hother b (by simp [hb]) ?_
    rintro rfl
    exact (List.nodup_cons.mp hback).1 hb
  rw [List.flatMap_append, List.flatMap_cons, hfront, hback, List.nil_append, List.append_nil]

/-- When all definitions of a library lie below its root element, they are those found there. -/
theorem definers_eq (hlibrary : library.WellLinked) (hroot : library.rootElement? = some top)
    (hin : ∀ e ∈ definers v library, library.Below top e) :
    definers v library = definitions v library (library.subtree top) := by
  have hchild : top ∈ library.children root := List.mem_of_find?_eq_some hroot
  have hpos : root < library.size := (hlibrary.child_lt _ _ hchild).1
  have hground := grounded_of_below_root hlibrary hpos (.refl : library.Below root root)
  have hmem : ∀ c ∈ library.children root, ∀ e ∈ definitions v library (library.subtree c),
      library.Below c e ∧ e ∈ definers v library := by
    intro c hc e he
    obtain ⟨hbelow, hdefines⟩ := List.mem_filter.mp he
    have hbelow := below_of_mem_subtree hbelow
    have hmem := hground.mem_subtree_iff.mpr (.of_child hc hbelow)
    exact ⟨hbelow, List.mem_filter.mpr ⟨hmem, hdefines⟩⟩
  have hnot : ¬ (library.isElement root && library.hasAttribute root v.defineMacro) = true := by
    intro hdefines
    have hback := hin root (List.mem_filter.mpr ⟨hground.mem_subtree_iff.mpr .refl, hdefines⟩)
    exact hlibrary.not_below_parent hlibrary.parent_root (.child .refl hchild)
      (hlibrary.parent_eq hchild) hback
  unfold definers
  rw [hground.subtree_cons, definitions, List.filter_cons, if_neg hnot, List.filter_flatMap]
  refine flatMap_eq_of_nodup (hlibrary.nodup_children root) hchild fun c hc hne => ?_
  apply List.eq_nil_iff_forall_not_mem.mpr
  intro e he
  obtain ⟨hbelow, hdefines⟩ := hmem c hc e he
  exact hlibrary.not_below_sibling hlibrary.parent_root (.child .refl hc) (.child .refl hchild)
    (hlibrary.parent_eq hc) (hlibrary.parent_eq hchild) hne hbelow (hin e hdefines)

/-- Importing a library brings in all its definitions. -/
theorem KeepsDefinitions.forall₂_brought (h : KeepsDefinitions v library)
    (hlibrary : library.WellLinked) (ht : t.WellLinked) (hpos : root < t.size) :
    List.Forall₂ (fun e c => Brought v (library, e) (importLibrary v library t).1 c)
      (definers v library) (importLibrary v library t).2 := by
  cases hroot : library.rootElement? with
  | none =>
      have hempty : definers v library = [] := by
        apply List.eq_nil_iff_forall_not_mem.mpr
        intro e he
        obtain ⟨top, htop, -⟩ := h.inRoot e he
        rw [hroot] at htop
        cases htop
      rw [hempty, importLibrary, hroot]
      exact .nil
  | some top =>
      have hin : ∀ e ∈ definers v library, library.Below top e := by
        intro e he
        obtain ⟨top', htop', hbelow⟩ := h.inRoot e he
        rw [hroot] at htop'
        exact Option.some.inj htop' ▸ hbelow
      have hcopies := forall₂_importLibrary (v := v)
        (fun e t c => library.Grounded e ∧ Imported v library e t c ∧ c ≠ root) ?_ ?_ ht hlibrary
        hroot
      · rw [← definers_eq hlibrary hroot hin] at hcopies
        refine ((List.forall₂_and_left _ _).mpr ⟨fun _ => id, hcopies⟩).imp ?_
        rintro e c ⟨he, hground, himported, hne⟩
        exact ⟨hground, himported, hne, h.refers e he⟩
      · intro e t' hext hground helement
        have hnew := (copied_importElement_any v hext.linked library e).new
        refine ⟨hground, imported_importElement hext.linked hground helement, ?_⟩
        exact Nat.ne_of_gt (Nat.lt_of_lt_of_le (Nat.lt_of_lt_of_le hpos hext.size_le) hnew)
      · exact fun h hext => ⟨h.1, h.2.1.extends hext, h.2.2⟩

/-- Importing libraries brings in all their definitions, library by library. -/
theorem forall₂_importLibraries {libraries : List Document} (hlinked : d.WellLinked)
    (hpos : root < d.size)
    (hlibraries : ∀ library ∈ libraries, library.WellLinked ∧ KeepsDefinitions v library) :
    Extends d (importLibraries v libraries d).1 ∧
      List.Forall₂ (fun definer c => Brought v definer (importLibraries v libraries d).1 c)
        (allDefiners v libraries) (importLibraries v libraries d).2 := by
  have hloop : ∀ (rest : List Document) (brought : List (Document × NodeId))
      (made : Document × List NodeId),
      (∀ library ∈ rest, library.WellLinked ∧ KeepsDefinitions v library) → Extends d made.1 →
      List.Forall₂ (fun definer c => Brought v definer made.1 c) brought made.2 →
      let made' := rest.foldl (fun (made : Document × List NodeId) library =>
        ((importLibrary v library made.1).1, made.2 ++ (importLibrary v library made.1).2)) made
      Extends d made'.1 ∧ List.Forall₂ (fun definer c => Brought v definer made'.1 c)
        (brought ++ allDefiners v rest) made'.2 := by
    intro rest
    induction rest with
    | nil =>
        intro brought made _ hext hbrought
        exact ⟨hext, by rwa [allDefiners, List.flatMap_nil, List.append_nil]⟩
    | cons library rest ih =>
        intro brought made hrest hext hbrought
        obtain ⟨⟨hlibrary, hkeeps⟩, hrest⟩ := List.forall_mem_cons.mp hrest
        have hpos' := Nat.lt_of_lt_of_le hpos hext.size_le
        have hmore := hkeeps.forall₂_brought hlibrary hext.linked hpos'
        have himports : Imports (fun _ => True) made.1 (importLibrary v library made.1).1
            (importLibrary v library made.1).2 :=
          imports_importLibrary hext.linked hpos' fun _ => trivial
        have hgrown := himports.grown
        have hnext := ih (brought ++ (definers v library).map (library, ·))
          ((importLibrary v library made.1).1, made.2 ++ (importLibrary v library made.1).2) hrest
          (hext.trans hgrown)
          (List.rel_append (hbrought.imp fun _ _ h => h.extends hgrown)
            (List.forall₂_map_left_iff.mpr hmore))
        rwa [List.append_assoc] at hnext
  exact hloop libraries [] (d, []) hlibraries (.refl hlinked) .nil

/-! ## The table -/

/-- What lies in a definition of a library need not be looked through again: the first definition of
a name comes up first either way. -/
theorem first?_within {libraries : List Document}
    (hlibraries : ∀ library ∈ libraries, library.WellLinked ∧ root < library.size) :
    first? v ((allDefiners v libraries).flatMap (within v)) name =
      first? v (allDefiners v libraries) name := by
  unfold first? allDefiners
  rw [List.flatMap_assoc]
  apply find?_flatMap_congr
  intro library hlibrary
  obtain ⟨hlinked, hpos⟩ := hlibraries library hlibrary
  have hground := grounded_of_below_root hlinked hpos (.refl : library.Below root root)
  have hwithin : ((definers v library).map (library, ·)).flatMap (within v) =
      ((definers v library).flatMap fun e => definitions v library (library.subtree e)).map
        (library, ·) := by
    rw [List.flatMap_map, List.map_flatMap]
    rfl
  rw [hwithin, List.find?_map, List.find?_map]
  exact congrArg (Option.map _) (hground.find?_flatMap_subtree _ _)

theorem tabulates_registerAll {libraries : List Document} (hlinked : d.WellLinked)
    (hpos : root < d.size)
    (hlibraries : ∀ library ∈ libraries, library.WellLinked ∧ root < library.size ∧
      KeepsDefinitions v library) :
    let imported := importLibraries v libraries d
    let made := registerAll v imported.1 imported.2
    Tabulates v (allDefiners v (d :: libraries)) made.1 made.2 := by
  obtain ⟨hext, hbrought⟩ := forall₂_importLibraries (v := v) hlinked hpos fun library hlibrary =>
    ⟨(hlibraries library hlibrary).1, (hlibraries library hlibrary).2.2⟩
  obtain ⟨hext', hown⟩ := tabulates_own (v := v) hlinked hpos hext
  have hall := hown.registerImported hlinked hpos hext'.linked
    (Nat.le_trans hext.size_le hext'.size_le) (hbrought.imp fun _ _ h => h.extends hext')
  refine ⟨hall.sorted, fun name => ?_⟩
  have hfirst : first? v (allDefiners v (d :: libraries)) name = first? v
      ((definers v d).map (d, ·) ++ (allDefiners v libraries).flatMap (within v)) name := by
    have hwithin : first? v ((allDefiners v libraries).flatMap (within v)) name =
        first? v (allDefiners v libraries) name :=
      first?_within fun library hlibrary =>
        ⟨(hlibraries library hlibrary).1, (hlibraries library hlibrary).2.1⟩
    unfold first? at hwithin ⊢
    rw [List.find?_append, hwithin, ← List.find?_append]
    rfl
  rw [hfirst]
  exact hall.first name

theorem Tabulates.mem_keys_iff {sources : List Document}
    (h : Tabulates v (allDefiners v sources) t macros) :
    name ∈ macros.map (·.1) ↔ name ∈ definedNames v sources := by
  have hdefined : name ∈ definedNames v sources ↔
      (first? v (allDefiners v sources) name).isSome := by
    simp only [definedNames, first?, List.mem_filterMap, List.find?_isSome, decide_eq_true_eq]
  rw [hdefined, ← Keyed.isSome_lookup_iff]
  have hfirst := h.first name
  generalize macros.lookup name = value at hfirst ⊢
  generalize first? v _ name = found at hfirst ⊢
  cases hfirst <;> exact Iff.rfl

theorem Tabulates.length_eq {sources : List Document}
    (h : Tabulates v (allDefiners v sources) t macros) :
    macros.length = (definedNames v sources).dedup.length := by
  have hnodup : (macros.map (·.1)).Nodup := h.sorted.imp fun hlt => ne_of_lt hlt
  have hperm : (macros.map (·.1)).Perm (definedNames v sources).dedup := by
    rw [List.perm_ext_iff_of_nodup hnodup (List.nodup_dedup _)]
    intro name
    rw [List.mem_dedup, h.mem_keys_iff]
  rw [← hperm.length_eq, List.length_map]

/-- Before the walk begins, the table of macros is bound. Its keys are the names that are defined in
the tree of the document or of a library, in order and without repetition, so that it has as many
entries as there are names; each name has an element like the first one that defines it. -/
theorem publishes_first_definitions (settings : Settings) {libraries : List Document}
    {s : RenderState} (hlinked : s.document.WellLinked) (hpos : root < s.document.size)
    (hlibraries : ∀ library ∈ libraries, library.WellLinked ∧ root < library.size ∧
      KeepsDefinitions settings.vocabularies library) :
    let v := settings.vocabularies
    let sources := s.document :: libraries
    ∃ macros t, outcome (Renderer.publishMacros settings libraries) s = (.ok (), t) ∧
      t.globals.lookup macrosBinding = some (.map macros) ∧
      (macros.map (·.1)).Pairwise (· < ·) ∧
      (∀ name, name ∈ macros.map (·.1) ↔ name ∈ definedNames v sources) ∧
      macros.length = (definedNames v sources).dedup.length ∧
      ∀ name, Option.Rel (Stores v t.document name) (macros.lookup name)
        (first? v (allDefiners v sources) name) := by
  intro v sources
  have htable := tabulates_registerAll hlinked hpos hlibraries
  refine ⟨_, _, rfl, ?_, htable.sorted, fun _ => htable.mem_keys_iff, ?_, htable.first⟩
  · rw [Globals.lookup_bind, if_pos rfl]
    rfl
  · exact htable.length_eq

section Examples

/-- A page with one macro. -/
def boxPage : Document where
  nodes := #[
    { kind := .root, children := [1] },
    { kind := .element {
        name := .parse "r", attributes := [⟨.parse "metal:define-macro", "box"⟩] },
      parent := some 0 }]

/-- A library with a macro inside a macro. The outer one has the name of the page's. -/
def nestedLibrary : Document where
  nodes := #[
    { kind := .root, children := [1] },
    { kind := .element { name := .parse "x" }, parent := some 0, children := [2] },
    { kind := .element {
        name := .parse "a", attributes := [⟨.parse "metal:define-macro", " box "⟩] },
      parent := some 1, children := [3] },
    { kind := .element {
        name := .parse "b", attributes := [⟨.parse "metal:define-macro", "inner"⟩] },
      parent := some 2 }]

theorem keepsDefinitions_nestedLibrary : KeepsDefinitions {} nestedLibrary := by
  have hlinked : nestedLibrary.WellLinked := by decide +kernel
  have hground := grounded_of_below_root hlinked (by decide +kernel)
    (.refl : nestedLibrary.Below root root)
  have hdefiners : definers {} nestedLibrary = [2, 3] := by decide +kernel
  have hall : ∀ n ∈ nestedLibrary.subtree root, ∀ attr ∈ nestedLibrary.attributes n,
      attr.name.qualifier = some "metal" := by decide +kernel
  have hunbound : ∀ e ∈ [2, 3], nestedLibrary.lookupNamespace e (some "metal") = none := by
    decide +kernel
  constructor
  · rw [hdefiners]
    have htop : (nestedLibrary.subtree 1) = [1, 2, 3] := by decide +kernel
    intro e he
    refine ⟨1, by decide +kernel, below_of_mem_subtree ?_⟩
    rw [htop]
    exact List.mem_cons_of_mem _ he
  · rw [hdefiners]
    intro e he n hn element helement attr hattr _
    have hbelow : nestedLibrary.Below root e :=
      below_of_mem_subtree (List.mem_filter.mp (hdefiners.symm ▸ he : e ∈ definers {} _)).1
    have hmem := hground.mem_subtree_iff.mpr (hbelow.trans hn)
    rw [hall n hmem attr (by rwa [attributes_of_element? helement]), Option.some_or]
    refine .inr (.inl (.inr (.inr fun uri huri => ?_)))
    rw [hunbound e he] at huri
    cases huri

/-- The page's macro counts, and the inner one is found in the copy of the outer one. -/
theorem publishes_first_definitions_nestedLibrary :
    let s : RenderState := { document := boxPage, globals := { root := .null } }
    let sources := [boxPage, nestedLibrary]
    boxPage.WellLinked ∧ root < boxPage.size ∧
      (∀ library ∈ [nestedLibrary], library.WellLinked ∧ root < library.size ∧
        KeepsDefinitions {} library) ∧
      definedNames {} sources = ["box", "box", "inner"] ∧
      ∃ macros t, outcome (Renderer.publishMacros {} [nestedLibrary]) s = (.ok (), t) ∧
        t.globals.lookup macrosBinding = some (.map macros) ∧ macros.length = 2 ∧
        Option.Rel (Stores {} t.document "box") (macros.lookup "box") (some (boxPage, 1)) ∧
        Option.Rel (Stores {} t.document "inner") (macros.lookup "inner")
          (some (nestedLibrary, 3)) := by
  intro s sources
  have hlinked : boxPage.WellLinked := by decide +kernel
  have hpos : root < boxPage.size := by decide +kernel
  have hlibraries : ∀ library ∈ [nestedLibrary], library.WellLinked ∧ root < library.size ∧
      KeepsDefinitions {} library := by
    intro library hlibrary
    obtain rfl := List.mem_singleton.mp hlibrary
    exact ⟨by decide +kernel, by decide +kernel, keepsDefinitions_nestedLibrary⟩
  have hnames : definedNames {} sources = ["box", "box", "inner"] := by decide +kernel
  obtain ⟨macros, t, houtcome, hbound, -, -, hlength, hfirst⟩ :=
    publishes_first_definitions {} (s := s) hlinked hpos hlibraries
  refine ⟨hlinked, hpos, hlibraries, hnames, macros, t, houtcome, hbound, ?_, ?_, ?_⟩
  · rw [hlength]
    decide +kernel
  · have hbox : first? {} (allDefiners {} sources) "box" = some (boxPage, 1) := by rfl
    exact hbox ▸ hfirst "box"
  · have hinner : first? {} (allDefiners {} sources) "inner" = some (nestedLibrary, 3) := by rfl
    exact hinner ▸ hfirst "inner"

/-- A library whose macro is one by the default namespace around it. -/
def unqualifiedLibrary : Document where
  nodes := #[
    { kind := .root, children := [1] },
    { kind := .element {
        name := .parse "x",
        attributes := [⟨.parse "xmlns", "http://xml.zope.org/namespaces/metal"⟩] },
      parent := some 0, children := [2] },
    { kind := .element {
        name := .parse "block", attributes := [⟨.parse "define-macro", "m"⟩] },
      parent := some 1 }]

/-- A library whose macro is not below the first of its elements. -/
def secondTopLibrary : Document where
  nodes := #[
    { kind := .root, children := [1, 2] },
    { kind := .element { name := .parse "x" }, parent := some 0 },
    { kind := .element {
        name := .parse "b", attributes := [⟨.parse "metal:define-macro", "m"⟩] },
      parent := some 0 }]

/-- What is a definition by the default namespace is lost when it is copied, and what is not below
the root element is not copied. -/
theorem not_publishes_lost_definitions :
    let s : RenderState := {
      document := { nodes := #[{ kind := .root }] }, globals := { root := .null } }
    ∀ library ∈ [unqualifiedLibrary, secondTopLibrary],
      library.WellLinked ∧ root < library.size ∧ definedNames {} [s.document, library] = ["m"] ∧
        (outcome (Renderer.publishMacros {} [library]) s).2.globals.lookup macrosBinding =
          some (.map []) := by
  intro s library hlibrary
  rcases List.mem_cons.mp hlibrary with rfl | hlibrary
  · exact ⟨by decide +kernel, by decide +kernel, by decide +kernel, by rfl⟩
  · obtain rfl := List.mem_singleton.mp hlibrary
    exact ⟨by decide +kernel, by decide +kernel, by decide +kernel, by rfl⟩

end Examples

end PageTemplate.MacroTable
