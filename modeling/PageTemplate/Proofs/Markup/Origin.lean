import PageTemplate.Proofs.Markup.Drafting

/-! # Where the nodes of a read document come from

Every comment, section, instruction, declaration and document type of a document that was read
is what one event said. The others are elements and text.
-/

namespace PageTemplate.Markup

open Text

/-- What kinds of node events add. -/
inductive NodeKind.Scanned : NodeKind → Prop where
  | element (element : Element) : Scanned (.element element)
  | text (content : String) : Scanned (.text content)
  | comment {s rest content : List Char} (h : Event.read s = .ok (.comment content, rest)) :
    Scanned (.comment (String.ofList content))
  | cdata {s rest content : List Char} (h : Event.read s = .ok (.cdata content, rest)) :
    Scanned (.cdata (String.ofList content))
  | instruction {s rest content : List Char}
    (h : Event.read s = .ok (.instruction content, rest)) :
    Scanned (.instruction (String.ofList content))
  | declaration {s rest content : List Char} {version : String}
    {encoding standalone : Option String} (h : Event.read s = .ok (.declaration content, rest))
    (hkind : Reading.readDeclaration content = .declaration version encoding standalone) :
    Scanned (.declaration version encoding standalone)
  | doctype {s rest keyword content : List Char}
    (h : Event.read s = .ok (.doctype keyword content, rest)) :
    Scanned (.doctype (String.ofList (trim content)))

def NodeKind.isText : NodeKind → Bool
  | .text _ => true
  | _ => false

/-- The declaration that a content is read as. -/
theorem NodeKind.scanned_readDeclaration {s rest content : List Char}
    (h : Event.read s = .ok (.declaration content, rest)) :
    (Reading.readDeclaration content).Scanned := by
  have hkind : ∃ version encoding standalone,
      Reading.readDeclaration content = .declaration version encoding standalone := ⟨_, _, _, rfl⟩
  obtain ⟨version, encoding, standalone, hkind⟩ := hkind
  exact hkind ▸ .declaration h hkind

namespace Draft

variable {draft draft' : Draft} {event : Event} {s rest : List Char}

/-- What an event that was read from a text can do to a draft. -/
inductive Grows (draft : Draft) : Draft → Prop where
  | text (content : String) (hcontent : content ≠ "") : Grows draft (draft.addText content)
  | leaf (kind : NodeKind) (hkind : kind.Scanned) (htext : kind.isText = false) :
    Grows draft (draft.addLeaf kind)
  | start (name : List Char) (element : Element) :
    Grows draft { opened := ⟨name, element, draft.children⟩ :: draft.opened }
  | finish (innermost : OpenElement) (outer : List OpenElement)
    (hopened : draft.opened = innermost :: outer) :
    Grows draft {
      children := innermost.before ++ [.node (.element innermost.element) draft.children]
      opened := outer }

theorem grows_of_step (hread : Event.read s = .ok (event, rest)) (hs : s ≠ [])
    (hstep : draft.step event = some draft') : draft.Grows draft' := by
  unfold Draft.step at hstep
  split at hstep
  · obtain ⟨element, -, rfl⟩ := Option.map_eq_some_iff.mp hstep
    exact .start _ element
  · obtain ⟨element, -, rfl⟩ := Option.map_eq_some_iff.mp hstep
    exact .leaf _ (.element element) rfl
  · split at hstep
    · contradiction
    next innermost outer hopened =>
      split at hstep
      · exact Option.some.inj hstep ▸ .finish innermost outer hopened
      · contradiction
  next content =>
    have hne : content ≠ [] := (Event.readFrom_of_read hread hs).source_ne_nil
    exact Option.some.inj hstep ▸ .text _ (by simpa using hne)
  · obtain ⟨c, -, rfl⟩ := Option.map_eq_some_iff.mp hstep
    exact .text _ (by simp)
  · exact Option.some.inj hstep ▸ .leaf _ (.comment hread) rfl
  · exact Option.some.inj hstep ▸ .leaf _ (.cdata hread) rfl
  · exact Option.some.inj hstep ▸ .leaf _ (.instruction hread) rfl
  · exact Option.some.inj hstep ▸ .leaf _ (NodeKind.scanned_readDeclaration hread) rfl
  · exact Option.some.inj hstep ▸ .leaf _ (.doctype hread) rfl

/-- What every event preserves holds of all that is read. -/
theorem read_induction {P : Draft → Prop} (hgrows : ∀ {draft draft'}, draft.Grows draft' →
    P draft → P draft') {s : List Char} (hread : draft.read s = some draft') (h : P draft) :
    P draft' := by
  induction hlength : s.length using Nat.strongRecOn generalizing draft s with
  | _ length ih =>
      by_cases hs : s = []
      · subst hs
        exact Option.some.inj hread ▸ h
      · cases hevent : Event.read s with
        | error fault => cases (read_of_read_error hevent hs).symm.trans hread
        | ok found =>
            obtain ⟨event, rest⟩ := found
            rw [read_of_read hevent hs] at hread
            obtain ⟨next, hstep, hrest⟩ := Option.bind_eq_some_iff.mp hread
            have hshorter := Event.length_lt_of_read hevent hs
            exact ih rest.length (hlength ▸ hshorter) hrest
              (hgrows (grows_of_step hevent hs hstep) h) rfl

/-- All nodes of a draft were added by events. -/
structure Scanned (draft : Draft) : Prop where
  children : ∀ kind ∈ Tree.kindsAll draft.children, kind.Scanned
  before : ∀ innermost ∈ draft.opened, ∀ kind ∈ Tree.kindsAll innermost.before, kind.Scanned

theorem Scanned.addLeaf (h : draft.Scanned) {kind : NodeKind} (hkind : kind.Scanned) :
    (draft.addLeaf kind).Scanned := by
  refine ⟨fun other hother => ?_, h.before⟩
  rw [Draft.addLeaf, Tree.kindsAll_append] at hother
  rcases List.mem_append.mp hother with hmem | hmem
  · exact h.children other hmem
  · obtain rfl : other = kind := by simpa [Tree.kindsAll, Tree.kinds] using hmem
    exact hkind

theorem Scanned.addText (h : draft.Scanned) (content : String) :
    (draft.addText content).Scanned := by
  rcases draft.text_or_not with ⟨front, existing, below, hlast⟩ | hlast
  · have hchildren := h.children
    rw [hlast, Tree.kindsAll_append] at hchildren
    rw [addText_of_text hlast]
    refine ⟨fun other hother => ?_, h.before⟩
    rw [Tree.kindsAll_append] at hother
    rcases List.mem_append.mp hother with hmem | hmem
    · exact hchildren other (List.mem_append_left _ hmem)
    · simp only [Tree.kindsAll, Tree.kinds, List.append_nil, List.mem_cons] at hmem hchildren
      rcases hmem with rfl | hmem
      · exact .text _
      · exact hchildren other (List.mem_append_right _ (List.mem_cons_of_mem _ hmem))
  · exact addText_of_not_text hlast content ▸ h.addLeaf (.text content)

theorem Scanned.grows (hgrows : draft.Grows draft') (h : draft.Scanned) : draft'.Scanned := by
  cases hgrows with
  | text content => exact h.addText content
  | leaf kind hkind => exact h.addLeaf hkind
  | start name element =>
      refine ⟨nofun, fun innermost hmem => ?_⟩
      rcases List.mem_cons.mp hmem with rfl | hmem
      · exact h.children
      · exact h.before innermost hmem
  | finish innermost outer hopened =>
      have hbefore := hopened ▸ h.before
      refine ⟨fun kind hkind => ?_, fun other hmem => hbefore other (List.mem_cons_of_mem _ hmem)⟩
      rw [Tree.kindsAll_append] at hkind
      simp only [Tree.kindsAll, Tree.kinds, List.append_nil, List.mem_append,
        List.mem_cons] at hkind
      rcases hkind with hmem | rfl | hmem
      · exact hbefore innermost List.mem_cons_self kind hmem
      · exact .element _
      · exact h.children kind hmem

end Draft

/-- The kind is that of a node of a document that was read. -/
def NodeKind.FromMarkup (kind : NodeKind) : Prop :=
  ∃ markup d, Document.parse markup = .ok d ∧ kind ∈ (d.tree Document.root).kinds

/-- What was read from a text was read from its events. -/
theorem scanned_of_trees? {s : List Char} {trees : List Tree} (h : Draft.trees? s = some trees) :
    ∀ kind ∈ Tree.kindsAll trees, kind.Scanned := by
  obtain ⟨draft, hread, hdraft⟩ := Option.bind_eq_some_iff.mp h
  have hempty : ({} : Draft).Scanned := ⟨nofun, nofun⟩
  split at hdraft
  · exact Option.some.inj hdraft ▸ (Draft.read_induction .grows hread hempty).children
  · contradiction

theorem NodeKind.FromMarkup.scanned {kind : NodeKind} (h : kind.FromMarkup) :
    kind = .root ∨ kind.bare.Scanned := by
  obtain ⟨markup, d, hparse, hkind⟩ := h
  have hbare := toOption_parse markup none
  rw [hparse] at hbare
  obtain ⟨trees, htrees, heq⟩ := Option.map_eq_some_iff.mp hbare.symm
  replace heq : Tree.node .root trees = (d.tree Document.root).bare := heq
  have hmem : kind.bare ∈ (d.tree Document.root).bare.kinds := by
    unfold Tree.bare
    rw [Tree.kinds_map]
    exact List.mem_map_of_mem hkind
  rw [← heq] at hmem
  rcases List.mem_cons.mp hmem with hroot | hmem
  · left
    cases kind <;> first | rfl | cases hroot
  · exact .inr (scanned_of_trees? htrees kind.bare hmem)

end PageTemplate.Markup
