import Mathlib.Data.List.Perm.Subperm
import PageTemplate.Proofs.Ensures
import PageTemplate.Proofs.Markup.Draft

/-! # Reading follows a draft

At every moment of reading, the nodes in the table are those of the draft of the same events. The
open elements lead down to the place where reading goes on, and every other node belongs to one
of the trees that are complete.
-/

namespace PageTemplate.Markup

open Text

/-- The names of the open elements with their nodes, innermost first. -/
abbrev OpenNodes := List (List Char × NodeId)

/-- The node below which reading goes on. -/
def innermost (container : NodeId) (opened : OpenNodes) : NodeId :=
  (opened.head?.map (·.2)).getD container

/-- The nodes that are open, innermost first, and the node that holds them. -/
def openNodes (container : NodeId) (opened : OpenNodes) : List NodeId :=
  opened.map (·.2) ++ [container]

/-- The open elements in the table are those of a draft, and what was read before them takes up
the listed nodes. -/
inductive Outer (d : Document) (container : NodeId) (holder : NodeKind) :
    OpenNodes → List OpenElement → List NodeId → Prop where
  | nil (hkind : (d.kind container).bare = holder) : Outer d container holder [] [] []
  | cons {id : NodeId} {opened : OpenNodes} {element : OpenElement} {elements : List OpenElement}
    {ids nodes rest : List NodeId} (hkind : (d.kind id).bare = .element element.element)
    (hchildren : d.children (innermost container opened) = ids ++ [id])
    (hbefore : StoredAll NodeKind.bare d element.before ids nodes)
    (houter : Outer d container holder opened elements rest) :
    Outer d container holder ((element.name, id) :: opened) (element :: elements) (nodes ++ rest)

/-- What was read into the table is a draft. The trees that are complete take up `inner` in the
innermost open element and `outer` before the open elements. -/
structure Follows (container : NodeId) (holder : NodeKind) (d : Document) (opened : OpenNodes)
    (draft : Draft) (inner outer : List NodeId) : Prop where
  stored : StoredAll NodeKind.bare d draft.children (d.children (innermost container opened)) inner
  around : Outer d container holder opened draft.opened outer
  nodup : (openNodes container opened ++ (inner ++ outer)).Nodup
  lt_size : ∀ n ∈ openNodes container opened ++ (inner ++ outer), n < d.size

section

variable {container : NodeId} {holder : NodeKind} {d d' : Document} {opened : OpenNodes}
  {draft : Draft} {inner outer : List NodeId}

theorem innermost_mem (container : NodeId) (opened : OpenNodes) :
    innermost container opened ∈ openNodes container opened := by
  cases opened with
  | nil => exact List.mem_cons_self
  | cons first opened => exact List.mem_cons_self

/-- The open elements stay as they are when only the innermost one gets other children. -/
theorem Outer.congr {elements : List OpenElement}
    (h : Outer d container holder opened elements outer)
    (hnodup : (openNodes container opened).Nodup)
    (hkind : ∀ n ∈ openNodes container opened, (d'.kind n).bare = (d.kind n).bare)
    (hchildren : ∀ n ∈ openNodes container opened, n ≠ innermost container opened →
      d'.children n = d.children n)
    (houter : ∀ n ∈ outer, d'.node n = d.node n) :
    Outer d' container holder opened elements outer := by
  induction h with
  | nil hkind' => exact .nil ((hkind container List.mem_cons_self).trans hkind')
  | @cons id opened _ _ _ _ _ hkind' hchildren' hbefore _ ih =>
      obtain ⟨hnot, hnodup⟩ := List.nodup_cons.mp hnodup
      have hne : ∀ n ∈ openNodes container opened, n ≠ id := fun n hn heq => hnot (heq ▸ hn)
      have hinner := innermost_mem container opened
      refine .cons ?_ ?_ (hbefore.congr fun n hn => houter n (List.mem_append_left _ hn))
        (ih hnodup ?_ ?_ fun n hn => houter n (List.mem_append_right _ hn))
      · rw [hkind _ List.mem_cons_self, hkind']
      · rw [hchildren _ (List.mem_cons_of_mem _ hinner) (hne _ hinner), hchildren']
      · exact fun n hn => hkind n (List.mem_cons_of_mem _ hn)
      · exact fun n hn _ => hchildren n (List.mem_cons_of_mem _ hn) (hne n hn)

end

namespace Reading

variable {d : Document}

/-- A new node stands behind the children that its parent had. -/
theorem node_addNode {parent : NodeId} (hparent : parent < d.size) (kind : NodeKind)
    (other : NodeId) :
    (addNode d parent kind).1.node other =
      if other = parent then { d.node parent with children := d.children parent ++ [d.size] }
      else if other = d.size then { kind, parent := some parent }
      else d.node other := by
  have hne : parent ≠ d.size := Nat.ne_of_lt hparent
  have hnode : (d.create kind).1.node d.size = { kind } := by simp [Document.node_create]
  have hparent' : (d.create kind).1.node parent = d.node parent := by
    simp [Document.node_create, hne]
  have hdetach : (d.create kind).1.detach d.size = (d.create kind).1 := by
    apply Document.detach_of_parent_eq_none
    unfold Document.parent
    rw [hnode]
  show (((d.create kind).1.append parent d.size).node other) = _
  unfold Document.append
  have hlt : parent < (d.create kind).1.size := by
    rw [Document.size_create]
    exact Nat.lt_succ_of_lt hparent
  rw [hdetach, Document.node_place _ hlt (by simp) hne]
  have hchildren : (d.create kind).1.children parent = d.children parent :=
    congrArg Node.children hparent'
  rw [hchildren, hparent', hnode, List.insertIdx_length_self]
  by_cases h1 : other = parent
  · simp [h1]
  · by_cases h2 : other = d.size <;> simp [h1, h2, Document.node_create]

theorem children_addNode {parent : NodeId} (hparent : parent < d.size) (kind : NodeKind)
    (n : NodeId) :
    (addNode d parent kind).1.children n =
      if n = parent then d.children parent ++ [d.size] else d.children n := by
  unfold Document.children
  rw [node_addNode hparent]
  split
  · rfl
  · split
    next hn => rw [hn, d.node_of_size_le (Nat.le_refl _)]
    next => rfl

@[simp] theorem size_addNode (parent : NodeId) (kind : NodeKind) :
    (addNode d parent kind).1.size = d.size + 1 := by
  unfold addNode
  simp

end Reading

namespace Follows

variable {container : NodeId} {holder : NodeKind} {d d' : Document} {opened : OpenNodes}
  {draft : Draft} {inner outer : List NodeId}

theorem innermost_lt (h : Follows container holder d opened draft inner outer) :
    innermost container opened < d.size :=
  h.lt_size _ (List.mem_append_left _ (innermost_mem container opened))

/-- The nodes of complete trees are neither open nor new. -/
theorem ne_of_mem (h : Follows container holder d opened draft inner outer) {n : NodeId}
    (hn : n ∈ inner ++ outer) : n ≠ innermost container opened ∧ n ≠ d.size := by
  refine ⟨?_, Nat.ne_of_lt (h.lt_size n (List.mem_append_right _ hn))⟩
  rintro rfl
  exact (List.nodup_append.mp h.nodup).2.2 _ (innermost_mem container opened) _ hn rfl

/-- A new node below the innermost open one leaves the nodes of complete trees as they are. -/
theorem node_addNode_of_mem (h : Follows container holder d opened draft inner outer)
    (kind : NodeKind)
    {n : NodeId} (hn : n ∈ inner ++ outer) :
    (Reading.addNode d (innermost container opened) kind).1.node n = d.node n := by
  rw [Reading.node_addNode h.innermost_lt, if_neg (h.ne_of_mem hn).1, if_neg (h.ne_of_mem hn).2]

theorem around_addNode (h : Follows container holder d opened draft inner outer) (kind : NodeKind) :
    Outer (Reading.addNode d (innermost container opened) kind).1 container holder opened
      draft.opened outer := by
  have hnode := Reading.node_addNode h.innermost_lt kind
  have hlt : ∀ n ∈ openNodes container opened, n ≠ d.size := fun n hn =>
    Nat.ne_of_lt (h.lt_size n (List.mem_append_left _ hn))
  refine h.around.congr (List.nodup_append.mp h.nodup).1 ?_ ?_ ?_
  · intro n hn
    unfold Document.kind
    rw [hnode]
    split
    next heq => rw [heq]
    next => rw [if_neg (hlt n hn)]
  · intro n hn hne
    rw [Reading.children_addNode h.innermost_lt, if_neg hne]
  · exact fun n hn => h.node_addNode_of_mem kind (List.mem_append_right _ hn)

/-- A new node in the innermost open element, after which reading goes on behind it. -/
theorem addLeaf (h : Follows container holder d opened draft inner outer) (kind : NodeKind) :
    Follows container holder (Reading.addNode d (innermost container opened) kind).1 opened
      (draft.addLeaf kind.bare) (inner ++ [d.size]) outer := by
  have hnode := Reading.node_addNode h.innermost_lt kind
  have hne : d.size ≠ innermost container opened := Nat.ne_of_gt h.innermost_lt
  have hperm : (openNodes container opened ++ (inner ++ [d.size] ++ outer)).Perm
      (d.size :: (openNodes container opened ++ (inner ++ outer))) := by
    simpa using @List.perm_middle _ d.size (openNodes container opened ++ inner) outer
  constructor
  · rw [Reading.children_addNode h.innermost_lt, if_pos rfl]
    refine StoredAll.append (h.stored.congr fun n hn => ?_) (Stored.singleton (.node ?_ ?_))
    · exact h.node_addNode_of_mem kind (List.mem_append_left _ hn)
    · unfold Document.kind
      rw [hnode, if_neg hne, if_pos rfl]
    · unfold Document.children
      rw [hnode, if_neg hne, if_pos rfl]
      exact .nil
  · exact h.around_addNode kind
  · refine hperm.nodup_iff.mpr (List.nodup_cons.mpr ⟨fun hmem => ?_, h.nodup⟩)
    exact Nat.lt_irrefl _ (h.lt_size _ hmem)
  · intro n hn
    rw [Reading.size_addNode]
    rcases List.mem_cons.mp (hperm.mem_iff.mp hn) with rfl | hn
    · exact Nat.lt_succ_self _
    · exact Nat.lt_succ_of_lt (h.lt_size n hn)

/-- A new element in the innermost open one, after which reading goes on inside of it. -/
theorem openElement (h : Follows container holder d opened draft inner outer) (name : List Char)
    (element : Element) :
    Follows container holder (Reading.addNode d (innermost container opened) (.element element)).1
      ((name, d.size) :: opened)
      { opened := ⟨name, element.bare, draft.children⟩ :: draft.opened } [] (inner ++ outer) := by
  have hnode := Reading.node_addNode h.innermost_lt (.element element)
  have hne : d.size ≠ innermost container opened := Nat.ne_of_gt h.innermost_lt
  constructor
  · have hchildren : (Reading.addNode d (innermost container opened) (.element element)).1.children
        d.size = [] := by
      unfold Document.children
      rw [hnode, if_neg hne, if_pos rfl]
    show StoredAll _ _ _ (Document.children _ d.size) _
    rw [hchildren]
    exact .nil
  · have hbefore := h.stored.congr fun n hn =>
      h.node_addNode_of_mem (.element element) (List.mem_append_left outer hn)
    refine @Outer.cons _ _ _ d.size opened ⟨name, element.bare, draft.children⟩ _ _ _ _
      ?_ ?_ hbefore
      (h.around_addNode _)
    · unfold Document.kind
      rw [hnode, if_neg hne, if_pos rfl]
      rfl
    · rw [Reading.children_addNode h.innermost_lt, if_pos rfl]
  · refine List.nodup_cons.mpr ⟨fun hmem => ?_, h.nodup⟩
    exact Nat.lt_irrefl _ (h.lt_size _ hmem)
  · intro n hn
    rw [Reading.size_addNode]
    rcases List.mem_cons.mp hn with rfl | hn
    · exact Nat.lt_succ_self _
    · exact Nat.lt_succ_of_lt (h.lt_size n hn)

/-- The innermost open element is complete, and reading goes on behind it. -/
theorem closeElement {name : List Char} {id : NodeId}
    (h : Follows container holder d ((name, id) :: opened) draft inner outer)
    (change : Element → Element) (hchange : ∀ element, (change element).bare = element.bare) :
    ∃ innermost elements inner' outer', draft.opened = innermost :: elements ∧
      innermost.name = name ∧
      Follows container holder (d.updateElement id change) opened
        { children := innermost.before ++ [.node (.element innermost.element) draft.children]
          opened := elements } inner' outer' := by
  obtain ⟨children, elements⟩ := draft
  obtain ⟨hstored, haround, hnodup, hlt⟩ := h
  cases haround with
  | @cons _ _ element elements ids nodes rest hkind hchildren hbefore houter =>
      refine ⟨element, elements, nodes ++ id :: inner, rest, rfl, rfl, ?_⟩
      have hid : id < d.size := hlt id List.mem_cons_self
      have hnode := d.node_updateElement hid change
      obtain ⟨hnot, hnodup'⟩ := List.nodup_cons.mp hnodup
      have hsame : ∀ n ∈ openNodes container opened ++ (inner ++ (nodes ++ rest)),
          (d.updateElement id change).node n = d.node n := by
        intro n hn
        have hne : n ≠ id := fun heq => hnot (heq ▸ hn)
        rw [hnode, if_neg hne]
      have hbare : ∀ kind : NodeKind, (kind.mapElement change).bare = kind.bare := by
        intro kind
        cases kind <;> simp [NodeKind.mapElement, NodeKind.bare, hchange]
      have hopen : (openNodes container opened).Nodup := (List.nodup_append.mp hnodup').1
      have hinner := innermost_mem container opened
      have hperm : (openNodes container opened ++ (nodes ++ id :: inner ++ rest)).Perm
          (id :: openNodes container opened ++ (inner ++ (nodes ++ rest))) := by
        refine List.perm_iff_count.mpr fun n => ?_
        simp only [List.count_append, List.count_cons]
        omega
      constructor
      · have hchildren' : (d.updateElement id change).children (innermost container opened) =
            ids ++ [id] :=
          (congrArg Node.children (hsame _ (List.mem_append_left _ hinner))).trans hchildren
        rw [hchildren']
        have hbefore' := hbefore.congr fun n hn => hsame n (by simp [hn])
        refine hbefore'.append (Stored.singleton (.node ?_ ?_))
        · unfold Document.kind
          rw [hnode, if_pos rfl]
          exact (hbare _).trans hkind
        · have hbelow : (d.updateElement id change).children id = d.children id := by
            unfold Document.children
            rw [hnode, if_pos rfl]
          rw [hbelow]
          exact StoredAll.congr hstored fun n hn => hsame n (by simp [hn])
      · refine houter.congr hopen ?_ ?_ fun n hn => hsame n (by simp [hn])
        · exact fun n hn =>
            congrArg (·.kind.bare) (hsame n (List.mem_append_left _ hn))
        · exact fun n hn _ => congrArg Node.children (hsame n (List.mem_append_left _ hn))
      · exact hperm.nodup_iff.mpr hnodup
      · intro n hn
        rw [Document.size_updateElement]
        exact hlt n (hperm.mem_iff.mp hn)

/-- The last node of a draft is the last child of the innermost open node. -/
theorem getLast_eq (h : Follows container holder d opened draft inner outer) {front : List Tree}
    {kind : NodeKind} {below : List Tree} (hlast : draft.children = front ++ [.node kind below]) :
    ∃ ids last first under, d.children (innermost container opened) = ids ++ [last] ∧
      inner = first ++ (last :: under) ∧ (d.kind last).bare = kind ∧
      StoredAll NodeKind.bare d front ids first ∧
      StoredAll NodeKind.bare d below (d.children last) under := by
  have hstored := h.stored
  rw [hlast] at hstored
  obtain ⟨ids, back, first, nodes, hchildren, hinner, hfront, hback⟩ := hstored.of_append
  match hback with
  | .cons (.node hkind hunder) .nil =>
      exact ⟨ids, _, first, _, hchildren, by rw [hinner, List.append_nil], hkind, hfront, hunder⟩

/-- Further text goes into the last node when that is text already. -/
theorem setText (h : Follows container holder d opened draft inner outer) {front below : List Tree}
    {existing : String} (hlast : draft.children = front ++ [.node (.text existing) below])
    (content : String) :
    ∃ last, (d.children (innermost container opened)).getLast? = some last ∧
      d.kind last = .text existing ∧
      Follows container holder (d.setKind last (.text (existing ++ content))) opened
        { draft with children := front ++ [.node (.text (existing ++ content)) below] }
        inner outer := by
  obtain ⟨ids, last, first, under, hchildren, rfl, hkind, hfront, hunder⟩ := h.getLast_eq hlast
  have hmem : last ∈ openNodes container opened ++ (first ++ last :: under ++ outer) := by simp
  have hnode := d.node_setKind (h.lt_size last hmem) (.text (existing ++ content))
  have hsplit := (List.nodup_append.mp h.nodup).2
  have hother : ∀ n, n ≠ last → (d.setKind last (.text (existing ++ content))).node n = d.node n :=
    fun n hn => by rw [hnode, if_neg hn]
  have hopen : ∀ n ∈ openNodes container opened, n ≠ last := fun n hn =>
    hsplit.2 n hn last (by simp)
  have hnodup : (first ++ last :: under ++ outer).Nodup := hsplit.1
  have hinner : ∀ n ∈ first ++ under ++ outer, n ≠ last := by
    have hperm : (first ++ last :: under ++ outer).Perm (last :: (first ++ under ++ outer)) := by
      simp
    have hnot := (List.nodup_cons.mp (hperm.nodup_iff.mp hnodup)).1
    exact fun n hn heq => hnot (heq ▸ hn)
  refine ⟨last, by rw [hchildren]; simp, ?_, ?_⟩
  · cases hlastkind : d.kind last <;> rw [hlastkind] at hkind <;>
      simp_all [NodeKind.bare, NodeKind.mapElement]
  constructor
  · have hchildren' : (d.setKind last (.text (existing ++ content))).children
        (innermost container opened) = ids ++ [last] :=
      (congrArg Node.children (hother _ (hopen _ (innermost_mem container opened)))).trans hchildren
    rw [hchildren']
    refine (hfront.congr fun n hn => hother n (hinner n (by simp [hn]))).append
      (Stored.singleton (.node ?_ ?_))
    · unfold Document.kind
      rw [hnode, if_pos rfl]
      rfl
    · have hbelow : (d.setKind last (.text (existing ++ content))).children last =
          d.children last := by
        unfold Document.children
        rw [hnode, if_pos rfl]
      rw [hbelow]
      exact hunder.congr fun n hn => hother n (hinner n (by simp [hn]))
  · refine h.around.congr (List.nodup_append.mp h.nodup).1 ?_ ?_ ?_
    · exact fun n hn => congrArg (·.kind.bare) (hother n (hopen n hn))
    · exact fun n hn _ => congrArg Node.children (hother n (hopen n hn))
    · exact fun n hn => hother n (hinner n (by simp [hn]))
  · exact h.nodup
  · rw [Document.size_setKind]
    exact h.lt_size

theorem addText (h : Follows container holder d opened draft inner outer) (content : String) :
    ∃ inner', Follows container holder
      (Reading.addText d (innermost container opened) content) opened (draft.addText content)
      inner' outer := by
  have hleaf : Follows container holder (Reading.addNode d (innermost container opened)
      (.text content)).1 opened (draft.addLeaf (.text content)) _ outer := h.addLeaf (.text content)
  unfold Reading.addText Draft.addText
  rcases List.eq_nil_or_concat' draft.children with hnil | ⟨front, ⟨kind, below⟩, hlast⟩
  · have hchildren : d.children (innermost container opened) = [] := by
      have hstored := h.stored
      rw [hnil] at hstored
      generalize d.children (innermost container opened) = ids at hstored
      cases hstored
      rfl
    rw [hnil, hchildren]
    exact ⟨_, hleaf⟩
  · by_cases htext : ∃ existing, kind = .text existing
    · obtain ⟨existing, rfl⟩ := htext
      obtain ⟨last, hlastid, hkind, hset⟩ := h.setText hlast content
      rw [hlast, hlastid]
      dsimp only
      rw [hkind]
      simpa using ⟨_, hset⟩
    · obtain ⟨ids, last, _, _, hchildren, _, hkind, _, _⟩ := h.getLast_eq hlast
      have hlastid : (d.children (innermost container opened)).getLast? = some last := by
        rw [hchildren]
        simp
      have hnot : ∀ existing, d.kind last ≠ .text existing := by
        intro existing heq
        rw [heq] at hkind
        exact htext ⟨existing, hkind.symm⟩
      rw [hlast, hlastid, List.getLast?_concat]
      dsimp only
      split
      next existing heq => exact absurd heq (hnot existing)
      next =>
        split
        next existing _ heq =>
          injection heq with heq
          injection heq with hkind
          exact absurd ⟨existing, hkind⟩ htext
        next => exact ⟨_, hleaf⟩

end Follows

/-! ## Readings and drafts -/

theorem toOption_mapM {ε α β : Type} {f : α → Except ε β} {g : α → Option β}
    (h : ∀ a, (f a).toOption = g a) (items : List α) :
    (items.mapM f).toOption = items.mapM g := by
  induction items with
  | nil => rfl
  | cons a items ih =>
      rw [List.mapM_cons, List.mapM_cons, ← h a, ← ih]
      cases f a with
      | error error => rfl
      | ok b => cases items.mapM f <;> rfl

/-- The element of a start tag depends on the place of the tag only in its position. -/
theorem toOption_readElement (tag : List Char) (place : Location) :
    (Reading.readElement tag place).toOption.map Element.bare = Draft.readElement? tag := by
  unfold Reading.readElement Draft.readElement?
  rcases Tag.attributes tag with ⟨written, fault⟩
  dsimp only
  generalize hread : List.mapM (m := Except MarkupError) _ written = attributes
  have hattributes : attributes.toOption = written.mapM Draft.readAttribute? := by
    rw [← hread]
    refine toOption_mapM (fun attr => ?_) written
    unfold Draft.readAttribute?
    cases Reference.unescape 0 attr.value <;> rfl
  rw [← hattributes]
  cases attributes with
  | error error => rfl
  | ok attributes => cases fault <;> rfl

/-- A reading and a draft have read the same. -/
def Reading.Matches (container : NodeId) (holder : NodeKind) (reading : Reading)
    (draft : Draft) : Prop :=
  ∃ inner outer, Follows container holder reading.document reading.opened draft inner outer

section

variable {container : NodeId} {holder : NodeKind} {reading : Reading} {draft : Draft}

/-! What a reading does with the events that are not read by themselves. -/

section

variable (container : NodeId) (locate : Nat → Location) (reading : Reading)

/-- Behind an event. -/
def Reading.behind (event : Event) : Nat := reading.offset + byteLength event.source

theorem Reading.step_startTag (tag : List Char) :
    reading.step container locate (.startTag tag) =
      (readElement tag (locate reading.offset)).map fun element =>
        let (d, id) := addNode reading.document (reading.parent container) (.element element)
        ⟨d, (Tag.name tag, id) :: reading.opened, reading.behind (.startTag tag)⟩ := by
  unfold step
  dsimp only
  cases readElement tag (locate reading.offset) <;> rfl

theorem Reading.step_emptyTag (tag : List Char) :
    reading.step container locate (.emptyTag tag) =
      (readElement tag (locate reading.offset)).map fun element =>
        ⟨(addNode reading.document (reading.parent container) (.element element)).1,
          reading.opened, reading.behind (.emptyTag tag)⟩ := by
  unfold step
  dsimp only
  cases readElement tag (locate reading.offset) <;> rfl

theorem Reading.step_reference (name : List Char) :
    ∃ found : Except MarkupError Char, found.toOption = Draft.resolve? name ∧
      reading.step container locate (.reference name) = found.map fun c =>
        ⟨addText reading.document (reading.parent container) (String.singleton c),
          reading.opened, reading.behind (.reference name)⟩ := by
  by_cases hnumber : ∃ number, name = '#' :: number
  · obtain ⟨number, rfl⟩ := hnumber
    refine ⟨(Reference.character number).mapError fun fault =>
      .malformed fault.message (locate reading.offset), ?_, ?_⟩
    · show _ = (Reference.character number).toOption
      cases Reference.character number <;> rfl
    · unfold step
      dsimp only
      split
      next _ number' heq =>
        obtain rfl := (List.cons.inj heq).2
        cases Reference.character number <;> rfl
      next hne => exact absurd rfl (hne number)
  · have hname : Draft.resolve? name = Reference.predefined? name := by
      unfold Draft.resolve?
      split
      next number => exact absurd ⟨number, rfl⟩ hnumber
      next => rfl
    refine ⟨(Reference.predefined? name).elim
      (.error (.unknownEntity (String.ofList name) (locate reading.offset))) .ok, ?_, ?_⟩
    · rw [hname]
      cases Reference.predefined? name <;> rfl
    · unfold step
      dsimp only
      split
      next number => exact absurd ⟨number, rfl⟩ hnumber
      next => cases Reference.predefined? name <;> rfl

end

/-- Either both read the event and have read the same after it, or neither does. -/
theorem Reading.Matches.step (h : reading.Matches container holder draft) (locate : Nat → Location)
    (event : Event) :
    (∃ reading' draft', reading.step container locate event = .ok reading' ∧
      draft.step event = some draft' ∧ reading'.Matches container holder draft') ∨
    (∃ error, reading.step container locate event = .error error) ∧ draft.step event = none := by
  obtain ⟨inner, outer, hfollows⟩ := h
  cases event with
  | startTag tag =>
      have helement := toOption_readElement tag (locate reading.offset)
      rw [Reading.step_startTag]
      unfold Draft.step
      cases hread : Reading.readElement tag (locate reading.offset) with
      | error error =>
          rw [hread] at helement
          exact .inr ⟨⟨error, rfl⟩, by dsimp only; rw [← helement]; rfl⟩
      | ok element =>
          rw [hread] at helement
          exact .inl ⟨_, _, rfl, by dsimp only; rw [← helement]; rfl, _, _,
            hfollows.openElement (Tag.name tag) element⟩
  | emptyTag tag =>
      have helement := toOption_readElement tag (locate reading.offset)
      rw [Reading.step_emptyTag]
      unfold Draft.step
      cases hread : Reading.readElement tag (locate reading.offset) with
      | error error =>
          rw [hread] at helement
          exact .inr ⟨⟨error, rfl⟩, by dsimp only; rw [← helement]; rfl⟩
      | ok element =>
          rw [hread] at helement
          exact .inl ⟨_, _, rfl, by dsimp only; rw [← helement]; rfl, _, _,
            hfollows.addLeaf (.element element)⟩
  | endTag tag =>
      obtain ⟨d, opened, offset⟩ := reading
      cases opened with
      | nil =>
          have hopened : draft.opened = [] := by
            have haround := hfollows.around
            generalize draft.opened = elements at haround
            cases haround
            rfl
          refine .inr ⟨⟨_, rfl⟩, ?_⟩
          unfold Draft.step
          rw [hopened]
      | cons first opened =>
          obtain ⟨name, id⟩ := first
          obtain ⟨innermost, elements, inner', outer', hopened, hname, h⟩ :=
            hfollows.closeElement (fun element =>
              { element with endPosition := some (locate offset) }) fun _ => rfl
          unfold Reading.step Draft.step
          rw [hopened]
          dsimp only
          rw [hname]
          by_cases heq : name = Tag.closingName tag
          · rw [if_pos heq, if_pos heq]
            exact .inl ⟨_, _, rfl, rfl, _, _, h⟩
          · rw [if_neg heq, if_neg heq]
            exact .inr ⟨⟨_, rfl⟩, rfl⟩
  | text content =>
      obtain ⟨inner', h⟩ := hfollows.addText (String.ofList content)
      exact .inl ⟨_, _, rfl, rfl, _, _, h⟩
  | reference name =>
      obtain ⟨found, hfound, hstep⟩ := Reading.step_reference container locate reading name
      rw [hstep]
      unfold Draft.step
      dsimp only
      rw [← hfound]
      cases found with
      | error error => exact .inr ⟨⟨error, rfl⟩, rfl⟩
      | ok c =>
          obtain ⟨inner', h⟩ := hfollows.addText (String.singleton c)
          exact .inl ⟨_, _, rfl, rfl, _, _, h⟩
  | comment content => exact .inl ⟨_, _, rfl, rfl, _, _, hfollows.addLeaf _⟩
  | cdata content => exact .inl ⟨_, _, rfl, rfl, _, _, hfollows.addLeaf _⟩
  | instruction content => exact .inl ⟨_, _, rfl, rfl, _, _, hfollows.addLeaf _⟩
  | declaration content => exact .inl ⟨_, _, rfl, rfl, _, _, hfollows.addLeaf _⟩
  | doctype keyword content => exact .inl ⟨_, _, rfl, rfl, _, _, hfollows.addLeaf _⟩

theorem Reading.Matches.run (h : reading.Matches container holder draft) (locate : Nat → Location)
    (events : List Event) :
    (∃ reading' draft', reading.run container locate events = (reading', none) ∧
      draft.run events = some draft' ∧ reading'.Matches container holder draft') ∨
    (∃ reading' error, reading.run container locate events = (reading', some error)) ∧
      draft.run events = none := by
  induction events generalizing reading draft with
  | nil => exact .inl ⟨reading, draft, rfl, rfl, h⟩
  | cons event events ih =>
      unfold Reading.run Draft.run
      rw [List.foldlM_cons]
      rcases h.step locate event with
        ⟨reading', draft', hstep, hdraft, h'⟩ | ⟨⟨error, hstep⟩, hdraft⟩
      · rw [hstep, hdraft]
        exact ih h'
      · rw [hstep, hdraft]
        exact .inr ⟨⟨reading, error, rfl⟩, rfl⟩

end

/-! ## Documents -/

/-- The text that is read from markup: a byte order mark at its start is left out. -/
def readable (markup : String) : List Char :=
  (strip? ['\uFEFF'] markup.toList).getD markup.toList

theorem matches_empty :
    Reading.Matches Document.root .root { document := Document.empty } {} := by
  refine ⟨[], [], ⟨.nil, .nil rfl, by decide, ?_⟩⟩
  simp [openNodes, Document.root, Document.empty, Document.size]

theorem Reading.Matches.isEmpty_opened {container : NodeId} {holder : NodeKind}
    {reading : Reading} {draft : Draft} (h : reading.Matches container holder draft) :
    reading.opened.isEmpty = draft.opened.isEmpty := by
  obtain ⟨inner, outer, h⟩ := h
  have haround := h.around
  generalize reading.opened = opened at haround
  generalize draft.opened = elements at haround
  cases haround <;> rfl

/-- Below the document node stands what was read, once all elements are closed. -/
theorem Reading.Matches.tree_root {reading : Reading} {draft : Draft}
    (h : reading.Matches Document.root .root draft) (hopened : draft.opened = []) :
    (reading.document.tree Document.root).bare = .node .root draft.children := by
  obtain ⟨inner, outer, h⟩ := h
  obtain ⟨d, opened, offset⟩ := reading
  obtain ⟨hstored, haround, hnodup, hlt⟩ := h
  rw [hopened] at haround
  cases haround with
  | nil hkind =>
      have htree : Stored NodeKind.bare d (.node .root draft.children) Document.root _ :=
        .node hkind hstored
      have hlength := htree.length_nodes
      have hsub : (Document.root :: inner).Subperm (List.range d.size) := by
        refine List.subperm_of_subset (by simpa [openNodes] using hnodup) fun n hn => ?_
        exact List.mem_range.mpr (hlt n (by simpa [openNodes] using hn))
      have hle := hsub.length_le
      rw [List.length_range, hlength] at hle
      exact htree.map_treeTo (Nat.le_succ_of_le hle)

/-- How reading ends after events of which the last may have been followed by a fault. -/
def Reading.result (whole : List Char) (reading : Reading) :
    Option MarkupError → Option Event.Fault → Except MarkupError Unit
  | some error, _ => .error error
  | none, some fault =>
    .error (.malformed fault.message (Location.ofOffset whole reading.offset))
  | none, none =>
    if reading.opened.isEmpty then .ok ()
    else .error (.malformed "unclosed element at end of input" (Location.after whole))

theorem outcome_readInto (container : NodeId) (markup : String) (d : Document) :
    outcome (Document.readInto container markup) d =
      let events := Event.scan (readable markup)
      let run := Reading.run container (Location.ofOffset markup.toList) { document := d } events.1
      (run.1.result markup.toList run.2 events.2, run.1.document) := by
  unfold Document.readInto
  dsimp only
  rw [outcome_bind, outcome_get]
  dsimp only
  rw [outcome_bind, outcome_set]
  unfold readable
  dsimp only
  generalize Event.scan _ = events
  generalize Reading.run _ _ _ _ = run
  obtain ⟨events, fault⟩ := events
  obtain ⟨reading, stopped⟩ := run
  unfold Reading.result
  cases stopped <;> cases fault <;> try rfl
  dsimp only
  split <;> rfl

/-- A document is read as its draft is, or not at all. -/
theorem toOption_parse (markup : String) (sourceName : Option String) :
    (Document.parse markup sourceName).toOption.map (fun d => (d.tree Document.root).bare) =
      (Draft.trees? (readable markup)).map (.node .root) := by
  have hrun := matches_empty.run (Location.ofOffset markup.toList) (Event.scan (readable markup)).1
  have hread := outcome_readInto Document.root markup Document.empty
  have hparse : Document.parse markup sourceName =
      match outcome (Document.readInto Document.root markup) Document.empty with
      | (.ok (), d) => .ok { d with sourceName }
      | (.error error, _) => .error error := rfl
  rw [hparse, hread]
  unfold Draft.trees? Draft.read
  generalize Event.scan (readable markup) = events at hrun ⊢
  obtain ⟨events, fault⟩ := events
  dsimp only at hrun ⊢
  rcases hrun with
    ⟨reading, draft, hreading, hdraft, hmatches⟩ | ⟨⟨reading, error, hreading⟩, hdraft⟩
  · rw [hreading]
    cases fault with
    | some fault => rfl
    | none =>
        dsimp only
        rw [hdraft]
        unfold Reading.result
        dsimp only
        rw [hmatches.isEmpty_opened]
        show _ = Option.map _ (if draft.opened.isEmpty then some draft.children else none)
        by_cases hopened : draft.opened.isEmpty
        · rw [if_pos hopened, if_pos hopened]
          have htree := hmatches.tree_root (List.isEmpty_iff.mp hopened)
          have hnamed := reading.document.treeTo_congr
            { reading.document with sourceName } (fun _ => rfl) reading.document.size
          exact congrArg some ((congrArg Tree.bare (hnamed Document.root)).trans htree)
        · rw [if_neg hopened, if_neg hopened]
          rfl
  · rw [hreading]
    cases fault with
    | some fault => rfl
    | none =>
        dsimp only
        rw [hdraft]
        rfl

end PageTemplate.Markup
