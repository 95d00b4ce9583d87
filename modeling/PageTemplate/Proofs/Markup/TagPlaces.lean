import PageTemplate.Proofs.Markup.AttributeEdits
import PageTemplate.Proofs.Markup.DocumentOrder
import PageTemplate.Proofs.Markup.FragmentShape
import PageTemplate.Proofs.Markup.Yields

/-! # The places of tags

Reading goes through the events of a text once and numbers the nodes as it creates them. At every
moment the nodes of the table, in the order of their numbers, are those of the open elements and of
the trees that are complete, in document order. In the end all nodes belong to trees that were read
from the events of the whole text, and the places of the elements are those of their tags.
-/

namespace PageTemplate.Markup

open Document Event Text

variable {d d' : Document} {front events inside : List Event} {event : Event}
  {nodes order : List NodeId} {id : NodeId} {opened : OpenNodes}
  {tag closing : List Char} {element : Element} {place : Location}

/-- The open elements lead down to the place where reading goes on. What was read before the start
tag of the innermost one is listed in document order, this element included. -/
inductive LeadsDown (d : Document) : OpenNodes → List Event → List NodeId → Prop where
  | nil (hroot : d.element? root = none) : LeadsDown d [] [] [root]
  | cons {opened : OpenNodes} {front events : List Event} {order ids nodes : List NodeId}
    {id : NodeId} {tag : List Char} {element : Element} (houter : LeadsDown d opened front order)
    (hbefore : Yields d front events ids nodes)
    (hchildren : d.children (innermost root opened) = ids ++ [id])
    (helement : d.element? id = some element)
    (htag : element.StandsAt tag (placeBehind (front ++ events)) none) :
    LeadsDown d ((Tag.name tag, id) :: opened) (front ++ events ++ [.startTag tag])
      (order ++ nodes ++ [id])

namespace LeadsDown

theorem innermost_mem (h : LeadsDown d opened front order) : innermost root opened ∈ order := by
  cases h with
  | nil => exact List.mem_cons_self
  | cons => exact List.mem_append_right _ List.mem_cons_self

/-- The open elements stay as they are when only the innermost one gets other children. -/
theorem congr (h : LeadsDown d opened front order) (hnodup : order.Nodup)
    (helement : ∀ n ∈ order, d'.element? n = d.element? n)
    (hchildren : ∀ n ∈ order, n ≠ innermost root opened → d'.children n = d.children n) :
    LeadsDown d' opened front order := by
  induction h with
  | nil hroot => exact .nil ((helement _ List.mem_cons_self).trans hroot)
  | @cons opened front events order _ nodes id _ _ houter hbefore hid hread htag ih =>
      -- The innermost open element is listed last, so none of the others is the one that changes.
      obtain ⟨hnodup, -, hapart⟩ := List.nodup_append.mp hnodup
      have hsame : ∀ n ∈ order ++ nodes, d'.element? n = d.element? n ∧
          d'.children n = d.children n := fun n hn =>
        ⟨helement n (List.mem_append_left _ hn),
          hchildren n (List.mem_append_left _ hn) (hapart n hn id List.mem_cons_self)⟩
      obtain ⟨horder, hnodes⟩ := List.forall_mem_append.mp hsame
      refine .cons (ih (List.nodup_append.mp hnodup).1 (fun n hn => (horder n hn).1)
        fun n hn _ => (horder n hn).2) (hbefore.congr hnodes)
        ((horder _ houter.innermost_mem).2.trans hid) ?_ htag
      exact (helement id (List.mem_append_right _ List.mem_cons_self)).trans hread

end LeadsDown

/-- Reading has got to the end of the events `front ++ inside`, and is in the innermost open element
since the events `front`. All nodes are listed, in the order of their numbers. -/
structure ReadTo (d : Document) (opened : OpenNodes) (front inside : List Event)
    (order nodes : List NodeId) : Prop where
  down : LeadsDown d opened front order
  inner : Yields d front inside (d.children (innermost root opened)) nodes
  order_eq : order ++ nodes = List.range d.size

namespace ReadTo

section

variable (h : ReadTo d opened front events order nodes)

include h

theorem nodup : (order ++ nodes).Nodup := h.order_eq ▸ List.nodup_range

theorem innermost_lt : innermost root opened < d.size := by
  rw [← List.mem_range, ← h.order_eq]
  exact List.mem_append_left _ h.down.innermost_mem

/-- A new node in the innermost open element is the last one, and leaves the others as they are. -/
theorem addNode (kind : NodeKind) :
    let t := (Reading.addNode d (innermost root opened) kind).1
    LeadsDown t opened front order ∧
    Yields t front events (d.children (innermost root opened)) nodes ∧
    t.children (innermost root opened) = d.children (innermost root opened) ++ [d.size] ∧
    t.element? d.size = kind.element? ∧ t.children d.size = [] ∧
    order ++ (nodes ++ [d.size]) = List.range t.size := by
  intro t
  have hlt : ∀ n ∈ order ++ nodes, n ≠ d.size := by
    intro n hn
    rw [h.order_eq, List.mem_range] at hn
    exact Nat.ne_of_lt hn
  have hchildren := Reading.children_addNode h.innermost_lt kind
  have helement : ∀ n, t.element? n = if n = d.size then kind.element? else d.element? n := by
    intro n
    unfold element?
    rw [Reading.kind_addNode]
    split <;> rfl
  obtain ⟨hnodup, -, hapart⟩ := List.nodup_append.mp h.nodup
  refine ⟨h.down.congr hnodup (fun n hn => ?_) (fun n _ hne => ?_),
    h.inner.congr fun n hn => ⟨?_, ?_⟩, ?_, ?_, ?_, ?_⟩
  · rw [helement, if_neg (hlt n (List.mem_append_left _ hn))]
  · rw [hchildren, if_neg hne]
  · rw [helement, if_neg (hlt n (List.mem_append_right _ hn))]
  · rw [hchildren, if_neg (hapart _ h.down.innermost_mem n hn).symm]
  · rw [hchildren, if_pos rfl]
  · rw [helement, if_pos rfl]
  · rw [hchildren, if_neg (Nat.ne_of_gt h.innermost_lt), children_of_size_le (Nat.le_refl _)]
  · rw [Reading.size_addNode, List.range_succ, ← h.order_eq, List.append_assoc]

theorem addLeaf (hevent : event.isTag = false) {kind : NodeKind} (hkind : kind.isElement = false) :
    ReadTo (Reading.addNode d (innermost root opened) kind).1 opened front (events ++ [event])
      order (nodes ++ [d.size]) := by
  obtain ⟨hdown, hinner, hchildren, helement, hnone, horder⟩ := h.addNode kind
  refine ⟨hdown, ?_, horder⟩
  rw [hchildren]
  exact hinner.leaf hevent (helement.trans (by simpa [NodeKind.isElement] using hkind)) hnone

theorem addElement (htag : element.StandsAt tag (placeBehind (front ++ events)) none) :
    ReadTo (Reading.addNode d (innermost root opened) (.element element)).1 opened front
      (events ++ [.emptyTag tag]) order (nodes ++ [d.size]) := by
  obtain ⟨hdown, hinner, hchildren, helement, hnone, horder⟩ := h.addNode (.element element)
  refine ⟨hdown, ?_, horder⟩
  rw [hchildren]
  exact hinner.empty helement hnone htag

theorem openElement (htag : element.StandsAt tag (placeBehind (front ++ events)) none) :
    ReadTo (Reading.addNode d (innermost root opened) (.element element)).1
      ((Tag.name tag, d.size) :: opened) (front ++ events ++ [.startTag tag]) []
      (order ++ nodes ++ [d.size]) [] := by
  obtain ⟨hdown, hinner, hchildren, helement, hnone, horder⟩ := h.addNode (.element element)
  refine ⟨.cons hdown hinner hchildren helement htag, ?_, ?_⟩
  · show Yields _ _ _ (Document.children _ d.size) _
    rw [hnone]
    exact .nil
  · rw [List.append_nil, List.append_assoc, horder]

theorem addText (hevent : event.isTag = false) (content : String) :
    ∃ nodes', ReadTo (Reading.addText d (innermost root opened) content) opened front
      (events ++ [event]) order nodes' := by
  rcases Reading.addText_cases d (innermost root opened) content with
    htext | ⟨last, existing, -, hkind, htext⟩
  · rw [htext]
    exact ⟨_, h.addLeaf hevent rfl⟩
  · have helement : ∀ n, (d.setKind last (.text (existing ++ content))).element? n =
        d.element? n := by
      intro n
      unfold element? setKind Document.kind at *
      rw [node_update]
      split
      next hn =>
        rw [hn.1, hkind]
        rfl
      next => rfl
    have hsame : ∀ n, (d.setKind last (.text (existing ++ content))).children n =
        d.children n := fun n => children_setKind _
    obtain ⟨hnodup, -, -⟩ := List.nodup_append.mp h.nodup
    refine ⟨nodes, ?_, ?_, ?_⟩ <;> rw [htext]
    · exact h.down.congr hnodup (fun n _ => helement n) fun n _ _ => hsame n
    · rw [hsame]
      exact (h.inner.congr fun n _ => ⟨helement n, hsame n⟩).more hevent
    · rw [h.order_eq, size_setKind]

end

/-- The end tag of the innermost open element gives the element its end position. What was read of
the element is one more tree in the next open one. -/
theorem closeElement
    (h : ReadTo d ((Tag.closingName closing, id) :: opened) front inside order nodes)
    (hplace : place = placeBehind (front ++ inside)) :
    ∃ front' inside' order' nodes', front' ++ inside' = front ++ inside ++ [.endTag closing] ∧
      ReadTo (d.updateElement id fun element => { element with endPosition := some place })
        opened front' inside' order' nodes' := by
  have hnodup := h.nodup
  obtain ⟨hdown, hinner, horder⟩ := h
  generalize hname : Tag.closingName closing = name at hdown
  cases hdown with
  | @cons _ front events outer ids before _ tag element houter hbefore hchildren helement htag =>
      generalize hchange : (fun element : Element =>
        { element with endPosition := some place }) = change
      have hids : ∀ n, (d.updateElement id change).children n = d.children n :=
        fun n => children_updateElement change
      have hother : ∀ n, n ≠ id → (d.updateElement id change).element? n = d.element? n := by
        intro n hne
        rw [element?_updateElement, if_neg hne]
      have hthis : (d.updateElement id change).element? id = some (change element) := by
        rw [element?_updateElement, if_pos rfl, helement, Option.map_some]
      obtain ⟨hfront, -, hapart⟩ := List.nodup_append.mp hnodup
      obtain ⟨houterdup, -, hid⟩ := List.nodup_append.mp hfront
      have hne : ∀ n ∈ outer ++ before, n ≠ id := fun n hn => hid n hn id List.mem_cons_self
      have hbelow : ∀ n ∈ nodes, n ≠ id := fun n hn =>
        (hapart id (List.mem_append_right _ List.mem_cons_self) n hn).symm
      refine ⟨front, events ++ .startTag tag :: (inside ++ [.endTag closing]), outer,
        before ++ id :: nodes, by simp, houter.congr (List.nodup_append.mp houterdup).1
          (fun n hn => hother n (hne n (List.mem_append_left _ hn))) fun n _ _ => hids n, ?_, ?_⟩
      · rw [hids, hchildren]
        refine .tags (hbefore.congr fun n hn =>
          ⟨hother n (hne n (List.mem_append_right _ hn)), hids n⟩) hthis ?_ hname ?_
        · rw [hids]
          exact hinner.congr fun n hn => ⟨hother n (hbelow n hn), hids n⟩
        · subst hchange
          refine ⟨htag.bare_eq, htag.position_eq, ?_⟩
          rw [hplace, List.append_assoc (front ++ events), List.singleton_append]
      · rw [size_updateElement, ← horder]
        simp

end ReadTo

/-- The reading has carried out the events. -/
def Reading.HasRead (reading : Reading) (done : List Event) : Prop :=
  reading.offset = byteLength (done.flatMap source) ∧
    ∃ front inside order nodes, front ++ inside = done ∧
      ReadTo reading.document reading.opened front inside order nodes

namespace Reading

variable {reading reading' : Reading} {locate : Nat → Location} {done todo : List Event}

theorem standsAt_of_readElement (h : readElement tag place = .ok element) :
    element.StandsAt tag place none := by
  have hbare := toOption_readElement tag place
  rw [h] at hbare
  obtain ⟨_, rfl⟩ := exists_eq_of_readElement h
  exact ⟨hbare.symm, rfl, rfl⟩

theorem HasRead.step (h : reading.HasRead done)
    (hlocate : locate (byteLength (done.flatMap source)) = placeBehind done)
    (hstep : reading.step root locate event = .ok reading') :
    reading'.HasRead (done ++ [event]) := by
  obtain ⟨hoffset, front, inside, order, nodes, hdone, h⟩ := h
  obtain ⟨heffect, hbehind⟩ := effect_of_step hstep
  rw [← hoffset] at hlocate
  refine ⟨?_, ?_⟩
  · rw [hbehind, Reading.behind, hoffset, List.flatMap_append, byteLength_append,
      List.flatMap_singleton]
  · subst hdone
    obtain ⟨t, opened, offset⟩ := reading'
    dsimp only at heffect ⊢
    cases heffect with
    | opening helement =>
        have htag := hlocate ▸ standsAt_of_readElement helement
        exact ⟨_, _, _, _, List.append_nil _, h.openElement htag⟩
    | alone helement =>
        have htag := hlocate ▸ standsAt_of_readElement helement
        exact ⟨_, _, _, _, (List.append_assoc ..).symm, h.addElement htag⟩
    | closing hopened =>
        rw [hopened] at h
        exact h.closeElement hlocate
    | text hevent content =>
        obtain ⟨nodes, h⟩ := h.addText hevent content
        exact ⟨_, _, _, _, (List.append_assoc ..).symm, h⟩
    | leaf hevent hkind =>
        exact ⟨_, _, _, _, (List.append_assoc ..).symm, h.addLeaf hevent hkind⟩

theorem HasRead.run (h : reading.HasRead done)
    (hlocate : ∀ front rest, done ++ todo = front ++ rest →
      locate (byteLength (front.flatMap source)) = placeBehind front)
    (hrun : reading.run root locate todo = (reading', none)) : reading'.HasRead (done ++ todo) := by
  induction todo generalizing reading done with
  | nil =>
      obtain rfl := (Prod.mk.inj hrun).1
      rwa [List.append_nil]
  | cons event todo ih =>
      unfold Reading.run at hrun
      cases hstep : reading.step root locate event with
      | error error =>
          rw [hstep] at hrun
          cases hrun
      | ok next =>
          rw [hstep] at hrun
          rw [List.append_cons] at hlocate ⊢
          exact ih (h.step (hlocate done (event :: todo) (List.append_cons ..).symm) hstep) hlocate
            hrun

theorem hasRead_empty : Reading.HasRead { document := empty } [] :=
  ⟨rfl, [], [], [root], [], rfl, .nil rfl, .nil, rfl⟩

end Reading

namespace Document

variable {markup : String} {source : Option String}

theorem of_result_eq_ok {whole : List Char} {reading : Reading} {stopped : Option MarkupError}
    {fault : Option Event.Fault} (h : reading.result whole stopped fault = .ok ()) :
    stopped = none ∧ fault = none ∧ reading.opened = [] := by
  unfold Reading.result at h
  split at h
  · cases h
  · cases h
  · split at h
    next hopened => exact ⟨rfl, rfl, List.isEmpty_iff.mp hopened⟩
    next => cases h

/-- A text is accepted when all of it is events, each is carried out, and no element stays open. -/
theorem exists_of_parse (hparse : parse markup source = .ok d) :
    ∃ events reading, scan (readable markup) = (events, none) ∧
      Reading.run root (Location.ofOffset markup.toList) { document := empty } events =
        (reading, none) ∧
      reading.opened = [] ∧ d = { reading.document with sourceName := source } := by
  obtain ⟨t, houtcome, rfl⟩ := outcome_of_parse hparse
  rw [outcome_readInto] at houtcome
  obtain ⟨hresult, rfl⟩ := Prod.mk.inj houtcome
  obtain ⟨hstopped, hfault, hopened⟩ := of_result_eq_ok hresult
  exact ⟨_, _, Prod.ext rfl hfault, Prod.ext rfl hstopped, hopened, rfl⟩

theorem readable_of_head?_ne (hmark : markup.toList.head? ≠ some '\uFEFF') :
    readable markup = markup.toList := by
  unfold readable
  cases hlist : markup.toList with
  | nil => rfl
  | cons c rest =>
      rw [hlist, List.head?_cons, Ne, Option.some.injEq] at hmark
      rw [strip?_cons_of_ne (Ne.symm hmark), Option.getD_none]

/-- The nodes of a document are numbered in document order, and were read from the events of the
whole text. -/
theorem exists_yields_of_parse (hmark : markup.toList.head? ≠ some '\uFEFF')
    (hparse : parse markup source = .ok d) :
    ∃ events nodes, scan markup.toList = (events, none) ∧
      Yields d [] events (d.children root) nodes ∧ root :: nodes = List.range d.size ∧
      d.element? root = none := by
  obtain ⟨events, reading, hscan, hrun, hopened, rfl⟩ := exists_of_parse hparse
  rw [readable_of_head?_ne hmark] at hscan
  obtain ⟨hsource, -⟩ := flatMap_source_of_scan hscan
  have hlocate : ∀ front rest, [] ++ events = front ++ rest →
      Location.ofOffset markup.toList (byteLength (front.flatMap Event.source)) =
        placeBehind front := by
    rintro front rest rfl
    rw [← hsource, List.flatMap_append, Location.ofOffset_byteLength]
    rfl
  obtain ⟨-, front, inside, order, nodes, hevents, hdown, hinner, horder⟩ :=
    Reading.hasRead_empty.run hlocate hrun
  rw [hopened] at hdown hinner
  cases hdown with
  | nil hroot =>
      obtain rfl : inside = events := hevents
      exact ⟨inside, nodes, hscan, hinner.congr fun _ _ => ⟨rfl, rfl⟩, horder, hroot⟩

/-- The places of elements are those of their tags. A text without a byte order mark that is
accepted is made up of events, and the elements of the document are, in document order, those of the
tags that begin elements. Each has the place of its tag, by line and by byte of that line, and the
place of its end tag if it has one. The places increase in document order, and the end tag of an
element stands behind the tags of all elements below it. -/
theorem places_of_tags (hmark : markup.toList.head? ≠ some '\uFEFF')
    (hparse : parse markup source = .ok d) :
    ∃ events, scan markup.toList = (events, none) ∧
      events.flatMap Event.source = markup.toList ∧
      List.Forall₂ (fun element i => element.WrittenAt events i)
        ((d.descendants root).filterMap d.element?) (events.findIdxs isOpening) ∧
      ((d.descendants root).filterMap d.position?).Pairwise Location.Before ∧
      ∀ n ending, d.endPosition? n = some ending →
        ∀ m ∈ d.descendants n, ∀ place, d.position? m = some place → place.Before ending := by
  obtain ⟨events, nodes, hscan, hyields, hall, hroot⟩ := exists_yields_of_parse hmark hparse
  obtain ⟨hsource, hnonempty⟩ := flatMap_source_of_scan hscan
  have hcoherent : Coherent True d := coherent_parse hparse
  have hbranch : ∀ n < d.size, d.Branching n := fun n hn =>
    hcoherent.linked.branching (hcoherent.acyclic trivial) hn
  have hlisted : d.descendants root = nodes := by
    have hlt : root < d.size := List.mem_range.mp (hall ▸ List.mem_cons_self)
    rw [(hbranch root hlt).descendants_eq]
    exact hyields.flatMap_preorder fun c hc => ((hbranch root hlt).below (.child .refl hc)).fits
  refine ⟨events, hscan, hsource, ?_, ?_, fun n ending hending m hm place hplace => ?_⟩
  · rw [hlisted]
    have hwritten := hyields.forall₂_writtenAt []
    rwa [List.nil_append, List.append_nil] at hwritten
  · rw [hlisted]
    exact hyields.pairwise_position? hnonempty
  · have hlt : n < d.size := by
      by_contra hge
      rw [endPosition?, element?, kind, d.node_of_size_le (Nat.le_of_not_lt hge)] at hending
      cases hending
    have hn : n ∈ nodes := by
      have hmem := hall ▸ List.mem_range.mpr hlt
      refine (List.mem_cons.mp hmem).resolve_left ?_
      rintro rfl
      rw [endPosition?, hroot] at hending
      cases hending
    have hbelow := ((hbranch n hlt).mem_descendants_iff.mp hm).1
    exact hyields.before_endPosition? hnonempty hn hending hbelow hplace

/-- Markup on two lines, with characters beyond ASCII, an empty tag in each element and a blank in
an end tag. -/
def nestedMarkup : String := "<a>é <b/>\n<c>é<d/></c ></a>"

/-- What the markup is read as. -/
def nestedPage : Document where
  nodes := #[
    { children := [1] },
    { kind := .element {
        name := .parse "a", position := some ⟨1, 1⟩, endPosition := some ⟨2, 15⟩ },
      parent := some 0, children := [2, 3, 4, 5] },
    { kind := .text "é ", parent := some 1 },
    { kind := .element { name := .parse "b", position := some ⟨1, 7⟩ }, parent := some 1 },
    { kind := .text "\n", parent := some 1 },
    { kind := .element {
        name := .parse "c", position := some ⟨2, 1⟩, endPosition := some ⟨2, 10⟩ },
      parent := some 1, children := [6, 7] },
    { kind := .text "é", parent := some 5 },
    { kind := .element { name := .parse "d", position := some ⟨2, 6⟩ }, parent := some 5 }]

theorem places_of_tags_nestedPage :
    nestedMarkup.toList.head? ≠ some '\uFEFF' ∧ parse nestedMarkup = .ok nestedPage ∧
      List.Forall₂ (fun element i => element.WrittenAt (scan nestedMarkup.toList).1 i)
        ([1, 3, 5, 7].filterMap nestedPage.element?) [0, 2, 4, 6] ∧
      [(⟨1, 1⟩ : Location), ⟨1, 7⟩, ⟨2, 1⟩, ⟨2, 6⟩].Pairwise Location.Before ∧
      nestedPage.endPosition? 5 = some ⟨2, 10⟩ ∧ nestedPage.position? 7 = some ⟨2, 6⟩ ∧
      (⟨2, 6⟩ : Location).Before ⟨2, 10⟩ := by
  have hmark : nestedMarkup.toList.head? ≠ some '\uFEFF' := by decide +kernel
  have hparse : parse nestedMarkup = .ok nestedPage := by decide +kernel
  have hending : nestedPage.endPosition? 5 = some ⟨2, 10⟩ := by decide +kernel
  have hplace : nestedPage.position? 7 = some ⟨2, 6⟩ := by decide +kernel
  have helements : (nestedPage.descendants root).filterMap nestedPage.element? =
      [1, 3, 5, 7].filterMap nestedPage.element? := by decide +kernel
  have hpositions : (nestedPage.descendants root).filterMap nestedPage.position? =
      [⟨1, 1⟩, ⟨1, 7⟩, ⟨2, 1⟩, ⟨2, 6⟩] := by decide +kernel
  have htags : (scan nestedMarkup.toList).1.findIdxs isOpening = [0, 2, 4, 6] := by decide +kernel
  obtain ⟨events, hscan, -, hwritten, hincrease, hends⟩ := places_of_tags hmark hparse
  obtain rfl : (scan nestedMarkup.toList).1 = events := congrArg Prod.fst hscan
  rw [helements, htags] at hwritten
  rw [hpositions] at hincrease
  exact ⟨hmark, hparse, hwritten, hincrease, hending, hplace,
    hends 5 _ hending 7 (by decide +kernel) _ hplace⟩

end Document

end PageTemplate.Markup
