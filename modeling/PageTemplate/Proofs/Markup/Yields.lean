import Mathlib.Data.List.Forall2
import PageTemplate.Proofs.Markup.Draft
import PageTemplate.Proofs.Markup.Places
import PageTemplate.Proofs.Markup.Preorder

/-! # Trees and the events they are read from

An element is read from the tag that begins it, and from the events behind this tag up to its end
tag. Places go along with the events: the element remembers where its tag stands, and where its end
tag does. So elements have their places in document order, and end behind everything inside.
-/

namespace PageTemplate.Markup

open Document Text

variable {d d' : Document} {front events inside : List Event} {event : Event}
  {ids nodes below order : List NodeId} {n m id : NodeId} {opened : OpenNodes}
  {tag closing : List Char} {element : Element} {place ending : Location} {i j : Nat}

namespace Event

/-- The event is a tag that begins an element. -/
def isOpening : Event → Bool
  | startTag _ | emptyTag _ => true
  | _ => false

theorem isOpening_of_isTag (h : event.isTag = false) : event.isOpening = false := by
  cases event <;> first | rfl | cases h

/-- Where the event behind the given ones stands. -/
def placeBehind (events : List Event) : Location := .behind (events.flatMap source)

/-- Every start tag among the events has its end tag behind it, and every end tag its start tag. -/
inductive Balanced : List Event → Prop where
  | nil : Balanced []
  | single {events : List Event} {event : Event} (hbefore : Balanced events)
    (hevent : event.isTag = false) : Balanced (events ++ [event])
  | empty {events : List Event} {tag : List Char} (hbefore : Balanced events) :
    Balanced (events ++ [.emptyTag tag])
  | tags {events inside : List Event} {tag closing : List Char} (hbefore : Balanced events)
    (hinside : Balanced inside) (hname : Tag.closingName closing = Tag.name tag) :
    Balanced (events ++ .startTag tag :: (inside ++ [.endTag closing]))

/-- An event comes before those behind it. -/
theorem before_placeBehind_append (hsource : event.source ≠ []) (front events : List Event) :
    (placeBehind front).Before (placeBehind (front ++ event :: events)) := by
  rw [placeBehind, placeBehind, List.flatMap_append, List.flatMap_cons]
  exact Location.before_behind_append _ (List.append_ne_nil_of_left_ne_nil hsource _)

theorem before_placeBehind_take (hsource : ∀ event ∈ events, event.source ≠ []) (hij : i < j)
    (hj : j ≤ events.length) :
    (placeBehind (events.take i)).Before (placeBehind (events.take j)) := by
  obtain ⟨k, rfl⟩ := Nat.exists_eq_add_of_lt hij
  rw [Nat.add_assoc, List.take_add, List.drop_eq_getElem_cons (by omega), List.take_succ_cons]
  exact before_placeBehind_append (hsource _ (List.getElem_mem _)) _ _

end Event

open Event

/-- The element is that of a tag and remembers where the tag stands, and where its end tag does. -/
structure Element.StandsAt (element : Element) (tag : List Char) (place : Location)
    (ending : Option Location) : Prop where
  bare_eq : Draft.readElement? tag = some element.bare
  position_eq : element.position = some place
  endPosition_eq : element.endPosition = ending

/-- The element was written with the tag at an index of the events. This is an empty tag, or it is a
start tag, with the end tag of the same name behind events that are balanced. -/
inductive Element.WrittenAt (element : Element) : List Event → Nat → Prop where
  | empty {front after : List Event} {tag : List Char}
    (htag : element.StandsAt tag (placeBehind front) none) :
    element.WrittenAt (front ++ .emptyTag tag :: after) front.length
  | tags {front inside after : List Event} {tag closing : List Char} (hinside : Balanced inside)
    (hname : Tag.closingName closing = Tag.name tag)
    (htag : element.StandsAt tag (placeBehind front)
      (some (placeBehind (front ++ .startTag tag :: inside)))) :
    element.WrittenAt (front ++ .startTag tag :: (inside ++ .endTag closing :: after)) front.length

theorem Element.WrittenAt.position_eq (h : element.WrittenAt events i) :
    element.position = some (placeBehind (events.take i)) := by
  cases h with
  | empty htag | tags _ _ htag => rw [htag.position_eq, List.take_left]

namespace Document

/-- Where the tag that begins the element stands. -/
def position? (d : Document) (n : NodeId) : Option Location := (d.element? n).bind (·.position)

/-- Where the end tag of the element stands, if it has one. -/
def endPosition? (d : Document) (n : NodeId) : Option Location :=
  (d.element? n).bind (·.endPosition)

end Document

/-- The trees below the nodes `ids` were read from the events, which stand behind `front`. The nodes
of these trees are listed in document order. -/
inductive Yields (d : Document) :
    List Event → List Event → List NodeId → List NodeId → Prop where
  | nil {front : List Event} : Yields d front [] [] []
  | more {front events : List Event} {event : Event} {ids nodes : List NodeId}
    (hbefore : Yields d front events ids nodes) (hevent : event.isTag = false) :
    Yields d front (events ++ [event]) ids nodes
  | leaf {front events : List Event} {event : Event} {ids nodes : List NodeId} {id : NodeId}
    (hbefore : Yields d front events ids nodes) (hevent : event.isTag = false)
    (helement : d.element? id = none) (hchildren : d.children id = []) :
    Yields d front (events ++ [event]) (ids ++ [id]) (nodes ++ [id])
  | empty {front events : List Event} {ids nodes : List NodeId} {id : NodeId} {tag : List Char}
    {element : Element} (hbefore : Yields d front events ids nodes)
    (helement : d.element? id = some element) (hchildren : d.children id = [])
    (htag : element.StandsAt tag (placeBehind (front ++ events)) none) :
    Yields d front (events ++ [.emptyTag tag]) (ids ++ [id]) (nodes ++ [id])
  | tags {front events inside : List Event} {ids nodes below : List NodeId} {id : NodeId}
    {tag closing : List Char} {element : Element} (hbefore : Yields d front events ids nodes)
    (helement : d.element? id = some element)
    (hinside : Yields d (front ++ events ++ [.startTag tag]) inside (d.children id) below)
    (hname : Tag.closingName closing = Tag.name tag)
    (htag : element.StandsAt tag (placeBehind (front ++ events))
      (some (placeBehind (front ++ events ++ .startTag tag :: inside)))) :
    Yields d front (events ++ .startTag tag :: (inside ++ [.endTag closing])) (ids ++ [id])
      (nodes ++ id :: below)

namespace Yields

/-- Trees are read off elements and child lists. -/
theorem congr (h : Yields d front events ids nodes)
    (hsame : ∀ n ∈ nodes, d'.element? n = d.element? n ∧ d'.children n = d.children n) :
    Yields d' front events ids nodes := by
  induction h with
  | nil => exact .nil
  | more _ hevent ih => exact .more (ih hsame) hevent
  | leaf _ hevent helement hchildren ih =>
      obtain ⟨hbefore, hid⟩ := List.forall_mem_append.mp hsame
      obtain ⟨hid, hids⟩ := hid _ List.mem_cons_self
      exact .leaf (ih hbefore) hevent (hid.trans helement) (hids.trans hchildren)
  | empty _ helement hchildren htag ih =>
      obtain ⟨hbefore, hid⟩ := List.forall_mem_append.mp hsame
      obtain ⟨hid, hids⟩ := hid _ List.mem_cons_self
      exact .empty (ih hbefore) (hid.trans helement) (hids.trans hchildren) htag
  | tags _ helement _ hname htag ih ihinside =>
      obtain ⟨hbefore, hrest⟩ := List.forall_mem_append.mp hsame
      obtain ⟨⟨hid, hids⟩, hbelow⟩ := List.forall_mem_cons.mp hrest
      exact .tags (ih hbefore) (hid.trans helement) (hids ▸ ihinside hbelow) hname htag

theorem balanced (h : Yields d front events ids nodes) : Balanced events := by
  induction h with
  | nil => exact .nil
  | more _ hevent ih => exact .single ih hevent
  | leaf _ hevent _ _ ih => exact .single ih hevent
  | empty _ _ _ _ ih => exact .empty ih
  | tags _ _ _ hname _ ih ihinside => exact .tags ih ihinside hname

/-- The nodes are those that recursion on the child lists finds. -/
theorem flatMap_preorder {good : NodeId → NodeKind → Prop} {h : Nat}
    (hyields : Yields d front events ids nodes) (hgood : ∀ id ∈ ids, Throughout good d h id) :
    ids.flatMap (d.preorder h) = nodes := by
  induction hyields generalizing h with
  | nil => rfl
  | more _ _ ih => exact ih hgood
  | leaf _ _ _ hchildren ih | empty _ _ hchildren _ ih =>
      obtain ⟨hbefore, hid⟩ := List.forall_mem_append.mp hgood
      rw [List.flatMap_append, ih hbefore]
      cases h with
      | zero => exact (hid _ List.mem_cons_self).elim
      | succ h => simp [preorder, hchildren]
  | tags _ _ _ _ _ ih ihinside =>
      obtain ⟨hbefore, hid⟩ := List.forall_mem_append.mp hgood
      rw [List.flatMap_append, ih hbefore]
      cases h with
      | zero => exact (hid _ List.mem_cons_self).elim
      | succ h => simp [preorder, ihinside (hid _ List.mem_cons_self).2]

/-- What lies below one of the nodes at the top is among the nodes. -/
theorem mem_of_below (h : Yields d front events ids nodes) (hid : id ∈ ids) (hm : d.Below id m) :
    m ∈ nodes := by
  induction h generalizing id with
  | nil => cases hid
  | more _ _ ih => exact ih hid hm
  | leaf _ _ _ hchildren ih | empty _ _ hchildren _ ih =>
      rcases List.mem_append.mp hid with hid | hid
      · exact List.mem_append_left _ (ih hid hm)
      · obtain rfl := List.mem_singleton.mp hid
        rcases hm.eq_or_child with rfl | ⟨c, hc, -⟩
        · exact List.mem_append_right _ List.mem_cons_self
        · rw [hchildren] at hc
          cases hc
  | tags _ _ _ _ _ ih ihinside =>
      rcases List.mem_append.mp hid with hid | hid
      · exact List.mem_append_left _ (ih hid hm)
      · obtain rfl := List.mem_singleton.mp hid
        rcases hm.eq_or_child with rfl | ⟨c, hc, hm⟩
        · exact List.mem_append_right _ List.mem_cons_self
        · exact List.mem_append_right _ (List.mem_cons_of_mem _ (ihinside hc hm))

/-- The elements were written, in document order, with the tags that begin elements. -/
theorem forall₂_writtenAt (h : Yields d front events ids nodes) (after : List Event) :
    List.Forall₂ (fun element i => element.WrittenAt (front ++ events ++ after) i)
      (nodes.filterMap d.element?) (events.findIdxs isOpening front.length) := by
  induction h generalizing after with
  | nil => exact .nil
  | @more _ _ event _ _ _ hevent ih =>
      have hbefore := ih (event :: after)
      simpa [List.findIdxs_append, isOpening_of_isTag hevent] using hbefore
  | @leaf _ _ event _ _ _ _ hevent helement _ ih =>
      have hbefore := ih (event :: after)
      simpa [List.findIdxs_append, isOpening_of_isTag hevent, helement] using hbefore
  | @empty front events _ _ _ tag element _ helement _ htag ih =>
      have hbefore := ih (.emptyTag tag :: after)
      have hlast : element.WrittenAt (front ++ events ++ .emptyTag tag :: after)
          (front ++ events).length := .empty htag
      have hall := List.rel_append hbefore (.cons hlast .nil)
      simpa [List.findIdxs_append, helement, isOpening] using hall
  | @tags front events inside _ _ _ _ tag closing element _ helement hinside hname htag ih
      ihinside =>
      have hbefore := ih (.startTag tag :: (inside ++ .endTag closing :: after))
      have hfirst : element.WrittenAt
          (front ++ events ++ .startTag tag :: (inside ++ .endTag closing :: after))
          (front ++ events).length := .tags hinside.balanced hname htag
      have hbelow := ihinside (.endTag closing :: after)
      rw [List.append_assoc, List.append_assoc, List.singleton_append] at hbelow
      have hall := List.rel_append hbefore (.cons hfirst hbelow)
      simpa [List.findIdxs_append, helement, isOpening, Nat.add_assoc] using hall

/-- The places of the elements are those of the tags that begin elements. -/
theorem filterMap_position? (h : Yields d front events ids nodes) :
    nodes.filterMap d.position? =
      (events.findIdxs isOpening front.length).map fun i =>
        placeBehind ((front ++ events).take i) := by
  have hwritten := h.forall₂_writtenAt []
  rw [List.append_nil] at hwritten
  have hplaces := List.forall₂_map_left_iff.mpr (List.forall₂_map_right_iff.mpr
    (hwritten.imp fun _ _ hwritten => hwritten.position_eq))
  rw [List.forall₂_eq_eq_eq] at hplaces
  calc nodes.filterMap d.position?
      = ((nodes.filterMap d.element?).map (·.position)).filterMap id := by
        rw [List.filterMap_map, List.filterMap_filterMap]
        rfl
    _ = _ := by
        rw [hplaces]
        simp [List.filterMap_map]

/-- The places of the elements come one after the other. -/
theorem pairwise_position? (h : Yields d front events ids nodes)
    (hsource : ∀ event ∈ front ++ events, event.source ≠ []) :
    (nodes.filterMap d.position?).Pairwise Location.Before := by
  rw [h.filterMap_position?, List.pairwise_map]
  refine List.Pairwise.imp_of_mem ?_ List.pairwise_findIdxs
  intro i j _ hj hij
  have hlt := List.lt_add_of_mem_findIdxs j hj
  exact before_placeBehind_take hsource hij (by rw [List.length_append]; omega)

/-- The elements begin before the events end. -/
theorem before_end (h : Yields d front events ids nodes)
    (hsource : ∀ event ∈ front ++ events, event.source ≠ []) (hn : n ∈ nodes)
    (hplace : d.position? n = some place) : place.Before (placeBehind (front ++ events)) := by
  have hmem : place ∈ nodes.filterMap d.position? := List.mem_filterMap.mpr ⟨n, hn, hplace⟩
  rw [h.filterMap_position?] at hmem
  obtain ⟨i, hi, rfl⟩ := List.mem_map.mp hmem
  have hlt := List.lt_add_of_mem_findIdxs i hi
  rw [Nat.add_comm, ← List.length_append] at hlt
  have hbefore := before_placeBehind_take hsource hlt (Nat.le_refl _)
  rwa [List.take_length] at hbefore

/-- The end tag of an element stands behind the tags of all elements inside. -/
theorem before_endPosition? (h : Yields d front events ids nodes)
    (hsource : ∀ event ∈ front ++ events, event.source ≠ []) (hn : n ∈ nodes)
    (hending : d.endPosition? n = some ending) (hm : d.Below n m)
    (hplace : d.position? m = some place) : place.Before ending := by
  induction h with
  | nil => cases hn
  | more _ _ ih =>
      rw [← List.append_assoc, List.forall_mem_append] at hsource
      exact ih hsource.1 hn
  | leaf _ _ helement _ ih =>
      rw [← List.append_assoc, List.forall_mem_append] at hsource
      rcases List.mem_append.mp hn with hn | hn
      · exact ih hsource.1 hn
      · obtain rfl := List.mem_singleton.mp hn
        rw [endPosition?, helement] at hending
        cases hending
  | empty _ helement _ htag ih =>
      rw [← List.append_assoc, List.forall_mem_append] at hsource
      rcases List.mem_append.mp hn with hn | hn
      · exact ih hsource.1 hn
      · obtain rfl := List.mem_singleton.mp hn
        rw [endPosition?, helement, Option.bind_some, htag.endPosition_eq] at hending
        cases hending
  | @tags front events inside _ _ _ id tag closing element _ helement hinside _ htag ih ihinside =>
      -- What lies inside was read from events that stand before this end tag.
      have hsplit : front ++ (events ++ .startTag tag :: (inside ++ [.endTag closing])) =
          front ++ events ++ [.startTag tag] ++ inside ++ [.endTag closing] := by simp
      rw [hsplit, List.forall_mem_append] at hsource
      have hbefore := List.forall_mem_append.mp (List.forall_mem_append.mp hsource.1).1
      rcases List.mem_append.mp hn with hn | hn
      · exact ih hbefore.1 hn
      · rcases List.mem_cons.mp hn with rfl | hn
        · rw [endPosition?, helement, Option.bind_some, htag.endPosition_eq] at hending
          obtain rfl := Option.some.inj hending
          rcases hm.eq_or_child with rfl | ⟨c, hc, hm⟩
          · rw [position?, helement, Option.bind_some, htag.position_eq] at hplace
            obtain rfl := Option.some.inj hplace
            exact before_placeBehind_append (hbefore.2 _ List.mem_cons_self) _ _
          · have hlast := hinside.before_end hsource.1 (hinside.mem_of_below hc hm) hplace
            rwa [List.append_assoc, List.singleton_append] at hlast
        · exact ihinside hsource.1 hn

end Yields

end PageTemplate.Markup
