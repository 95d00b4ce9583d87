import PageTemplate.Proofs.Markup.Preorder
import PageTemplate.Proofs.Render.SlotExchange

/-! # Every filler is accounted for

Filling goes through the elements below a node in document order. The first open slot that a filler
fits is exchanged for a copy of the filler, and the filler is used up; what has been put into a slot
and what lay in the slot is passed by. So in the end a filler is left only where there is no open
slot of its name, and nothing has changed but that the slots were exchanged.
-/

namespace PageTemplate

namespace Markup.Document

/-- The elements below a node in document order, as far as elements lead and `fuel` reaches. -/
def elementsTo (d : Document) : Nat → NodeId → List NodeId
  | 0, _ => []
  | fuel + 1, node => (d.childElements node).flatMap fun c => c :: d.elementsTo fuel c

/-- The elements below a node in document order, as far as elements lead. -/
def elementsBelow (d : Document) (node : NodeId) : List NodeId := d.elementsTo d.size node

variable {d : Document} {n m node : NodeId}

theorem below_of_mem_elementsTo {fuel : Nat} (h : m ∈ d.elementsTo fuel node) :
    ∃ c ∈ d.childElements node, d.Below c m := by
  induction fuel generalizing node with
  | zero => cases h
  | succ fuel ih =>
      obtain ⟨c, hc, hm⟩ := List.mem_flatMap.mp h
      refine ⟨c, hc, ?_⟩
      rcases List.mem_cons.mp hm with rfl | hm
      · exact .refl
      · obtain ⟨c', hc', hbelow⟩ := ih hm
        exact .of_child (List.mem_filter.mp hc').1 hbelow

/-- Where only elements have children, all elements are reached through elements. -/
theorem Grounded.elementsBelow_eq (hn : d.Grounded n)
    (hleaves : ∀ m, d.Below n m → m ≠ n → d.isElement m = false → d.children m = []) :
    d.elementsBelow n = (d.descendants n).filter (d.isElement ·) := by
  have hlist : ∀ h m, Throughout (fun _ _ => True) d h m → d.Below n m →
      d.elementsTo h m = ((d.children m).flatMap (d.preorder h)).filter (d.isElement ·) := by
    intro h
    induction h with
    | zero => exact fun _ hgood => hgood.elim
    | succ h ih =>
        intro m hgood hm
        have hchild : ∀ c ∈ d.children m, (d.preorder (h + 1) c).filter (d.isElement ·) =
            if d.isElement c then c :: d.elementsTo h c else [] := by
          intro c hc
          rw [preorder, List.filter_cons]
          have hne : c ≠ n := by
            rintro rfl
            obtain ⟨top, htop, hbelow⟩ := hn.rooted
            exact hn.linked.not_below_parent htop hbelow (hn.linked.parent_eq hc) hm
          split
          · rw [ih c (hgood.2 c hc) (hm.child hc)]
          next helement =>
            rw [hleaves c (hm.child hc) hne (by simpa using helement)]
            rfl
        rw [elementsTo, childElements, List.filter_flatMap]
        generalize d.children m = children at hchild
        induction children with
        | nil => rfl
        | cons c children ihc =>
            obtain ⟨hc, hchildren⟩ := List.forall_mem_cons.mp hchild
            rw [List.flatMap_cons, hc, ← ihc hchildren, List.filter_cons]
            split <;> simp
  rw [elementsBelow, hn.descendants_eq]
  exact hlist d.size n hn.throughout .refl

end Markup.Document

namespace Slots

open Markup Document

variable {v : Vocabularies} {d : Document} {root node c n m : NodeId} {name : String}
  {fillers : Fillers} {filling : Filling} {replaced before first more : List Replacement}
  {elements elements' : List NodeId} {r : Replacement} {fuel : Nat}

/-! ## What filling keeps account of -/

/-- A filling that has exchanged the listed slots below `root`: it has counted them, has used up
their fillers, each for the slot of its name, and has done nothing else. -/
structure Tracks (v : Vocabularies) (d : Document) (root : NodeId) (fillers : Fillers)
    (replaced : List Replacement) (filling : Filling) : Prop where
  refilled : Refilled v d replaced filling.document
  filled_eq : filling.filled = replaced.length
  fillers_eq : filling.fillers = fillers.filter (·.1 ∉ replaced.map (·.name))
  consumed : ∀ r ∈ replaced, fillers.lookup r.name = some r.filler
  nodup : (replaced.map (·.name)).Nodup
  below : ∀ r ∈ replaced, d.Below root r.slot ∧ r.slot ≠ root

/-- The element is a slot of the name, and does not lie inside another one that is replaced. -/
def Open (v : Vocabularies) (d : Document) (replaced : List Replacement) (name : String)
    (n : NodeId) : Prop :=
  slotName? v d n = some name ∧ ∀ r ∈ replaced, d.Below r.slot n → r.slot = n

/-- The element is the first in the list that `P` holds of. -/
def FirstAmong (P : NodeId → Prop) (elements : List NodeId) (n : NodeId) : Prop :=
  ∃ front back, elements = front ++ n :: back ∧ P n ∧ ∀ m ∈ front, ¬ P m

/-- The slots that are replaced are the first open ones of their names in the list, and of the names
of other fillers there is none. -/
structure Covers (v : Vocabularies) (d : Document) (fillers : Fillers)
    (before replaced : List Replacement) (elements : List NodeId) : Prop where
  first : ∀ r ∈ replaced, FirstAmong (Open v d replaced r.name) elements r.slot
  left : ∀ name, (fillers.lookup name).isSome →
    name ∉ before.map (·.name) → name ∉ replaced.map (·.name) →
      ∀ n ∈ elements, ¬ Open v d replaced name n

theorem lookup_filter_not_mem {names : List String} :
    (fillers.filter (·.1 ∉ names)).lookup name =
      if name ∈ names then none else fillers.lookup name := by
  induction fillers with
  | nil => simp
  | cons entry fillers ih =>
      obtain ⟨key, filler⟩ := entry
      by_cases hkey : key ∈ names
      · rw [List.filter_cons_of_neg (by simpa using hkey), ih]
        split
        · rfl
        next hname =>
          rw [Keyed.lookup_cons_of_ne]
          rintro rfl
          exact hname hkey
      · rw [List.filter_cons_of_pos (by simpa using hkey)]
        by_cases hname : name = key
        · subst hname
          rw [List.lookup_cons_self, if_neg hkey, List.lookup_cons_self]
        · rw [Keyed.lookup_cons_of_ne hname, Keyed.lookup_cons_of_ne hname, ih]

namespace Tracks

theorem lookup_eq (h : Tracks v d root fillers replaced filling) (name : String) :
    filling.fillers.lookup name =
      if name ∈ replaced.map (·.name) then none else fillers.lookup name := by
  rw [h.fillers_eq, lookup_filter_not_mem]

/-- As many fillers are used up as slots are replaced. -/
theorem length_eq (h : Tracks v d root fillers replaced filling) (hkeys : (fillers.map (·.1)).Nodup) :
    fillers.length = replaced.length + filling.fillers.length := by
  have hused : (fillers.filter (·.1 ∈ replaced.map (·.name))).length = replaced.length := by
    rw [← List.length_map (·.1), ← @List.length_map _ _ replaced (·.name)]
    apply List.Perm.length_eq
    apply (List.perm_ext_iff_of_nodup (hkeys.sublist (List.filter_sublist.map _)) h.nodup).mpr
    intro name
    constructor
    · intro hmem
      obtain ⟨entry, hentry, rfl⟩ := List.mem_map.mp hmem
      simpa using (List.mem_filter.mp hentry).2
    · intro hmem
      obtain ⟨r, hr, rfl⟩ := List.mem_map.mp hmem
      have hentry := Keyed.mem_of_lookup (h.consumed r hr)
      exact List.mem_map.mpr ⟨_, List.mem_filter.mpr ⟨hentry, by simpa using hmem⟩, rfl⟩
  have hsplit := List.length_eq_length_filter_add (l := fillers)
    (fun entry => decide (entry.1 ∈ replaced.map (·.name)))
  rw [hsplit, hused, h.fillers_eq]
  simp only [decide_not]

end Tracks

/-! ## One part of the walk after the other -/

/-- What two parts of a walk cover, they cover together, when no slot of one part is above an element
of the other. -/
theorem Covers.append (hfirst : Covers v d fillers before first elements)
    (hmore : Covers v d fillers (before ++ first) more elements')
    (htracks : Tracks v d root fillers (before ++ first ++ more) filling)
    (hapart : ∀ n ∈ elements, ∀ r ∈ more, ¬ d.Below r.slot n)
    (hapart' : ∀ n ∈ elements', ∀ r ∈ first, ¬ d.Below r.slot n) :
    Covers v d fillers before (first ++ more) (elements ++ elements') := by
  have hopen : ∀ name, ∀ n ∈ elements,
      Open v d (first ++ more) name n ↔ Open v d first name n := by
    intro name n hn
    simp only [Open, List.forall_mem_append]
    constructor
    · exact fun ⟨hname, hout, _⟩ => ⟨hname, hout⟩
    · exact fun ⟨hname, hout⟩ => ⟨hname, hout, fun r hr hbelow => absurd hbelow (hapart n hn r hr)⟩
  have hopen' : ∀ name, ∀ n ∈ elements',
      Open v d (first ++ more) name n ↔ Open v d more name n := by
    intro name n hn
    simp only [Open, List.forall_mem_append]
    constructor
    · exact fun ⟨hname, _, hout⟩ => ⟨hname, hout⟩
    · exact fun ⟨hname, hout⟩ => ⟨hname, fun r hr hbelow => absurd hbelow (hapart' n hn r hr), hout⟩
  have hnodup := htracks.nodup
  constructor
  · intro r hr
    rcases List.mem_append.mp hr with hr | hr
    · obtain ⟨front, back, rfl, hslot, hfront⟩ := hfirst.first r hr
      refine ⟨front, back ++ elements', by simp, ?_, fun m hm => ?_⟩
      · exact (hopen _ _ (by simp)).mpr hslot
      · exact mt (hopen _ m (List.mem_append_left _ hm)).mp (hfront m hm)
    · obtain ⟨front, back, rfl, hslot, hfront⟩ := hmore.first r hr
      refine ⟨elements ++ front, back, by simp, (hopen' _ _ (by simp)).mpr hslot, fun m hm => ?_⟩
      rcases List.mem_append.mp hm with hm | hm
      · -- The filler was still there when the first part was done.
        have hconsumed := htracks.consumed r (List.mem_append_right _ hr)
        rw [List.map_append] at hnodup
        have hname : r.name ∉ (before ++ first).map (·.name) := fun hmem =>
          (List.nodup_append.mp hnodup).2.2 _ hmem _ (List.mem_map_of_mem hr) rfl
        rw [List.map_append, List.mem_append, not_or] at hname
        exact mt (hopen _ m hm).mp
          (hfirst.left r.name (hconsumed ▸ rfl) hname.1 hname.2 m hm)
      · exact mt (hopen' _ m (List.mem_append_left _ hm)).mp (hfront m hm)
  · intro name hname hbefore hreplaced n hn
    rw [List.map_append, List.mem_append, not_or] at hreplaced
    rcases List.mem_append.mp hn with hn | hn
    · exact mt (hopen _ n hn).mp (hfirst.left name hname hbefore hreplaced.1 n hn)
    · apply mt (hopen' _ n hn).mp
      apply hmore.left name hname _ hreplaced.2 n hn
      rw [List.map_append, List.mem_append, not_or]
      exact ⟨hbefore, hreplaced.1⟩

/-- What a part of the walk did: it replaced slots below the given nodes and covers the elements it
went through. -/
structure Advances (v : Vocabularies) (d : Document) (root : NodeId) (fillers : Fillers)
    (before more : List Replacement) (tops elements : List NodeId) (filling : Filling) :
    Prop where
  tracks : Tracks v d root fillers (before ++ more) filling
  below : ∀ r ∈ more, ∃ c ∈ tops, d.Below c r.slot
  covers : Covers v d fillers before more elements

/-- The copy of a macro, which has no parent, and fillers that lie outside of it. -/
structure Apart (d : Document) (root : NodeId) (fillers : Fillers) : Prop where
  linked : d.WellLinked
  lt : root < d.size
  parent_eq : d.parent root = none
  fillers : ∀ entry ∈ fillers, d.Grounded entry.2 ∧ ¬ d.Below root entry.2

namespace Apart

variable (hapart : Apart d root fillers)

include hapart

theorem grounded (hn : d.Below root n) : d.Grounded n :=
  ⟨hapart.linked, hapart.linked.below_lt hn hapart.lt, root, hapart.parent_eq, hn⟩

/-- Nothing below a filler lies in the copy of the macro. -/
theorem not_below {entry : String × NodeId} (hentry : entry ∈ fillers)
    (hn : d.Below entry.2 n) : ¬ d.Below root n := by
  intro hback
  rcases hapart.linked.below_total hback hn with hbelow | hbelow
  · exact (hapart.fillers entry hentry).2 hbelow
  · rcases hapart.linked.below_cases hbelow with heq | ⟨q, hq, -⟩
    · exact (hapart.fillers entry hentry).2 (heq ▸ .refl)
    · rw [hapart.parent_eq] at hq
      cases hq

theorem ne_root (hn : d.Below root node) (hc : c ∈ d.children node) : c ≠ root := by
  rintro rfl
  have hparent := hapart.linked.parent_eq hc
  rw [hapart.parent_eq] at hparent
  cases hparent

/-- Fillers are as they were as long as slots in the copy are filled. -/
theorem node_filler (htracks : Tracks v d root fillers before filling) {entry : String × NodeId}
    (hentry : entry ∈ fillers) (hn : d.Below entry.2 n) :
    filling.document.node n = d.node n := by
  have hlt := hapart.linked.below_lt hn (hapart.fillers entry hentry).1.lt
  exact htracks.refilled.node_eq hapart.linked htracks.below hlt (hapart.not_below hentry hn)

/-- The slot that is found next is filled. -/
theorem advances_fillOne (htracks : Tracks v d root fillers before filling)
    (hnode : d.Below root node) (hc : c ∈ d.childElements node)
    (hout : ∀ r ∈ before, ¬ d.Below r.slot c ∧ ¬ d.Below c r.slot)
    (hname : slotName? v d c = some name) {filler : NodeId}
    (hfiller : filling.fillers.lookup name = some filler) (fuel : Nat) :
    ∃ more, Advances v d root fillers before more [c] (c :: d.elementsTo fuel c)
      { document := fillOne v filling.document c filler
        fillers := Keyed.erase name filling.fillers
        filled := filling.filled + 1 } := by
  have hchild := (List.mem_filter.mp hc).1
  have hground := hapart.grounded (hnode.child hchild)
  have hparent := hapart.linked.parent_eq hchild
  obtain ⟨hnew, hlookup⟩ : name ∉ before.map (·.name) ∧ fillers.lookup name = some filler := by
    rw [htracks.lookup_eq] at hfiller
    split at hfiller
    · cases hfiller
    next hnew => exact ⟨hnew, hfiller⟩
  have hentry := Keyed.mem_of_lookup hlookup
  have hrefilled := htracks.refilled
  have hslot := (hrefilled.of_not_below hground fun r hr => (hout r hr).1).1
  have hslotparent : filling.document.parent c = some node := by
    rw [hrefilled.parent_eq c hground.lt, if_neg, hparent]
    intro hmem
    obtain ⟨r, hr, rfl⟩ := List.mem_map.mp hmem
    exact (hout r hr).1 .refl
  have hfillerground := (hrefilled.of_not_below (hapart.fillers _ hentry).1 fun r hr hbelow =>
    hapart.not_below hentry .refl ((htracks.below r hr).1.trans hbelow)).1
  obtain ⟨copy, hfilled⟩ := filledOne_fillOne (v := v) hslot hslotparent hfillerground
  refine ⟨[⟨name, c, filler, copy⟩], ⟨?_, ?_, ?_, ?_, ?_, ?_⟩, ?_, ?_, ?_⟩
  · apply hrefilled.step hground hparent hout (fun m hm => ?_) hfilled
    have hsame := hapart.node_filler htracks hentry hm
    exact ⟨congrArg Node.kind hsame, congrArg Node.children hsame⟩
  · simp [htracks.filled_eq]
  · rw [Keyed.erase, htracks.fillers_eq, List.filter_filter]
    apply List.filter_congr
    intro entry _
    by_cases hkey : entry.1 = name <;> simp [hkey, and_comm]
  · intro r hr
    rcases List.mem_append.mp hr with hr | hr
    · exact htracks.consumed r hr
    · rw [List.mem_singleton.mp hr, hlookup]
  · rw [List.map_append, List.map_singleton]
    apply List.nodup_append.mpr ⟨htracks.nodup, List.nodup_singleton _, ?_⟩
    intro a ha b hb hab
    rw [hab, List.mem_singleton.mp hb] at ha
    exact hnew ha
  · intro r hr
    rcases List.mem_append.mp hr with hr | hr
    · exact htracks.below r hr
    · rw [List.mem_singleton.mp hr]
      exact ⟨hnode.child hchild, hapart.ne_root hnode hchild⟩
  · intro r hr
    rw [List.mem_singleton.mp hr]
    exact ⟨c, List.mem_singleton_self c, .refl⟩
  · intro r hr
    obtain rfl := List.mem_singleton.mp hr
    refine ⟨[], d.elementsTo fuel c, rfl, ⟨hname, fun r hr _ => ?_⟩, by simp⟩
    rw [List.mem_singleton.mp hr]
  · intro other _ _ hother n hn hopen
    rcases List.mem_cons.mp hn with rfl | hn
    · have hsame := Option.some.inj (hname.symm.trans hopen.1)
      simp [hsame] at hother
    · -- What lies in the slot is passed by.
      obtain ⟨c', hc', hbelow⟩ := below_of_mem_elementsTo hn
      have hinside : d.Below c n := .of_child (List.mem_filter.mp hc').1 hbelow
      have heq : c = n := hopen.2 _ (List.mem_singleton_self _) hinside
      obtain ⟨top, htop, habove⟩ := hground.rooted
      subst heq
      exact hapart.linked.not_below_parent htop (habove.child (List.mem_filter.mp hc').1)
        (hapart.linked.parent_eq (List.mem_filter.mp hc').1) hbelow

/-- A child is filled, or the walk goes on below it. -/
theorem advances_fillChild (htracks : Tracks v d root fillers before filling)
    (hnode : d.Below root node) (hc : c ∈ d.childElements node)
    (hout : ∀ r ∈ before, ¬ d.Below r.slot c ∧ ¬ d.Below c r.slot)
    {goOn : Filling → NodeId → Filling}
    (hgoOn : ∃ more, Advances v d root fillers before more (d.childElements c)
      (d.elementsTo fuel c) (goOn filling c)) :
    ∃ more, Advances v d root fillers before more [c] (c :: d.elementsTo fuel c)
      (fillChild v goOn filling c) := by
  have hchild := (List.mem_filter.mp hc).1
  have hground := hapart.grounded (hnode.child hchild)
  have hname : slotName? v filling.document c = slotName? v d c := by
    unfold slotName?
    rw [(htracks.refilled.of_not_below hground fun r hr => (hout r hr).1).2.2]
  unfold fillChild
  dsimp only
  split
  next name filler hslot hfiller =>
    rw [hslot] at hfiller
    exact hapart.advances_fillOne htracks hnode hc hout (hname ▸ hslot) hfiller fuel
  next hnone =>
    obtain ⟨more, hmore⟩ := hgoOn
    -- The child is no slot, or there is no filler of its name any more.
    have hleft : ∀ name, slotName? v d c = some name → filling.fillers.lookup name = none := by
      intro name hslot
      rw [← hname] at hslot
      cases hfiller : filling.fillers.lookup name with
      | none => rfl
      | some filler =>
          exact absurd (by rw [hslot, Option.bind_some, hfiller]) (hnone name filler hslot)
    have hclosed : ∀ name, (fillers.lookup name).isSome → name ∉ before.map (·.name) →
        slotName? v d c ≠ some name := by
      intro name hsome hbefore hslot
      have hnone := hleft name hslot
      rw [htracks.lookup_eq, if_neg hbefore] at hnone
      rw [hnone] at hsome
      cases hsome
    refine ⟨more, hmore.tracks, fun r hr => ?_, ?_, ?_⟩
    · obtain ⟨c', hc', hbelow⟩ := hmore.below r hr
      exact ⟨c, List.mem_singleton_self c, .of_child (List.mem_filter.mp hc').1 hbelow⟩
    · intro r hr
      obtain ⟨front, back, heq, hslot, hfront⟩ := hmore.covers.first r hr
      refine ⟨c :: front, back, by rw [heq, List.cons_append], hslot, ?_⟩
      apply List.forall_mem_cons.mpr ⟨?_, hfront⟩
      intro hopen
      have hnodup := hmore.tracks.nodup
      rw [List.map_append] at hnodup
      refine hclosed r.name ?_ (fun hmem => ?_) hopen.1
      · rw [hmore.tracks.consumed r (List.mem_append_right _ hr)]
        rfl
      · exact (List.nodup_append.mp hnodup).2.2 _ hmem _ (List.mem_map_of_mem hr) rfl
    · intro name hsome hbefore hreplaced
      apply List.forall_mem_cons.mpr ⟨?_, hmore.covers.left name hsome hbefore hreplaced⟩
      exact fun hopen => hclosed name hsome hbefore hopen.1

/-- The walk goes through the children of a node one after the other. -/
theorem advances_foldl {goOn : Filling → NodeId → Filling} {children : List NodeId}
    (hnode : d.Below root node)
    (hgoOn : ∀ filling before c, c ∈ d.childElements node → Tracks v d root fillers before filling →
      (∀ r ∈ before, ¬ d.Below r.slot c ∧ ¬ d.Below c r.slot) →
        ∃ more, Advances v d root fillers before more (d.childElements c) (d.elementsTo fuel c)
          (goOn filling c))
    (hchildren : ∀ c ∈ children, c ∈ d.childElements node) (hnodup : children.Nodup)
    (htracks : Tracks v d root fillers before filling)
    (hout : ∀ r ∈ before, ∀ c ∈ children, ¬ d.Below r.slot c ∧ ¬ d.Below c r.slot) :
    ∃ more, Advances v d root fillers before more children
      (children.flatMap fun c => c :: d.elementsTo fuel c)
      (children.foldl (fillChild v goOn) filling) := by
  induction children generalizing filling before with
  | nil =>
      refine ⟨[], by rwa [List.append_nil], by simp, by simp, ?_⟩
      intro _ _ _ _ n hn
      cases hn
  | cons c children ih =>
      obtain ⟨hc, hchildren⟩ := List.forall_mem_cons.mp hchildren
      obtain ⟨hfresh, hnodup⟩ := List.nodup_cons.mp hnodup
      have houtc := fun r hr => (List.forall_mem_cons.mp (hout r hr)).1
      obtain ⟨first, hfirst⟩ := hapart.advances_fillChild htracks hnode hc houtc
        (hgoOn filling before c hc htracks houtc)
      -- What lies below the child and below a later one is apart.
      have hsibling : ∀ c' ∈ children, ∀ n, d.Below c n → ¬ d.Below c' n := by
        intro c' hc' n
        have hcmem := (List.mem_filter.mp hc).1
        have hcmem' := (List.mem_filter.mp (hchildren c' hc')).1
        apply hapart.linked.not_below_sibling hapart.parent_eq (hnode.child hcmem)
          (hnode.child hcmem') (hapart.linked.parent_eq hcmem) (hapart.linked.parent_eq hcmem')
        rintro rfl
        exact hfresh hc'
      have hslots : ∀ r ∈ first, d.Below c r.slot := by
        intro r hr
        obtain ⟨c', hc', hbelow⟩ := hfirst.below r hr
        rwa [List.mem_singleton.mp hc'] at hbelow
      obtain ⟨more, hmore⟩ := ih hchildren hnodup hfirst.tracks (by
        intro r hr c' hc'
        rcases List.mem_append.mp hr with hr | hr
        · exact (List.forall_mem_cons.mp (hout r hr)).2 c' hc'
        · have hbelow := hslots r hr
          exact ⟨fun hback => hsibling c' hc' c' (hbelow.trans hback) .refl,
            hsibling c' hc' r.slot hbelow⟩)
      have hwithin : ∀ c n, n ∈ c :: d.elementsTo fuel c → d.Below c n := by
        intro c n hn
        rcases List.mem_cons.mp hn with rfl | hn
        · exact .refl
        · obtain ⟨c', hc', hbelow⟩ := below_of_mem_elementsTo hn
          exact .of_child (List.mem_filter.mp hc').1 hbelow
      have htracks' := hmore.tracks
      refine ⟨first ++ more, by rwa [List.append_assoc] at htracks', fun r hr => ?_, ?_⟩
      · rcases List.mem_append.mp hr with hr | hr
        · exact ⟨c, List.mem_cons_self, hslots r hr⟩
        · obtain ⟨c', hc', hbelow⟩ := hmore.below r hr
          exact ⟨c', List.mem_cons_of_mem _ hc', hbelow⟩
      · apply hfirst.covers.append hmore.covers htracks'
        · intro n hn r hr hbelow
          obtain ⟨c', hc', hslot⟩ := hmore.below r hr
          exact hsibling c' hc' n (hwithin c n hn) (hslot.trans hbelow)
        · intro n hn r hr hbelow
          obtain ⟨c', hc', hn⟩ := List.mem_flatMap.mp hn
          exact hsibling c' hc' n ((hslots r hr).trans hbelow) (hwithin c' n hn)

/-- The walk below a node of which nothing was filled yet. -/
theorem advances_fillTo (hnode : d.Below root node) (htracks : Tracks v d root fillers before filling)
    (hout : ∀ r ∈ before, ¬ d.Below r.slot node ∧ ¬ d.Below node r.slot) :
    ∃ more, Advances v d root fillers before more (d.childElements node) (d.elementsTo fuel node)
      (fillTo v fuel filling node) := by
  induction fuel generalizing filling before node with
  | zero =>
      refine ⟨[], by rwa [List.append_nil], by simp, by simp, ?_⟩
      intro _ _ _ _ n hn
      cases hn
  | succ fuel ih =>
      have hlt := hapart.linked.below_lt hnode hapart.lt
      have hchildren : filling.document.childElements node = d.childElements node := by
        unfold childElements
        rw [htracks.refilled.children_eq node hlt, map_standIn_of_not_mem]
        · apply List.filter_congr
          intro c hc
          exact isElement_congr (htracks.refilled.kind_eq c (hapart.linked.child_lt _ _ hc).2)
        · exact fun r hr hmem => (hout r hr).2 (.of_child hmem .refl)
      rw [fillTo_succ, hchildren]
      apply hapart.advances_foldl hnode (fun filling before c hc htracks hout => ?_)
        (fun _ hc => hc) ((hapart.linked.nodup_children node).filter _) htracks
      · intro r hr c hc
        have hchild := (List.mem_filter.mp hc).1
        obtain ⟨habove, hbelow⟩ := hout r hr
        refine ⟨fun hslot => ?_, fun hslot => hbelow (.of_child hchild hslot)⟩
        rcases hapart.linked.below_cases hslot with rfl | ⟨q, hq, hslot⟩
        · exact hbelow (.of_child hchild .refl)
        · obtain rfl := Option.some.inj ((hapart.linked.parent_eq hchild).symm.trans hq)
          exact habove hslot
      · exact ih (hnode.child (List.mem_filter.mp hc).1) htracks hout

end Apart

/-- The whole walk. -/
theorem Apart.advances_fill (hapart : Apart d root fillers) :
    ∃ replaced, Advances v d root fillers [] replaced (d.childElements root) (d.elementsBelow root)
      (fill v d root fillers) := by
  have hstart : Tracks v d root fillers [] { document := d, fillers } := by
    refine ⟨.refl hapart.linked, rfl, ?_, by simp, List.nodup_nil, by simp⟩
    exact (List.filter_eq_self.mpr (by simp)).symm
  exact hapart.advances_fillTo .refl hstart (by simp)

/-- Filling the slots of a macro's copy accounts for every filler. Each filler that is used up has
taken the place of one slot, by one copy: of the first open slot of its name in document order. A
filler is left only when no open slot has its name. Every other node of the copy stays what and where
it is, and the fillers stay untouched. Where only elements have children, the elements that are gone
through are all those below the copy. -/
theorem fill_accounts (hapart : Apart d root fillers) (hkeys : (fillers.map (·.1)).Nodup) :
    ∃ replaced, Tracks v d root fillers replaced (fill v d root fillers) ∧
      fillers.length = (fill v d root fillers).filled + (fill v d root fillers).fillers.length ∧
      (∀ r ∈ replaced, FirstAmong (Open v d replaced r.name) (d.elementsBelow root) r.slot) ∧
      (∀ entry ∈ (fill v d root fillers).fillers, ∀ n ∈ d.elementsBelow root,
        ¬ Open v d replaced entry.1 n) ∧
      (∀ entry ∈ fillers, ∀ n, d.Below entry.2 n →
        (fill v d root fillers).document.node n = d.node n) ∧
      ((∀ n, d.Below root n → n ≠ root → d.isElement n = false → d.children n = []) →
        d.elementsBelow root = (d.descendants root).filter (d.isElement ·)) := by
  obtain ⟨replaced, hdone⟩ := hapart.advances_fill (v := v)
  have htracks : Tracks v d root fillers replaced (fill v d root fillers) := hdone.tracks
  refine ⟨replaced, htracks, ?_, hdone.covers.first, fun entry hentry n hn => ?_,
    fun entry hentry n hn => hapart.node_filler htracks hentry hn,
    (hapart.grounded .refl).elementsBelow_eq⟩
  · rw [htracks.filled_eq]
    exact htracks.length_eq hkeys
  · rw [htracks.fillers_eq] at hentry
    obtain ⟨hmem, hleft⟩ := List.mem_filter.mp hentry
    apply hdone.covers.left entry.1 _ (by simp) (by simpa using hleft) n hn
    exact List.lookup_isSome_iff.mpr ⟨entry, hmem, beq_self_eq_true _⟩

section Examples

/-- A page with an element to fill slots, and the copy of a macro with a slot in a slot and two slots
of one name. -/
def slotPage : Document where
  nodes := #[
    { kind := .root, children := [1] },
    { kind := .element { name := .parse "r" }, parent := some 0, children := [2] },
    { kind := .element {
        name := .parse "h1", attributes := [⟨.parse "metal:fill-slot", "title"⟩] },
      parent := some 1, children := [3] },
    { kind := .text "Mine", parent := some 2 },
    { kind := .element { name := .parse "m" }, children := [5, 7] },
    { kind := .element {
        name := .parse "div", attributes := [⟨.parse "metal:define-slot", "title"⟩] },
      parent := some 4, children := [6] },
    { kind := .element {
        name := .parse "i", attributes := [⟨.parse "metal:define-slot", "nested"⟩] },
      parent := some 5 },
    { kind := .element {
        name := .parse "p", attributes := [⟨.parse "metal:define-slot", "title"⟩] },
      parent := some 4 }]

/-- The first of two slots is filled; for the slot in it, the filler is left. -/
theorem fill_accounts_slotPage :
    let fillers := [("nested", 2), ("title", 2)]
    let filling := fill {} slotPage 4 fillers
    Apart slotPage 4 fillers ∧ (fillers.map (·.1)).Nodup ∧ filling.filled = 1 ∧
      filling.fillers = [("nested", 2)] ∧ filling.document.children 4 = [8, 7] ∧
      ∃ replaced, Tracks {} slotPage 4 fillers replaced filling ∧
        fillers.length = filling.filled + filling.fillers.length ∧
        (∀ r ∈ replaced,
          FirstAmong (Open {} slotPage replaced r.name) (slotPage.elementsBelow 4) r.slot) ∧
        (∀ entry ∈ filling.fillers, ∀ n ∈ slotPage.elementsBelow 4,
          ¬ Open {} slotPage replaced entry.1 n) ∧
        (∀ entry ∈ fillers, ∀ n, slotPage.Below entry.2 n →
          filling.document.node n = slotPage.node n) ∧
        ((∀ n, slotPage.Below 4 n → n ≠ 4 → slotPage.isElement n = false →
            slotPage.children n = []) →
          slotPage.elementsBelow 4 = (slotPage.descendants 4).filter (slotPage.isElement ·)) := by
  intro fillers filling
  have hlinked : slotPage.WellLinked := by decide +kernel
  have hfiller : slotPage.Grounded 2 := by
    have htop : slotPage.Rooted 1 := ⟨0, by decide +kernel, .child .refl (by decide +kernel)⟩
    exact .of_parent hlinked htop (by decide +kernel)
  have hcalled : slotPage.Grounded 4 := ⟨hlinked, by decide +kernel, .of_parent (by decide +kernel)⟩
  have hout : ¬ slotPage.Below 4 2 := by
    rw [← hcalled.mem_subtree_iff]
    decide +kernel
  have hapart : Apart slotPage 4 fillers := by
    refine ⟨hlinked, hcalled.lt, by decide +kernel, fun entry hentry => ?_⟩
    have hsecond : entry.2 = 2 := by
      simp only [fillers, List.mem_cons, List.not_mem_nil, or_false] at hentry
      rcases hentry with rfl | rfl <;> rfl
    rw [hsecond]
    exact ⟨hfiller, hout⟩
  have hkeys : (fillers.map (·.1)).Nodup := by decide +kernel
  exact ⟨hapart, hkeys, by decide +kernel, by decide +kernel, by decide +kernel,
    fill_accounts hapart hkeys⟩

end Examples

end Slots

end PageTemplate
