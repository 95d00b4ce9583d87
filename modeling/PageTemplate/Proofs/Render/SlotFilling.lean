import PageTemplate.Proofs.Keyed
import PageTemplate.Proofs.Render.Authored
import PageTemplate.Render.Slots

/-! # Filling slots

A copy of a macro is filled with copies of elements that lie outside it. Filling changes what lies
below the copy and nothing else, and puts there only markup that stems from the origins. The copy
gets no more levels than the macro and the highest filler have together.
-/

namespace PageTemplate.Slots

open Markup Document

variable {origin : NodeKind → Prop} {v : Vocabularies} {d t t' : Document}
  {n m p slot filler node c : NodeId} {fillers : Fillers} {bound h f fuel : Nat}

/-! ## Collecting fillers -/

/-- The fillers, with the element added if it fills a slot that none of them fills. -/
def withFiller (v : Vocabularies) (d : Document) (fillers : Fillers) (child : NodeId) : Fillers :=
  match fills? v d child with
  | some name => Keyed.insertNew name child fillers
  | none => fillers

theorem mem_withFiller {fillers : Fillers} {child : NodeId} {entry : String × NodeId}
    (h : entry ∈ withFiller v d fillers child) : entry.2 = child ∨ entry ∈ fillers := by
  unfold withFiller at h
  split at h
  · rcases Keyed.mem_insertNew h with rfl | h
    · exact .inl rfl
    · exact .inr h
  · exact .inr h

theorem collectTo_succ (fuel : Nat) (fillers : Fillers) (node : NodeId) :
    collectTo v d (fuel + 1) fillers node =
      (d.childElements node).foldl (fun fillers child =>
        if d.hasAttribute child v.useMacro then withFiller v d fillers child
        else collectTo v d fuel (withFiller v d fillers child) child) fillers := rfl

/-- What is collected below a node is an element, and lies below one of its children. -/
theorem mem_collectTo (fuel : Nat) (fillers : Fillers) (node : NodeId) :
    ∀ entry ∈ collectTo v d fuel fillers node, entry ∈ fillers ∨
      d.isElement entry.2 = true ∧ ∃ c ∈ d.children node, d.Below c entry.2 := by
  induction fuel generalizing fillers node with
  | zero => exact fun _ hentry => .inl hentry
  | succ fuel ih =>
      rw [collectTo_succ]
      refine List.foldlRecOn (motive := fun collected => ∀ entry ∈ collected, entry ∈ fillers ∨
        d.isElement entry.2 = true ∧ ∃ c ∈ d.children node, d.Below c entry.2) _ _
        (fun _ => .inl) ?_
      intro collected hcollected child hchild entry hentry
      obtain ⟨hchild, helement⟩ := List.mem_filter.mp hchild
      have hadded : ∀ entry ∈ withFiller v d collected child, entry ∈ fillers ∨
          d.isElement entry.2 = true ∧ ∃ c ∈ d.children node, d.Below c entry.2 := by
        intro entry hentry
        rcases mem_withFiller hentry with heq | hentry
        · rw [heq]
          exact .inr ⟨helement, child, hchild, .refl⟩
        · exact hcollected entry hentry
      split at hentry
      · exact hadded entry hentry
      · rcases ih _ child entry hentry with hentry | ⟨hfound, c, hc, hbelow⟩
        · exact hadded entry hentry
        · exact .inr ⟨hfound, child, hchild, .of_child hc hbelow⟩

theorem isElement_of_mem_collect {entry : String × NodeId} (h : entry ∈ collect v d node) :
    d.isElement entry.2 = true := by
  rcases mem_collectTo d.size [] node entry h with h | h
  · cases h
  · exact h.1

theorem exists_below_of_mem_collect {entry : String × NodeId} (h : entry ∈ collect v d node) :
    ∃ c ∈ d.children node, d.Below c entry.2 := by
  rcases mem_collectTo d.size [] node entry h with h | h
  · cases h
  · exact h.2

/-- Fillers reach less far down than the place of use. -/
theorem throughout_of_mem_collect {good : NodeId → NodeKind → Prop} {entry : String × NodeId}
    (hgood : Throughout good d (h + 1) node) (hentry : entry ∈ collect v d node) :
    Throughout good d h entry.2 := by
  obtain ⟨c, hc, hbelow⟩ := exists_below_of_mem_collect hentry
  exact (hgood.2 c hc).below hbelow

/-! ## Filling one slot -/

/-- What filling does to one child of a node: the child's part of the document is changed, and
what then stands there in its place has good nodes throughout. -/
structure Treated (good : NodeId → NodeKind → Prop) (h : Nat) (node c : NodeId) (t t' : Document) :
    Prop extends Within (t.own c) node t t' where
  children : ∀ c' ∈ t'.children node,
    c' ∈ t.children node ∧ c' ≠ c ∨ Throughout good t' h c'

/-- The document in which a copy fills what its slot fills, if anything. -/
def handOn (v : Vocabularies) (d : Document) (slot copy : NodeId) : Document :=
  match d.findAttribute? slot v.fillSlot with
  | some attr => d.updateElement copy (Element.set (QualifiedName.parse attr.name.text) attr.value)
  | none => d

/-- The value that a filler takes over from its slot is authored. -/
theorem retouched_handOn (hlinked : t.WellLinked) (slot copy : NodeId)
    (hslot : Stems origin (t.kind slot)) : Retouched origin copy t (handOn v t slot copy) := by
  unfold handOn
  split
  next attr hattr =>
    exact retouched_updateElement hlinked copy fun kind hkind =>
      hkind.set _ (hslot.attributes attr (List.mem_of_find?_eq_some hattr))
  next => exact .refl hlinked

theorem fillOne_eq {d₁ d₂ : Document} {copy : NodeId} (hcopied : d.deepCopy filler = (d₁, copy))
    (hinsert : outcome (insertBefore slot copy) d₁ = (.ok (), d₂)) :
    fillOne v d slot filler =
      (handOn v (d₂.removeAttributeBySpec copy v.fillSlot).1 slot copy).detach slot := by
  unfold fillOne
  rw [hcopied]
  show (match outcome (insertBefore slot copy) d₁ with
    | (.error _, d) => d
    | (.ok (), d) => _) = _
  rw [hinsert]
  rfl

/-- A copy is put beside a slot. -/
theorem exists_inserted {good : NodeId → NodeKind → Prop} {d₁ : Document} {copy : NodeId}
    (hregion : Region (d.own slot) node d) (hslot : d.parent slot = some node)
    (hcopy : Copied good f d d₁ copy) :
    ∃ d₂, outcome (insertBefore slot copy) d₁ = (.ok (), d₂) ∧
      Brought (d.own slot) node copy d₁ d₂ ∧ Region (d.own slot) node d₂ ∧ copy ≠ slot ∧
      d₂.parent slot = some node := by
  have hlt := (hregion.linked.lt_of_parent hslot).2
  have hregion₁ := hregion.within (hregion.extends_within hcopy.grown)
  have hslot₁ : d₁.parent slot = some node := by
    rw [hcopy.grown.parent_eq (Nat.not_le_of_lt hlt), hslot]
  have hne : copy ≠ slot := Nat.ne_of_gt (Nat.lt_of_lt_of_le hlt hcopy.new)
  obtain ⟨_, d₂, hinsert, hbrought⟩ :=
    (hregion₁.brought_beside hslot₁ (.inr hcopy.new) hcopy.lt hne).1.exists_ok
  refine ⟨d₂, hinsert, hbrought, hregion₁.within hbrought.toWithin, hne, ?_⟩
  rw [hbrought.parents, if_neg hne.symm, hslot₁]

theorem treated_fillOne (hlinked : d.WellLinked) (hrooted : d.Rooted node)
    (hslot : d.parent slot = some node) (hstems : Stems origin (d.kind slot))
    (hbound : bound ≤ d.size) {ok : NodeId → Prop}
    (hfiller : Throughout (StemsOn origin ok) d f filler) :
    Treated (StemsOn origin (bound ≤ ·)) f node slot d (fillOne v d slot filler) := by
  have hregion := region_own hlinked hrooted hslot
  have hcopy : Copied (StemsOn origin (bound ≤ ·)) f d (d.deepCopy filler).1
      (d.deepCopy filler).2 :=
    hfiller.copied hlinked fun _ kind hkind new hnew => ⟨Nat.le_trans hbound hnew, hkind.2⟩
  rcases hcopied : d.deepCopy filler with ⟨d₁, copy⟩
  rw [hcopied] at hcopy
  have hgrown := hregion.extends_within hcopy.grown
  have hregion₁ := hregion.within hgrown
  have hR : d.own slot copy := .inr hcopy.new
  have hslotlt := (hlinked.lt_of_parent hslot).2
  obtain ⟨d₂, hinsert, hbrought, hregion₂, hne, -⟩ := exists_inserted hregion hslot hcopy
  rw [fillOne_eq hcopied hinsert]
  have hremoved : Retouched origin copy d₂ _ :=
    retouched_removeAttributeBySpec hbrought.linked copy v.fillSlot
  have hstems₃ : Stems origin ((d₂.removeAttributeBySpec copy v.fillSlot).1.kind slot) := by
    rw [hremoved.confined.kind_eq hne.symm, hbrought.kind_eq,
      hcopy.grown.kind_eq (Nat.not_le_of_lt hslotlt)]
    exact hstems
  have hhanded := retouched_handOn (v := v) hremoved.confined.linked slot copy hstems₃
  generalize handOn v _ slot copy = d₄ at hhanded ⊢
  have hretouched := hremoved.trans hhanded
  have hwithin₄ := hretouched.within hregion₂ hR
  have hregion₄ := hregion₂.within hwithin₄
  have hdetached := hregion₄.detached (own_self d slot)
  -- A child of the node at the end is the copy, or it was there and is not the slot.
  refine ⟨hgrown.trans (hbrought.toWithin.trans (hwithin₄.trans hdetached.toWithin)),
    fun c' hc' => ?_⟩
  have hparent := hdetached.linked.parent_eq hc'
  rw [hdetached.parents] at hparent
  split at hparent
  · cases hparent
  next hc'slot =>
    rw [if_neg List.not_mem_nil, hretouched.parent_eq, hbrought.parents] at hparent
    split at hparent
    next hc'copy =>
      subst hc'copy
      refine .inr (hdetached.toGathered.throughout ?_ (hretouched.throughout
        (hbrought.toGathered.throughout ?_ hcopy.throughout)))
      · exact fun hback => hregion₄.not_above hback hR
      · exact fun hback => hregion₁.not_above hback hR
    next =>
      refine .inl ⟨?_, hc'slot⟩
      have hchild := hregion₁.linked.mem_children hparent
      rwa [hcopy.grown.children_eq (Nat.not_le_of_lt hregion.lt)] at hchild

/-! ## Filling all slots -/

/-- A filling at a node: what lies below the node has changed, with good nodes throughout. -/
structure Filled (good : NodeId → NodeKind → Prop) (h : Nat) (node : NodeId)
    (start filling : Filling) : Prop where
  confined : Confined (start.document.own node) start.document filling.document
  parent_eq : filling.document.parent node = start.document.parent node
  fillers_subset : filling.fillers ⊆ start.fillers
  throughout : Throughout good filling.document h node

/-- A filling on its way along the children of a node, of which `rest` are left. -/
structure Filling.Underway (good : NodeId → NodeKind → Prop) (h f : Nat) (node : NodeId)
    (start : Filling) (rest : List NodeId) (filling : Filling) : Prop where
  confined : Confined (start.document.own node) start.document filling.document
  parent_eq : filling.document.parent node = start.document.parent node
  kind_eq : filling.document.kind node = start.document.kind node
  fillers_subset : filling.fillers ⊆ start.fillers
  children : ∀ c ∈ filling.document.children node, Throughout good filling.document (h + f) c
  nodup : rest.Nodup
  left : ∀ c ∈ rest, filling.document.parent c = some node ∧ Throughout good filling.document h c

namespace Filling.Underway

variable {good : NodeId → NodeKind → Prop} {start filling filling' : Filling} {rest : List NodeId}

theorem rooted (hunder : Underway good h f node start rest filling)
    (hlinked : start.document.WellLinked) (hrooted : start.document.Rooted node) :
    filling.document.Rooted node :=
  hunder.confined.rooted hlinked hrooted hunder.parent_eq

/-- The siblings of a child stay as they are when the child is treated. -/
theorem step (hunder : Underway good h f node start (c :: rest) filling)
    (hlinked : start.document.WellLinked) (hrooted : start.document.Rooted node)
    (htreated : Treated good (h + f) node c filling.document filling'.document)
    (hfillers : filling'.fillers ⊆ filling.fillers) :
    Underway good h f node start rest filling' := by
  obtain ⟨⟨hc, -⟩, hrest⟩ := List.forall_mem_cons.mp hunder.left
  obtain ⟨hnew, hnodup⟩ := List.nodup_cons.mp hunder.nodup
  have hregion := region_own hunder.confined.linked (hunder.rooted hlinked hrooted) hc
  have hmem := hregion.linked.mem_children hc
  have hown := hunder.confined.own_child hlinked (own_self _ _) hmem
  have hsibling : ∀ c', c' ≠ c → filling.document.parent c' = some node → ∀ m,
      filling.document.Below c' m → ¬ (filling.document.own c m ∨ m = node) :=
    fun c' hne hc' m => hregion.not_own_sibling hc hc' hne.symm
  refine ⟨hunder.confined.within hlinked hown (own_self _ _) htreated.toWithin,
    htreated.outer_parent.trans hunder.parent_eq, htreated.outer_kind.trans hunder.kind_eq,
    fun _ hentry => hunder.fillers_subset (hfillers hentry), fun c' hc' => ?_, hnodup,
    fun c' hc' => ?_⟩
  · rcases htreated.children c' hc' with ⟨hold, hne⟩ | hgood
    · exact htreated.throughout (hsibling c' hne (hregion.linked.parent_eq hold))
        (hunder.children c' hold)
    · exact hgood
  · have hne : c' ≠ c := by
      rintro rfl
      exact hnew hc'
    obtain ⟨hparent, hgood⟩ := hrest c' hc'
    have hout := hsibling c' hne hparent
    exact ⟨(htreated.parent_eq (hout c' .refl)).trans hparent, htreated.throughout hout hgood⟩

end Filling.Underway

/-- What has been filled below a child is the child treated. -/
theorem Filled.treated {good : NodeId → NodeKind → Prop} {start filling : Filling}
    (hfilled : Filled good h c start filling) (hlinked : start.document.WellLinked)
    (hrooted : start.document.Rooted node) (hc : start.document.parent c = some node) :
    Treated good h node c start.document filling.document := by
  have hregion := region_own hlinked hrooted hc
  refine ⟨.of_confined hfilled.confined hregion.outer, fun c' hc' => ?_⟩
  by_cases hne : c' = c
  · exact .inr (hne ▸ hfilled.throughout)
  · rw [hfilled.confined.children_eq hregion.outer] at hc'
    exact .inl ⟨hc', hne⟩

/-- What filling does to a child: the slot is filled, or filling goes on below the child. -/
def fillChild (v : Vocabularies) (goOn : Filling → NodeId → Filling) (filling : Filling)
    (child : NodeId) : Filling :=
  let name := slotName? v filling.document child
  match name, name.bind (filling.fillers.lookup ·) with
  | some name, some filler =>
    { document := fillOne v filling.document child filler
      fillers := Keyed.erase name filling.fillers
      filled := filling.filled + 1 }
  | _, _ => goOn filling child

theorem fillTo_succ (fuel : Nat) (filling : Filling) (node : NodeId) :
    fillTo v (fuel + 1) filling node =
      (filling.document.childElements node).foldl (fillChild v (fillTo v fuel)) filling := rfl

section

variable {start : Filling}

theorem treated_fillChild {goOn : Filling → NodeId → Filling}
    (hlinked : start.document.WellLinked) (hrooted : start.document.Rooted node)
    (hc : start.document.parent c = some node) (hstems : Stems origin (start.document.kind c))
    (hbound : bound ≤ start.document.size)
    (hfillers : ∀ entry ∈ start.fillers,
      Throughout (StemsOn origin (· < bound)) start.document f entry.2)
    (hgoOn : Filled (StemsOn origin (bound ≤ ·)) (h + f) c start (goOn start c)) :
    Treated (StemsOn origin (bound ≤ ·)) (h + f) node c start.document
        (fillChild v goOn start c).document ∧
      (fillChild v goOn start c).fillers ⊆ start.fillers := by
  unfold fillChild
  dsimp only
  split
  next name filler hname hfiller =>
    rw [hname] at hfiller
    have hgood := hfillers _ (Keyed.mem_of_lookup hfiller)
    have htreated := treated_fillOne (v := v) hlinked hrooted hc hstems hbound hgood
    refine ⟨⟨htreated.toWithin, fun c' hc' => (htreated.children c' hc').imp_right ?_⟩,
      fun _ => Keyed.mem_erase⟩
    exact fun hthroughout => hthroughout.mono (Nat.le_add_left _ _)
  next => exact ⟨hgoOn.treated hlinked hrooted hc, hgoOn.fillers_subset⟩

/-- Slots can be filled below a node: what lies there is good, and so are the fillers, which lie
before everything that is filled. -/
structure Fillable (origin : NodeKind → Prop) (bound h f : Nat) (node : NodeId)
    (start : Filling) : Prop where
  linked : start.document.WellLinked
  rooted : start.document.Rooted node
  lt : node < start.document.size
  good : Throughout (StemsOn origin (bound ≤ ·)) start.document h node
  fillers : ∀ entry ∈ start.fillers,
    Throughout (StemsOn origin (· < bound)) start.document f entry.2

namespace Fillable

theorem bound_le (hstart : Fillable origin bound h f node start) : bound ≤ start.document.size :=
  Nat.le_trans hstart.good.self.1 (Nat.le_of_lt hstart.lt)

/-- Fillers lie before the bound, and everything that changes lies behind it. -/
theorem outside (hstart : Fillable origin bound h f node start) {entry : String × NodeId}
    (hentry : entry ∈ start.fillers) (hm : start.document.Below entry.2 m) :
    ¬ start.document.own node m := by
  intro hown
  have hold := ((hstart.fillers entry hentry).below hm).self.1
  rcases hown with hbelow | hsize
  · exact absurd (hstart.good.below hbelow).self.1 (Nat.not_le_of_lt hold)
  · exact absurd (Nat.le_trans hstart.bound_le hsize) (Nat.not_le_of_lt hold)

theorem underway (hstart : Fillable origin bound (h + 1) f node start) :
    Filling.Underway (StemsOn origin (bound ≤ ·)) h f node start
      (start.document.childElements node) start := by
  have hchildren : ∀ c ∈ start.document.childElements node, c ∈ start.document.children node :=
    fun c hc => (List.mem_filter.mp hc).1
  exact ⟨.refl hstart.linked, rfl, rfl, List.Subset.refl _,
    fun c hc => (hstart.good.2 c hc).mono (Nat.le_add_right _ _),
    (hstart.linked.nodup_children node).filter _,
    fun c hc => ⟨hstart.linked.parent_eq (hchildren c hc), hstart.good.2 c (hchildren c hc)⟩⟩

end Fillable

namespace Filling.Underway

variable {filling : Filling} {rest : List NodeId}

/-- Slots can be filled below the child whose turn it is. -/
theorem fillable (hstart : Fillable origin bound (h + 1) f node start)
    (hunder : Underway (StemsOn origin (bound ≤ ·)) h f node start (c :: rest) filling) :
    Fillable origin bound h f c filling := by
  obtain ⟨⟨hc, hgood⟩, -⟩ := List.forall_mem_cons.mp hunder.left
  have hlinks := hunder.confined.linked
  refine ⟨hlinks, ?_, (hlinks.lt_of_parent hc).2, hgood, fun entry hentry => ?_⟩
  · exact (hunder.rooted hstart.linked hstart.rooted).below
      (.child .refl (hlinks.mem_children hc))
  · have hfiller := hunder.fillers_subset hentry
    exact hunder.confined.throughout (fun m hm => hstart.outside hfiller hm)
      (hstart.fillers entry hfiller)

/-- The next child is treated. -/
theorem next {goOn : Filling → NodeId → Filling}
    (hstart : Fillable origin bound (h + 1) f node start)
    (hunder : Underway (StemsOn origin (bound ≤ ·)) h f node start (c :: rest) filling)
    (hgoOn : Filled (StemsOn origin (bound ≤ ·)) (h + f) c filling (goOn filling c)) :
    Underway (StemsOn origin (bound ≤ ·)) h f node start rest (fillChild v goOn filling c) := by
  have hchild := hunder.fillable hstart
  obtain ⟨⟨hc, -⟩, -⟩ := List.forall_mem_cons.mp hunder.left
  have htreated := treated_fillChild (v := v) hchild.linked
    (hunder.rooted hstart.linked hstart.rooted) hc hchild.good.self.2 hchild.bound_le
    hchild.fillers hgoOn
  exact hunder.step hstart.linked hstart.rooted htreated.1 htreated.2

end Filling.Underway

/-- Filling below a node keeps to what lies below it, and adds at most the height of the highest
filler to its own. -/
theorem filled_fillTo (fuel : Nat) (start : Filling) (node : NodeId) {h : Nat}
    (hstart : Fillable origin bound h f node start) :
    Filled (StemsOn origin (bound ≤ ·)) (h + f) node start (fillTo v fuel start node) := by
  induction fuel generalizing start node h with
  | zero =>
      exact ⟨.refl hstart.linked, rfl, List.Subset.refl _,
        hstart.good.mono (Nat.le_add_right _ _)⟩
  | succ fuel ih =>
      cases h with
      | zero => exact hstart.good.elim
      | succ h =>
          -- The children are those from before: filling one puts new nodes in its place only.
          have hloop : ∀ (rest : List NodeId) (filling : Filling),
              Filling.Underway (StemsOn origin (bound ≤ ·)) h f node start rest filling →
              Filling.Underway (StemsOn origin (bound ≤ ·)) h f node start []
                (rest.foldl (fillChild v (fillTo v fuel)) filling) := by
            intro rest
            induction rest with
            | nil => exact fun _ hunder => hunder
            | cons c rest ihrest =>
                intro filling hunder
                exact ihrest _ (hunder.next hstart (ih filling c (hunder.fillable hstart)))
          have hdone := hloop _ start hstart.underway
          rw [fillTo_succ, Nat.add_right_comm]
          refine ⟨hdone.confined, hdone.parent_eq, hdone.fillers_subset, ?_, hdone.children⟩
          rw [hdone.kind_eq]
          exact hstart.good.self

end

end PageTemplate.Slots
