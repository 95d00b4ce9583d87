import PageTemplate.Proofs.Markup.Twins
import PageTemplate.Proofs.Render.SlotFilling

/-! # Filling slots of twins

Copies of one macro, made in two documents, are filled alike when the fillers have the same names
and the same trees; trees that are the same but for where they come from make copies that are the
same but for that. The elements that fill slots are collected alike below corresponding nodes.
-/

namespace PageTemplate.Slots

open Markup Document

variable {origin : NodeKind → Prop} {v : Vocabularies} {view : View} {d d' : Document}
  {Below Beside : NodeId → NodeId → Prop} {P : Pairing} {n n' : NodeId}
  {fillers fillers' : Fillers} {h : Nat}

/-! ## Collecting fillers -/

theorem matches_withFiller (hup : Upward Beside d d') (hbeside : Beside n n') (hn : Below n n')
    (hground : d.Grounded n) (hground' : d'.Grounded n')
    (hfillers : Keyed.Matches Below fillers fillers') :
    Keyed.Matches Below (withFiller v d fillers n) (withFiller v d' fillers' n') := by
  have hfills : fills? v d' n' = fills? v d n := by
    unfold fills?
    rw [hup.findAttribute?_eq hbeside hground hground']
  unfold withFiller
  rw [hfills]
  split
  · exact hfillers.insertNew _ hn
  · exact hfillers

section

variable (hdown : Downward view Below d d') (hup : Upward Beside d d')
  (hrelated : ∀ m m', Below m m' → Beside m m')

include hdown hup hrelated

theorem matches_collectTo (hn : Below n n') (hground : d.Grounded n) (hground' : d'.Grounded n')
    (hheight : Throughout (fun _ _ => True) d h n) {fuel fuel' : Nat} (hfuel : h ≤ fuel)
    (hfuel' : h ≤ fuel') (hfillers : Keyed.Matches Below fillers fillers') :
    Keyed.Matches Below (collectTo v d fuel fillers n) (collectTo v d' fuel' fillers' n') := by
  induction h generalizing n n' fuel fuel' fillers fillers' with
  | zero => exact hheight.elim
  | succ h ih =>
      obtain ⟨fuel, rfl⟩ := Nat.exists_eq_add_of_le' (Nat.le_trans (Nat.le_add_left 1 h) hfuel)
      obtain ⟨fuel', rfl⟩ := Nat.exists_eq_add_of_le' (Nat.le_trans (Nat.le_add_left 1 h) hfuel')
      have hbelow : ∀ c ∈ d.childElements n, c ∈ d.children n := fun c hc =>
        (List.mem_filter.mp hc).1
      have hbelow' : ∀ c ∈ d'.childElements n', c ∈ d'.children n' := fun c hc =>
        (List.mem_filter.mp hc).1
      rw [collectTo_succ, collectTo_succ]
      have hchildren := hdown.childElements hn
      generalize d.childElements n = children, d'.childElements n' = children' at *
      -- Within one level the induction is on the children, side by side.
      induction hchildren generalizing fillers fillers' with
      | nil => exact hfillers
      | @cons c c' children children' hc _ ihrest =>
          obtain ⟨hchild, hrest⟩ := List.forall_mem_cons.mp hbelow
          obtain ⟨hchild', hrest'⟩ := List.forall_mem_cons.mp hbelow'
          have hgroundc := hground.below (.child .refl hchild)
          have hgroundc' := hground'.below (.child .refl hchild')
          have hadded := matches_withFiller (v := v) hup (hrelated _ _ hc) hc hgroundc hgroundc'
            hfillers
          rw [List.foldl_cons, List.foldl_cons]
          refine ihrest ?_ hrest hrest'
          rw [hup.hasAttribute_eq (hrelated _ _ hc) hgroundc hgroundc']
          split
          · exact hadded
          · exact ih hc hgroundc hgroundc' (hheight.2 c hchild) (by omega) (by omega) hadded

/-- What is collected below corresponding nodes corresponds. -/
theorem matches_collect (hn : Below n n') (hground : d.Grounded n) (hground' : d'.Grounded n') :
    Keyed.Matches Below (collect v d n) (collect v d' n') := by
  have htree := hdown.tree_eq hn hground.throughout hground'.throughout
  have hheight : d'.height n' = d.height n := by
    unfold height
    rw [← View.height_tree view, htree, View.height_tree]
  refine matches_collectTo hdown hup hrelated hn hground hground'
    (hground.throughout.height_treeTo (Nat.le_succ _)) hground.height_le ?_ .nil
  exact Nat.le_trans (Nat.le_of_eq hheight.symm) hground'.height_le

end

/-! ## Copies beside elements -/

section Put

variable {x x' p p' y y' copy copy' : NodeId} {d₁ d₁' d₂ d₂' t : Document} {spec : AttributeSpec}

/-- A copy has been put before `x` and has lost an attribute since. -/
structure Put (x p copy : NodeId) (d d₂ t : Document) : Prop where
  within : Within (d.own x) p d t
  parent_eq : t.parent x = some p
  /-- When the copy lost its attribute it already stood in its place. -/
  placed : d₂.Grounded copy

theorem Put.grounded (hput : Put x p copy d d₂ t) (hregion : Region (d.own x) p d) :
    t.Grounded x :=
  .of_parent hput.within.linked (hregion.within hput.within).rooted hput.parent_eq

theorem exists_put (hregion : Region (d.own x) p d) (hparent : d.parent x = some p) (y : NodeId)
    (spec : AttributeSpec) :
    ∃ d₁ copy d₂, d.deepCopy y = (d₁, copy) ∧ outcome (insertBefore x copy) d₁ = (.ok (), d₂) ∧
      Put x p copy d d₂ (d₂.removeAttributeBySpec copy spec).1 := by
  have hcopied : Copied (fun _ _ => True) _ d (d.deepCopy y).1 (d.deepCopy y).2 :=
    copied_graft hregion.linked (d.tree y) fun _ _ _ _ => trivial
  obtain ⟨d₂, hinsert, hbrought, hregion₂, -, hparent₂⟩ :=
    exists_inserted hregion hparent hcopied
  have hremoved : Retouched (fun _ => True) (d.deepCopy y).2 d₂ _ :=
    retouched_removeAttributeBySpec hregion₂.linked (d.deepCopy y).2 spec
  have hstands : d₂.parent (d.deepCopy y).2 = some p := by rw [hbrought.parents, if_pos rfl]
  refine ⟨_, _, d₂, rfl, hinsert, ?_, (hremoved.parent_eq x).trans hparent₂,
    .of_parent hregion₂.linked hregion₂.rooted hstands⟩
  exact (hregion.extends_within hcopied.grown).trans
    (hbrought.toWithin.trans (hremoved.within hregion₂ (.inr hcopied.new)))

/-- Copies of one tree that are put before paired nodes lose the same attribute. -/
theorem akin_put (hakin : Akin view P d d') (hx : P.Pairs x x')
    (htree : view.tree (d'.tree y') = view.tree (d.tree y))
    (hcopied : d.deepCopy y = (d₁, copy)) (hcopied' : d'.deepCopy y' = (d₁', copy'))
    (hinsert : outcome (insertBefore x copy) d₁ = (.ok (), d₂))
    (hinsert' : outcome (insertBefore x' copy') d₁' = (.ok (), d₂'))
    (hput : Put x p copy d d₂ (d₂.removeAttributeBySpec copy spec).1)
    (hput' : Put x' p' copy' d' d₂' (d₂'.removeAttributeBySpec copy' spec).1) :
    Akin view P (d₂.removeAttributeBySpec copy spec).1 (d₂'.removeAttributeBySpec copy' spec).1 ∧
      P.Pairs copy copy' := by
  obtain ⟨hgrafted, hcopy⟩ := hakin.graft htree
  unfold deepCopy at hcopied hcopied'
  rw [hcopied, hcopied'] at hgrafted hcopy
  have hinserted : Akin view P d₂ d₂' :=
    (hgrafted.insertBefore hx hcopy).ok_of_eq hinsert hinsert'
  exact ⟨hinserted.removeAttributeBySpec hcopy hput.placed hput'.placed spec, hcopy⟩

end Put

/-! ## Filling one slot -/

section

variable {bound bound' : Nat} {slot slot' filler filler' node node' c c' : NodeId} {f f' : Nat}
  {filling filling' : Filling}

theorem akin_handOn (hakin : Akin view P d d') (hslot : P.Pairs slot slot')
    (hn : P.Pairs n n') (hground : d.Grounded slot) (hground' : d'.Grounded slot') :
    Akin view P (handOn v d slot n) (handOn v d' slot' n') := by
  unfold handOn
  rw [hakin.up.findAttribute?_eq hslot.shares hground hground']
  split
  · exact hakin.updateElement hn (Element.blind_set _ _)
  · exact hakin

/-- Copies of the same tree are put into corresponding slots. -/
theorem akin_fillOne (hakin : Akin view P d d') (hslot : P.Pairs slot slot')
    (hregion : Region (d.own slot) node d) (hregion' : Region (d'.own slot') node' d')
    (hparent : d.parent slot = some node) (hparent' : d'.parent slot' = some node')
    (htree : view.tree (d'.tree filler') = view.tree (d.tree filler)) :
    Akin view P (fillOne v d slot filler) (fillOne v d' slot' filler') := by
  obtain ⟨d₁, copy, d₂, hcopied, hinsert, hput⟩ := exists_put hregion hparent filler v.fillSlot
  obtain ⟨d₁', copy', d₂', hcopied', hinsert', hput'⟩ :=
    exists_put hregion' hparent' filler' v.fillSlot
  obtain ⟨hremoved, hcopy⟩ :=
    akin_put hakin hslot htree hcopied hcopied' hinsert hinsert' hput hput'
  rw [fillOne_eq hcopied hinsert, fillOne_eq hcopied' hinsert']
  exact (akin_handOn hremoved hslot hcopy (hput.grounded hregion)
    (hput'.grounded hregion')).detach hslot

/-! ## Filling all slots -/

/-- Fillings of documents that are akin, with fillers of the same names and the same trees. -/
structure FilledAlike (view : View) (P : Pairing) (filling filling' : Filling) : Prop where
  documents : Akin view P filling.document filling'.document
  fillers : Keyed.Matches (SameTree view filling.document filling'.document) filling.fillers
    filling'.fillers

/-- What happens at a slot leaves the fillers alone. -/
theorem Fillable.not_treated {start : Filling} {m : NodeId} {entry : String × NodeId}
    (hchild : Fillable origin bound h f c start) (hnode : bound ≤ node)
    (hentry : entry ∈ start.fillers) (hm : start.document.Below entry.2 m) :
    ¬ (start.document.own c m ∨ m = node) := by
  rintro (hown | rfl)
  · exact hchild.outside hentry hm hown
  · exact absurd hnode (Nat.not_le_of_lt ((hchild.fillers entry hentry).below hm).self.1)

theorem filledAlike_fillChild {goOn goOn' : Filling → NodeId → Filling}
    (halike : FilledAlike view P filling filling') (hc : P.Pairs c c')
    (hchild : Fillable origin bound h f c filling)
    (hchild' : Fillable origin bound' h f' c' filling') (hnode : bound ≤ node)
    (hnode' : bound' ≤ node') (hrooted : filling.document.Rooted node)
    (hrooted' : filling'.document.Rooted node') (hparent : filling.document.parent c = some node)
    (hparent' : filling'.document.parent c' = some node')
    (hgoOn : FilledAlike view P (goOn filling c) (goOn' filling' c')) :
    FilledAlike view P (fillChild v goOn filling c) (fillChild v goOn' filling' c') := by
  have hregion := region_own hchild.linked hrooted hparent
  have hregion' := region_own hchild'.linked hrooted' hparent'
  have hname : slotName? v filling'.document c' = slotName? v filling.document c := by
    unfold slotName?
    rw [halike.documents.up.findAttribute?_eq hc.shares
      ⟨hchild.linked, hchild.lt, hchild.rooted⟩ ⟨hchild'.linked, hchild'.lt, hchild'.rooted⟩]
  unfold fillChild
  rw [hname]
  cases slotName? v filling.document c with
  | none => exact hgoOn
  | some name =>
      have hlookup := halike.fillers.lookup name
      simp only [Option.bind_some]
      generalize hfiller : filling.fillers.lookup name = found,
        hfiller' : filling'.fillers.lookup name = found' at hlookup
      cases hlookup with
      | none => exact hgoOn
      | some hsame =>
          have hentry := Keyed.mem_of_lookup hfiller
          have hentry' := Keyed.mem_of_lookup hfiller'
          have htreated := treated_fillOne (v := v) hchild.linked hrooted hparent
            hchild.good.self.2 hchild.bound_le (hchild.fillers _ hentry)
          have htreated' := treated_fillOne (v := v) hchild'.linked hrooted' hparent'
            hchild'.good.self.2 hchild'.bound_le (hchild'.fillers _ hentry')
          refine ⟨akin_fillOne halike.documents hc hregion hregion' hparent hparent'
            hsame.tree_eq, (halike.fillers.erase name).imp fun entry hmem entry' hmem' hold => ?_⟩
          exact hold.confined htreated.toConfined htreated'.toConfined
            (fun m hm => hchild.not_treated hnode (Keyed.mem_erase hmem) hm)
            fun m hm => hchild'.not_treated hnode' (Keyed.mem_erase hmem') hm

/-- Fillings that are alike stay alike until all slots are filled. -/
theorem filledAlike_fillTo {fuel fuel' : Nat} (halike : FilledAlike view P filling filling')
    (hnode : P.Pairs node node') (hstart : Fillable origin bound h f node filling)
    (hstart' : Fillable origin bound' h f' node' filling') (hfuel : h ≤ fuel) (hfuel' : h ≤ fuel') :
    FilledAlike view P (fillTo v fuel filling node) (fillTo v fuel' filling' node') := by
  induction h generalizing filling filling' node node' fuel fuel' with
  | zero => exact hstart.good.elim
  | succ h ih =>
      obtain ⟨fuel, rfl⟩ := Nat.exists_eq_add_of_le' (Nat.le_trans (Nat.le_add_left 1 h) hfuel)
      obtain ⟨fuel', rfl⟩ := Nat.exists_eq_add_of_le' (Nat.le_trans (Nat.le_add_left 1 h) hfuel')
      -- Fillers that are left were not treated, so they still are the same trees.
      have hloop : ∀ (rest rest' : List NodeId), List.Forall₂ (P.Pairs) rest rest' →
          ∀ t t' : Filling, FilledAlike view P t t' →
            Filling.Underway (StemsOn origin (bound ≤ ·)) h f node filling rest t →
            Filling.Underway (StemsOn origin (bound' ≤ ·)) h f' node' filling' rest' t' →
            FilledAlike view P (rest.foldl (fillChild v (fillTo v fuel)) t)
              (rest'.foldl (fillChild v (fillTo v fuel')) t') := by
        intro rest rest' hrest
        induction hrest with
        | nil => exact fun _ _ ht _ _ => ht
        | @cons c c' rest rest' hc _ ihrest =>
            intro t t' ht hunder hunder'
            have hchild := hunder.fillable hstart
            have hchild' := hunder'.fillable hstart'
            have hgoOn : FilledAlike view P (fillTo v fuel t c) (fillTo v fuel' t' c') :=
              ih ht hc hchild hchild' (Nat.le_of_succ_le_succ hfuel) (Nat.le_of_succ_le_succ hfuel')
            refine ihrest _ _ ?_ (hunder.next hstart (filled_fillTo fuel t c hchild))
              (hunder'.next hstart' (filled_fillTo fuel' t' c' hchild'))
            exact filledAlike_fillChild ht hc hchild hchild' hstart.good.self.1
              hstart'.good.self.1 (hunder.rooted hstart.linked hstart.rooted)
              (hunder'.rooted hstart'.linked hstart'.rooted)
              (hunder.left c List.mem_cons_self).1 (hunder'.left c' List.mem_cons_self).1 hgoOn
      rw [fillTo_succ, fillTo_succ]
      exact hloop _ _ (halike.documents.down.childElements hnode) _ _ halike
        hstart.underway hstart'.underway

end

end PageTemplate.Slots
