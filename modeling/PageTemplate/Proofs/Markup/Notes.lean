import PageTemplate.Proofs.Markup.Credits
import PageTemplate.Proofs.Markup.Exchange
import PageTemplate.Proofs.Markup.Preorder
import PageTemplate.Proofs.Markup.Splicing

/-! # Documents with notes

Comments that are put into the tree beside its nodes are notes. Two documents are the same but for
notes when their other nodes can be paired: paired nodes are the same but for their numbers, and
their children are paired in order when the notes among them are passed over. Edits of paired nodes
keep it so, whatever notes stand around them; and without the notes the trees are equal.
-/

namespace PageTemplate.Markup

variable {M M' : NodeId → NodeId → Prop} {notes notes' : List NodeId} {l l' r r' : List NodeId}
  {n n' m m' x x' c c' : NodeId}

/-! ## Notes among related nodes -/

/-- Related nodes in the same order, with notes in between in the second list. -/
inductive Among (M : NodeId → NodeId → Prop) (notes : List NodeId) :
    List NodeId → List NodeId → Prop
  | nil : Among M notes [] []
  | note {c : NodeId} {l l' : List NodeId} (hc : c ∈ notes) (h : Among M notes l l') :
    Among M notes l (c :: l')
  | pair {n n' : NodeId} {l l' : List NodeId} (hn : M n n') (h : Among M notes l l') :
    Among M notes (n :: l) (n' :: l')

namespace Among

theorem of_forall₂ (h : List.Forall₂ M l l') : Among M notes l l' := by
  induction h with
  | nil => exact .nil
  | cons hhead _ ih => exact .pair hhead ih

protected theorem append (h : Among M notes l l') (h' : Among M notes r r') :
    Among M notes (l ++ r) (l' ++ r') := by
  induction h with
  | nil => exact h'
  | note hc _ ih => exact .note hc ih
  | pair hn _ ih => exact .pair hn ih

theorem mono (h : Among M notes l l') (hpairs : ∀ n ∈ l, ∀ n', M n n' → M' n n')
    (hnotes : notes ⊆ notes') : Among M' notes' l l' := by
  induction h with
  | nil => exact .nil
  | note hc _ ih => exact .note (hnotes hc) (ih hpairs)
  | pair hn _ ih =>
      obtain ⟨hfirst, hrest⟩ := List.forall_mem_cons.mp hpairs
      exact .pair (hfirst _ hn) (ih hrest)

/-- Where there are no notes the nodes are related one by one. -/
theorem forall₂ (h : Among M notes l l') (hclear : ∀ c ∈ l', c ∉ notes) :
    List.Forall₂ M l l' := by
  induction h with
  | nil => exact .nil
  | note hc _ _ => exact absurd hc (hclear _ List.mem_cons_self)
  | pair hn _ ih => exact .cons hn (ih fun c hc => hclear c (List.mem_cons_of_mem _ hc))

/-- One note more or less makes no difference. -/
theorem insertNote (h : Among M notes l l') (hc : c ∈ notes) (index : Nat) :
    Among M notes l (l'.insertIdx index c) := by
  induction h generalizing index with
  | nil =>
      cases index with
      | zero => exact .note hc .nil
      | succ index => exact .nil
  | note hc' htail ih =>
      cases index with
      | zero => exact .note hc (.note hc' htail)
      | succ index => exact .note hc' (ih index)
  | pair hn htail ih =>
      cases index with
      | zero => exact .note hc (.pair hn htail)
      | succ index => exact .pair hn (ih index)

section Paired

variable (heq : ∀ {n n' m m'}, M n n' → M m m' → (n = m ↔ n' = m'))
  (hapart : ∀ c ∈ notes, ∀ n, ¬ M n c)

include hapart

theorem filter_note (h : Among M notes l l') (hc : c ∈ notes) :
    Among M notes l (l'.filter (· ≠ c)) := by
  induction h with
  | nil => exact .nil
  | @note other _ _ hother _ ih =>
      by_cases hne : other = c
      · rwa [List.filter_cons_of_neg (by simpa using hne)]
      · rw [List.filter_cons_of_pos (by simpa using hne)]
        exact .note hother ih
  | @pair n n' _ _ hn _ ih =>
      have hne : n' ≠ c := by
        rintro rfl
        exact hapart _ hc _ hn
      rw [List.filter_cons_of_pos (by simpa using hne)]
      exact .pair hn ih

/-- Without the notes the nodes are related one by one. -/
theorem filter_notes (h : Among M notes l l') :
    List.Forall₂ M l (l'.filter (· ∉ notes)) := by
  induction h with
  | nil => exact .nil
  | note hc _ ih =>
      rw [List.filter_cons_of_neg (by simpa using hc)]
      exact ih
  | pair hn _ ih =>
      rw [List.filter_cons_of_pos (by simpa using fun hc => hapart _ hc _ hn)]
      exact .cons hn ih

include heq

/-- Related nodes are taken out. -/
theorem filter_ne (h : Among M notes l l') (hx : M x x') :
    Among M notes (l.filter (· ≠ x)) (l'.filter (· ≠ x')) := by
  induction h with
  | nil => exact .nil
  | @note c _ _ hc _ ih =>
      have hne : c ≠ x' := by
        rintro rfl
        exact hapart _ hc _ hx
      rw [List.filter_cons_of_pos (by simpa using hne)]
      exact .note hc ih
  | @pair n n' _ _ hn _ ih =>
      by_cases hnx : n = x
      · rw [List.filter_cons_of_neg (by simpa using hnx),
          List.filter_cons_of_neg (by simpa using (heq hn hx).mp hnx)]
        exact ih
      · rw [List.filter_cons_of_pos (by simpa using hnx),
          List.filter_cons_of_pos (by simpa using fun hx' => hnx ((heq hn hx).mpr hx'))]
        exact .pair hn ih

omit hapart in
/-- What stands before and after related nodes. -/
theorem exists_split (h : Among M notes (l ++ x :: r) l') (hx : M x x') :
    ∃ front back, l' = front ++ x' :: back ∧ Among M notes l front ∧ Among M notes r back := by
  generalize hwhole : l ++ x :: r = whole at h
  induction h generalizing l with
  | nil => exact absurd hwhole (by simp)
  | @note c _ _ hc _ ih =>
      obtain ⟨front, back, rfl, hfront, hback⟩ := ih hwhole
      exact ⟨c :: front, back, rfl, .note hc hfront, hback⟩
  | @pair n n' _ tail hn htail ih =>
      cases l with
      | nil =>
          obtain ⟨rfl, rfl⟩ := List.cons.inj hwhole
          obtain rfl := (heq hn hx).mp rfl
          exact ⟨[], tail, rfl, .nil, htail⟩
      | cons first l =>
          obtain ⟨rfl, hrest⟩ := List.cons.inj hwhole
          obtain ⟨front, back, rfl, hfront, hback⟩ := ih hrest
          exact ⟨n' :: front, back, rfl, .pair hn hfront, hback⟩

omit hapart in
theorem split (h : Among M notes (l ++ x :: r) (l' ++ x' :: r')) (hx : M x x')
    (hnodup : (l' ++ x' :: r').Nodup) : Among M notes l l' ∧ Among M notes r r' := by
  obtain ⟨front, back, hsplit, hfront, hback⟩ := h.exists_split heq hx
  rw [List.nodup_middle, List.nodup_cons, List.mem_append, not_or] at hnodup
  obtain ⟨rfl, -, rfl⟩ :=
    (List.append_cons_inj_of_notMem hnodup.1.1 hnodup.1.2).mp hsplit
  exact ⟨hfront, hback⟩

end Paired

end Among

namespace Document

variable {d d' t t' : Document} {p p' q q' : NodeId}

/-- The second document is the first one with notes: paired nodes are the same but for their numbers
and for the notes among their children. A note is a comment, and is paired with nothing. -/
structure Noted (M : NodeId → NodeId → Prop) (notes : List NodeId) (d d' : Document) : Prop where
  source_eq : d'.sourceName = d.sourceName
  lt : ∀ {n n'}, M n n' → n < d.size ∧ n' < d'.size
  eq_iff : ∀ {n n' m m'}, M n n' → M m m' → (n = m ↔ n' = m')
  kind_eq : ∀ {n n'}, M n n' → d'.kind n' = d.kind n
  parents : ∀ {n n'}, M n n' → Option.Rel M (d.parent n) (d'.parent n')
  children : ∀ {n n'}, M n n' → Among M notes (d.children n) (d'.children n')
  comment : ∀ c ∈ notes, ∃ text, d'.kind c = .comment text
  leaf : ∀ c ∈ notes, d'.children c = []
  apart : ∀ c ∈ notes, ∀ n, ¬ M n c
  nodup : notes.Nodup

/-- Every node is paired with itself, and there are no notes. -/
theorem noted_self (hlinked : d.WellLinked) : Noted (fun n n' => n' = n ∧ n < d.size) [] d d := by
  refine ⟨rfl, ?_, ?_, ?_, ?_, ?_, nofun, nofun, nofun, .nil⟩
  · rintro n _ ⟨rfl, hlt⟩
    exact ⟨hlt, hlt⟩
  · rintro n _ m _ ⟨rfl, -⟩ ⟨rfl, -⟩
    exact Iff.rfl
  · rintro n _ ⟨rfl, -⟩
    rfl
  · rintro _ n ⟨rfl, -⟩
    cases hp : d.parent n with
    | none => exact .none
    | some p => exact .some ⟨rfl, (hlinked.lt_of_parent hp).1⟩
  · rintro _ n ⟨rfl, -⟩
    exact .of_forall₂ (List.forall₂_same.mpr fun c hc => ⟨rfl, (hlinked.child_lt n c hc).2⟩)

namespace Noted

variable (h : Noted M notes d d')

include h

theorem up : Upward M d d' := ⟨fun hn => congrArg NodeKind.bare (h.kind_eq hn), h.parents⟩

theorem isElement_eq (hn : M n n') : d'.isElement n' = d.isElement n :=
  congrArg NodeKind.isElement (h.kind_eq hn)

/-- Notes are no elements. -/
theorem isElement_note (hc : c ∈ notes) : d'.isElement c = false := by
  obtain ⟨text, hkind⟩ := h.comment c hc
  unfold isElement
  rw [hkind]
  rfl

/-- The child elements of paired nodes are paired. -/
theorem childElements (hn : M n n') : List.Forall₂ M (d.childElements n) (d'.childElements n') := by
  have hkept : (d'.children n').filter (d'.isElement ·) =
      ((d'.children n').filter (· ∉ notes)).filter (d'.isElement ·) := by
    rw [List.filter_filter]
    refine List.filter_congr fun c _ => ?_
    by_cases hc : c ∈ notes
    · simp [hc, h.isElement_note hc]
    · simp [hc]
  unfold Document.childElements
  rw [hkept]
  refine List.rel_filter ?_ ((h.children hn).filter_notes h.apart)
  exact fun m m' hm => Bool.eq_iff_iff.mp (h.isElement_eq hm).symm

theorem note_lt (hc : c ∈ notes) : c < d'.size := by
  obtain ⟨text, hkind⟩ := h.comment c hc
  by_contra hge
  unfold kind at hkind
  rw [node_of_size_le d' (Nat.le_of_not_lt hge)] at hkind
  cases hkind

theorem not_note (hn : M n n') : n' ∉ notes := fun hc => h.apart n' hc n hn

/-- The parent of a paired node is paired with the parent of the other one. -/
theorem exists_parent (hn : M n n') (hp : d.parent n = some p) :
    ∃ p', d'.parent n' = some p' ∧ M p p' := by
  have hparents := h.parents hn
  rw [hp] at hparents
  generalize d'.parent n' = parent at hparents ⊢
  cases hparents with
  | some hpairs => exact ⟨_, rfl, hpairs⟩

theorem exists_parent' (hn : M n n') (hp : d'.parent n' = some p') :
    ∃ p, d.parent n = some p ∧ M p p' := by
  have hparents := h.parents hn
  rw [hp] at hparents
  generalize d.parent n = parent at hparents ⊢
  cases hparents with
  | some hpairs => exact ⟨_, rfl, hpairs⟩

theorem parent_isSome (hn : M n n') : (d'.parent n').isSome = (d.parent n).isSome := by
  have hparents := h.parents hn
  generalize d.parent n = parent, d'.parent n' = parent' at hparents
  cases hparents <;> rfl

/-- What is above a paired node is paired, with what is above the other one. -/
theorem exists_above (hn : M n n') (hlinked : d.WellLinked) (hlinked' : d'.WellLinked)
    (hq : d.Below q n) : ∃ q', M q q' ∧ d'.Below q' n' := by
  induction hq generalizing n' with
  | refl => exact ⟨n', hn, .refl⟩
  | child _ hchild ih =>
      obtain ⟨p', hp', hpairs⟩ := h.exists_parent hn (hlinked.parent_eq hchild)
      obtain ⟨q', hq', hbelow⟩ := ih hpairs
      exact ⟨q', hq', hbelow.child (hlinked'.mem_children hp')⟩

theorem exists_above' (hn : M n n') (hlinked : d.WellLinked) (hlinked' : d'.WellLinked)
    (hq : d'.Below q' n') : ∃ q, M q q' ∧ d.Below q n := by
  induction hq generalizing n with
  | refl => exact ⟨n, hn, .refl⟩
  | child _ hchild ih =>
      obtain ⟨p, hp, hpairs⟩ := h.exists_parent' hn (hlinked'.parent_eq hchild)
      obtain ⟨q, hq, hbelow⟩ := ih hpairs
      exact ⟨q, hq, hbelow.child (hlinked.mem_children hp)⟩

theorem below_iff (hx : M x x') (hn : M n n') (hlinked : d.WellLinked)
    (hlinked' : d'.WellLinked) : d.Below x n ↔ d'.Below x' n' := by
  constructor
  · intro hbelow
    obtain ⟨q', hq', hbelow'⟩ := h.exists_above hn hlinked hlinked' hbelow
    rwa [← (h.eq_iff hq' hx).mp rfl]
  · intro hbelow
    obtain ⟨q, hq, hbelow'⟩ := h.exists_above' hn hlinked hlinked' hbelow
    rwa [← (h.eq_iff hq hx).mpr rfl]

/-! ## What is done to notes -/

/-- Notes are given other places. -/
theorem shiftNotes (hsource : t'.sourceName = d'.sourceName) (hsize : t'.size = d'.size)
    (hkind : ∀ n, t'.kind n = d'.kind n) (hparent : ∀ n, n ∉ notes → t'.parent n = d'.parent n)
    (hchildren : ∀ {n n'}, M n n' → Among M notes (d.children n) (t'.children n'))
    (hleaf : ∀ c ∈ notes, t'.children c = []) : Noted M notes d t' := by
  refine ⟨hsource.trans h.source_eq, fun hn => hsize ▸ h.lt hn, h.eq_iff,
    fun hn => (hkind _).trans (h.kind_eq hn), fun hn => ?_, hchildren, fun c hc => ?_, hleaf,
    h.apart, h.nodup⟩
  · rw [hparent _ (h.not_note hn)]
    exact h.parents hn
  · rw [hkind]
    exact h.comment c hc

theorem orphanNote (hc : c ∈ notes) :
    Noted M notes d (d'.update c fun node => { node with parent := none }) := by
  refine h.shiftNotes rfl (size_update ..) (fun _ => kind_update_parent) (fun n hn => ?_)
    (fun hn => ?_) fun note hnote => ?_
  · have hne : n ≠ c := fun heq => hn (heq ▸ hc)
    rw [parent_update_parent (h.note_lt hc), if_neg hne]
  · rw [children_update_parent]
    exact h.children hn
  · rw [children_update_parent]
    exact h.leaf note hnote

theorem detachNote (hc : c ∈ notes) (hlinked : d'.WellLinked) : Noted M notes d (d'.detach c) := by
  refine h.shiftNotes (sourceName_detach d' c) (size_detach d') (kind_detach d' c) (fun n hn => ?_)
    (fun hn => ?_) fun note hnote => ?_
  · have hne : n ≠ c := fun heq => hn (heq ▸ hc)
    rw [hlinked.parent_detach, if_neg hne]
  · rw [hlinked.children_detach]
    exact (h.children hn).filter_note h.apart hc
  · rw [hlinked.children_detach, h.leaf note hnote]
    rfl

theorem placeNote (hc : c ∈ notes) (hq : M q q') (index : Nat) :
    Noted M notes d (d'.place q' index c) := by
  have hlt := (h.lt hq).2
  refine h.shiftNotes rfl (size_place d' index) (kind_place d' q' index c) (fun n hn => ?_)
    (fun {n n'} hn => ?_) fun note hnote => ?_
  · have hne : n ≠ c := fun heq => hn (heq ▸ hc)
    rw [parent_place (h.note_lt hc), if_neg hne]
  · rw [children_place hlt]
    split
    next heq =>
      obtain rfl := heq
      exact (h.children hn).insertNote hc index
    next => exact h.children hn
  · have hne : note ≠ q' := fun heq => h.not_note hq (heq ▸ hnote)
    rw [children_place hlt, if_neg hne]
    exact h.leaf note hnote

/-- A new comment is one more note. -/
theorem createNote (text : String) (hlinked : d'.WellLinked) :
    Noted M (notes ++ [d'.size]) d (d'.create (.comment text)).1 := by
  have hgrown := extends_create hlinked (.comment text)
  have hold : ∀ n, n < d'.size → (d'.create (.comment text)).1.node n = d'.node n := fun n hn =>
    hgrown.same n (Nat.not_le_of_lt hn)
  have hnew : (d'.create (.comment text)).1.node d'.size = { kind := .comment text } := by
    rw [node_create, if_pos rfl]
  have hnotes : ∀ {c}, c ∈ notes ++ [d'.size] → c ∈ notes ∨ c = d'.size := fun hc =>
    (List.mem_append.mp hc).imp_right List.mem_singleton.mp
  refine ⟨h.source_eq, fun hn => ?_, h.eq_iff, fun hn => ?_, fun hn => ?_, fun hn => ?_,
    fun c hc => ?_, fun c hc => ?_, fun c hc n hn => ?_, ?_⟩
  · exact (h.lt hn).imp_right fun hlt => Nat.lt_of_lt_of_le hlt hgrown.size_le
  · unfold kind
    rw [hold _ (h.lt hn).2]
    exact h.kind_eq hn
  · unfold parent
    rw [hold _ (h.lt hn).2]
    exact h.parents hn
  · unfold Document.children
    rw [hold _ (h.lt hn).2]
    exact (h.children hn).mono (fun _ _ _ => id) (List.subset_append_left ..)
  · unfold kind
    rcases hnotes hc with hc | rfl
    · rw [hold c (h.note_lt hc)]
      exact h.comment c hc
    · rw [hnew]
      exact ⟨text, rfl⟩
  · unfold Document.children
    rcases hnotes hc with hc | rfl
    · rw [hold c (h.note_lt hc)]
      exact h.leaf c hc
    · rw [hnew]
  · rcases hnotes hc with hc | rfl
    · exact h.apart c hc n hn
    · exact absurd (h.lt hn).2 (Nat.lt_irrefl _)
  · rw [← List.concat_eq_append]
    exact h.nodup.concat fun hc => Nat.lt_irrefl _ (h.note_lt hc)

/-! ## Edits of paired nodes -/

/-- A change of two paired nodes. -/
theorem update (hx : M x x') {change change' : Node → Node}
    (hkind : (change' (d'.node x')).kind = (change (d.node x)).kind)
    (hparent : Option.Rel M (change (d.node x)).parent (change' (d'.node x')).parent)
    (hchildren : Among M notes (change (d.node x)).children (change' (d'.node x')).children) :
    Noted M notes (d.update x change) (d'.update x' change') := by
  have hnode : ∀ {n n'}, M n n' →
      ((d.update x change).node n = change (d.node x) ∧
        (d'.update x' change').node n' = change' (d'.node x')) ∨
      ((d.update x change).node n = d.node n ∧ (d'.update x' change').node n' = d'.node n') := by
    intro n n' hn
    obtain ⟨hlt, hlt'⟩ := h.lt hx
    rw [node_update, node_update]
    by_cases hnx : n = x
    · obtain rfl := hnx
      obtain rfl := (h.eq_iff hn hx).mp rfl
      exact .inl ⟨if_pos ⟨rfl, hlt⟩, if_pos ⟨rfl, hlt'⟩⟩
    · exact .inr ⟨if_neg fun hor => hnx hor.1,
        if_neg fun hor => hnx ((h.eq_iff hn hx).mpr hor.1)⟩
  have hnote : ∀ c ∈ notes, (d'.update x' change').node c = d'.node c := by
    intro c hc
    rw [node_update]
    refine if_neg ?_
    rintro ⟨rfl, -⟩
    exact h.apart c hc x hx
  refine ⟨h.source_eq, fun hn => ?_, h.eq_iff, fun hn => ?_, fun hn => ?_, fun hn => ?_,
    fun c hc => ?_, fun c hc => ?_, h.apart, h.nodup⟩
  · rw [size_update, size_update]
    exact h.lt hn
  · unfold kind
    rcases hnode hn with ⟨hnew, hnew'⟩ | ⟨hold, hold'⟩
    · rw [hnew, hnew', hkind]
    · rw [hold, hold']
      exact h.kind_eq hn
  · unfold parent
    rcases hnode hn with ⟨hnew, hnew'⟩ | ⟨hold, hold'⟩
    · rw [hnew, hnew']
      exact hparent
    · rw [hold, hold']
      exact h.parents hn
  · unfold Document.children
    rcases hnode hn with ⟨hnew, hnew'⟩ | ⟨hold, hold'⟩
    · rw [hnew, hnew']
      exact hchildren
    · rw [hold, hold']
      exact h.children hn
  · unfold kind
    rw [hnote c hc]
    exact h.comment c hc
  · unfold Document.children
    rw [hnote c hc]
    exact h.leaf c hc

theorem setParent (hx : M x x') {value value' : Option NodeId} (hvalue : Option.Rel M value value') :
    Noted M notes (d.update x fun node => { node with parent := value })
      (d'.update x' fun node => { node with parent := value' }) :=
  h.update hx (h.kind_eq hx) hvalue (h.children hx)

theorem changeChildren (hq : M q q') (f f' : List NodeId → List NodeId)
    (hchildren : Among M notes (f (d.children q)) (f' (d'.children q'))) :
    Noted M notes (d.update q fun node => { node with children := f node.children })
      (d'.update q' fun node => { node with children := f' node.children }) :=
  h.update hq (h.kind_eq hq) (h.parents hq) hchildren

theorem updateElement (hx : M x x') (change : Element → Element) :
    Noted M notes (d.updateElement x change) (d'.updateElement x' change) :=
  h.update hx (congrArg (·.mapElement change) (h.kind_eq hx)) (h.parents hx) (h.children hx)

theorem removeAttribute (hx : M x x') (raw : String) :
    Noted M notes (d.removeAttribute x raw).1 (d'.removeAttribute x' raw).1 := by
  unfold Document.removeAttribute
  rw [h.up.attributes_eq hx]
  split
  · exact h.updateElement hx _
  · exact h

theorem detach (hx : M x x') : Noted M notes (d.detach x) (d'.detach x') := by
  have hparents := h.parents hx
  unfold Document.detach
  generalize d.parent x = parent, d'.parent x' = parent' at hparents
  cases hparents with
  | none => exact h
  | some hq =>
      refine (h.setParent hx .none).changeChildren hq (·.filter (· ≠ x)) (·.filter (· ≠ x')) ?_
      simp only [children_update_parent]
      exact (h.children hq).filter_ne h.eq_iff h.apart hx

/-- A node is put among the children of another one, between related nodes. -/
theorem place (hq : M q q') (hx : M x x') (hchildren : d.children q = l ++ r)
    (hchildren' : d'.children q' = l' ++ r') (hl : Among M notes l l') (hr : Among M notes r r') :
    Noted M notes (d.place q l.length x) (d'.place q' l'.length x') := by
  refine (h.setParent hx (.some hq)).changeChildren hq (·.insertIdx _ x) (·.insertIdx _ x') ?_
  simp only [children_update_parent]
  rw [hchildren, hchildren', insertIdx_length_append, insertIdx_length_append]
  exact hl.append (.pair hx hr)

theorem append (hq : M q q') (hx : M x x') : Noted M notes (d.append q x) (d'.append q' x') := by
  have hfreed := h.detach hx
  exact hfreed.place hq hx (List.append_nil _).symm (List.append_nil _).symm (hfreed.children hq)
    .nil

/-! ## The children of a paired node -/

/-- The children of paired nodes are taken away, notes and all. -/
theorem clearChildren (hx : M x x') : Noted M notes (d.clearChildren x) (d'.clearChildren x') := by
  have horphaned : ∀ {children children' : List NodeId}, Among M notes children children' →
      ∀ {t t' : Document}, Noted M notes t t' →
        Noted M notes (t.orphan children) (t'.orphan children') := by
    intro children children' hchildren
    induction hchildren with
    | nil => exact id
    | note hc _ ih => exact fun ht => ih (ht.orphanNote hc)
    | pair hn _ ih => exact fun ht => ih (ht.setParent hn .none)
  exact (horphaned (h.children hx) h).changeChildren hx (fun _ => []) (fun _ => []) .nil

theorem replaceChildren (hx : M x x') {nodes nodes' : List NodeId}
    (hnodes : List.Forall₂ M nodes nodes') :
    Noted M notes (d.replaceChildren x nodes) (d'.replaceChildren x' nodes') := by
  have happended : ∀ {t t' : Document}, Noted M notes t t' →
      Noted M notes (nodes.foldl (fun d child => d.append x child) t)
        (nodes'.foldl (fun d child => d.append x' child) t') := by
    induction hnodes with
    | nil => exact id
    | cons hn _ ih => exact fun ht => ih (ht.append hx hn)
  exact happended (h.clearChildren hx)

end Noted

/-! ## Children in the place of their parent -/

namespace Noted

variable (h : Noted M notes d d')

include h

/-- Paired nodes are moved right before paired nodes. -/
theorem moved (hx : M x x') (hc : M c c') (hp : M p p') (hmoved : Moved x p c d t)
    (hmoved' : Moved x' p' c' d' t') (hlinked : d'.WellLinked) : Noted M notes t t' := by
  obtain ⟨front, back, hchildren, rfl⟩ := hmoved.exists_place
  obtain ⟨front', back', hchildren', rfl⟩ := hmoved'.exists_place
  have hfreed := h.detach hc
  have hamong := hfreed.children hp
  have hnodup := (hlinked.detach c').nodup_children p'
  rw [hchildren, hchildren'] at hamong
  rw [hchildren'] at hnodup
  obtain ⟨hfront, hback⟩ := hamong.split h.eq_iff hx hnodup
  exact hfreed.place hp hc hchildren hchildren' hfront (.pair hx hback)

theorem movedNote (hc : c ∈ notes) (hp : M p p') (hmoved : Moved x' p' c d' t')
    (hlinked : d'.WellLinked) : Noted M notes d t' := by
  obtain ⟨front, back, -, rfl⟩ := hmoved.exists_place
  exact (h.detachNote hc hlinked).placeNote hc hp front.length

theorem moved_all (hnodes : Among M notes l l') (hx : M x x') (hp : M p p')
    (hlinked : d.WellLinked) (hlinked' : d'.WellLinked) (hparent : d.parent x = some p)
    (hparent' : d'.parent x' = some p') (hl : Movable d x l) (hl' : Movable d' x' l') :
    ∃ t t', outcome (l.forM (insertBefore x)) d = (.ok (), t) ∧
      outcome (l'.forM (insertBefore x')) d' = (.ok (), t') ∧ Noted M notes t t' := by
  induction hnodes generalizing d d' with
  | nil => exact ⟨d, d', rfl, rfl, h⟩
  | note hc _ ih =>
      obtain ⟨hne, hroot, hlt⟩ := hl' _ List.mem_cons_self
      obtain ⟨u', hinsert, hmoved⟩ := hlinked'.exists_moved hparent' hne hroot hlt
      obtain ⟨t, t', hleft, hright, hnoted⟩ := ih (h.movedNote hc hp hmoved hlinked') hlinked
        hmoved.linked hparent hmoved.parent_eq hl (hl'.tail hmoved.size_eq)
      exact ⟨t, t', hleft, (outcome_bind_ok hinsert).trans hright, hnoted⟩
  | pair hn _ ih =>
      obtain ⟨hne, hroot, hlt⟩ := hl _ List.mem_cons_self
      obtain ⟨hne', hroot', hlt'⟩ := hl' _ List.mem_cons_self
      obtain ⟨u, hinsert, hmoved⟩ := hlinked.exists_moved hparent hne hroot hlt
      obtain ⟨u', hinsert', hmoved'⟩ := hlinked'.exists_moved hparent' hne' hroot' hlt'
      obtain ⟨t, t', hleft, hright, hnoted⟩ := ih (h.moved hx hn hp hmoved hmoved' hlinked')
        hmoved.linked hmoved'.linked hmoved.parent_eq hmoved'.parent_eq
        (hl.tail hmoved.size_eq) (hl'.tail hmoved'.size_eq)
      exact ⟨t, t', (outcome_bind_ok hinsert).trans hleft,
        (outcome_bind_ok hinsert').trans hright, hnoted⟩

/-- The children of paired nodes take their places, notes among them. -/
theorem omitTag (hx : M x x') (hp : d.parent x = some p) (hlinked : d.WellLinked)
    (hlinked' : d'.WellLinked) (hrooted : d.Rooted x) (hrooted' : d'.Rooted x') :
    Noted M notes (outcome (omitTag x) d).2 (outcome (Document.omitTag x') d').2 := by
  obtain ⟨p', hp', hpairs⟩ := h.exists_parent hx hp
  obtain ⟨t, t', hleft, hright, hnoted⟩ := h.moved_all (h.children hx) hx hpairs hlinked hlinked' hp
    hp' (movable_children hlinked hrooted) (movable_children hlinked' hrooted')
  have houtcome : ∀ {d t : Document} {x : NodeId},
      outcome ((d.children x).forM (insertBefore x)) d = (.ok (), t) →
        (outcome (Document.omitTag x) d).2 = t.detach x := by
    intro d t x hmoved
    unfold Document.omitTag Document.replace
    rw [outcome_bind_ok (outcome_get d), outcome_bind_ok ((outcome_bind_ok hmoved).trans rfl)]
    rfl
  rw [houtcome hleft, houtcome hright]
  exact hnoted.detach hx

end Noted

/-! ## Elements in document order -/

namespace Noted

variable (h : Noted M notes d d')

include h

/-- There are no elements at notes and below. -/
theorem elements_note (hc : c ∈ notes) (fuel : Nat) :
    (d'.preorder fuel c).filter (d'.isElement ·) = [] := by
  cases fuel with
  | zero => rfl
  | succ fuel => simp [preorder, h.leaf c hc, h.isElement_note hc]

/-- The elements below paired nodes are paired, in document order. -/
theorem elements_preorder (hn : M n n') (fuel : Nat) :
    List.Forall₂ M ((d.preorder fuel n).filter (d.isElement ·))
      ((d'.preorder fuel n').filter (d'.isElement ·)) := by
  induction fuel generalizing n n' with
  | zero => exact .nil
  | succ fuel ih =>
      have hbelow : ∀ {l l' : List NodeId}, Among M notes l l' →
          List.Forall₂ M ((l.flatMap (d.preorder fuel)).filter (d.isElement ·))
            ((l'.flatMap (d'.preorder fuel)).filter (d'.isElement ·)) := by
        intro l l' hl
        induction hl with
        | nil => exact .nil
        | note hc _ ihl =>
            rw [List.flatMap_cons, List.filter_append, h.elements_note hc, List.nil_append]
            exact ihl
        | pair hm _ ihl =>
            rw [List.flatMap_cons, List.flatMap_cons, List.filter_append, List.filter_append]
            exact List.rel_append (ih hm) ihl
      unfold preorder
      have helement := h.isElement_eq hn
      cases hkind : d.isElement n with
      | true =>
          rw [hkind] at helement
          rw [List.filter_cons_of_pos hkind, List.filter_cons_of_pos helement]
          exact .cons hn (hbelow (h.children hn))
      | false =>
          rw [hkind] at helement
          rw [List.filter_cons_of_neg (by simp [hkind]), List.filter_cons_of_neg (by simp [helement])]
          exact hbelow (h.children hn)

theorem elements_subtree (hn : M n n') (hground : d.Grounded n) (hground' : d'.Grounded n') :
    List.Forall₂ M ((d.subtree n).filter (d.isElement ·))
      ((d'.subtree n').filter (d'.isElement ·)) := by
  rw [hground.subtree_eq, hground'.subtree_eq,
    ← hground.throughout.preorder_eq (Nat.le_max_left d.size d'.size),
    ← hground'.throughout.preorder_eq (Nat.le_max_right d.size d'.size)]
  exact h.elements_preorder hn _

end Noted

/-! ## Without the notes -/

/-- The document with nodes taken out of the tree. -/
def without (d : Document) (nodes : List NodeId) : Document := nodes.foldl detach d

theorem without_spec (hlinked : d.WellLinked) (nodes : List NodeId) :
    (d.without nodes).WellLinked ∧ (d.without nodes).size = d.size ∧
      (∀ n, (d.without nodes).kind n = d.kind n) ∧
      (∀ n, (d.without nodes).parent n = if n ∈ nodes then none else d.parent n) ∧
      ∀ n, (d.without nodes).children n = (d.children n).filter (· ∉ nodes) := by
  unfold without
  induction nodes generalizing d with
  | nil => exact ⟨hlinked, rfl, fun _ => rfl, fun _ => rfl, fun _ => by simp⟩
  | cons node nodes ih =>
      obtain ⟨hout, hsize, hkind, hparent, hchildren⟩ := ih (hlinked.detach node)
      refine ⟨hout, hsize.trans (size_detach d), fun n => ?_, fun n => ?_, fun n => ?_⟩
      · rw [List.foldl_cons, hkind, kind_detach]
      · rw [List.foldl_cons, hparent, hlinked.parent_detach]
        by_cases hn : n = node <;> by_cases hmem : n ∈ nodes <;> simp [hn, hmem]
      · rw [List.foldl_cons, hchildren, hlinked.children_detach, List.filter_filter]
        congr 1
        funext c
        simp [Bool.and_comm]

/-- Without its notes the second document has the trees of the first one. -/
theorem Noted.tree_without (h : Noted M notes d d') (hn : M n n') (hground : d.Grounded n)
    (hlinked' : d'.WellLinked) : (d'.without notes).tree n' = d.tree n := by
  obtain ⟨hout, hsize, hkind, hparent, hchildren⟩ := without_spec hlinked' notes
  have hdown : Downward .whole M d (d'.without notes) := by
    refine ⟨fun hm => (hkind _).trans (h.kind_eq hm), fun hm => ?_⟩
    rw [hchildren]
    exact (h.children hm).filter_notes h.apart
  have hup : Upward M d (d'.without notes) := by
    refine ⟨fun hm => View.bare_eq (hdown.kind_eq hm), fun hm => ?_⟩
    rw [hparent, if_neg (h.not_note hm)]
    exact h.parents hm
  have hground' : (d'.without notes).Grounded n' :=
    ⟨hout, hsize ▸ (h.lt hn).2, hup.scope.rooted hground.linked hout hn hground.rooted⟩
  exact hdown.tree_eq hn hground.throughout hground'.throughout

end Document

end PageTemplate.Markup
