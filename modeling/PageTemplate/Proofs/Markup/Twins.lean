import PageTemplate.Proofs.Markup.Correspondence
import PageTemplate.Proofs.Markup.FragmentReading
import PageTemplate.Proofs.SideBySide

/-! # Documents that change alike

Two documents are twins when some of their nodes are paired and the paired nodes are the same but
for their numbers: nodes that were there at first, and all those that have been added since, in
order. Around the paired nodes the documents may differ, apart from the nodes above them. Edits of
paired nodes keep documents twins, and what is read off such nodes is the same in both: so what is
made of a node depends on what lies below and above it, and not on where or when. Edits do not look
at where nodes come from: so documents that are twins but for that stay so too.
-/

namespace PageTemplate.Markup

variable {b b' n n' m m' x x' q q' : Nat}

/-- The nodes are as far behind `b` and behind `b'`. -/
def Paired (b b' n n' : Nat) : Prop := b ≤ n ∧ n + b' = n' + b

theorem Paired.eq_iff (hn : Paired b b' n n') (hm : Paired b b' m m') : n = m ↔ n' = m' := by
  obtain ⟨-, hn⟩ := hn
  obtain ⟨-, hm⟩ := hm
  omega

theorem Paired.lt_iff (hn : Paired b b' n n') (hm : Paired b b' m m') : n < m ↔ n' < m' := by
  obtain ⟨-, hn⟩ := hn
  obtain ⟨-, hm⟩ := hm
  omega

theorem Paired.le_right (h : Paired b b' n n') : b' ≤ n' := by
  obtain ⟨hle, heq⟩ := h
  omega

theorem paired_self (b b' : Nat) : Paired b b' b b' := ⟨Nat.le_refl b, Nat.add_comm b b'⟩

/-- Pairs of nodes of two documents: some nodes from before `left` and `right`, and those from there
on. The nodes above them correspond too; other nodes may stand before and after paired ones among
the children of a node above. -/
structure Pairing where
  left : Nat
  right : Nat
  old : NodeId → NodeId → Prop
  above : NodeId → NodeId → Prop
  before : NodeId → List NodeId
  after : NodeId → List NodeId
  before' : NodeId → List NodeId
  after' : NodeId → List NodeId
  /-- The names of the sources that the documents were read from. -/
  source : Option String
  source' : Option String
  old_lt : ∀ {n n' : Nat}, old n n' → n < left ∧ n' < right
  old_iff : ∀ {n n' m m'}, old n n' → old m m' → (n = m ↔ n' = m')
  above_lt : ∀ {n n' : Nat}, above n n' → n < left ∧ n' < right
  above_iff : ∀ {n n' m m'}, above n n' → above m m' → (n = m ↔ n' = m')
  not_above : ∀ {n n'}, old n n' → ∀ m, ¬ above n m ∧ ¬ above m n'
  apart : ∀ {n m}, m ∈ before n ++ after n → (∃ n', above n n') ∧ m < left ∧ ∀ m', ¬ old m m'
  apart' : ∀ {n' m'}, m' ∈ before' n' ++ after' n' →
    (∃ n, above n n') ∧ m' < right ∧ ∀ m, ¬ old m m'

namespace Pairing

/-- Of two documents only the nodes that are still to come. -/
def fresh (d d' : Document) : Pairing where
  left := d.size
  right := d'.size
  old := fun _ _ => False
  above := fun _ _ => False
  before := fun _ => []
  after := fun _ => []
  before' := fun _ => []
  after' := fun _ => []
  source := d.sourceName
  source' := d'.sourceName
  old_lt := False.elim
  old_iff := False.elim
  above_lt := False.elim
  above_iff := False.elim
  not_above := False.elim
  apart := fun h => absurd h List.not_mem_nil
  apart' := fun h => absurd h List.not_mem_nil

variable (P : Pairing)

/-- The nodes are paired. -/
def Pairs (n n' : NodeId) : Prop := P.old n n' ∨ Paired P.left P.right n n'

/-- The nodes are paired, or correspond above the paired ones. -/
def Shares (n n' : NodeId) : Prop := P.Pairs n n' ∨ P.above n n'

/-- Lists of paired nodes, with what stands around them at the node. -/
def Lists (n n' : NodeId) (l l' : List NodeId) : Prop :=
  ∃ mid mid', l = P.before n ++ mid ++ P.after n ∧ l' = P.before' n' ++ mid' ++ P.after' n' ∧
    List.Forall₂ P.Pairs mid mid'

variable {P}

theorem Pairs.shares (h : P.Pairs n n') : P.Shares n n' := .inl h

theorem Pairs.eq_iff (hn : P.Pairs n n') (hm : P.Pairs m m') : n = m ↔ n' = m' := by
  rcases hn with hn | hn <;> rcases hm with hm | hm
  · exact P.old_iff hn hm
  · have hlt := P.old_lt hn
    have hle := And.intro hm.1 hm.le_right
    omega
  · have hlt := P.old_lt hm
    have hle := And.intro hn.1 hn.le_right
    omega
  · exact hn.eq_iff hm

theorem Pairs.not_above (h : P.Pairs n n') (m : NodeId) : ¬ P.above n m ∧ ¬ P.above m n' := by
  rcases h with h | h
  · exact P.not_above h m
  · exact ⟨fun habove => Nat.not_le_of_lt (P.above_lt habove).1 h.1,
      fun habove => Nat.not_le_of_lt (P.above_lt habove).2 h.le_right⟩

theorem Shares.eq_iff (hn : P.Shares n n') (hm : P.Shares m m') : n = m ↔ n' = m' := by
  rcases hn with hn | hn <;> rcases hm with hm | hm
  · exact hn.eq_iff hm
  · refine ⟨?_, ?_⟩ <;> rintro rfl
    · exact absurd hm (hn.not_above m').1
    · exact absurd hm (hn.not_above m).2
  · refine ⟨?_, ?_⟩ <;> rintro rfl
    · exact absurd hn (hm.not_above n').1
    · exact absurd hn (hm.not_above n).2
  · exact P.above_iff hn hm

/-- Paired nodes are not among those that stand around paired ones. -/
theorem Pairs.not_mem (h : P.Pairs x x') : x ∉ P.before n ++ P.after n := by
  intro hmem
  obtain ⟨-, hlt, hold⟩ := P.apart hmem
  rcases h with h | h
  · exact hold x' h
  · exact Nat.not_le_of_lt hlt h.1

theorem Pairs.not_mem' (h : P.Pairs x x') : x' ∉ P.before' n ++ P.after' n := by
  intro hmem
  obtain ⟨-, hlt, hold⟩ := P.apart' hmem
  rcases h with h | h
  · exact hold x h
  · exact Nat.not_le_of_lt hlt h.le_right

theorem around_eq_nil (hn : ∀ m, ¬ P.above n m) : P.before n = [] ∧ P.after n = [] := by
  refine List.append_eq_nil_iff.mp (List.eq_nil_iff_forall_not_mem.mpr fun m hm => ?_)
  obtain ⟨n', habove⟩ := (P.apart hm).1
  exact hn n' habove

theorem around_eq_nil' (hn : ∀ m, ¬ P.above m n) : P.before' n = [] ∧ P.after' n = [] := by
  refine List.append_eq_nil_iff.mp (List.eq_nil_iff_forall_not_mem.mpr fun m hm => ?_)
  obtain ⟨n', habove⟩ := (P.apart' hm).1
  exact hn n' habove

/-- Nothing but paired nodes is in the child lists of paired nodes. -/
theorem Pairs.lists_iff (h : P.Pairs n n') {l l' : List NodeId} :
    P.Lists n n' l l' ↔ List.Forall₂ P.Pairs l l' := by
  obtain ⟨hbefore, hafter⟩ := around_eq_nil fun m => (h.not_above m).1
  obtain ⟨hbefore', hafter'⟩ := around_eq_nil' fun m => (h.not_above m).2
  unfold Lists
  rw [hbefore, hafter, hbefore', hafter']
  simp only [List.nil_append, List.append_nil]
  exact ⟨fun ⟨_, _, rfl, rfl, hl⟩ => hl, fun hl => ⟨l, l', rfl, rfl, hl⟩⟩

/-! ## Lists of paired nodes -/

theorem forall₂_insertIdx {l l' : List NodeId} (h : List.Forall₂ P.Pairs l l')
    (hn : P.Pairs n n') (index : Nat) :
    List.Forall₂ P.Pairs (l.insertIdx index n) (l'.insertIdx index n') := by
  induction h generalizing index with
  | nil =>
      cases index with
      | zero => exact .cons hn .nil
      | succ index => exact .nil
  | cons hhead htail ih =>
      cases index with
      | zero => exact .cons hn (.cons hhead htail)
      | succ index => exact .cons hhead (ih index)

theorem findIdx?_eq_of_forall₂ {l l' : List NodeId} (h : List.Forall₂ P.Pairs l l')
    (hn : P.Pairs n n') : l'.findIdx? (· == n') = l.findIdx? (· == n) := by
  induction h with
  | nil => rfl
  | cons hhead _ ih =>
      rw [List.findIdx?_cons, List.findIdx?_cons, ih]
      simp only [beq_iff_eq, hhead.eq_iff hn]

theorem insertIdx_around {before mid after : List NodeId} {index : Nat} (h : index ≤ mid.length) :
    (before ++ mid ++ after).insertIdx (index + before.length) n =
      before ++ mid.insertIdx index n ++ after := by
  induction before with
  | nil =>
      induction mid generalizing index with
      | nil =>
          obtain rfl : index = 0 := Nat.le_zero.mp h
          rfl
      | cons c mid ih =>
          cases index with
          | zero => rfl
          | succ index => exact congrArg (c :: ·) (ih (Nat.le_of_succ_le_succ h))
  | cons c before ih => exact congrArg (c :: ·) ih

theorem findIdx?_around {before mid after : List NodeId} (h : n ∉ before ++ after) :
    (before ++ mid ++ after).findIdx? (· == n) =
      (mid.findIdx? (· == n)).map (· + before.length) := by
  have hnone : ∀ l : List NodeId, n ∉ l → l.findIdx? (· == n) = none := by
    intro l hl
    refine List.findIdx?_eq_none_iff.mpr fun c hc => ?_
    have hne : c ≠ n := fun heq => hl (heq ▸ hc)
    simpa using hne
  rw [List.mem_append, not_or] at h
  rw [List.append_assoc, List.findIdx?_append, hnone _ h.1, List.findIdx?_append, hnone _ h.2]
  simp

/-- A node is taken out of both lists. -/
theorem Lists.filter {l l' : List NodeId} (h : P.Lists n n' l l') (hx : P.Pairs x x') :
    P.Lists n n' (l.filter (· ≠ x)) (l'.filter (· ≠ x')) := by
  have hkeep : ∀ (y : NodeId) (l : List NodeId), y ∉ l → l.filter (· ≠ y) = l := by
    intro y l hy
    refine List.filter_eq_self.mpr fun c hc => ?_
    have hne : c ≠ y := fun heq => hy (heq ▸ hc)
    simpa using hne
  have hout := hx.not_mem (n := n)
  have hout' := hx.not_mem' (n := n')
  rw [List.mem_append, not_or] at hout hout'
  obtain ⟨mid, mid', rfl, rfl, hmid⟩ := h
  refine ⟨mid.filter (· ≠ x), mid'.filter (· ≠ x'), ?_, ?_,
    List.rel_filter (fun c c' hc => ?_) hmid⟩
  · rw [List.filter_append, List.filter_append, hkeep x _ hout.1, hkeep x _ hout.2]
  · rw [List.filter_append, List.filter_append, hkeep x' _ hout'.1, hkeep x' _ hout'.2]
  · simp only [ne_eq, decide_eq_true_eq, hc.eq_iff hx]

end Pairing

/-- The same failure, unless it is one of editing: such a failure names a node. -/
def MarkupError.Matches (error error' : MarkupError) : Prop := error' = error ∨ ¬ error.IsReading

namespace Document

variable {view : View} {P : Pairing} {d d' : Document}

/-- Paired nodes of the documents are the same in the view but for their numbers. -/
structure Akin (view : View) (P : Pairing) (d d' : Document) : Prop where
  source : d.sourceName = P.source
  source' : d'.sourceName = P.source'
  size : Paired P.left P.right d.size d'.size
  kind_eq : ∀ {n n'}, P.Shares n n' → view.kind (d'.kind n') = view.kind (d.kind n)
  parents : ∀ {n n'}, P.Shares n n' → Option.Rel P.Shares (d.parent n) (d'.parent n')
  lists : ∀ {n n'}, P.Shares n n' → P.Lists n n' (d.children n) (d'.children n')

/-- Paired nodes of the documents are the same but for their numbers. -/
abbrev Twins (P : Pairing) (d d' : Document) : Prop := Akin .whole P d d'

theorem Twins.kind_eq (h : Twins P d d') {n n' : NodeId} (hn : P.Shares n n') :
    d'.kind n' = d.kind n :=
  Akin.kind_eq h hn

/-- Failures that match and leave paired nodes the same. -/
def Failing (view : View) (P : Pairing) (error : MarkupError) (d : Document) (error' : MarkupError)
    (d' : Document) : Prop := error.Matches error' ∧ Akin view P d d'

/-- Where documents end they begin to be twins. -/
theorem akin_fresh (view : View) (d d' : Document) : Akin view (.fresh d d') d d' := by
  have hnodes : ∀ n n', (Pairing.fresh d d').Shares n n' →
      d.node n = {} ∧ d'.node n' = {} := by
    rintro n n' ((⟨⟨⟩⟩ | hn) | ⟨⟨⟩⟩)
    exact ⟨d.node_of_size_le hn.1, d'.node_of_size_le hn.le_right⟩
  refine ⟨rfl, rfl, paired_self _ _, fun hn => ?_, fun hn => ?_, fun hn =>
    ⟨[], [], ?_, ?_, .nil⟩⟩
  · unfold kind
    rw [(hnodes _ _ hn).1, (hnodes _ _ hn).2]
  · unfold parent
    rw [(hnodes _ _ hn).1, (hnodes _ _ hn).2]
    exact .none
  · exact congrArg Node.children (hnodes _ _ hn).1
  · exact congrArg Node.children (hnodes _ _ hn).2

namespace Akin

variable (h : Akin view P d d')

include h

theorem down : Downward view P.Pairs d d' :=
  ⟨fun hn => h.kind_eq hn.shares, fun hn => hn.lists_iff.mp (h.lists hn.shares)⟩

theorem up : Upward P.Shares d d' := ⟨fun hn => View.bare_eq (h.kind_eq hn), h.parents⟩

theorem isElement_eq (hn : P.Shares n n') : d'.isElement n' = d.isElement n :=
  NodeKind.isElement_of_bare (h.up.bare_eq hn)

theorem size_pairs : P.Pairs d.size d'.size := .inr h.size

theorem lt_iff (hn : P.Shares n n') : n < d.size ↔ n' < d'.size := by
  rcases hn with (hold | hnew) | habove
  · have hlt := P.old_lt hold
    have hsize := And.intro h.size.1 h.size.le_right
    omega
  · exact hnew.lt_iff h.size
  · have hlt := P.above_lt habove
    have hsize := And.intro h.size.1 h.size.le_right
    omega

/-! ## Edits of twins -/

/-- A change of one node that both documents share. -/
theorem update (hx : P.Shares x x') {change change' : Node → Node}
    (hkind : view.kind (change' (d'.node x')).kind = view.kind (change (d.node x)).kind)
    (hparent : Option.Rel P.Shares (change (d.node x)).parent (change' (d'.node x')).parent)
    (hlists : P.Lists x x' (change (d.node x)).children (change' (d'.node x')).children) :
    Akin view P (d.update x change) (d'.update x' change') := by
  have hsize : Paired P.left P.right (d.update x change).size (d'.update x' change').size := by
    rw [size_update, size_update]
    exact h.size
  refine ⟨h.source, h.source', hsize, fun {n n'} hn => ?_, fun {n n'} hn => ?_,
    fun {n n'} hn => ?_⟩
  · unfold kind
    rw [node_update, node_update]
    simp only [hn.eq_iff hx, h.lt_iff hx]
    split
    next heq =>
      obtain rfl := heq.1
      obtain rfl := (hn.eq_iff hx).mpr rfl
      exact hkind
    next => exact h.kind_eq hn
  · unfold parent
    rw [node_update, node_update]
    simp only [hn.eq_iff hx, h.lt_iff hx]
    split
    next heq =>
      obtain rfl := heq.1
      obtain rfl := (hn.eq_iff hx).mpr rfl
      exact hparent
    next => exact h.parents hn
  · unfold children
    rw [node_update, node_update]
    simp only [hn.eq_iff hx, h.lt_iff hx]
    split
    next heq =>
      obtain rfl := heq.1
      obtain rfl := (hn.eq_iff hx).mpr rfl
      exact hlists
    next => exact h.lists hn

theorem setParent (hx : P.Pairs x x') {value value' : Option NodeId}
    (hvalue : Option.Rel P.Shares value value') :
    Akin view P (d.update x fun node => { node with parent := value })
      (d'.update x' fun node => { node with parent := value' }) :=
  h.update hx.shares (h.kind_eq hx.shares) hvalue (h.lists hx.shares)

theorem changeChildren (hq : P.Shares q q') (f f' : List NodeId → List NodeId)
    (hlists : P.Lists q q' (f (d.children q)) (f' (d'.children q'))) :
    Akin view P (d.update q fun node => { node with children := f node.children })
      (d'.update q' fun node => { node with children := f' node.children }) :=
  h.update hq (h.kind_eq hq) (h.parents hq) hlists

theorem setKind (hx : P.Pairs x x') (kind : NodeKind) :
    Akin view P (d.setKind x kind) (d'.setKind x' kind) :=
  h.update hx.shares rfl (h.parents hx.shares) (h.lists hx.shares)

theorem updateElement (hx : P.Pairs x x') {change : Element → Element}
    (hblind : Element.Blind change) :
    Akin view P (d.updateElement x change) (d'.updateElement x' change) :=
  h.update hx.shares (View.kind_mapElement (h.kind_eq hx.shares) hblind) (h.parents hx.shares)
    (h.lists hx.shares)

theorem create {kind kind' : NodeKind} (hkind : view.kind kind' = view.kind kind) :
    Akin view P (d.create kind).1 (d'.create kind').1 := by
  have hnode : ∀ n n', P.Shares n n' →
      ((d.create kind).1.node n = { kind } ∧ (d'.create kind').1.node n' = { kind := kind' } ∧
          P.Pairs n n') ∨
        (d.create kind).1.node n = d.node n ∧ (d'.create kind').1.node n' = d'.node n' := by
    intro n n' hn
    rw [node_create, node_create]
    simp only [hn.eq_iff h.size_pairs.shares]
    split
    next heq =>
      subst heq
      obtain rfl := (hn.eq_iff h.size_pairs.shares).mpr rfl
      exact .inl ⟨rfl, rfl, h.size_pairs⟩
    next => exact .inr ⟨rfl, rfl⟩
  refine ⟨h.source, h.source', ?_, fun {n n'} hn => ?_, fun {n n'} hn => ?_,
    fun {n n'} hn => ?_⟩
  · rw [size_create, size_create]
    obtain ⟨hle, heq⟩ := h.size
    exact ⟨Nat.le_succ_of_le hle, by omega⟩
  · unfold Document.kind
    rcases hnode n n' hn with ⟨hnew, hnew', -⟩ | ⟨hold, hold'⟩
    · rw [hnew, hnew']
      exact hkind
    · rw [hold, hold']
      exact h.kind_eq hn
  · unfold parent
    rcases hnode n n' hn with ⟨hnew, hnew', -⟩ | ⟨hold, hold'⟩
    · rw [hnew, hnew']
      exact .none
    · rw [hold, hold']
      exact h.parents hn
  · unfold children
    rcases hnode n n' hn with ⟨hnew, hnew', hpairs⟩ | ⟨hold, hold'⟩
    · rw [hnew, hnew']
      exact hpairs.lists_iff.mpr .nil
    · rw [hold, hold']
      exact h.lists hn

theorem detach (hx : P.Pairs x x') : Akin view P (d.detach x) (d'.detach x') := by
  have hparents := h.parents hx.shares
  unfold Document.detach
  generalize d.parent x = parent, d'.parent x' = parent' at hparents
  cases hparents with
  | none => exact h
  | some hq =>
      refine (h.setParent hx .none).changeChildren hq (·.filter (· ≠ x)) (·.filter (· ≠ x')) ?_
      simp only [children_update_parent]
      exact (h.lists hq).filter hx

/-- A node is put among the children of another one, in the same place but for what stands before
it. -/
theorem place (hq : P.Shares q q') (hx : P.Pairs x x') {mid mid' : List NodeId} (index : Nat)
    (hmid : List.Forall₂ P.Pairs mid mid')
    (hchildren : d.children q = P.before q ++ mid ++ P.after q)
    (hchildren' : d'.children q' = P.before' q' ++ mid' ++ P.after' q')
    (hindex : index ≤ mid.length) :
    Akin view P (d.place q (index + (P.before q).length) x)
      (d'.place q' (index + (P.before' q').length) x') := by
  refine (h.setParent hx (.some hq)).changeChildren hq (·.insertIdx _ x) (·.insertIdx _ x') ?_
  simp only [children_update_parent]
  rw [hchildren, hchildren', Pairing.insertIdx_around hindex,
    Pairing.insertIdx_around (hmid.length_eq ▸ hindex)]
  exact ⟨_, _, rfl, rfl, Pairing.forall₂_insertIdx hmid hx index⟩

/-- A node is put behind the children of a paired one. -/
theorem placeLast (hq : P.Pairs q q') (hx : P.Pairs x x') :
    Akin view P (d.place q (d.children q).length x) (d'.place q' (d'.children q').length x') := by
  have hchildren := h.down.children hq
  obtain ⟨hbefore, hafter⟩ := Pairing.around_eq_nil fun m => (hq.not_above m).1
  obtain ⟨hbefore', hafter'⟩ := Pairing.around_eq_nil' fun m => (hq.not_above m).2
  have hplaced := h.place hq.shares hx (d.children q).length hchildren
    (by simp [hbefore, hafter]) (by simp [hbefore', hafter']) (Nat.le_refl _)
  rw [hbefore, hbefore'] at hplaced
  rwa [← hchildren.length_eq]

theorem append (hq : P.Pairs q q') (hx : P.Pairs x x') :
    Akin view P (d.append q x) (d'.append q' x') :=
  (h.detach hx).placeLast hq hx

end Akin

mutual
/-- Trees that are the same in the view are added alike. -/
theorem Akin.graft {d d' : Document} (h : Akin view P d d') {tree tree' : Tree}
    (htree : view.tree tree' = view.tree tree) :
    Akin view P (d.graft tree).1 (d'.graft tree').1 ∧
      P.Pairs (d.graft tree).2 (d'.graft tree').2 := by
  match tree, tree' with
  | .node kind children, .node kind' children' =>
      rw [View.tree_node, View.tree_node, Tree.node.injEq] at htree
      exact ⟨(h.create htree.1).graftBelow h.size_pairs htree.2, h.size_pairs⟩
theorem Akin.graftBelow {d d' : Document} {top top' : NodeId} (h : Akin view P d d')
    (htop : P.Pairs top top') {trees trees' : List Tree}
    (htrees : trees'.map view.tree = trees.map view.tree) :
    Akin view P (d.graftBelow top trees) (d'.graftBelow top' trees') := by
  match trees, trees' with
  | [], [] => exact h
  | tree :: trees, tree' :: trees' =>
      rw [List.map_cons, List.map_cons, List.cons.injEq] at htrees
      obtain ⟨hgrafted, hchild⟩ := h.graft htrees.1
      exact (hgrafted.placeLast htop hchild).graftBelow htop htrees.2
end

namespace Akin

variable (h : Akin view P d d')

include h

theorem clearChildren (hx : P.Pairs x x') :
    Akin view P (d.clearChildren x) (d'.clearChildren x') := by
  have horphaned : ∀ {children children' : List NodeId}, List.Forall₂ P.Pairs children children' →
      ∀ {t t' : Document}, Akin view P t t' →
        Akin view P (t.orphan children) (t'.orphan children') := by
    intro children children' hchildren
    induction hchildren with
    | nil => exact id
    | cons hc _ ih => exact fun ht => ih (ht.setParent hc .none)
  exact (horphaned (h.down.children hx) h).changeChildren hx.shares (fun _ => []) (fun _ => [])
    (hx.lists_iff.mpr .nil)

theorem replaceChildren (hx : P.Pairs x x') {nodes nodes' : List NodeId}
    (hnodes : List.Forall₂ P.Pairs nodes nodes') :
    Akin view P (d.replaceChildren x nodes) (d'.replaceChildren x' nodes') := by
  have happended : ∀ {t t' : Document}, Akin view P t t' →
      Akin view P (nodes.foldl (fun d child => d.append x child) t)
        (nodes'.foldl (fun d child => d.append x' child) t') := by
    induction hnodes with
    | nil => exact id
    | cons hn _ ih => exact fun ht => ih (ht.append hx hn)
  exact happended (h.clearChildren hx)

/-! ## Next to a node -/

/-- A node beside which another one is put, and its place among its siblings. -/
theorem positionOf? (hx : P.Pairs x x') :
    (d.positionOf? x = none ∧ d'.positionOf? x' = none) ∨
      ∃ q q' index mid mid', P.Shares q q' ∧ List.Forall₂ P.Pairs mid mid' ∧
        d.children q = P.before q ++ mid ++ P.after q ∧
        d'.children q' = P.before' q' ++ mid' ++ P.after' q' ∧ index < mid.length ∧
        d.positionOf? x = some (q, index + (P.before q).length) ∧
        d'.positionOf? x' = some (q', index + (P.before' q').length) := by
  have hparents := h.parents hx.shares
  unfold Document.positionOf?
  generalize d.parent x = parent, d'.parent x' = parent' at hparents
  cases hparents with
  | none => exact .inl ⟨rfl, rfl⟩
  | @some q q' hq =>
      obtain ⟨mid, mid', hchildren, hchildren', hmid⟩ := h.lists hq
      simp only [Option.bind_eq_bind, Option.bind_some, hchildren, hchildren',
        Pairing.findIdx?_around hx.not_mem, Pairing.findIdx?_around hx.not_mem',
        Pairing.findIdx?_eq_of_forall₂ hmid hx]
      cases hindex : mid.findIdx? (· == x) with
      | none => exact .inl ⟨rfl, rfl⟩
      | some index =>
          obtain ⟨hlt, -⟩ := List.findIdx?_eq_some_iff_getElem.mp hindex
          exact .inr ⟨q, q', index, mid, mid', hq, hmid, hchildren, hchildren', hlt, rfl, rfl⟩

/-- Moving a node beside another one goes well in both documents, or in neither. -/
theorem insertBefore (hx : P.Pairs x x') (hn : P.Pairs n n') :
    EndAlike (fun _ t _ t' => Akin view P t t') (Failing view P) (outcome (insertBefore x n) d)
      (outcome (Document.insertBefore x' n') d') := by
  have hfreed := h.detach hn
  unfold Document.insertBefore position
  simp only [outcome_bind, outcome_modify, outcome_get]
  rcases hfreed.positionOf? hx with ⟨hnone, hnone'⟩ |
    ⟨q, q', index, mid, mid', hq, hmid, hchildren, hchildren', hlt, hfound, hfound'⟩
  · rw [hnone, hnone']
    exact .error ⟨.inr id, hfreed⟩
  · rw [hfound, hfound']
    exact .ok (hfreed.place hq hn index hmid hchildren hchildren' (Nat.le_of_lt hlt))

theorem insertAfter (hx : P.Pairs x x') (hn : P.Pairs n n') :
    EndAlike (fun _ t _ t' => Akin view P t t') (Failing view P) (outcome (insertAfter x n) d)
      (outcome (Document.insertAfter x' n') d') := by
  have hfreed := h.detach hn
  unfold Document.insertAfter position
  simp only [outcome_bind, outcome_modify, outcome_get]
  rcases hfreed.positionOf? hx with ⟨hnone, hnone'⟩ |
    ⟨q, q', index, mid, mid', hq, hmid, hchildren, hchildren', hlt, hfound, hfound'⟩
  · rw [hnone, hnone']
    exact .error ⟨.inr id, hfreed⟩
  · rw [hfound, hfound']
    have hplaced := hfreed.place hq hn (index + 1) hmid hchildren hchildren' hlt
    rw [Nat.add_right_comm index 1, Nat.add_right_comm index 1] at hplaced
    exact .ok hplaced

theorem replace (hx : P.Pairs x x') {nodes nodes' : List NodeId}
    (hnodes : List.Forall₂ P.Pairs nodes nodes') :
    EndAlike (fun _ t _ t' => Akin view P t t') (Failing view P) (outcome (replace x nodes) d)
      (outcome (Document.replace x' nodes') d') := by
  unfold Document.replace
  exact (EndAlike.forM hnodes h fun _ _ _ _ hn ht => ht.insertBefore hx hn).bind
    fun _ _ _ _ ht => .ok (ht.detach hx)

theorem omitTag (hx : P.Pairs x x') :
    EndAlike
      (fun promoted t promoted' t' => List.Forall₂ P.Pairs promoted promoted' ∧ Akin view P t t')
      (Failing view P) (outcome (omitTag x) d) (outcome (Document.omitTag x') d') := by
  have hchildren := h.down.children hx
  unfold Document.omitTag
  rw [outcome_bind, outcome_bind, outcome_get, outcome_get]
  exact (h.replace hx hchildren).bind fun _ _ _ _ ht => .ok ⟨hchildren, ht⟩

/-! ## Attributes -/

theorem removeAttributeBySpec (hx : P.Pairs x x') (hground : d.Grounded x)
    (hground' : d'.Grounded x') (spec : AttributeSpec) :
    Akin view P (d.removeAttributeBySpec x spec).1 (d'.removeAttributeBySpec x' spec).1 := by
  unfold Document.removeAttributeBySpec
  rw [h.up.matchingIndex?_eq hx.shares hground hground']
  cases d.matchingIndex? x spec with
  | none => exact h
  | some index => exact h.updateElement hx (Element.blind_attributes (·.eraseIdx index))

theorem removeAttribute (hx : P.Pairs x x') (raw : String) :
    Akin view P (d.removeAttribute x raw).1 (d'.removeAttribute x' raw).1 := by
  unfold Document.removeAttribute
  rw [h.up.attributes_eq hx.shares]
  split
  next index _ => exact h.updateElement hx (Element.blind_attributes (·.eraseIdx index))
  next => exact h

theorem setAttribute (hx : P.Pairs x x') (raw value : String) :
    EndAlike (fun _ t _ t' => Akin view P t t') (Failing view P)
      (outcome (setAttribute x raw value) d)
      (outcome (Document.setAttribute x' raw value) d') := by
  unfold Document.setAttribute
  rw [outcome_bind, outcome_bind, outcome_get, outcome_get]
  dsimp only
  rw [h.isElement_eq hx.shares]
  split
  · exact .ok (h.updateElement hx (Element.blind_set _ _))
  · exact .error ⟨.inr id, h⟩

theorem declareMissing (hx : P.Pairs x x') (declarations : List (String × String)) :
    Akin view P (declareMissing d x declarations) (declareMissing d' x' declarations) := by
  unfold PageTemplate.declareMissing
  induction declarations generalizing d d' with
  | nil => exact h
  | cons declaration declarations ih =>
      rw [List.foldl_cons, List.foldl_cons]
      dsimp only
      rw [h.up.attribute?_eq hx.shares]
      split
      · exact ih h
      · exact ih (h.updateElement hx (Element.blind_set _ _))

end Akin

end Document

end PageTemplate.Markup
